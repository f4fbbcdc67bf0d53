import DeviceLink.Proofs.Materialize

namespace DeviceLink

@[simp] lemma Marks.contains_eq_true {m : Marks} {n : Node} : m.contains n = true ↔ n ∈ m.nodes := by
  simp [contains]

@[simp] lemma Marks.contains_eq_false {m : Marks} {n : Node} : m.contains n = false ↔ n ∉ m.nodes := by
  simp [contains]

structure Program.Covers (p : Program) (roots : List SymbolId) (r : Reached) : Prop where
  marks {n : Node} : r.marks.contains n = true ↔ p.graph.Reaches roots n
  defined {id : SymbolId} (h : p.graph.Reaches roots (.symbol id)) : ∃ b, p.outcome id = .ok b
  bodies {id : SymbolId} {b : Body} :
    r.body? id = some b ↔ p.graph.Reaches roots (.symbol id) ∧ p.outcome id = .ok b

namespace Walk

variable {p : Program} {roots : List SymbolId} {w : Walk} {pending claimed : List Node} {n : Node}

lemma process_dispatch (i : SiteId) :
    w.process p (.dispatch i) = (p.graph.successors (.dispatch i), w) := rfl

lemma process_symbol_error {id : SymbolId} {e : Fault} (hl : w.loader.Serves p.moduleNames p.source)
    (he : p.outcome id = .error e) :
    w.process p (.symbol id) =
      ([], { w with loader := (p.materialize w.loader id).2, cancelled := true, faults := w.faults ++ [e] }) := by
  have hm : p.materialize w.loader id = (.error e, (p.materialize w.loader id).2) :=
    Prod.ext ((Program.materialize_fst hl id).trans he) rfl
  rw [process, visit, hm]
  rfl

lemma process_symbol_ok {id : SymbolId} {body : Body} (hl : w.loader.Serves p.moduleNames p.source)
    (hb : w.body? id = none) (ho : p.outcome id = .ok body) :
    w.process p (.symbol id) =
      (p.graph.successors (.symbol id),
        { w with loader := (p.materialize w.loader id).2, bodies := (id, body) :: w.bodies }) := by
  have hm : p.materialize w.loader id = (.ok body, (p.materialize w.loader id).2) :=
    Prod.ext ((Program.materialize_fst hl id).trans ho) rfl
  have hk (l : Loader) : keep { w with loader := l } p id body =
      (.ok (), { w with loader := l, bodies := (id, body) :: w.bodies }) := by
    simp only [keep, body?] at hb ⊢
    rw [hb]
  rw [process, visit, hm]
  simp only [hk]

/-- What holds all along a walk. The pending nodes were found and not looked at; the claimed ones were
marked and not visited. Once the walk is cancelled, nothing more is said of what it has missed. -/
structure Inv (p : Program) (roots : List SymbolId) (w : Walk) (pending claimed : List Node) : Prop where
  served : w.loader.Serves p.moduleNames p.source
  reached {n : Node} (h : n ∈ w.marks.nodes) : p.graph.Reaches roots n
  found {n : Node} (h : n ∈ pending) : p.graph.Reaches roots n
  marked {n : Node} (h : n ∈ claimed) : n ∈ w.marks.nodes
  nodup : claimed.Nodup
  body {id : SymbolId} {b : Body} (h : w.body? id = some b) :
    p.outcome id = .ok b ∧ Node.symbol id ∈ w.marks.nodes ∧ Node.symbol id ∉ claimed
  fault {e : Fault} (h : e ∈ w.faults) : ∃ id, p.graph.Reaches roots (.symbol id) ∧ p.outcome id = .error e
  stopped : w.cancelled = true ↔ w.faults ≠ []
  root (hc : w.cancelled = false) {id : SymbolId} (h : id ∈ roots) :
    Node.symbol id ∈ w.marks.nodes ∨ Node.symbol id ∈ pending
  kept (hc : w.cancelled = false) {id : SymbolId} (h : Node.symbol id ∈ w.marks.nodes)
    (hn : Node.symbol id ∉ claimed) : ∃ b, w.body? id = some b
  closed (hc : w.cancelled = false) {n m : Node} (h : n ∈ w.marks.nodes) (hn : n ∉ claimed)
    (hm : m ∈ p.graph.successors n) : m ∈ w.marks.nodes ∨ m ∈ pending

namespace Inv

lemma start (p : Program) (roots : List SymbolId) :
    Inv p roots { loader := p.loader } (roots.map .symbol) [] where
  served := p.loader_serves
  reached h := by cases h
  found h := by
    obtain ⟨id, hid, rfl⟩ := List.mem_map.mp h
    exact .root hid
  marked h := by cases h
  nodup := .nil
  body h := by cases h
  fault h := by cases h
  stopped := by simp
  root _ _ h := .inr (List.mem_map_of_mem h)
  kept _ _ h := by cases h
  closed _ _ _ h := by cases h

lemma exchange {pending' : List Node} (h : Inv p roots w pending claimed)
    (hr : ∀ n ∈ pending', p.graph.Reaches roots n)
    (hp : w.cancelled = false → ∀ n ∈ pending, n ∈ w.marks.nodes ∨ n ∈ pending') :
    Inv p roots w pending' claimed :=
  { h with
    found := hr _
    root := fun hc _ hid => (h.root hc hid).elim .inl (hp hc _)
    closed := fun hc _ _ hn hnc hm => (h.closed hc hn hnc hm).elim .inl (hp hc _) }

lemma perm {claimed' : List Node} (h : Inv p roots w pending claimed) (hp : claimed.Perm claimed') :
    Inv p roots w pending claimed' :=
  { h with
    marked := fun hn => h.marked (hp.mem_iff.mpr hn)
    nodup := hp.nodup_iff.mp h.nodup
    body := fun hb => (h.body hb).imp_right (.imp_right (mt hp.mem_iff.mpr))
    kept := fun hc _ hm hn => h.kept hc hm (mt hp.mem_iff.mp hn)
    closed := fun hc _ _ hm hn => h.closed hc hm (mt hp.mem_iff.mp hn) }

lemma marked_tail (h : Inv p roots w pending (n :: claimed)) {m : Node} (hm : m ∈ claimed) : m ∈ w.marks.nodes :=
  h.marked (List.mem_cons_of_mem _ hm)

lemma body_tail (h : Inv p roots w pending (n :: claimed)) {id : SymbolId} {b : Body} (hb : w.body? id = some b) :
    p.outcome id = .ok b ∧ Node.symbol id ∈ w.marks.nodes ∧ Node.symbol id ∉ claimed := by
  obtain ⟨ho, hm, hc⟩ := h.body hb
  exact ⟨ho, hm, mt (List.mem_cons_of_mem _) hc⟩

lemma drop (h : Inv p roots w pending (n :: claimed)) (hc : w.cancelled = true) :
    Inv p roots w pending claimed :=
  { h with
    marked := h.marked_tail
    nodup := h.nodup.of_cons
    body := h.body_tail
    kept := fun hf => by simp [hc] at hf
    closed := fun hf => by simp [hc] at hf }

lemma claim (h : Inv p roots w pending claimed) (hr : p.graph.Reaches roots n) (hn : n ∉ w.marks.nodes) :
    Inv p roots (w.claim n) pending (n :: claimed) := by
  have hm : (w.claim n).marks.nodes = n :: w.marks.nodes := by
    rw [claim_marks w (Marks.contains_eq_false.mpr hn)]
  refine { h with
    reached := ?_, marked := ?_, nodup := ?_, body := ?_, root := ?_, kept := ?_, closed := ?_ }
  · intro m hmm
    rw [hm] at hmm
    rcases List.mem_cons.mp hmm with rfl | hmm
    · exact hr
    · exact h.reached hmm
  · intro m hmm
    rw [hm]
    exact List.mem_cons.mpr ((List.mem_cons.mp hmm).imp_right h.marked)
  · exact List.nodup_cons.mpr ⟨fun hc => hn (h.marked hc), h.nodup⟩
  · intro id b hb
    obtain ⟨ho, hmark, hc⟩ := h.body hb
    refine ⟨ho, hm ▸ List.mem_cons_of_mem _ hmark, ?_⟩
    rw [List.mem_cons, not_or]
    exact ⟨fun he => hn (he ▸ hmark), hc⟩
  · intro hc id hid
    rw [hm]
    exact (h.root hc hid).imp_left (List.mem_cons_of_mem _)
  · intro hc id hid hnc
    rw [hm] at hid
    rw [List.mem_cons, not_or] at hnc
    exact h.kept hc ((List.mem_cons.mp hid).resolve_left hnc.1) hnc.2
  · intro hc m k hmm hnc hk
    rw [hm] at hmm
    rw [List.mem_cons, not_or] at hnc
    rw [hm]
    exact (h.closed hc ((List.mem_cons.mp hmm).resolve_left hnc.1) hnc.2 hk).imp_left
      (List.mem_cons_of_mem _)

lemma visit_dispatch {i : SiteId} (h : Inv p roots w pending (.dispatch i :: claimed)) :
    Inv p roots w (p.graph.successors (.dispatch i) ++ pending) claimed := by
  have hi : p.graph.Reaches roots (.dispatch i) := h.reached (h.marked List.mem_cons_self)
  refine { h with
    found := ?_, marked := ?_, nodup := h.nodup.of_cons, body := ?_, root := ?_, kept := ?_, closed := ?_ }
  · intro m hm
    rcases List.mem_append.mp hm with hm | hm
    · exact .step hi hm
    · exact h.found hm
  · exact h.marked_tail
  · exact h.body_tail
  · exact fun hc _ hid => (h.root hc hid).imp_right (List.mem_append_right _)
  · exact fun hc _ hid hn => h.kept hc hid (by simpa using hn)
  · intro hc m k hm hn hk
    by_cases hmi : m = .dispatch i
    · exact .inr (List.mem_append_left _ (hmi ▸ hk))
    · exact (h.closed hc hm (by simp [hmi, hn]) hk).imp_right (List.mem_append_right _)

lemma visit_error {id : SymbolId} {e : Fault} {l : Loader}
    (h : Inv p roots w pending (.symbol id :: claimed)) (hl : l.Serves p.moduleNames p.source)
    (he : p.outcome id = .error e) :
    Inv p roots { w with loader := l, cancelled := true, faults := w.faults ++ [e] } pending claimed := by
  have hid : p.graph.Reaches roots (.symbol id) := h.reached (h.marked List.mem_cons_self)
  exact {
    served := hl
    reached := h.reached
    found := h.found
    marked := h.marked_tail
    nodup := h.nodup.of_cons
    body := h.body_tail
    fault := fun hf => (List.mem_append.mp hf).elim h.fault fun hf =>
      ⟨id, hid, List.mem_singleton.mp hf ▸ he⟩
    stopped := by simp
    root := fun hc => by cases hc
    kept := fun hc => by cases hc
    closed := fun hc => by cases hc }

lemma body?_eq_none {id : SymbolId} (h : Inv p roots w pending claimed) (hid : .symbol id ∈ claimed) :
    w.body? id = none := by
  cases hb : w.body? id with
  | none => rfl
  | some b => exact ((h.body hb).2.2 hid).elim

lemma visit_ok {id : SymbolId} {b : Body} {l : Loader}
    (h : Inv p roots w pending (.symbol id :: claimed)) (hl : l.Serves p.moduleNames p.source)
    (ho : p.outcome id = .ok b) :
    Inv p roots { w with loader := l, bodies := (id, b) :: w.bodies }
      (p.graph.successors (.symbol id) ++ pending) claimed := by
  have hid : .symbol id ∈ w.marks.nodes := h.marked List.mem_cons_self
  have hb : ∀ k, body? { w with loader := l, bodies := (id, b) :: w.bodies } k =
      if k = id then some b else w.body? k := by
    intro k
    simp only [body?, List.lookup_cons]
    by_cases hk : k = id
    · simp [hk]
    · simp [hk, beq_eq_false_iff_ne.mpr hk]
  refine { h with
    served := hl, found := ?_, marked := ?_, nodup := h.nodup.of_cons
    body := ?_, root := ?_, kept := ?_, closed := ?_ }
  · intro m hm
    rcases List.mem_append.mp hm with hm | hm
    · exact .step (h.reached hid) hm
    · exact h.found hm
  · exact h.marked_tail
  · intro k c hk
    rw [hb] at hk
    by_cases hki : k = id
    · subst hki
      rw [if_pos rfl] at hk
      obtain rfl := Option.some.inj hk
      exact ⟨ho, hid, (List.nodup_cons.mp h.nodup).1⟩
    · rw [if_neg hki] at hk
      exact h.body_tail hk
  · exact fun hc _ hk => (h.root hc hk).imp_right (List.mem_append_right _)
  · intro hc k hk hn
    rw [hb]
    by_cases hki : k = id
    · exact ⟨b, if_pos hki⟩
    · rw [if_neg hki]
      exact h.kept hc hk (by simp [hki, hn])
  · intro hc m k hm hn hk
    by_cases hmi : m = .symbol id
    · exact .inr (List.mem_append_left _ (hmi ▸ hk))
    · exact (h.closed hc hm (by simp [hmi, hn]) hk).imp_right (List.mem_append_right _)

lemma process (h : Inv p roots w pending (n :: claimed)) :
    Inv p roots (w.process p n).2 ((w.process p n).1 ++ pending) claimed := by
  cases n with
  | dispatch i =>
    rw [process_dispatch]
    exact h.visit_dispatch
  | symbol id =>
    have hl := Program.materialize_serves h.served id
    cases ho : p.outcome id with
    | error e =>
      rw [process_symbol_error h.served ho]
      exact h.visit_error hl ho
    | ok b =>
      rw [process_symbol_ok h.served (h.body?_eq_none List.mem_cons_self) ho]
      exact h.visit_ok hl ho

lemma filter {next : List Node} (h : Inv p roots w (next ++ n :: pending) claimed) (hn : n ∈ w.marks.nodes) :
    Inv p roots w (next.filter (fun m => !w.marks.contains m) ++ pending) claimed := by
  refine h.exchange (fun m hm => h.found ?_) (fun _ m hm => ?_)
  · rcases List.mem_append.mp hm with hm | hm
    · exact List.mem_append_left _ (List.mem_of_mem_filter hm)
    · exact List.mem_append_right _ (List.mem_cons_of_mem _ hm)
  · by_cases hmark : m ∈ w.marks.nodes
    · exact .inl hmark
    · rcases List.mem_append.mp hm with hm | hm
      · exact .inr (List.mem_append_left _ (List.mem_filter.mpr ⟨hm, by simpa using hmark⟩))
      · rcases List.mem_cons.mp hm with rfl | hm
        · exact .inl hn
        · exact .inr (List.mem_append_right _ hm)

lemma next {rest : List Node} (h : Inv p roots w (n :: rest) []) (hn : w.marks.contains n = false) :
    Inv p roots ((w.claim n).process p n).2
      (((w.claim n).process p n).1.filter (fun m => !((w.claim n).process p n).2.marks.contains m) ++ rest) [] := by
  have hfree : n ∉ w.marks.nodes := Marks.contains_eq_false.mp hn
  have hmark : n ∈ ((w.claim n).process p n).2.marks.nodes := by simp [process_marks, claim_marks w hn]
  exact (h.claim (h.found List.mem_cons_self) hfree).process.filter hmark

lemma skip {rest : List Node} (h : Inv p roots w (n :: rest) []) (hn : n ∈ w.marks.nodes) :
    Inv p roots w rest [] := by
  refine h.exchange (fun m hm => h.found (List.mem_cons_of_mem _ hm)) (fun _ m hm => ?_)
  rcases List.mem_cons.mp hm with rfl | hm
  · exact .inl hn
  · exact .inr hm

lemma mem_marks_of_passed {rest : List Node} (hg : p.graph.Bounded) (hr : ∀ id ∈ roots, id < p.graph.symbols.length)
    (h : Inv p roots w (n :: rest) []) (hn : ¬ (n ∈ p.graph.nodes ∧ w.marks.contains n = false)) :
    n ∈ w.marks.nodes := by
  by_contra hfree
  exact hn ⟨hg.reaches hr (h.found List.mem_cons_self), Marks.contains_eq_false.mpr hfree⟩

lemma run {work : List Node} (hg : p.graph.Bounded) (hr : ∀ id ∈ roots, id < p.graph.symbols.length)
    (h : Inv p roots w work []) : Inv p roots (Walk.run p w work) [] [] := by
  fun_induction Walk.run p w work with
  | case1 w => exact h
  | case2 w n rest hc => exact h.exchange (by simp) (by simp [hc])
  | case3 w n rest hc hn _ next ih => exact ih (h.next hn.2)
  | case4 w n rest hc hn ih => exact ih (h.skip (h.mem_marks_of_passed hg hr hn))

lemma mem_marks_iff (h : Inv p roots w [] []) (hc : w.cancelled = false) :
    n ∈ w.marks.nodes ↔ p.graph.Reaches roots n := by
  refine ⟨h.reached, fun hn => ?_⟩
  induction hn with
  | root hid => exact (h.root hc hid).resolve_right (List.not_mem_nil)
  | step _ hm ih => exact (h.closed hc ih List.not_mem_nil hm).resolve_right (List.not_mem_nil)

lemma body?_eq_some_iff (h : Inv p roots w [] []) (hc : w.cancelled = false) {id : SymbolId} {b : Body} :
    w.body? id = some b ↔ p.graph.Reaches roots (.symbol id) ∧ p.outcome id = .ok b := by
  constructor
  · exact fun hb => ⟨h.reached (h.body hb).2.1, (h.body hb).1⟩
  · rintro ⟨hid, ho⟩
    obtain ⟨c, hb⟩ := h.kept hc ((h.mem_marks_iff hc).mpr hid) List.not_mem_nil
    rw [hb, Except.ok.inj ((h.body hb).1.symm.trans ho)]

lemma cancelled_eq_false_iff (h : Inv p roots w [] []) :
    w.cancelled = false ↔ ∀ id, p.graph.Reaches roots (.symbol id) → ∃ b, p.outcome id = .ok b := by
  constructor
  · intro hc id hid
    obtain ⟨b, hb⟩ := h.kept hc ((h.mem_marks_iff hc).mpr hid) List.not_mem_nil
    exact ⟨b, (h.body hb).1⟩
  · intro hok
    by_contra hc
    obtain ⟨e, he⟩ := List.exists_mem_of_ne_nil _ (h.stopped.mp (Bool.not_eq_false _ ▸ hc))
    obtain ⟨id, hid, ho⟩ := h.fault he
    obtain ⟨b, hb⟩ := hok id hid
    cases ho.symm.trans hb

lemma finish_eq_ok_iff (h : Inv p roots w pending claimed) {r : Reached} :
    w.finish roots = .ok r ↔ w.cancelled = false ∧ r = { roots, marks := w.marks, bodies := w.bodies } := by
  have hs := h.stopped
  unfold finish
  cases hf : w.faults with
  | nil =>
    have hc : w.cancelled = false := by simpa [hf] using hs
    simp only [hc, true_and, Except.ok.injEq]
    exact eq_comm
  | cons e es =>
    have hc : w.cancelled = true := by simpa [hf] using hs
    simp [hc]

lemma covers (h : Inv p roots w [] []) {r : Reached} (hf : w.finish roots = .ok r) : p.Covers roots r := by
  obtain ⟨hc, rfl⟩ := h.finish_eq_ok_iff.mp hf
  exact ⟨Marks.contains_eq_true.trans (h.mem_marks_iff hc), h.cancelled_eq_false_iff.mp hc _,
    h.body?_eq_some_iff hc⟩

end Inv

end Walk

namespace Program

variable {p : Program} {roots : List SymbolId} {r : Reached}

lemma Covers.isSome_body?_iff (h : p.Covers roots r) {id : SymbolId} :
    (r.body? id).isSome = true ↔ r.isReached id = true := by
  rw [Option.isSome_iff_exists, Reached.isReached, h.marks]
  constructor
  · rintro ⟨b, hb⟩
    exact (h.bodies.mp hb).1
  · intro hid
    obtain ⟨b, hb⟩ := h.defined hid
    exact ⟨b, h.bodies.mpr ⟨hid, hb⟩⟩

lemma walk_inv (hg : p.graph.Bounded) (hr : ∀ id ∈ roots, id < p.graph.symbols.length) :
    Walk.Inv p roots (p.walk roots) [] [] :=
  (Walk.Inv.start p roots).run hg hr

def ringCode : Ir.Module where
  name := "ring"
  functions := [
    { name := "main", result := .void, visibility := .external, isKernel := true
      blocks := [⟨0, [.dispatch none "paint" .undef [] .void, .call none (.function "draw") [] .void, .ret none]⟩] },
    { name := "draw", result := .void, implements := ["paint"]
      blocks := [⟨0, [.call none (.function "main") [] .void, .ret none]⟩] },
    { name := "idle", result := .void, blocks := [⟨0, [.ret none]⟩] }]

def ring : Program where
  graph := {
    modules := [{ name := "ring", kind := .program, symbols := [0, 1, 2] }]
    symbols := [
      { name := "main", kind := .function, space := .generic, visibility := .external, owner := 0, isKernel := true },
      { name := "draw", kind := .function, space := .generic, visibility := .internal, owner := 0, isKernel := false },
      { name := "idle", kind := .function, space := .generic, visibility := .internal, owner := 0, isKernel := false }]
    edges := [[.symbol 1, .dispatch 0], [.symbol 0], []]
    sites := [{ capability := "paint", implementations := [1] }]
    dispatchEdges := [[.symbol 1]]
    capabilities := .ofList [("paint", 0)]
    localNames := [.ofList [("draw", 1), ("idle", 2), ("main", 0)]]
    externalNames := .ofList [("main", 0)] }
  source := .ofBlobs [("ring", Container.encode .current ringCode)]

lemma ring_build : Graph.build [.describe ringCode .program] = .ok ring.graph := by decide

lemma ring_outcome : ∀ id < 3, ∃ b, ring.outcome id = .ok b := by
  have h : ∀ id < 3, (ring.outcome id).isOk = true := by decide +kernel
  exact fun id hid => Fallible.exists_of_isOk (h id hid)

end Program

end DeviceLink
