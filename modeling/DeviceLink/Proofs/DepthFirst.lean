import DeviceLink.Proofs.Walk

/-! A walk with a stack is a recursive search, depth first and in preorder. The stack may hold a node several times, and
it gets only the successors that are still free; neither changes which nodes are visited, or in which order. So the
fault that a walk reports is the first one in this order. -/

namespace DeviceLink

namespace Program

def fault? (p : Program) : Node → Option Fault
  | .dispatch _ => none
  | .symbol id =>
    match p.outcome id with
    | .ok _ => none
    | .error fault => some fault

/-- The recursive search. Given the nodes that were seen before and those to look at in turn, it visits the nodes of
`order` and ends with a fault or without one. -/
inductive DepthFirst (p : Program) : (seen work order : List Node) → (result : Option Fault) → Prop
  | done {seen : List Node} : DepthFirst p seen [] [] none
  | skip {seen rest order : List Node} {result : Option Fault} {n : Node} (hn : n ∈ seen)
      (h : DepthFirst p seen rest order result) : DepthFirst p seen (n :: rest) order result
  | fail {seen rest : List Node} {n : Node} {fault : Fault} (hn : n ∉ seen) (hf : p.fault? n = some fault) :
      DepthFirst p seen (n :: rest) [n] (some fault)
  | stop {seen rest below : List Node} {n : Node} {fault : Fault} (hn : n ∉ seen) (hf : p.fault? n = none)
      (hb : DepthFirst p (n :: seen) (p.graph.successors n) below (some fault)) :
      DepthFirst p seen (n :: rest) (n :: below) (some fault)
  | visit {seen rest below order : List Node} {result : Option Fault} {n : Node} (hn : n ∉ seen)
      (hf : p.fault? n = none) (hb : DepthFirst p (n :: seen) (p.graph.successors n) below none)
      (h : DepthFirst p (below.reverse ++ n :: seen) rest order result) :
      DepthFirst p seen (n :: rest) (n :: (below ++ order)) result

namespace DepthFirst

variable {p : Program} {seen work rest order order' : List Node} {result result' : Option Fault} {n : Node}

lemma unique (h : DepthFirst p seen work order result) (h' : DepthFirst p seen work order' result') :
    order' = order ∧ result' = result := by
  induction h generalizing order' result' with
  | done =>
    cases h'
    exact ⟨rfl, rfl⟩
  | skip hn _ ih =>
    cases h' with
    | skip _ h' => exact ih h'
    | fail hn' | stop hn' | visit hn' => exact absurd hn hn'
  | fail hn hf =>
    cases h' with
    | skip hn' => exact absurd hn' hn
    | fail _ hf' => exact ⟨rfl, hf'.symm.trans hf⟩
    | stop _ hf' | visit _ hf' => cases hf.symm.trans hf'
  | stop hn hf _ ih =>
    cases h' with
    | skip hn' => exact absurd hn' hn
    | fail _ hf' => cases hf.symm.trans hf'
    | stop _ _ hb' =>
      obtain ⟨rfl, hr⟩ := ih hb'
      exact ⟨rfl, hr⟩
    | visit _ _ hb' => cases (ih hb').2
  | visit hn hf _ _ ihb ih =>
    cases h' with
    | skip hn' => exact absurd hn' hn
    | fail _ hf' => cases hf.symm.trans hf'
    | stop _ _ hb' => cases (ihb hb').2
    | visit _ _ hb' h' =>
      obtain ⟨rfl, _⟩ := ihb hb'
      obtain ⟨rfl, rfl⟩ := ih h'
      exact ⟨rfl, rfl⟩

lemma of_append {work : List Node} (h : DepthFirst p seen (work ++ rest) order result) :
    (∃ fault, result = some fault ∧ DepthFirst p seen work order (some fault)) ∨
      ∃ front back, order = front ++ back ∧ DepthFirst p seen work front none ∧
        DepthFirst p (front.reverse ++ seen) rest back result := by
  induction work generalizing seen order with
  | nil => exact .inr ⟨[], order, rfl, .done, h⟩
  | cons n work ih =>
    cases h with
    | skip hn h =>
      rcases ih h with ⟨fault, hr, h⟩ | ⟨front, back, ho, hw, h⟩
      · exact .inl ⟨fault, hr, .skip hn h⟩
      · exact .inr ⟨front, back, ho, .skip hn hw, h⟩
    | fail hn hf => exact .inl ⟨_, rfl, .fail hn hf⟩
    | stop hn hf hb => exact .inl ⟨_, rfl, .stop hn hf hb⟩
    | @visit _ _ below _ _ _ hn hf hb h =>
      rcases ih h with ⟨fault, hr, h⟩ | ⟨front, back, rfl, hw, h⟩
      · exact .inl ⟨fault, hr, .visit hn hf hb h⟩
      · refine .inr ⟨n :: (below ++ front), back, by simp, .visit hn hf hb hw, ?_⟩
        simpa using h

lemma of_filter {known : List Node} (hk : known ⊆ seen)
    (h : DepthFirst p seen (work.filter (· ∉ known)) order result) : DepthFirst p seen work order result := by
  induction work generalizing seen order with
  | nil => exact h
  | cons n work ih =>
    by_cases hn : n ∈ known
    · rw [List.filter_cons_of_neg (by simpa using hn)] at h
      exact .skip (hk hn) (ih hk h)
    · rw [List.filter_cons_of_pos (by simpa using hn)] at h
      cases h with
      | skip hs h => exact .skip hs (ih hk h)
      | fail hs hf => exact .fail hs hf
      | stop hs hf hb => exact .stop hs hf hb
      | visit hs hf hb h =>
        refine .visit hs hf hb (ih (fun m hm => ?_) h)
        exact List.mem_append_right _ (List.mem_cons_of_mem _ (hk hm))

lemma enter (hn : n ∉ seen) (hf : p.fault? n = none)
    (h : DepthFirst p (n :: seen) ((p.graph.successors n).filter (· ∉ n :: seen) ++ rest) order result) :
    DepthFirst p seen (n :: rest) (n :: order) result := by
  rcases h.of_append with ⟨fault, rfl, hb⟩ | ⟨below, back, rfl, hb, h⟩
  · exact .stop hn hf (hb.of_filter (List.Subset.refl _))
  · exact .visit hn hf (hb.of_filter (List.Subset.refl _)) h

end DepthFirst

end Program

namespace Walk

variable {p : Program} {roots : List SymbolId} {w : Walk} {work rest : List Node} {n : Node}

def visited (w : Walk) : List Node := w.marks.nodes.reverse

lemma run_of_cancelled (hc : w.cancelled = true) (work : List Node) : run p w work = w := by
  cases work with
  | nil => rw [run]
  | cons n rest => rw [run, if_pos hc]

namespace Inv

lemma faults_eq_nil {pending claimed : List Node} (h : Inv p roots w pending claimed) (hc : w.cancelled = false) :
    w.faults = [] := by
  by_contra hne
  exact Bool.false_ne_true (hc.symm.trans (h.stopped.mpr hne))

lemma process_of_fault?_eq_none (h : Inv p roots w (n :: rest) []) (hn : n ∉ w.marks.nodes) (hf : p.fault? n = none) :
    ((w.claim n).process p n).1 = p.graph.successors n ∧ ((w.claim n).process p n).2.cancelled = w.cancelled := by
  have hi := h.claim (h.found List.mem_cons_self) hn
  cases n with
  | dispatch i => exact ⟨rfl, rfl⟩
  | symbol id =>
    rw [Program.fault?] at hf
    cases ho : p.outcome id with
    | error e => simp [ho] at hf
    | ok body =>
      rw [process_symbol_ok hi.served (hi.body?_eq_none List.mem_cons_self) ho]
      exact ⟨rfl, rfl⟩

lemma process_of_fault?_eq_some {fault : Fault} (h : Inv p roots w (n :: rest) []) (hn : n ∉ w.marks.nodes)
    (hf : p.fault? n = some fault) :
    ((w.claim n).process p n).2.cancelled = true ∧ ((w.claim n).process p n).2.faults = w.faults ++ [fault] := by
  have hi := h.claim (h.found List.mem_cons_self) hn
  cases n with
  | dispatch i => cases hf
  | symbol id =>
    rw [Program.fault?] at hf
    cases ho : p.outcome id with
    | ok body => simp [ho] at hf
    | error e =>
      obtain rfl : e = fault := by simpa [ho] using hf
      rw [process_symbol_error hi.served ho]
      exact ⟨rfl, rfl⟩

lemma depthFirst (hg : p.graph.Bounded) (hr : ∀ id ∈ roots, id < p.graph.symbols.length)
    (h : Inv p roots w work []) (hc : w.cancelled = false) :
    ∃ order result, p.DepthFirst w.marks.nodes work order result ∧
      (Walk.run p w work).marks.nodes = order.reverse ++ w.marks.nodes ∧
      (Walk.run p w work).faults = result.toList := by
  fun_induction Walk.run p w work with
  | case1 w => exact ⟨[], none, .done, rfl, h.faults_eq_nil hc⟩
  | case2 w n rest hcancel => cases hc.symm.trans hcancel
  | case3 w n rest _ hn _ next ih =>
    have hfree : n ∉ w.marks.nodes := Marks.contains_eq_false.mp hn.2
    have hmarks : next.2.marks.nodes = n :: w.marks.nodes := by
      rw [process_marks, claim_marks w hn.2]
    cases hf : p.fault? n with
    | some fault =>
      obtain ⟨hcancel, hfaults⟩ := h.process_of_fault?_eq_some hfree hf
      rw [run_of_cancelled hcancel]
      refine ⟨[n], some fault, .fail hfree hf, hmarks, ?_⟩
      rw [hfaults, h.faults_eq_nil hc]
      rfl
    | none =>
      obtain ⟨hnext, hcancel⟩ : next.1 = p.graph.successors n ∧ next.2.cancelled = w.cancelled :=
        h.process_of_fault?_eq_none hfree hf
      obtain ⟨order, result, hd, hm, hfaults⟩ := ih (h.next hn.2) (hcancel.trans hc)
      -- the stack is a list of work for the search: the successors that are still free, then what was there
      refine ⟨n :: order, result, .enter hfree hf ?_, ?_, hfaults⟩
      · simpa only [Marks.contains, hmarks, hnext, decide_not] using hd
      · rw [hm, hmarks]
        simp
  | case4 w n rest _ hn ih =>
    have hmark := h.mem_marks_of_passed hg hr hn
    obtain ⟨order, result, hd, hm, hfaults⟩ := ih (h.skip hmark) hc
    exact ⟨order, result, .skip hmark hd, hm, hfaults⟩

end Inv

end Walk

namespace Program

variable {p : Program} {roots : List SymbolId}

/-- The nodes that a walk visits are those of the recursive search from its roots, in the same order, up to the first
node with a fault. The walk reports that fault and no other. -/
theorem walk_is_depth_first (hg : p.graph.Bounded) (hr : ∀ id ∈ roots, id < p.graph.symbols.length) :
    ∃ result, p.DepthFirst [] (roots.map .symbol) (p.walk roots).visited result ∧
      (∀ order result', p.DepthFirst [] (roots.map .symbol) order result' →
        order = (p.walk roots).visited ∧ result' = result) ∧
      (result = none → ∃ r, (p.explore roots).1 = .ok r) ∧
      ∀ fault, result = some fault → (p.explore roots).1 = .error { first := fault, others := [] } := by
  obtain ⟨order, result, hd, hmarks, hfaults⟩ := (Walk.Inv.start p roots).depthFirst hg hr rfl
  have hvisited : (p.walk roots).visited = order := by
    rw [Walk.visited, walk, hmarks]
    simp
  rw [hvisited]
  refine ⟨result, hd, fun order' result' h' => hd.unique h', ?_, ?_⟩
  · rintro rfl
    exact ⟨_, by rw [explore, Walk.finish, walk, hfaults]; rfl⟩
  · rintro fault rfl
    rw [explore, Walk.finish, walk, hfaults]
    rfl

def forkCode : Ir.Module where
  name := "fork"
  functions := [
    { name := "main", result := .void, visibility := .external, isKernel := true
      blocks := [⟨0, [.call none (.function "left") [] .void, .call none (.function "right") [] .void, .ret none]⟩] },
    { name := "left", result := .void, blocks := [⟨0, [.call none (.function "deep") [] .void, .ret none]⟩] },
    { name := "right", result := .void, blocks := [⟨0, [.cast 0 (.null .shared) (.ptr .i8 .constant), .ret none]⟩] },
    { name := "deep", result := .void, blocks := [⟨0, [.cast 0 (.null .global) (.ptr .i8 .shared), .ret none]⟩] }]

def fork : Program where
  graph := {
    modules := [{ name := "fork", kind := .program, symbols := [0, 1, 2, 3] }]
    symbols := [
      { name := "main", kind := .function, space := .generic, visibility := .external, owner := 0, isKernel := true },
      { name := "left", kind := .function, space := .generic, visibility := .internal, owner := 0, isKernel := false },
      { name := "right", kind := .function, space := .generic, visibility := .internal, owner := 0, isKernel := false },
      { name := "deep", kind := .function, space := .generic, visibility := .internal, owner := 0, isKernel := false }]
    edges := [[.symbol 1, .symbol 2], [.symbol 3], [], []]
    localNames := [.ofList [("deep", 3), ("left", 1), ("main", 0), ("right", 2)]]
    externalNames := .ofList [("main", 0)] }
  source := .ofBlobs [("fork", Container.encode .current forkCode)]

theorem walk_is_depth_first_fork :
    fork.graph.Bounded ∧ (∀ id ∈ [0], id < fork.graph.symbols.length) ∧
      (fork.walk [0]).visited = [.symbol 0, .symbol 1, .symbol 3] ∧
      (fork.explore [0]).1 = .error { first := .invalidCast .unknown "deep" .global .shared, others := [] } ∧
      fork.fault? (.symbol 2) = some (.invalidCast .unknown "right" .shared .constant) := by
  have hbuild : Graph.build [.describe forkCode .program] = .ok fork.graph := by decide
  have hg := Graph.build_bounded hbuild
  have hr : ∀ id ∈ [0], id < fork.graph.symbols.length := by decide
  have hfaults : fork.fault? (.symbol 0) = none ∧ fork.fault? (.symbol 1) = none ∧
      fork.fault? (.symbol 2) = some (.invalidCast .unknown "right" .shared .constant) ∧
      fork.fault? (.symbol 3) = some (.invalidCast .unknown "deep" .global .shared) := by
    decide +kernel
  obtain ⟨h0, h1, h2, h3⟩ := hfaults
  have hsearch : fork.DepthFirst [] [.symbol 0] [.symbol 0, .symbol 1, .symbol 3]
      (some (.invalidCast .unknown "deep" .global .shared)) :=
    .stop (by decide) h0 (.stop (by decide) h1 (.fail (by decide) h3))
  obtain ⟨result, _, hunique, _, hfault⟩ := walk_is_depth_first hg hr
  obtain ⟨hvisited, rfl⟩ := hunique _ _ hsearch
  exact ⟨hg, hr, hvisited.symm, hfault _ rfl, h2⟩

end Program

end DeviceLink
