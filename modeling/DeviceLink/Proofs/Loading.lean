import DeviceLink.Proofs.Session
import Mathlib.Data.Set.Card

namespace DeviceLink

def Graph.Needs (g : Graph) (roots : List SymbolId) (k : ModuleId) : Prop :=
  ∃ id s, g.symbols[id]? = some s ∧ s.owner = k ∧ g.Reaches roots (.symbol id)

namespace Loader

variable {l : Loader} {source : Source} {id k : ModuleId}

def Once (l : Loader) : Prop := ∀ s ∈ l.slots, s.reads = if s.outcome.isSome then 1 else 0

def wasRead (l : Loader) (k : ModuleId) : Bool := l.slots[k]?.any (·.outcome.isSome)

lemma load_cases (l : Loader) (source : Source) (id : ModuleId) :
    (l.load source id).2 = l ∨
      ∃ s, l.slots[id]? = some s ∧ s.outcome = none ∧ (l.load source id).2 =
        ⟨l.slots.set id { s with outcome := some (source.fetch s.name), reads := s.reads + 1 }⟩ := by
  unfold load
  split
  · exact .inl rfl
  · rename_i s hs
    split
    · exact .inl rfl
    · rename_i ho
      exact .inr ⟨s, hs, ho, rfl⟩

lemma load_once (h : l.Once) (source : Source) (id : ModuleId) : (l.load source id).2.Once := by
  rcases load_cases l source id with hl | ⟨s, hs, ho, hl⟩
  · rwa [hl]
  · rw [hl]
    intro t ht
    rcases List.mem_or_eq_of_mem_set ht with ht | rfl
    · exact h t ht
    · simpa [ho] using h s (List.mem_of_getElem? hs)

lemma wasRead_load (h : (l.load source id).2.wasRead k = true) : l.wasRead k = true ∨ k = id := by
  rcases load_cases l source id with hl | ⟨s, hs, ho, hl⟩
  · exact .inl (hl ▸ h)
  · by_cases hk : k = id
    · exact .inr hk
    · rw [hl, wasRead, List.getElem?_set_ne (Ne.symm hk)] at h
      exact .inl h

lemma isLoaded_iff : l.isLoaded k = true ↔ ∃ s m, l.slots[k]? = some s ∧ s.outcome = some (.ok m) := by
  simp only [isLoaded, get?, Option.isSome_iff_exists, Option.bind_eq_some_iff]
  constructor
  · rintro ⟨m, s, hs, hm⟩
    unfold Slot.module? at hm
    split at hm
    · exact ⟨s, _, hs, ‹_›⟩
    · cases hm
  · rintro ⟨s, m, hs, hm⟩
    exact ⟨m, s, hs, by simp only [Slot.module?, hm]⟩

lemma isLoaded_load (h : l.isLoaded k = true) : (l.load source id).2.isLoaded k = true := by
  rcases load_cases l source id with hl | ⟨s, hs, ho, hl⟩
  · rwa [hl]
  · obtain ⟨t, m, ht, hm⟩ := isLoaded_iff.mp h
    have hk : id ≠ k := by
      rintro rfl
      rw [Option.some.inj (hs.symm.trans ht), hm] at ho
      cases ho
    refine isLoaded_iff.mpr ⟨t, m, ?_, hm⟩
    rw [hl, List.getElem?_set_ne hk, ht]

lemma answer_eq_ok_iff {name : String} {o : Except LoadError Ir.Module} {m : Ir.Module} :
    answer name o = .ok m ↔ o = .ok m := by
  cases o <;> simp [answer]

lemma isLoaded_of_load {m : Ir.Module} (h : (l.load source id).1 = .ok m) :
    (l.load source id).2.isLoaded id = true := by
  refine isLoaded_iff.mpr ?_
  unfold load at h ⊢
  cases hs : l.slots[id]? with
  | none => simp [hs] at h
  | some s =>
    cases ho : s.outcome with
    | some o =>
      simp only [hs, ho, answer_eq_ok_iff] at h ⊢
      exact ⟨s, m, rfl, h ▸ ho⟩
    | none =>
      simp only [hs, ho, answer_eq_ok_iff] at h ⊢
      exact ⟨_, m, List.getElem?_set_self (List.getElem?_eq_some_iff.mp hs).1, congrArg some h⟩

lemma wasRead_of_isLoaded (h : l.isLoaded k = true) : l.wasRead k = true := by
  obtain ⟨s, m, hs, hm⟩ := isLoaded_iff.mp h
  simp [wasRead, hs, hm]

lemma reads_eq (h : l.Once) (k : ModuleId) : l.reads k = if l.wasRead k then 1 else 0 := by
  unfold reads wasRead
  cases hs : l.slots[k]? with
  | none => rfl
  | some s => simpa using h s (List.mem_of_getElem? hs)

lemma loadedCount_eq_ncard (l : Loader) : l.loadedCount = {k | l.isLoaded k = true}.ncard := by
  have hset : {k | l.isLoaded k = true} = ((List.range l.slots.length).filter l.isLoaded).toFinset := by
    ext k
    simp only [Set.mem_ofPred_eq, List.coe_toFinset, List.mem_filter, List.mem_range]
    refine ⟨fun h => ⟨?_, h⟩, fun h => h.2⟩
    obtain ⟨s, m, hs, _⟩ := isLoaded_iff.mp h
    exact (List.getElem?_eq_some_iff.mp hs).1
  have hany (k : ModuleId) : l.isLoaded k = l.slots[k]?.any fun s => s.module?.isSome := by
    unfold isLoaded get?
    cases l.slots[k]? <;> rfl
  rw [hset, Set.ncard_coe_finset, List.toFinset_card_of_nodup (List.nodup_range.filter _), loadedCount,
    ← length_filter_range]
  exact congrArg List.length (List.filter_congr fun k _ => (hany k).symm)

end Loader

namespace Program

variable {p : Program} {l : Loader} {id : SymbolId} {k : ModuleId}

lemma materialize_snd (p : Program) (l : Loader) (id : SymbolId) :
    (p.materialize l id).2 =
      match p.graph.symbols[id]? with
      | none => l
      | some s => (l.load p.source s.owner).2 := by
  unfold materialize
  split <;> simp_all

lemma materialize_once (h : l.Once) : (p.materialize l id).2.Once := by
  rw [materialize_snd]
  split
  · exact h
  · exact Loader.load_once h _ _

lemma wasRead_materialize (h : (p.materialize l id).2.wasRead k = true) :
    l.wasRead k = true ∨ ∃ s, p.graph.symbols[id]? = some s ∧ s.owner = k := by
  rw [materialize_snd] at h
  split at h
  · exact .inl h
  · rename_i s hs
    exact (Loader.wasRead_load h).imp_right fun hk => ⟨s, hs, hk.symm⟩

lemma isLoaded_materialize (h : l.isLoaded k = true) : (p.materialize l id).2.isLoaded k = true := by
  rw [materialize_snd]
  split
  · exact h
  · exact Loader.isLoaded_load h

lemma isLoaded_of_materialize {b : Body} (h : (p.materialize l id).1 = .ok b) :
    ∃ s, p.graph.symbols[id]? = some s ∧ (p.materialize l id).2.isLoaded s.owner = true := by
  unfold materialize at h ⊢
  cases hs : p.graph.symbols[id]? with
  | none => simp [hs] at h
  | some s =>
    simp only [hs] at h ⊢
    obtain ⟨m, hm, _⟩ := Fallible.bind_eq_ok_iff.mp h
    exact ⟨s, rfl, Loader.isLoaded_of_load hm⟩

end Program

namespace Walk

variable {p : Program} {roots : List SymbolId} {w : Walk} {n : Node} {id : SymbolId} {k : ModuleId}

lemma process_symbol (w : Walk) (p : Program) (id : SymbolId) :
    (w.process p (.symbol id)).2.loader = (p.materialize w.loader id).2 ∧
      ((w.process p (.symbol id)).2.bodies = w.bodies ∨
        ∃ b, (p.materialize w.loader id).1 = .ok b ∧ (w.process p (.symbol id)).2.bodies = (id, b) :: w.bodies) := by
  rw [process, visit]
  rcases hm : p.materialize w.loader id with ⟨fault | body, loader⟩
  · exact ⟨rfl, .inl rfl⟩
  · cases hb : body? { w with loader } id with
    | some _ =>
      simp only [keep, hb]
      exact ⟨rfl, .inl rfl⟩
    | none =>
      simp only [keep, hb]
      exact ⟨trivial, .inr ⟨body, rfl, rfl⟩⟩

/-- Nothing is read twice or for the sake of an unmarked symbol, and the module of a body is loaded. -/
structure Lazy (p : Program) (w : Walk) : Prop where
  once : w.loader.Once
  asked {k : ModuleId} (h : w.loader.wasRead k = true) :
    ∃ id s, .symbol id ∈ w.marks.nodes ∧ p.graph.symbols[id]? = some s ∧ s.owner = k
  loaded {id : SymbolId} {b : Body} (h : w.body? id = some b) :
    ∃ s, p.graph.symbols[id]? = some s ∧ w.loader.isLoaded s.owner = true

namespace Lazy

lemma start (p : Program) : Lazy p { loader := p.loader } := by
  have hnone {s : Slot} (hs : s ∈ p.loader.slots) : s.outcome = none ∧ s.reads = 0 := by
    obtain ⟨name, _, rfl⟩ := List.mem_map.mp hs
    exact ⟨rfl, rfl⟩
  refine ⟨fun s hs => ?_, fun h => ?_, nofun⟩
  · simp [hnone hs]
  · obtain ⟨s, hs, ho⟩ := (Option.any_eq_true _ _).mp h
    simp [hnone (List.mem_of_getElem? hs)] at ho

lemma claim (h : Lazy p w) : Lazy p (w.claim n) := by
  refine ⟨h.once, fun hk => ?_, h.loaded⟩
  obtain ⟨id, s, hid, hs⟩ := h.asked hk
  refine ⟨id, s, ?_, hs⟩
  unfold Walk.claim Marks.mark
  split
  · exact hid
  · exact List.mem_cons_of_mem _ hid

lemma process (h : Lazy p w) (hn : n ∈ w.marks.nodes) : Lazy p (w.process p n).2 := by
  cases n with
  | dispatch i => exact h
  | symbol id =>
    obtain ⟨hl, hb⟩ := process_symbol w p id
    refine ⟨hl ▸ Program.materialize_once h.once, fun hk => ?_, fun {k b} hk => ?_⟩
    · -- the one module that may have been read now is the owner of the visited symbol, which is marked
      rw [process_marks]
      rcases Program.wasRead_materialize (hl ▸ hk) with hk | ⟨s, hs, hk⟩
      · exact h.asked hk
      · exact ⟨id, s, hn, hs, hk⟩
    · rw [hl]
      have hold (hk : w.body? k = some b) : ∃ s, p.graph.symbols[k]? = some s ∧
          (p.materialize w.loader id).2.isLoaded s.owner = true :=
        (h.loaded hk).imp fun _ hs => hs.imp_right Program.isLoaded_materialize
      rcases hb with hb | ⟨c, hc, hb⟩
      · rw [body?, hb] at hk
        exact hold hk
      · rw [body?, hb, List.lookup_cons] at hk
        split at hk
        · rename_i he
          obtain rfl : k = id := by simpa using he
          exact Program.isLoaded_of_materialize hc
        · exact hold hk

lemma reads_eq_zero (h : Lazy p w) (hi : Inv p roots w [] []) (hk : ¬ p.graph.Needs roots k) :
    w.loader.reads k = 0 := by
  rw [Loader.reads_eq h.once, if_neg]
  intro hr
  obtain ⟨id, s, hid, hs, ho⟩ := h.asked hr
  exact hk ⟨id, s, hs, ho, hi.reached hid⟩

lemma isLoaded_of_needs (h : Lazy p w) (hi : Inv p roots w [] []) (hc : w.cancelled = false)
    (hk : p.graph.Needs roots k) : w.loader.isLoaded k = true := by
  obtain ⟨id, s, hs, rfl, hid⟩ := hk
  obtain ⟨b, hb⟩ := hi.kept hc ((hi.mem_marks_iff hc).mpr hid) List.not_mem_nil
  obtain ⟨t, ht, hl⟩ := h.loaded hb
  rwa [← Option.some.inj (ht.symm.trans hs)]

end Lazy

end Walk

namespace Session

variable {s : Session} {e : Strategy} {g : Graph} {roots : List SymbolId}

lemma Walks.lazy {x : Except Walk.Failure Reached × Loader} (h : s.Walks e g roots x) :
    ∃ w, x = (w.finish roots, w.loader) ∧ Walk.Inv (s.program g) roots w [] [] ∧ w.Lazy (s.program g) :=
  h.explores.exists_walk .claim (fun hn hw => hw.process hn) h.bounded h.roots_lt (.start _)

lemma Walks.reads {x : Except Walk.Failure Reached × Loader} (h : s.Walks e g roots x) (k : ModuleId) :
    x.2.reads k ≤ 1 ∧ (x.2.isLoaded k = true → x.2.reads k = 1) ∧ (¬ g.Needs roots k → x.2.reads k = 0) := by
  obtain ⟨w, rfl, hi, hl⟩ := h.lazy
  refine ⟨?_, fun hk => ?_, hl.reads_eq_zero hi⟩
  · rw [Loader.reads_eq hl.once]
    split <;> omega
  · rw [Loader.reads_eq hl.once, if_pos (Loader.wasRead_of_isLoaded hk)]

lemma Walks.isLoaded_iff {r : Reached} {l : Loader} (h : s.Walks e g roots (.ok r, l)) {k : ModuleId} :
    l.isLoaded k = true ↔ g.Needs roots k := by
  obtain ⟨w, hw, hi, hl⟩ := h.lazy
  obtain ⟨hr, rfl⟩ := Prod.mk.inj hw
  refine ⟨fun hk => ?_, hl.isLoaded_of_needs hi (hi.finish_eq_ok_iff.mp hr.symm).1⟩
  by_contra hn
  obtain ⟨_, hone, hzero⟩ := h.reads k
  cases (hone hk).symm.trans (hzero hn)

lemma Links.symbolsReachable {a : Analysis} {out : Output} (h : s.Links e roots a out) :
    a.stats.symbolsReachable = out.linked.code.functions.length + out.linked.code.globals.length := by
  obtain ⟨ds, hd, hcode⟩ := h.exists_definitions
  have hlen := (Linked.Naming.forall₂_emits h.walks.built h.walks.covers hd).length_eq
  have hperm := (Linked.defined_perm s.options.outputName ds
    (Linked.Naming.ofReached a.graph a.reached).tables).length_eq
  rw [← hcode, List.length_map, ← hlen, Linked.defined, List.length_append, List.length_map, List.length_map] at hperm
  exact hperm.symm

theorem loading_is_lazy (e : Strategy) (s : Session) :
    (∀ a, ((analyzeBy e).run.run s).1 = .ok a →
      ∃ roots, a.graph.roots s.options.extraRoots = .ok roots ∧
        (∀ k, a.graph.Needs roots k → a.loader.reads k = 1 ∧ a.loader.isLoaded k = true) ∧
        (∀ k, ¬ a.graph.Needs roots k → a.loader.reads k = 0) ∧
        a.stats.modulesLoaded = {k | a.graph.Needs roots k}.ncard) ∧
    (∀ g roots failure loader, s.Walks e g roots (.error failure, loader) →
      ((analyzeBy e).run.run s).1 = .error failure.first ∧
        ∀ k, loader.reads k ≤ 1 ∧ (¬ g.Needs roots k → loader.reads k = 0)) ∧
    (∀ out, ((runBy e).run.run s).1 = .ok out →
      ∃ a, ((analyzeBy e).run.run s).1 = .ok a ∧ out.stats = a.stats ∧
        out.stats.symbolsReachable = out.linked.code.functions.length + out.linked.code.globals.length) := by
  refine ⟨fun a ha => ?_, fun g roots failure loader h => ⟨analyzeBy_eq_error h, fun k => ?_⟩, fun out ho => ?_⟩
  · obtain ⟨roots, h⟩ := analyzeBy_eq_ok_iff.mp ha
    have hset : {k | a.graph.Needs roots k} = {k | a.loader.isLoaded k = true} := by
      ext k
      exact h.isLoaded_iff.symm
    refine ⟨roots, h.rooted, fun k hk => ?_, fun k => (h.reads k).2.2, ?_⟩
    · have hl := h.isLoaded_iff.mpr hk
      exact ⟨(h.reads k).2.1 hl, hl⟩
    · rw [hset]
      exact a.loader.loadedCount_eq_ncard
  · exact ⟨(h.reads k).1, (h.reads k).2.2⟩
  · obtain ⟨roots, a, h⟩ := runBy_eq_ok_iff.mp ho
    refine ⟨a, analyzeBy_eq_ok_iff.mpr ⟨roots, h.walks⟩, h.stats, ?_⟩
    rw [h.stats]
    exact h.symbolsReachable

def spared : Session where
  units := [.describe Program.ringCode .program,
    { name := "spare", kind := .library, symbols := [.function "idle" .internal] }]
  source := Program.ring.source

def sparedGraph : Graph := { Program.ring.graph with
  modules := Program.ring.graph.modules ++ [{ name := "spare", kind := .library, symbols := [3] }]
  symbols := Program.ring.graph.symbols ++
    [{ name := "idle", kind := .function, space := .generic, visibility := .internal, owner := 1, isKernel := false }]
  edges := Program.ring.graph.edges ++ [[]]
  localNames := Program.ring.graph.localNames ++ [.ofList [("idle", 3)]] }

lemma spared_build : Graph.build spared.units = .ok sparedGraph := by decide

lemma spared_reaches {n : Node} (h : sparedGraph.Reaches [0] n) : n ∈ [.symbol 0, .symbol 1, .dispatch 0] := by
  induction h with
  | root h =>
    rw [List.mem_singleton.mp h]
    decide
  | step _ hm ih =>
    have hnext : ∀ n ∈ [Node.symbol 0, .symbol 1, .dispatch 0], ∀ m ∈ sparedGraph.successors n,
        m ∈ [Node.symbol 0, .symbol 1, .dispatch 0] := by decide
    exact hnext _ ih _ hm

lemma spared_lt {id : SymbolId} (h : sparedGraph.Reaches [0] (.symbol id)) : id < 2 := by
  have hmem := spared_reaches h
  simp only [List.mem_cons, Node.symbol.injEq, reduceCtorEq, List.not_mem_nil, or_false] at hmem
  rcases hmem with rfl | rfl <;> decide

lemma spared_needs {k : ModuleId} : sparedGraph.Needs [0] k ↔ k = 0 := by
  constructor
  · rintro ⟨id, s, hs, rfl, hid⟩
    have howner : ∀ id < 2, ∀ s ∈ sparedGraph.symbols[id]?, s.owner = 0 := by decide
    exact howner id (spared_lt hid) s hs
  · rintro rfl
    exact ⟨0, _, rfl, rfl, .root List.mem_cons_self⟩

lemma spared_outcome : ∀ id < 2, ∃ b, (spared.program sparedGraph).outcome id = .ok b := by
  have h : ∀ id < 2, ((spared.program sparedGraph).outcome id).isOk = true := by decide +kernel
  exact fun id hid => Fallible.exists_of_isOk (h id hid)

theorem loading_is_lazy_spared :
    ∃ a, ((analyzeBy .alone).run.run spared).1 = .ok a ∧ a.loader.reads 0 = 1 ∧ a.loader.reads 1 = 0 ∧
      a.stats.modulesLoaded = 1 := by
  obtain ⟨r, l, hw⟩ := @exists_walks spared .alone sparedGraph [0] (by decide) spared_build (by decide)
    fun id hid => spared_outcome id (spared_lt hid)
  let a : Analysis := { graph := sparedGraph, loader := l, reached := r }
  have ha : ((analyzeBy .alone).run.run spared).1 = .ok a := analyzeBy_eq_ok_iff.mpr ⟨[0], hw⟩
  obtain ⟨roots, hr, hone, hzero, hcount⟩ := (loading_is_lazy .alone spared).1 a ha
  obtain rfl : [0] = roots := Except.ok.inj (hw.rooted.symm.trans hr)
  refine ⟨a, ha, (hone 0 (spared_needs.mpr rfl)).1, hzero 1 fun h => ?_, ?_⟩
  · cases spared_needs.mp h
  · have hset : {k | a.graph.Needs [0] k} = {0} := Set.ext fun k => spared_needs
    rw [hcount, hset, Set.ncard_singleton]

end Session

end DeviceLink
