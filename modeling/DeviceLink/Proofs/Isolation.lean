import DeviceLink.Proofs.Build
import DeviceLink.Proofs.Loading

namespace DeviceLink

def Graph.AgreeOn (g : Graph) (roots : List SymbolId) (a b : Source) : Prop :=
  ∀ k, g.Needs roots k → a (g.moduleName k) = b (g.moduleName k)

lemma Source.fetch_congr {a b : Source} {name : String} (h : a name = b name) : a.fetch name = b.fetch name := by
  simp only [fetch, h]

lemma Loader.load_congr {l : Loader} {a b : Source} {id : ModuleId}
    (h : ∀ s, l.slots[id]? = some s → a s.name = b s.name) : l.load a id = l.load b id := by
  unfold load
  cases hs : l.slots[id]? with
  | none => rfl
  | some s => simp only [Source.fetch_congr (h s hs)]

lemma Loader.Serves.name_eq {l : Loader} {p : Program} (h : l.Serves p.moduleNames p.source) {k : ModuleId} {s : Slot}
    (hs : l.slots[k]? = some s) : s.name = p.graph.moduleName k := by
  have hn : p.moduleNames[k]? = some s.name := by
    rw [← h.names, List.getElem?_map, hs]
    rfl
  rw [Graph.moduleName, ← List.getElem?_map]
  exact (congrArg (Option.getD · "") hn).symm

namespace Program

def withSource (p : Program) (source : Source) : Program := { p with source }

@[simp] lemma withSource_graph (p : Program) (b : Source) : (p.withSource b).graph = p.graph := rfl

lemma withSource_define (p : Program) (b : Source) : (p.withSource b).define = p.define := rfl

variable {p : Program} {b : Source} {roots : List SymbolId}

lemma materialize_withSource {l : Loader} {id : SymbolId} (hl : l.Serves p.moduleNames p.source)
    (hid : p.graph.Reaches roots (.symbol id)) (ha : p.graph.AgreeOn roots p.source b) :
    (p.withSource b).materialize l id = p.materialize l id := by
  unfold materialize
  rw [withSource_graph, withSource_define]
  cases hs : p.graph.symbols[id]? with
  | none => rfl
  | some s =>
    have hload : l.load p.source s.owner = l.load (p.withSource b).source s.owner := by
      refine Loader.load_congr fun slot hslot => ?_
      rw [hl.name_eq hslot]
      exact ha s.owner ⟨id, s, hs, rfl, hid⟩
    simp only [hload]

end Program

namespace Walk

variable {p : Program} {b : Source} {roots : List SymbolId} {w : Walk}

lemma process_withSource {n : Node} (hl : w.loader.Serves p.moduleNames p.source) (hn : p.graph.Reaches roots n)
    (ha : p.graph.AgreeOn roots p.source b) : w.process (p.withSource b) n = w.process p n := by
  cases n with
  | dispatch i => rfl
  | symbol id =>
    rw [process, process, visit, visit, Program.materialize_withSource hl hn ha]
    rfl

lemma run_withSource {work : List Node} (hg : p.graph.Bounded) (hr : ∀ id ∈ roots, id < p.graph.symbols.length)
    (ha : p.graph.AgreeOn roots p.source b) (h : Inv p roots w work []) :
    run (p.withSource b) w work = run p w work := by
  fun_induction run p w work with
  | case1 w => rw [run]
  | case2 w n rest hc => rw [run, if_pos hc]
  | case3 w n rest hc hn _ next ih =>
    have hp : (w.claim n).process (p.withSource b) n = next :=
      process_withSource h.served (h.found List.mem_cons_self) ha
    rw [run, if_neg hc, dif_pos (by exact hn)]
    simp only [hp]
    exact ih (h.next hn.2)
  | case4 w n rest hc hn ih =>
    rw [run, if_neg hc, dif_neg (by exact hn)]
    exact ih (h.skip (h.mem_marks_of_passed hg hr hn))

end Walk

lemma Program.explore_withSource {p : Program} {b : Source} {roots : List SymbolId} (hg : p.graph.Bounded)
    (hr : ∀ id ∈ roots, id < p.graph.symbols.length) (ha : p.graph.AgreeOn roots p.source b) :
    (p.withSource b).explore roots = p.explore roots := by
  have hw : (p.withSource b).walk roots = p.walk roots := Walk.run_withSource hg hr ha (.start p roots)
  rw [explore, explore, hw]

namespace Session

def withSource (s : Session) (source : Source) : Session := { s with source }

section Matches

variable {α β : Type} {s : Session} {b : Source}

def Matches (b : Source) (r r' : Except Fault α × Session) : Prop := r' = (r.1, r.2.withSource b)

lemma matches_bind {x y : Action α} {f g : α → Action β}
    (hx : Matches b (x.run.run s) (y.run.run (s.withSource b)))
    (hf : ∀ a u, x.run.run s = (.ok a, u) → Matches b ((f a).run.run u) ((g a).run.run (u.withSource b))) :
    Matches b ((x >>= f).run.run s) ((y >>= g).run.run (s.withSource b)) := by
  rcases hr : x.run.run s with ⟨fault | a, u⟩
  · rw [Matches, hr] at hx
    rw [bind_of_error hr, bind_of_error hx, Matches]
  · rw [Matches, hr] at hx
    rw [bind_of_ok hr, bind_of_ok hx]
    exact hf a u hr

lemma matches_get {f g : Session → Action β}
    (hf : Matches b ((f s).run.run s) ((g (s.withSource b)).run.run (s.withSource b))) :
    Matches b ((get >>= f).run.run s) ((get >>= g).run.run (s.withSource b)) := hf

lemma matches_record (r : Except Fault α) :
    Matches b ((record r).run.run s) ((record r).run.run (s.withSource b)) := by
  cases r <;> rfl

lemma matches_recordWalk (r : Except Walk.Failure α) :
    Matches b ((recordWalk r).run.run s) ((recordWalk r).run.run (s.withSource b)) := by
  cases r <;> rfl

lemma matches_forM_warn (message : String → String) (names : List String) :
    Matches b ((names.forM fun name => warn (message name)).run.run s)
      ((names.forM fun name => warn (message name)).run.run (s.withSource b)) := by
  induction names generalizing s with
  | nil => rfl
  | cons name rest ih => exact matches_bind rfl fun _ _ _ => ih

lemma matches_buildGraph : Matches b (buildGraph.run.run s) (buildGraph.run.run (s.withSource b)) := by
  apply matches_get
  apply matches_bind (matches_record _)
  intro _ _ h
  obtain ⟨_, rfl⟩ := record_eq_ok_iff.mp h
  exact matches_record _

end Matches

/-- A source gives what the session's own does, for every unit of which the roots reach a symbol. -/
def AgreesWith (s : Session) (b : Source) : Prop :=
  ∀ g roots, Graph.build s.units = .ok g → g.roots s.options.extraRoots = .ok roots →
    ∀ k u, s.units[k]? = some u → g.Needs roots k → b u.name = s.source u.name

lemma AgreesWith.agreeOn {s : Session} {b : Source} {g : Graph} {roots : List SymbolId} (h : s.AgreesWith b)
    (hg : Graph.build s.units = .ok g) (hr : g.roots s.options.extraRoots = .ok roots) :
    g.AgreeOn roots s.source b := by
  intro k hk
  obtain ⟨id, sym, hs, rfl, _⟩ := id hk
  obtain ⟨u, hu⟩ := Graph.exists_unit_of_build hg hs
  rw [Graph.moduleName_of_build hg hu]
  exact (h g roots hg hr _ u hu hk).symm

lemma matches_analyze {s : Session} {b : Source} (h : s.AgreesWith b) :
    Matches b (analyze.run.run s) (analyze.run.run (s.withSource b)) := by
  apply matches_bind matches_buildGraph
  intro g u hg
  obtain ⟨_, hg, rfl⟩ := buildGraph_eq_ok_iff.mp hg
  apply matches_get
  apply matches_bind (matches_record _)
  intro roots u hr
  obtain ⟨hr, rfl⟩ := record_eq_ok_iff.mp hr
  have hx : Strategy.alone.1 ((u.withSource b).program g) roots = Strategy.alone.1 (u.program g) roots :=
    @Program.explore_withSource (u.program g) b roots (Graph.build_bounded hg) (Graph.lt_of_mem_roots hg hr)
      (h.agreeOn hg hr)
  simp only [hx]
  apply matches_bind (matches_recordWalk _)
  intro reached u _
  apply matches_bind (matches_forM_warn _ _)
  intro _ _ _
  rfl

theorem run_of_agreesWith {s : Session} {b : Source} (h : s.AgreesWith b) :
    (run.run.run { s with source := b }).1 = (run.run.run s).1 ∧
      (run.run.run { s with source := b }).2.report = (run.run.run s).2.report := by
  have hm : Matches b (run.run.run s) (run.run.run (s.withSource b)) := by
    apply matches_bind (matches_analyze h)
    intro a u _
    apply matches_get
    apply matches_bind (matches_record _)
    intro linked u _
    rfl
  rw [Matches, withSource] at hm
  rw [hm]
  exact ⟨rfl, rfl⟩

def littered : Source := fun name => if name = "spare" then .ok [0xff] else spared.source name

theorem run_of_agreesWith_spared :
    spared.AgreesWith littered ∧ littered "spare" ≠ spared.source "spare" ∧
      (run.run.run { spared with source := littered }).1 = (run.run.run spared).1 := by
  have hroots : sparedGraph.roots spared.options.extraRoots = .ok [0] := by decide
  have h : spared.AgreesWith littered := by
    intro g roots hg hr k u hu hk
    obtain rfl : sparedGraph = g := Except.ok.inj (spared_build.symm.trans hg)
    obtain rfl : [0] = roots := Except.ok.inj (hroots.symm.trans hr)
    obtain rfl := spared_needs.mp hk
    obtain rfl := Option.some.inj hu
    rfl
  exact ⟨h, by decide, (run_of_agreesWith h).1⟩

end Session

end DeviceLink
