import DeviceLink.Session
import DeviceLink.Proofs.Linked

namespace DeviceLink

lemma Walk.first_mem_faults {w : Walk} {roots : List SymbolId} {failure : Walk.Failure}
    (h : w.finish roots = .error failure) : failure.first ∈ w.faults := by
  unfold Walk.finish at h
  split at h
  · rename_i hf
    cases h
    rw [hf]
    exact List.mem_cons_self
  · cases h

namespace Session

section Actions

variable {α β : Type} {s t u : Session}

lemma bind_of_ok {x : Action α} {a : α} (h : x.run.run s = (.ok a, u)) (f : α → Action β) :
    (x >>= f).run.run s = (f a).run.run u := by
  rw [ExceptT.run_bind, StateT.run_bind, h]
  rfl

lemma bind_of_error {x : Action α} {fault : Fault} (h : x.run.run s = (.error fault, u)) (f : α → Action β) :
    (x >>= f).run.run s = (.error fault, u) := by
  rw [ExceptT.run_bind, StateT.run_bind, h]
  rfl

lemma bind_eq_ok_iff {x : Action α} {f : α → Action β} {b : β} :
    (x >>= f).run.run s = (.ok b, t) ↔ ∃ a u, x.run.run s = (.ok a, u) ∧ (f a).run.run u = (.ok b, t) := by
  constructor
  · intro h
    rcases hx : x.run.run s with ⟨fault | a, u⟩
    · cases (bind_of_error hx f).symm.trans h
    · exact ⟨a, u, rfl, bind_of_ok hx f ▸ h⟩
  · rintro ⟨a, u, hx, hf⟩
    rw [bind_of_ok hx, hf]

lemma get_eq_ok_iff : (get : Action Session).run.run s = (.ok u, t) ↔ u = s ∧ t = s := by
  constructor
  · intro h
    cases h
    exact ⟨rfl, rfl⟩
  · rintro ⟨rfl, rfl⟩
    rfl

lemma pure_eq_ok_iff {a b : α} : (pure a : Action α).run.run s = (.ok b, t) ↔ b = a ∧ t = s := by
  constructor
  · intro h
    cases h
    exact ⟨rfl, rfl⟩
  · rintro ⟨rfl, rfl⟩
    rfl

lemma record_eq_ok_iff {r : Except Fault α} {a : α} :
    (record r).run.run s = (.ok a, t) ↔ r = .ok a ∧ t = s := by
  cases r with
  | error fault => exact ⟨nofun, nofun⟩
  | ok b =>
    refine pure_eq_ok_iff.trans (and_congr_left' ?_)
    rw [Except.ok.injEq, eq_comm]

lemma recordWalk_eq_ok_iff {r : Except Walk.Failure α} {a : α} :
    (recordWalk r).run.run s = (.ok a, t) ↔ r = .ok a ∧ t = s := by
  cases r with
  | error failure => exact ⟨nofun, nofun⟩
  | ok b =>
    refine pure_eq_ok_iff.trans (and_congr_left' ?_)
    rw [Except.ok.injEq, eq_comm]

def reporting (s : Session) (ds : List Diagnostic) : Session := { s with report := ds.foldl Report.push s.report }

def idleWarning (name : String) : Diagnostic :=
  { severity := .warning, message := Analysis.idleMessage name, span := .unknown }

lemma forM_warn (names : List String) (s : Session) :
    (names.forM fun name => warn (Analysis.idleMessage name)).run.run s =
      (.ok (), s.reporting (names.map idleWarning)) := by
  induction names generalizing s with
  | nil => rfl
  | cons name rest ih => exact bind_eq_ok_iff.mpr ⟨(), s.reporting [idleWarning name], rfl, ih _⟩

lemma buildGraph_eq_ok_iff {g : Graph} :
    buildGraph.run.run s = (.ok g, t) ↔
      checkSegments s.options.segments = .ok () ∧ Graph.build s.units = .ok g ∧ t = s := by
  simp only [buildGraph, bind_eq_ok_iff, get_eq_ok_iff, record_eq_ok_iff]
  constructor
  · rintro ⟨_, _, ⟨rfl, rfl⟩, _, _, ⟨hs, rfl⟩, hg, rfl⟩
    exact ⟨hs, hg, rfl⟩
  · rintro ⟨hs, hg, rfl⟩
    exact ⟨_, _, ⟨rfl, rfl⟩, (), _, ⟨hs, rfl⟩, hg, rfl⟩

end Actions

variable {s t : Session} {e : Strategy} {g : Graph} {roots : List SymbolId}
  {x : Except Walk.Failure Reached × Loader} {a : Analysis} {out : Output}

structure Walks (s : Session) (e : Strategy) (g : Graph) (roots : List SymbolId)
    (x : Except Walk.Failure Reached × Loader) : Prop where
  segments : checkSegments s.options.segments = .ok ()
  built : Graph.build s.units = .ok g
  rooted : g.roots s.options.extraRoots = .ok roots
  explored : e.explore (s.program g) roots = x

namespace Walks

lemma bounded (h : s.Walks e g roots x) : (s.program g).graph.Bounded := Graph.build_bounded h.built

lemma roots_lt (h : s.Walks e g roots x) : ∀ id ∈ roots, id < (s.program g).graph.symbols.length :=
  Graph.lt_of_mem_roots h.built h.rooted

lemma explores (h : s.Walks e g roots x) : (s.program g).Explores roots x :=
  h.explored ▸ e.explores (s.program g) roots

lemma exists_inv (h : s.Walks e g roots x) :
    ∃ w, x = (w.finish roots, w.loader) ∧ Walk.Inv (s.program g) roots w [] [] :=
  h.explores.exists_inv h.bounded h.roots_lt

lemma covers {r : Reached} {l : Loader} (h : s.Walks e g roots (.ok r, l)) : (s.program g).Covers roots r :=
  Program.Finds.covers h.bounded h.roots_lt ⟨l, h.explores⟩

end Walks

lemma exists_walks (hs : checkSegments s.options.segments = .ok ()) (hg : Graph.build s.units = .ok g)
    (hr : g.roots s.options.extraRoots = .ok roots)
    (hok : ∀ id, g.Reaches roots (.symbol id) → ∃ b, (s.program g).outcome id = .ok b) :
    ∃ r l, s.Walks e g roots (.ok r, l) := by
  have hw : s.Walks e g roots (e.explore (s.program g) roots) := ⟨hs, hg, hr, rfl⟩
  obtain ⟨w, hx, hi⟩ := hw.exists_inv
  rw [hi.finish_eq_ok_iff.mpr ⟨hi.cancelled_eq_false_iff.mpr hok, rfl⟩] at hx
  exact ⟨_, _, hx ▸ hw⟩

lemma analyzeBy_of_walks (h : s.Walks e a.graph roots (.ok a.reached, a.loader)) :
    (analyzeBy e).run.run s = (.ok a, s.reporting (a.idle.map idleWarning)) := by
  simp only [analyzeBy, bind_eq_ok_iff, buildGraph_eq_ok_iff, get_eq_ok_iff, record_eq_ok_iff, recordWalk_eq_ok_iff,
    pure_eq_ok_iff]
  refine ⟨a.graph, s, ⟨h.segments, h.built, rfl⟩, _, _, ⟨rfl, rfl⟩, roots, _, ⟨h.rooted, rfl⟩, ?_⟩
  have hx : e.1 (s.program a.graph) roots = (.ok a.reached, a.loader) := h.explored
  simp only [hx]
  exact ⟨_, _, ⟨rfl, rfl⟩, (), _, forM_warn a.idle s, rfl, rfl⟩

lemma exists_analyzeBy (h : s.Walks e a.graph roots (.ok a.reached, a.loader)) :
    ∃ report, (analyzeBy e).run.run s = (.ok a, { s with report }) :=
  ⟨_, analyzeBy_of_walks h⟩

lemma walks_of_analyzeBy (h : (analyzeBy e).run.run s = (.ok a, t)) :
    (∃ roots, s.Walks e a.graph roots (.ok a.reached, a.loader)) ∧ ∃ report, t = { s with report } := by
  simp only [analyzeBy, bind_eq_ok_iff, buildGraph_eq_ok_iff, get_eq_ok_iff, record_eq_ok_iff, recordWalk_eq_ok_iff,
    pure_eq_ok_iff] at h
  obtain ⟨graph, _, ⟨hs, hg, rfl⟩, _, _, ⟨rfl, rfl⟩, roots, _, ⟨hr, rfl⟩, reached, _, ⟨hx, rfl⟩, h⟩ := h
  obtain ⟨_, _, hw, rfl, rfl⟩ := h
  exact ⟨⟨roots, hs, hg, hr, Prod.ext hx rfl⟩, _, congrArg Prod.snd (hw.symm.trans (forM_warn _ _))⟩

lemma analyzeBy_eq_ok_iff :
    ((analyzeBy e).run.run s).1 = .ok a ↔ ∃ roots, s.Walks e a.graph roots (.ok a.reached, a.loader) := by
  constructor
  · exact fun h => (walks_of_analyzeBy (Prod.ext h rfl)).1
  · rintro ⟨roots, h⟩
    obtain ⟨report, ha⟩ := exists_analyzeBy h
    rw [ha]

lemma analyzeBy_eq_error {failure : Walk.Failure} {l : Loader} (h : s.Walks e g roots (.error failure, l)) :
    ((analyzeBy e).run.run s).1 = .error failure.first := by
  have hx : e.1 (s.program g) roots = (.error failure, l) := h.explored
  rw [analyzeBy, bind_of_ok (buildGraph_eq_ok_iff.mpr ⟨h.segments, h.built, rfl⟩),
    bind_of_ok (get_eq_ok_iff.mpr ⟨rfl, rfl⟩), bind_of_ok (record_eq_ok_iff.mpr ⟨h.rooted, rfl⟩)]
  simp only [hx]
  rfl

lemma analyzeBy_of_segments {fault : Fault} (h : checkSegments s.options.segments = .error fault) :
    ((analyzeBy e).run.run s).1 = .error fault := by
  have hbuild : buildGraph.run.run s = (.error fault, ((record (.error fault : Except Fault Unit)).run.run s).2) := by
    rw [buildGraph, bind_of_ok (get_eq_ok_iff.mpr ⟨rfl, rfl⟩), h]
    exact bind_of_error rfl _
  rw [analyzeBy, bind_of_error hbuild]

lemma exists_outcome_of_analyzeBy (hs : checkSegments s.options.segments = .ok ()) (hg : Graph.build s.units = .ok g)
    (hr : g.roots s.options.extraRoots = .ok roots) {fault : Fault} (h : ((analyzeBy e).run.run s).1 = .error fault) :
    ∃ id, g.Reaches roots (.symbol id) ∧ (s.program g).outcome id = .error fault := by
  have hw : s.Walks e g roots (e.explore (s.program g) roots) := ⟨hs, hg, hr, rfl⟩
  obtain ⟨w, hx, hi⟩ := hw.exists_inv
  rw [hx] at hw
  cases hfin : w.finish roots with
  | ok r =>
    rw [hfin] at hw
    let a : Analysis := { graph := g, loader := w.loader, reached := r }
    have ha : ((analyzeBy e).run.run s).1 = .ok a := analyzeBy_eq_ok_iff.mpr ⟨roots, hw⟩
    cases ha.symm.trans h
  | error failure =>
    rw [hfin] at hw
    obtain rfl : failure.first = fault := Except.error.inj ((analyzeBy_eq_error hw).symm.trans h)
    exact hi.fault (Walk.first_mem_faults hfin)

lemma exists_error_of_outcome (hg : Graph.build s.units = .ok g) (hr : g.roots s.options.extraRoots = .ok roots)
    {id : SymbolId} (hid : g.Reaches roots (.symbol id)) {fault : Fault}
    (hout : (s.program g).outcome id = .error fault) : ∃ fault', ((analyzeBy e).run.run s).1 = .error fault' := by
  cases ha : ((analyzeBy e).run.run s).1 with
  | error fault' => exact ⟨fault', rfl⟩
  | ok a =>
    obtain ⟨roots', hw⟩ := analyzeBy_eq_ok_iff.mp ha
    obtain rfl : a.graph = g := Except.ok.inj (hw.built.symm.trans hg)
    obtain rfl : roots' = roots := Except.ok.inj (hw.rooted.symm.trans hr)
    obtain ⟨b, hb⟩ := hw.covers.defined hid
    cases hb.symm.trans hout

lemma runBy_of_walks (h : s.Walks e a.graph roots (.ok a.reached, a.loader)) :
    ((runBy e).run.run s).1 =
      (fun linked => { linked, bitcode := Container.encode .current linked.code, stats := a.stats }) <$>
        Linked.link a.graph a.reached s.options := by
  obtain ⟨report, ha⟩ := exists_analyzeBy h
  rw [runBy, bind_of_ok ha, bind_of_ok (get_eq_ok_iff.mpr ⟨rfl, rfl⟩)]
  cases Linked.link a.graph a.reached s.options <;> rfl

structure Links (s : Session) (e : Strategy) (roots : List SymbolId) (a : Analysis) (out : Output) : Prop where
  walks : s.Walks e a.graph roots (.ok a.reached, a.loader)
  linked : Linked.link a.graph a.reached s.options = .ok out.linked
  bitcode : out.bitcode = Container.encode .current out.linked.code
  stats : out.stats = a.stats

lemma Walks.exists_links {r : Reached} {l : Loader} (h : s.Walks e g roots (.ok r, l))
    (hd : g.duplicateExternals = []) (hn : ¬ Linked.Dangles g r) :
    ∃ out, s.Links e roots { graph := g, loader := l, reached := r } out := by
  obtain ⟨linked, hl⟩ := Linked.link_eq_ok h.built h.roots_lt h.covers hd hn s.options
  let a : Analysis := { graph := g, loader := l, reached := r }
  exact ⟨{ linked, bitcode := Container.encode .current linked.code, stats := a.stats }, h, hl, rfl, rfl⟩

lemma exists_links_of_closed (hs : checkSegments s.options.segments = .ok ()) (hg : Graph.build s.units = .ok g)
    (hr : g.roots s.options.extraRoots = .ok roots) (hd : g.duplicateExternals = [])
    (hok : ∀ id < g.symbols.length, (((s.program g).outcome id).toOption.any fun b =>
      b.operands.all (·.symbol?.isNone)) = true) : ∃ a out, s.Links e roots a out := by
  have hlt {id : SymbolId} (hid : g.Reaches roots (.symbol id)) : id < g.symbols.length :=
    Graph.symbol_mem_nodes.mp ((Graph.build_bounded hg).reaches (Graph.lt_of_mem_roots hg hr) hid)
  obtain ⟨r, l, hw⟩ := @exists_walks s e g roots hs hg hr fun id hid =>
    (Fallible.exists_of_any (hok id (hlt hid))).imp fun _ h => h.1
  refine ⟨_, hw.exists_links hd ?_⟩
  rintro ⟨id, sym, b, v, x, _, hb, hv, hx, _⟩
  obtain ⟨hid, hout⟩ := hw.covers.bodies.mp hb
  obtain ⟨b', hout', hnone⟩ := Fallible.exists_of_any (hok id (hlt hid))
  obtain rfl : b' = b := Except.ok.inj (hout'.symm.trans hout)
  have hv := List.all_eq_true.mp hnone v hv
  simp [hx] at hv

lemma Links.exists_definitions (h : s.Links e roots a out) :
    ∃ ds, (Linked.Naming.ofReached a.graph a.reached).definitions = .ok ds ∧ out.linked.code =
      Linked.assemble s.options.outputName ds (Linked.Naming.ofReached a.graph a.reached).tables :=
  Linked.exists_definitions_of_link (p := s.program a.graph) h.walks.built h.walks.roots_lt h.walks.covers h.linked

lemma Links.exists_of_mem_functions (h : s.Links e roots a out) {f : Ir.Function} (hf : f ∈ out.linked.code.functions) :
    ∃ id sym m v, a.graph.symbols[id]? = some sym ∧ a.reached.body? id = some (.function v) ∧
      s.source.fetch (a.graph.moduleName sym.owner) = .ok m ∧ (s.program a.graph).DefinedIn sym m (.function v) ∧
      (Linked.Naming.ofReached a.graph a.reached).image id sym (.function v) = .function f := by
  have hc := h.walks.covers
  obtain ⟨ds, hd, hcode⟩ := h.exists_definitions
  have hmem : .function f ∈ ds := by
    rw [hcode] at hf
    exact Linked.mem_filterMap_function?.mp hf
  obtain ⟨id, sym, b, hs, hb, himage⟩ := Linked.Naming.exists_emits_of_mem h.walks.built hc hd hmem
  obtain ⟨sym', m, hs', hm, hdef⟩ := (Program.outcome_eq_ok_iff h.walks.bounded).mp (hc.bodies.mp hb).2
  obtain rfl : sym' = sym := Option.some.inj (hs'.symm.trans hs)
  cases b with
  | global => cases himage
  | function v => exact ⟨id, sym', m, v, hs, hb, hm, hdef, himage⟩

lemma Links.exists_mem_functions (h : s.Links e roots a out) {id : SymbolId} {sym : Symbol}
    (hs : a.graph.symbols[id]? = some sym) (hk : sym.kind = .function) (hid : a.graph.Reaches roots (.symbol id)) :
    ∃ f ∈ out.linked.code.functions, ∃ m v, s.source.fetch (a.graph.moduleName sym.owner) = .ok m ∧
      (s.program a.graph).DefinedIn sym m (.function v) ∧
      (Linked.Naming.ofReached a.graph a.reached).image id sym (.function v) = .function f := by
  have hc := h.walks.covers
  obtain ⟨ds, hd, hcode⟩ := h.exists_definitions
  have hi := Linked.Naming.mem_symbols_of_reaches h.walks.built h.walks.roots_lt hc hid
  obtain ⟨d, hmem, sym', b, hs', hb, rfl⟩ := Linked.Naming.exists_mem_emits h.walks.built hc hd hi
  obtain rfl : sym' = sym := Option.some.inj (hs'.symm.trans hs)
  obtain ⟨sym, m, hs, hm, hdef⟩ := (Program.outcome_eq_ok_iff h.walks.bounded).mp (hc.bodies.mp hb).2
  obtain rfl : sym = sym' := Option.some.inj (hs.symm.trans hs')
  cases hdef with
  | global hk' => cases hk'.symm.trans hk
  | function _ hf hdecl hv =>
    refine ⟨_, ?_, m, _, hm, .function hk hf hdecl hv, rfl⟩
    rw [hcode]
    exact Linked.mem_filterMap_function?.mpr hmem

lemma runBy_eq_ok_iff : ((runBy e).run.run s).1 = .ok out ↔ ∃ roots a, s.Links e roots a out := by
  constructor
  · intro h
    obtain ⟨a, t, hx, h⟩ := bind_eq_ok_iff.mp (Prod.ext h rfl : (runBy e).run.run s = (.ok out, _))
    obtain ⟨⟨roots, ha⟩, report, rfl⟩ := walks_of_analyzeBy hx
    simp only [bind_eq_ok_iff, get_eq_ok_iff, record_eq_ok_iff, pure_eq_ok_iff] at h
    obtain ⟨_, _, ⟨rfl, rfl⟩, l, _, ⟨hl, rfl⟩, rfl, _⟩ := h
    exact ⟨roots, a, ha, hl, rfl, rfl⟩
  · rintro ⟨roots, a, h⟩
    obtain ⟨report, ha⟩ := exists_analyzeBy h.walks
    have hrun : (runBy e).run.run s = (.ok out, { s with report }) := by
      refine bind_eq_ok_iff.mpr ⟨a, _, ha, ?_⟩
      simp only [bind_eq_ok_iff, get_eq_ok_iff, record_eq_ok_iff, pure_eq_ok_iff]
      refine ⟨_, _, ⟨rfl, rfl⟩, out.linked, _, ⟨h.linked, rfl⟩, ?_, rfl⟩
      rw [← h.bitcode, ← h.stats]
    rw [hrun]

def twins : Session where
  units := [.describe Linked.appCode .program, .describe Linked.libCode .library]
  source := Linked.twins.source

lemma twins_links (e : Strategy) : ∃ a out, twins.Links e [0] a out := by
  have hb := Graph.build_bounded Linked.twins_build
  obtain ⟨r, l, hw⟩ := @exists_walks twins e Linked.twins.graph [0] (by decide) Linked.twins_build (by decide)
    fun id hid => (Linked.twins_outcome id (Graph.symbol_mem_nodes.mp (hb.reaches Linked.twins_roots hid))).imp
      fun _ h => h.1
  exact ⟨_, hw.exists_links (by decide) (Linked.twins_not_dangles hw.covers)⟩

end Session

end DeviceLink
