import DeviceLink.Proofs.DepthFirst
import DeviceLink.Proofs.Indexes
import DeviceLink.Proofs.Loading

namespace DeviceLink

namespace Report

variable {r : Report}

structure Exact (r : Report) : Prop where
  errors : r.errorCount = r.diagnostics.countP (·.severity = .error)
  warnings : r.warningCount = r.diagnostics.countP (·.severity = .warning)

lemma diagnostics_push (r : Report) (d : Diagnostic) : (r.push d).diagnostics = r.diagnostics ++ [d] := by
  unfold push
  split <;> rfl

lemma Exact.push (h : r.Exact) (d : Diagnostic) : (r.push d).Exact := by
  have herrors := h.errors
  have hwarnings := h.warnings
  constructor
  · rw [diagnostics_push, List.countP_append, ← herrors]
    unfold Report.push
    split <;> simp_all
  · rw [diagnostics_push, List.countP_append, ← hwarnings]
    unfold Report.push
    split <;> simp_all

lemma diagnostics_foldl_push (r : Report) (ds : List Diagnostic) :
    (ds.foldl push r).diagnostics = r.diagnostics ++ ds := by
  induction ds generalizing r with
  | nil => simp
  | cons d ds ih => rw [List.foldl_cons, ih, diagnostics_push, List.append_assoc, List.singleton_append]

lemma Exact.foldl_push (h : r.Exact) (ds : List Diagnostic) : (ds.foldl Report.push r).Exact := by
  induction ds generalizing r with
  | nil => exact h
  | cons d ds ih => exact ih (h.push d)

end Report

lemma Program.others_eq_nil {p : Program} {roots : List SymbolId} {failure : Walk.Failure} (hg : p.graph.Bounded)
    (hr : ∀ id ∈ roots, id < p.graph.symbols.length) (h : (p.explore roots).1 = .error failure) :
    failure.others = [] := by
  obtain ⟨_, result, _, _, hfaults⟩ := (Walk.Inv.start p roots).depthFirst hg hr rfl
  rw [explore, Walk.finish, walk, hfaults] at h
  cases result with
  | none => cases h
  | some fault =>
    cases h
    rfl

namespace Session

variable {s t : Session} {g : Graph} {roots : List SymbolId} {α β : Type}

lemma reporting_reporting (s : Session) (ds es : List Diagnostic) :
    (s.reporting ds).reporting es = s.reporting (ds ++ es) := by
  simp only [reporting, List.foldl_append]

def diagnosed : Except Fault α → List Diagnostic
  | .ok _ => []
  | .error fault => [fault.diagnostic]

lemma diagnosed_map (f : α → β) (r : Except Fault α) : diagnosed (r.map f) = diagnosed r := by
  cases r <;> rfl

lemma severity_of_mem_diagnosed {r : Except Fault α} : ∀ d ∈ diagnosed r, d.severity = .error := by
  cases r with
  | ok => exact List.forall_mem_nil _
  | error fault => exact List.forall_mem_singleton.mpr rfl

lemma run_record (r : Except Fault α) (s : Session) : (record r).run.run s = (r, s.reporting (diagnosed r)) := by
  cases r <;> rfl

def Fails (s : Session) (x : Action α) : Prop :=
  ∃ fault, x.run.run s = (.error fault, s.reporting [fault.diagnostic])

namespace Fails

lemma bind {x : Action α} (h : s.Fails x) (f : α → Action β) : s.Fails (x >>= f) := by
  obtain ⟨fault, hx⟩ := h
  exact ⟨fault, bind_of_error hx f⟩

lemma of_bind {x : Action α} {a : α} (hx : x.run.run s = (.ok a, s)) {f : α → Action β} (h : s.Fails (f a)) :
    s.Fails (x >>= f) := by
  obtain ⟨fault, hf⟩ := h
  exact ⟨fault, (bind_of_ok hx f).trans hf⟩

lemma record {r : Except Fault α} {fault : Fault} (h : r = .error fault) : s.Fails (record r) := by
  rw [h]
  exact ⟨fault, rfl⟩

lemma recordWalk {r : Except Walk.Failure α} {failure : Walk.Failure} (h : r = .error failure)
    (ho : failure.others = []) : s.Fails (recordWalk r) := by
  refine ⟨failure.first, ?_⟩
  rw [h]
  change (_, { s with report := failure.faults.foldl Report.fail s.report }) = _
  rw [Walk.Failure.faults, ho]
  rfl

end Fails

lemma run_get (s : Session) : (get : Action Session).run.run s = (.ok s, s) := rfl

lemma fails_or_builds (s : Session) :
    s.Fails buildGraph ∨ ∃ g, checkSegments s.options.segments = .ok () ∧ Graph.build s.units = .ok g := by
  cases hs : checkSegments s.options.segments with
  | error fault => exact .inl (.of_bind (run_get s) (.bind (.record hs) _))
  | ok =>
    cases hg : Graph.build s.units with
    | error fault => exact .inl (.of_bind (run_get s) (.of_bind (record_eq_ok_iff.mpr ⟨hs, rfl⟩) (.record hg)))
    | ok g => exact .inr ⟨g, rfl, rfl⟩

lemma fails_or_walks (s : Session) :
    s.Fails analyze ∨
      ∃ (a : Analysis) (roots : List SymbolId), s.Walks .alone a.graph roots (.ok a.reached, a.loader) := by
  rcases fails_or_builds s with h | ⟨g, hs, hg⟩
  · exact .inl (h.bind _)
  · have hbuild : buildGraph.run.run s = (.ok g, s) := buildGraph_eq_ok_iff.mpr ⟨hs, hg, rfl⟩
    cases hr : g.roots s.options.extraRoots with
    | error fault => exact .inl (.of_bind hbuild (.of_bind (run_get s) (.bind (.record hr) _)))
    | ok roots =>
      rcases hx : (s.program g).explore roots with ⟨failure | r, l⟩
      · have ho := Program.others_eq_nil (Graph.build_bounded hg) (Graph.lt_of_mem_roots hg hr) (congrArg Prod.fst hx)
        have hx' : Strategy.alone.explore (s.program g) roots = (.error failure, l) := hx
        refine .inl (.of_bind hbuild (.of_bind (run_get s) (.of_bind (record_eq_ok_iff.mpr ⟨hr, rfl⟩) ?_)))
        simp only [hx']
        exact .bind (.recordWalk rfl ho) _
      · exact .inr ⟨{ graph := g, loader := l, reached := r }, roots, hs, hg, hr, hx⟩

open Classical in
noncomputable def idleUnits (units : List CompiledUnit) (g : Graph) (roots : List SymbolId) : List CompiledUnit :=
  (units.zipIdx.filter fun p => p.1.kind = .program ∧ p.1.symbols ≠ [] ∧ ¬ g.Needs roots p.2).map (·.1)

lemma Walks.idle_eq {a : Analysis} (h : s.Walks .alone a.graph roots (.ok a.reached, a.loader)) :
    a.idle = (idleUnits s.units a.graph roots).map (·.name) := by
  have hmodules : a.graph.modules.zipIdx = s.units.zipIdx.map fun p =>
      (⟨p.1.name, p.1.kind, List.range' (Graph.firstId s.units p.2) p.1.symbols.length⟩, p.2) := by
    apply List.ext_getElem?
    intro k
    rw [List.getElem?_zipIdx, List.getElem?_map, List.getElem?_zipIdx, Graph.getElem?_modules h.built]
    cases s.units[k]? <;> simp
  rw [Analysis.idle, hmodules, List.filterMap_map, idleUnits, List.map_map, ← List.filterMap_eq_map,
    List.filterMap_filter]
  refine List.filterMap_congr fun p _ => ?_
  have hsymbols : (List.range' (Graph.firstId s.units p.2) p.1.symbols.length).isEmpty = true ↔ p.1.symbols = [] := by
    rw [List.isEmpty_iff, List.range'_eq_nil_iff, List.length_eq_zero_iff]
  refine if_congr ?_ rfl rfl
  simp only [Bool.and_eq_true, Bool.not_eq_true', ← Bool.not_eq_true, hsymbols, h.isLoaded_iff, decide_eq_true_eq,
    and_assoc]

inductive Call where
  | buildGraph
  | analyze
  | run

inductive Answer where
  | graph (g : Graph)
  | analysis (a : Analysis)
  | output (out : Output)

def answered (f : α → Answer) (x : Except Fault α × Session) : Except Fault Answer × Session := (x.1.map f, x.2)

def perform (s : Session) : Call → Except Fault Answer × Session
  | .buildGraph => answered .graph (buildGraph.run.run s)
  | .analyze => answered .analysis (analyze.run.run s)
  | .run => answered .output (run.run.run s)

inductive Warns (s : Session) : Call → List Diagnostic → Prop
  | buildGraph : Warns s .buildGraph []
  | idle {c : Call} {g : Graph} {roots : List SymbolId} {r : Reached} {l : Loader} (hc : c ≠ .buildGraph)
      (h : s.Walks .alone g roots (.ok r, l)) :
      Warns s c ((idleUnits s.units g roots).map fun u => idleWarning u.name)
  | stopped {c : Call} (hc : c ≠ .buildGraph) (h : ∀ g roots r l, ¬ s.Walks .alone g roots (.ok r, l)) : Warns s c []

/-- What a session may have become by calls. In between, units may be added, and the source may change. -/
inductive Becomes (s : Session) : Session → Prop
  | refl : Becomes s s
  | call {t : Session} (h : Becomes s t) (c : Call) : Becomes s (t.perform c).2
  | add {t : Session} (h : Becomes s t) (u : CompiledUnit) : Becomes s (t.add u)
  | change {t : Session} (h : Becomes s t) (source : Source) : Becomes s { t with source }

lemma Fails.not_walks (h : s.Fails analyze) (g : Graph) (roots : List SymbolId) (r : Reached) (l : Loader) :
    ¬ s.Walks .alone g roots (.ok r, l) := by
  intro hw
  obtain ⟨fault, hf⟩ := h
  let a : Analysis := { graph := g, loader := l, reached := r }
  have hok : analyze.run.run s = (.ok a, _) := analyzeBy_of_walks hw
  cases congrArg Prod.fst (hf.symm.trans hok)

def Adds (s : Session) (x : Except Fault α × Session) (warnings : List Diagnostic) : Prop :=
  x.2 = s.reporting (warnings ++ diagnosed x.1)

lemma Fails.adds {x : Action α} (h : s.Fails x) : s.Adds (x.run.run s) [] := by
  obtain ⟨fault, hx⟩ := h
  rw [hx]
  rfl

lemma adds_buildGraph (s : Session) : s.Adds (buildGraph.run.run s) [] := by
  rcases fails_or_builds s with h | ⟨g, hs, hg⟩
  · exact h.adds
  · rw [buildGraph_eq_ok_iff.mpr ⟨hs, hg, rfl⟩]
    rfl

lemma Walks.adds_analyze {a : Analysis} (h : s.Walks .alone a.graph roots (.ok a.reached, a.loader)) :
    s.Adds (analyze.run.run s) (a.idle.map idleWarning) := by
  rw [analyze, analyzeBy_of_walks h, Adds, diagnosed, List.append_nil]

lemma adds_record (r : Except Fault α) (f : α → β) (warnings : List Diagnostic) :
    s.Adds ((record r >>= fun a => pure (f a)).run.run (s.reporting warnings)) warnings := by
  cases r with
  | ok a =>
    rw [bind_of_ok (run_record _ _), diagnosed]
    exact reporting_reporting s warnings []
  | error fault =>
    rw [bind_of_error (run_record _ _)]
    exact reporting_reporting s warnings [fault.diagnostic]

lemma Walks.adds_run {a : Analysis} (h : s.Walks .alone a.graph roots (.ok a.reached, a.loader)) :
    s.Adds (run.run.run s) (a.idle.map idleWarning) := by
  rw [run, runBy, bind_of_ok (analyzeBy_of_walks h), bind_of_ok (run_get _)]
  exact adds_record _ _ _

lemma Adds.answered {x : Except Fault α × Session} {warnings : List Diagnostic} (h : s.Adds x warnings)
    (f : α → Answer) : s.Adds (answered f x) warnings := by
  rw [Adds, Session.answered, diagnosed_map]
  exact h

lemma exists_warns_perform (s : Session) (c : Call) :
    ∃ warnings, s.Warns c warnings ∧ s.Adds (s.perform c) warnings := by
  have hidle {a : Analysis} {roots : List SymbolId} (hw : s.Walks .alone a.graph roots (.ok a.reached, a.loader)) :
      (idleUnits s.units a.graph roots).map (fun u => idleWarning u.name) = a.idle.map idleWarning := by
    rw [hw.idle_eq, List.map_map]
    rfl
  cases c with
  | buildGraph => exact ⟨[], .buildGraph, (adds_buildGraph s).answered _⟩
  | analyze =>
    rcases fails_or_walks s with hf | ⟨a, roots, hw⟩
    · exact ⟨[], .stopped nofun hf.not_walks, hf.adds.answered _⟩
    · exact ⟨_, .idle nofun hw, hidle hw ▸ hw.adds_analyze.answered _⟩
  | run =>
    rcases fails_or_walks s with hf | ⟨a, roots, hw⟩
    · exact ⟨[], .stopped nofun hf.not_walks, (hf.bind _).adds.answered _⟩
    · exact ⟨_, .idle nofun hw, hidle hw ▸ hw.adds_run.answered _⟩

lemma Warns.severity {c : Call} {warnings : List Diagnostic} (h : s.Warns c warnings) :
    ∀ d ∈ warnings, d.severity = .warning := by
  cases h with
  | buildGraph => exact nofun
  | idle => exact List.forall_mem_map.mpr fun _ _ => rfl
  | stopped => exact nofun

lemma Becomes.report (h : s.Becomes t) : ∃ ds : List Diagnostic, t.report = ds.foldl Report.push s.report := by
  induction h with
  | refl => exact ⟨[], rfl⟩
  | call _ c ih =>
    obtain ⟨ds, ih⟩ := ih
    obtain ⟨warnings, _, hadds⟩ := exists_warns_perform _ c
    rw [hadds, reporting, ih]
    exact ⟨_, List.foldl_append.symm⟩
  | add _ _ ih => exact ih
  | change _ _ ih => exact ih

theorem report_matches_outcomes {s t : Session} (hs : s.report.Exact) (h : s.Becomes t) :
    s.report.diagnostics <+: t.report.diagnostics ∧
    t.report.errorCount = t.report.diagnostics.countP (·.severity = .error) ∧
    t.report.warningCount = t.report.diagnostics.countP (·.severity = .warning) ∧
    ∀ c, ∃ warnings, t.Warns c warnings ∧ (∀ d ∈ warnings, d.severity = .warning) ∧
      (∀ d ∈ diagnosed (t.perform c).1, d.severity = .error) ∧
      (t.perform c).2.report.diagnostics = t.report.diagnostics ++ warnings ++ diagnosed (t.perform c).1 := by
  obtain ⟨ds, hds⟩ := h.report
  have hexact : t.report.Exact := hds ▸ hs.foldl_push ds
  refine ⟨?_, hexact.errors, hexact.warnings, fun c => ?_⟩
  · rw [hds, Report.diagnostics_foldl_push]
    exact List.prefix_append _ _
  · obtain ⟨warnings, hw, hadds⟩ := exists_warns_perform t c
    refine ⟨warnings, hw, hw.severity, severity_of_mem_diagnosed, ?_⟩
    rw [hadds, reporting, Report.diagnostics_foldl_push, List.append_assoc]

def stale : Session where
  units := [{ name := "app", symbols := [.kernel "main"] },
    { name := "stale", symbols := [.function "leftover" .internal] }]
  source := .ofBlobs [("app", Container.encode .current
    { name := "app"
      functions := [{ name := "main", result := .void, visibility := .external, isKernel := true
                      blocks := [⟨0, [.ret none]⟩] }] })]

def staleGraph : Graph where
  modules := [⟨"app", .program, [0]⟩, ⟨"stale", .program, [1]⟩]
  symbols := [⟨"main", .function, .generic, .external, 0, true⟩,
    ⟨"leftover", .function, .generic, .internal, 1, false⟩]
  edges := [[], []]
  localNames := [.ofList [("main", 0)], .ofList [("leftover", 1)]]
  externalNames := .ofList [("main", 0)]

lemma stale_build : Graph.build stale.units = .ok staleGraph := by decide

lemma stale_reaches {n : Node} (h : staleGraph.Reaches [0] n) : n = .symbol 0 := by
  induction h with
  | root h => rw [List.mem_singleton.mp h]
  | step _ hm ih =>
    rw [ih] at hm
    cases hm

lemma stale_needs {k : ModuleId} : staleGraph.Needs [0] k ↔ k = 0 := by
  constructor
  · rintro ⟨id, sym, hs, rfl, hid⟩
    cases stale_reaches hid
    cases hs
    rfl
  · rintro rfl
    exact ⟨0, _, rfl, rfl, .root List.mem_cons_self⟩

lemma stale_walks : ∃ r l, stale.Walks .alone staleGraph [0] (.ok r, l) := by
  refine exists_walks (by decide) stale_build (by decide) fun id hid => ?_
  cases stale_reaches hid
  exact Fallible.exists_of_isOk (by decide +kernel)

theorem report_matches_outcomes_stale :
    stale.report.Exact ∧ ∃ t, stale.Becomes t ∧ t.report.diagnostics = [idleWarning "stale"] ∧
      t.report.warningCount = 1 ∧ t.report.errorCount = 0 := by
  have hs : stale.report.Exact := ⟨rfl, rfl⟩
  obtain ⟨r, l, hw⟩ := stale_walks
  let a : Analysis := { graph := staleGraph, loader := l, reached := r }
  have hok : analyze.run.run stale = (.ok a, _) := analyzeBy_of_walks hw
  obtain ⟨_, _, _, hcall⟩ := report_matches_outcomes hs .refl
  obtain ⟨warnings, hwarns, _, _, hdiagnostics⟩ := hcall .analyze
  have hwarnings : warnings = [idleWarning "stale"] := by
    cases hwarns with
    | stopped _ hnone => exact absurd hw (hnone _ _ _ _)
    | idle _ hw' =>
      cases hw.built.symm.trans hw'.built
      cases hw.rooted.symm.trans hw'.rooted
      simp [idleUnits, stale, List.zipIdx, stale_needs]
  have hfault : diagnosed (stale.perform .analyze).1 = [] := by
    rw [perform, hok]
    rfl
  rw [hwarnings, hfault] at hdiagnostics
  refine ⟨hs, _, .call .refl .analyze, hdiagnostics, ?_⟩
  obtain ⟨_, herrors, hcount, _⟩ := report_matches_outcomes hs (.call .refl .analyze)
  rw [hcount, herrors, hdiagnostics]
  exact ⟨rfl, rfl⟩

end Session

end DeviceLink
