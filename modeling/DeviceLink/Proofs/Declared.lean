import DeviceLink.Proofs.Described

/-! A described unit lists what its module defines. The one thing that is listed and not found is a function with a
declaration in front of its definition. -/

namespace DeviceLink

open Ir Fallible

def Ir.Module.forward (m : Module) (x : String) : Bool :=
  (m.function? x).any (·.isDeclaration) && m.functions.any fun f => f.name = x && !f.isDeclaration

lemma Ir.Module.forward_iff {m : Module} {x : String} :
    m.forward x = true ↔ (∃ f, m.function? x = some f ∧ f.isDeclaration = true) ∧
      ∃ f ∈ m.functions, f.name = x ∧ f.isDeclaration = false := by
  simp [forward, Option.any_eq_true]

inductive Symbol.Lacking (s : Symbol) (m : Module) : LoadError → Prop
  | function (hk : s.kind = .function) (hf : ∀ f, m.function? s.name = some f → f.isDeclaration = true) :
      Lacking s m (.undefined s.name)
  | global (hk : s.kind = .data) (hg : m.global? s.name = none) : Lacking s m (.undefined s.name)
  | space {g : Global} (hk : s.kind = .data) (hg : m.global? s.name = some g) (hs : g.space ≠ s.space) :
      Lacking s m (.misplaced s.name s.space g.space)

lemma Program.define_eq_load_iff {p : Program} {s : Symbol} {m : Module} {name : String} {error : LoadError} :
    p.define s m = .error (.load name error) ↔ p.graph.moduleName s.owner = name ∧ s.Lacking m error := by
  constructor
  · intro h
    unfold define at h
    cases hk : s.kind with
    | function =>
      simp only [hk] at h
      split at h
      · rename_i hf
        cases h
        refine ⟨rfl, .function hk fun f hsome => ?_⟩
        rw [hsome, Option.filter_eq_none_iff] at hf
        simpa using hf f rfl
      · rcases bind_eq_error_iff.mp h with h | ⟨_, _, h⟩
        · obtain ⟨_, _, _, h⟩ := Verify.function_error h
          cases h
        · cases h
    | data =>
      simp only [hk] at h
      split at h
      · rename_i hg
        cases h
        exact ⟨rfl, .global hk hg⟩
      · rename_i g hg
        split at h
        · rename_i hs
          cases h
          exact ⟨rfl, .space hk hg hs⟩
        · rcases bind_eq_error_iff.mp h with h | ⟨_, _, h⟩
          · rcases Verify.global_error h with h | ⟨_, _, h⟩ <;> cases h
          · cases h
  · rintro ⟨rfl, h⟩
    cases h with
    | function hk hf =>
      have hnone : (m.function? s.name).filter (fun f => !f.isDeclaration) = none := by
        rw [Option.filter_eq_none_iff]
        intro f hsome
        simp [hf f hsome]
      simp only [define, hk, hnone]
    | global hk hg => simp only [define, hk, hg]
    | space hk hg hs => simp only [define, hk, hg, ne_eq, hs, not_false_eq_true, if_true]

namespace CompiledUnit

variable {m : Module} {kind : UnitKind} {d : SymbolEntry} {k : ModuleId} {error : LoadError}

lemma mem_describe_iff :
    d ∈ (describe m kind).symbols ↔ (∃ f ∈ m.functions, f.isDeclaration = false ∧ entryOfFunction f = d) ∨
      ∃ g ∈ m.globals, SymbolEntry.global g.name g.space g.visibility = d := by
  simp [describe, and_assoc]

lemma forward_of_lacking {f : Function} (hf : f ∈ m.functions) (hdecl : f.isDeclaration = false)
    (h : (Graph.symbolOfEntry k (entryOfFunction f)).Lacking m error) :
    error = .undefined f.name ∧ m.forward f.name = true := by
  cases h with
  | global hk | space hk => cases hk
  | function _ hfirst =>
    obtain ⟨first, hsome⟩ : ∃ first, m.function? f.name = some first :=
      Option.isSome_iff_exists.mp (List.find?_isSome.mpr ⟨f, hf, by simp⟩)
    exact ⟨rfl, Module.forward_iff.mpr ⟨⟨first, hsome, hfirst first hsome⟩, f, hf, rfl, hdecl⟩⟩

lemma not_lacking_of_global (hn : ((describe m kind).symbols.map (·.name)).Nodup) {v : Global} (hv : v ∈ m.globals) :
    ¬ (Graph.symbolOfEntry k (.global v.name v.space v.visibility)).Lacking m error := by
  intro h
  cases h with
  | function hk => cases hk
  | global _ hnone =>
    have hnone : m.globals.find? (·.name = v.name) = none := hnone
    simpa using List.find?_eq_none.mp hnone v hv
  | @space g _ hg hs =>
    -- a second variable of that name would be listed as well
    have hname : g.name = v.name := Module.name_of_global? hg
    have heq := List.inj_on_of_nodup_map hn (mem_describe_iff.mpr (.inr ⟨g, List.mem_of_find?_eq_some hg, rfl⟩))
      (mem_describe_iff.mpr (.inr ⟨v, hv, rfl⟩)) hname
    exact hs (congrArg SymbolEntry.space heq)

lemma lacking_iff_forward (hn : ((describe m kind).symbols.map (·.name)).Nodup)
    (hd : d ∈ (describe m kind).symbols) :
    (Graph.symbolOfEntry k d).Lacking m error ↔ error = .undefined d.name ∧ m.forward d.name = true := by
  constructor
  · intro h
    rcases mem_describe_iff.mp hd with ⟨f, hf, hdecl, rfl⟩ | ⟨v, hv, rfl⟩
    · exact forward_of_lacking hf hdecl h
    · exact absurd h (not_lacking_of_global hn hv)
  · rintro ⟨rfl, hfwd⟩
    obtain ⟨⟨first, hsome, hfirst⟩, f, hf, hname, hdecl⟩ := Module.forward_iff.mp hfwd
    have hentry := eq_entryOfFunction hn hd hf hname hdecl
    refine .function (by rw [hentry]; rfl) fun first' hsome' => ?_
    obtain rfl := Option.some.inj (hsome.symm.trans hsome')
    exact hfirst

end CompiledUnit

namespace Session

def Forwards (modules : List (Module × UnitKind)) (g : Graph) (roots : List SymbolId) (name x : String) : Prop :=
  ∃ id sym m kind, g.symbols[id]? = some sym ∧ g.Reaches roots (.symbol id) ∧ modules[sym.owner]? = some (m, kind) ∧
    m.name = name ∧ sym.name = x ∧ m.forward x = true

variable {modules : List (Module × UnitKind)} {options : Options} {e : Strategy} {g : Graph} {roots : List SymbolId}

section Decoded

variable (hdec : ∀ x ∈ modules, ∃ m, Container.decode (Container.encode .current x.1) = .ok m)
  (hg : Graph.build (describing modules options).units = .ok g)

include hdec hg

lemma outcome_eq_load_iff {id : SymbolId} {sym : Symbol} (hs : g.symbols[id]? = some sym) {name : String}
    {error : LoadError} :
    ((describing modules options).program g).outcome id = .error (.load name error) ↔
      ∃ m kind, modules[sym.owner]? = some (m, kind) ∧ m.name = name ∧ error = .undefined sym.name ∧
        m.forward sym.name = true := by
  obtain ⟨k, u, d, hu, hd, rfl⟩ := Graph.mem_symbolsOf.mp (Graph.symbols_of_build hg ▸ List.mem_of_getElem? hs)
  obtain ⟨m, kind, hm, rfl⟩ := units_describing hu
  have hmem := List.mem_of_getElem? hm
  obtain ⟨m', hm'⟩ := hdec _ hmem
  have hname : g.moduleName k = m.name := Graph.moduleName_of_build hg hu
  have hfetch : ((describing modules options).program g).source.fetch (g.moduleName k) = .ok m := by
    rw [hname]
    exact Source.fetch_encode (source_describing hg hmem) hm'
  have hn := (Graph.distinct_of_build hg).entries (List.mem_of_getElem? hu)
  have hout : ((describing modules options).program g).outcome id =
      ((describing modules options).program g).define (Graph.symbolOfEntry k d) m := by
    rw [Program.outcome_of_symbol (Graph.build_bounded hg) hs]
    exact congrArg (fun r => (Loader.answer (g.moduleName k) r).bind _) hfetch
  rw [hout, Program.define_eq_load_iff, CompiledUnit.lacking_iff_forward hn hd]
  constructor
  · rintro ⟨hn, hfwd⟩
    exact ⟨m, kind, hm, hname.symm.trans hn, hfwd⟩
  · rintro ⟨m', kind', hm', rfl, hfwd⟩
    obtain ⟨rfl, rfl⟩ := Prod.mk.inj (Option.some.inj (hm.symm.trans hm'))
    exact ⟨hname, hfwd⟩

end Decoded

theorem load_failure_is_forward
    (hdec : ∀ x ∈ modules, ∃ m, Container.decode (Container.encode .current x.1) = .ok m)
    (hg : Graph.build (describing modules options).units = .ok g) (hr : g.roots options.extraRoots = .ok roots) :
    (∀ name error, ((analyzeBy e).run.run (describing modules options)).1 = .error (.load name error) →
      ∃ x, error = .undefined x ∧ Forwards modules g roots name x) ∧
    ∀ name x, Forwards modules g roots name x →
      (∃ id, g.Reaches roots (.symbol id) ∧
        ((describing modules options).program g).outcome id = .error (.load name (.undefined x))) ∧
      ∃ fault, ((analyzeBy e).run.run (describing modules options)).1 = .error fault := by
  constructor
  · intro name error h
    have hseg : checkSegments (describing modules options).options.segments = .ok () := by
      cases hc : checkSegments (describing modules options).options.segments with
      | ok => rfl
      | error fault =>
        obtain rfl := Except.error.inj ((analyzeBy_of_segments hc).symm.trans h)
        unfold checkSegments at hc
        split at hc <;> cases hc
    obtain ⟨id, hid, hout⟩ := exists_outcome_of_analyzeBy hseg hg hr h
    have hlt := Graph.symbol_mem_nodes.mp ((Graph.build_bounded hg).reaches (Graph.lt_of_mem_roots hg hr) hid)
    have hs := List.getElem?_eq_getElem hlt
    obtain ⟨m, kind, hm, hn, rfl, hfwd⟩ := (outcome_eq_load_iff hdec hg hs).mp hout
    exact ⟨_, rfl, id, _, m, kind, hs, hid, hm, hn, rfl, hfwd⟩
  · rintro name x ⟨id, sym, m, kind, hs, hid, hm, hn, rfl, hfwd⟩
    have hout := (outcome_eq_load_iff hdec hg hs).mpr ⟨m, kind, hm, hn, rfl, hfwd⟩
    exact ⟨⟨id, hid, hout⟩, exists_error_of_outcome hg hr hid hout⟩

def lateCode : Module where
  name := "app"
  functions := [
    { name := "main", result := .void, visibility := .external, blocks := [] },
    { name := "main", result := .void, visibility := .external, isKernel := true, blocks := [⟨0, [.ret none]⟩] }]

def lateGraph : Graph := (Graph.build (describing [(lateCode, .program)] {}).units).toOption.getD {}

lemma late_build : Graph.build (describing [(lateCode, .program)] {}).units = .ok lateGraph := rfl

lemma late_decodes : ∀ x ∈ [(lateCode, UnitKind.program)], ∃ m,
    Container.decode (Container.encode .current x.1) = .ok m := by
  intro x hx
  obtain rfl := List.mem_singleton.mp hx
  exact exists_of_isOk (by decide +kernel)

lemma late_forwards : Forwards [(lateCode, .program)] lateGraph [0] "app" "main" :=
  ⟨0, _, lateCode, .program, rfl, .root List.mem_cons_self, rfl, rfl, rfl, by decide⟩

theorem load_failure_is_forward_late :
    (∀ x ∈ [(lateCode, UnitKind.program)], ∃ m, Container.decode (Container.encode .current x.1) = .ok m) ∧
      Graph.build (describing [(lateCode, .program)] {}).units = .ok lateGraph ∧ lateGraph.roots [] = .ok [0] ∧
      Forwards [(lateCode, .program)] lateGraph [0] "app" "main" ∧
      ∃ fault, ((analyzeBy .alone).run.run (describing [(lateCode, .program)] {})).1 = .error fault := by
  have hroots : lateGraph.roots [] = .ok [0] := by decide
  obtain ⟨_, hfail⟩ := @load_failure_is_forward _ {} .alone lateGraph [0] late_decodes late_build hroots
  exact ⟨late_decodes, late_build, hroots, late_forwards, (hfail "app" "main" late_forwards).2⟩

theorem definition_is_not_found_late :
    (∀ x ∈ [(lateCode, UnitKind.program)], ∃ m, Container.decode (Container.encode .current x.1) = .ok m) ∧
      Graph.build (describing [(lateCode, .program)] {}).units = .ok lateGraph ∧ lateGraph.roots [] = .ok [0] ∧
      ((analyzeBy .alone).run.run (describing [(lateCode, .program)] {})).1 =
        .error (.load "app" (.undefined "main")) := by
  have hroots : lateGraph.roots [] = .ok [0] := by decide
  have hout : ((describing [(lateCode, .program)] {}).program lateGraph).outcome 0 =
      .error (.load "app" (.undefined "main")) :=
    (outcome_eq_load_iff late_decodes late_build rfl).mpr ⟨lateCode, .program, rfl, rfl, rfl, by decide⟩
  refine ⟨late_decodes, late_build, hroots, ?_⟩
  obtain ⟨fault, ha⟩ := exists_error_of_outcome late_build hroots (.root List.mem_cons_self) hout
  obtain ⟨id, hid, hfault⟩ := exists_outcome_of_analyzeBy (by decide) late_build hroots ha
  have hlt : id < 1 :=
    Graph.symbol_mem_nodes.mp ((Graph.build_bounded late_build).reaches (Graph.lt_of_mem_roots late_build hroots) hid)
  obtain rfl := Nat.lt_one_iff.mp hlt
  obtain rfl := Except.error.inj (hfault.symm.trans hout)
  exact ha

end Session

end DeviceLink
