import DeviceLink.Proofs.Build
import DeviceLink.Proofs.Container
import DeviceLink.Proofs.Session

/-! A unit that is described from its module lists whatever a definition of the module refers to, so what was
reached can be linked unless an external name is defined twice. -/

namespace DeviceLink

open Ir

def CompiledUnit.externals (u : CompiledUnit) : List String := (u.symbols.filter (·.isExternal)).map (·.name)

def Clash (units : List CompiledUnit) (x : String) (u v : CompiledUnit) : Prop :=
  ∃ i j : Nat, i ≠ j ∧ units[i]? = some u ∧ units[j]? = some v ∧ x ∈ u.externals ∧ x ∈ v.externals

namespace Graph

variable {units : List CompiledUnit} {g : Graph}

lemma mem_externals_iff (h : build units = .ok g) {k : ModuleId} {u : CompiledUnit} (hu : units[k]? = some u)
    {x : String} :
    x ∈ u.externals ↔ ∃ (id : SymbolId) (s : Symbol), g.symbols[id]? = some s ∧ s.owner = k ∧ s.name = x ∧
      s.isExternal = true := by
  constructor
  · intro hx
    obtain ⟨e, he, rfl⟩ := List.mem_map.mp hx
    obtain ⟨he, hv⟩ := List.mem_filter.mp he
    have hmem : symbolOfEntry k e ∈ g.symbols := by
      rw [symbols_of_build h]
      exact mem_symbolsOf.mpr ⟨k, u, e, hu, he, rfl⟩
    obtain ⟨id, hid⟩ := List.mem_iff_getElem?.mp hmem
    exact ⟨id, _, hid, rfl, rfl, (isExternal_symbolOfEntry k e).trans hv⟩
  · rintro ⟨id, s, hs, rfl, rfl, hv⟩
    obtain ⟨k, v, e, hv', he, rfl⟩ := mem_symbolsOf.mp (symbols_of_build h ▸ List.mem_of_getElem? hs)
    obtain rfl : v = u := Option.some.inj (hv'.symm.trans hu)
    exact List.mem_map_of_mem (List.mem_filter.mpr ⟨he, (isExternal_symbolOfEntry k e).symm.trans hv⟩)

lemma clash_of_mem_duplicateExternals (h : build units = .ok g) {i j : SymbolId}
    (hd : (i, j) ∈ g.duplicateExternals) : ∃ s t u v, g.symbols[i]? = some s ∧ g.symbols[j]? = some t ∧
      units[s.owner]? = some u ∧ units[t.owner]? = some v ∧ Clash units s.name u v := by
  obtain ⟨s, t, hlt, hs, ht, hse, hte, hn⟩ := (indexed_of_build h).exists_of_mem_duplicateExternals hd
  obtain ⟨u, hu⟩ := exists_unit_of_build h hs
  obtain ⟨v, hv⟩ := exists_unit_of_build h ht
  refine ⟨s, t, u, v, hs, ht, hu, hv, s.owner, t.owner, ?_, hu, hv, ?_, ?_⟩
  · -- in one unit a name stands for one symbol
    intro ho
    have hij := own?_eq_some_of_build h hs
    rw [ho, hn, own?_eq_some_of_build h ht] at hij
    exact Nat.ne_of_gt hlt (Option.some.inj hij)
  · exact (mem_externals_iff h hu).mpr ⟨i, s, hs, rfl, rfl, hse⟩
  · exact (mem_externals_iff h hv).mpr ⟨j, t, ht, rfl, hn.symm, hte⟩

lemma duplicateExternals_ne_nil_of_clash (h : build units = .ok g) {x : String} {u v : CompiledUnit}
    (hc : Clash units x u v) : g.duplicateExternals ≠ [] := by
  obtain ⟨i, j, hij, hu, hv, hxu, hxv⟩ := hc
  obtain ⟨id, s, hs, rfl, rfl, he⟩ := (mem_externals_iff h hu).mp hxu
  obtain ⟨id', t, ht, rfl, hn, he'⟩ := (mem_externals_iff h hv).mp hxv
  intro hd
  have hg := indexed_of_build h
  have hid : some id' = some id := by
    rw [← hg.external?_eq_some hd hs he, ← hg.external?_eq_some hd ht he', hn]
  obtain rfl := Option.some.inj hid
  exact hij (congrArg Symbol.owner (Option.some.inj (hs.symm.trans ht)))

end Graph

namespace Linked

variable {units : List CompiledUnit} {g : Graph}

lemma link_eq_error_of_duplicate (h : Graph.build units = .ok g) (hd : g.duplicateExternals ≠ []) (r : Reached)
    (options : Options) :
    ∃ x u v, Clash units x u v ∧ link g r options = .error (.duplicateExternal x u.name v.name) := by
  obtain ⟨⟨i, j⟩, rest, hcons⟩ := List.exists_cons_of_ne_nil hd
  have hmem : (i, j) ∈ g.duplicateExternals := hcons ▸ List.mem_cons_self
  obtain ⟨s, t, u, v, hs, ht, hu, hv, hclash⟩ := Graph.clash_of_mem_duplicateExternals h hmem
  refine ⟨s.name, u, v, hclash, ?_⟩
  rw [link, checkExternals, hcons]
  simp only [hs, ht, Option.map_some, Option.getD_some, Graph.moduleName_of_build h hu,
    Graph.moduleName_of_build h hv]
  rfl

end Linked

lemma Ir.Module.name_of_function? {m : Module} {x : String} {f : Function} (h : m.function? x = some f) :
    f.name = x := by
  simpa using List.find?_some h

lemma Ir.Module.name_of_global? {m : Module} {x : String} {d : Global} (h : m.global? x = some d) : d.name = x := by
  simpa using List.find?_some h

lemma CompiledUnit.eq_entryOfFunction {m : Module} {kind : UnitKind}
    (hn : ((describe m kind).symbols.map (·.name)).Nodup) {d : SymbolEntry} (hd : d ∈ (describe m kind).symbols)
    {f : Function} (hf : f ∈ m.functions) (hname : f.name = d.name) (hdecl : f.isDeclaration = false) :
    d = entryOfFunction f := by
  have hmem : entryOfFunction f ∈ (describe m kind).symbols :=
    List.mem_append_left _ (List.mem_map_of_mem (List.mem_filter.mpr ⟨hf, by simp [hdecl]⟩))
  exact List.inj_on_of_nodup_map hn hd hmem hname.symm

lemma CompiledUnit.mem_references_of_function {m : Module} {x : String} {f : Function} (hf : m.function? x = some f)
    (hd : f.isDeclaration = false) {r : Reference} (hr : r ∈ referencesOfFunction f) (kind : UnitKind) :
    r ∈ (describe m kind).references := by
  refine List.mem_append_left _ (List.mem_flatMap.mpr ⟨f, ?_, hr⟩)
  exact List.mem_filter.mpr ⟨List.mem_of_find?_eq_some hf, by simp [hd]⟩

namespace Program

variable {p : Program} {s : Symbol} {m : Module} {b : Body}

lemma mem_references_of_definedIn (hd : p.DefinedIn s m b) {v : Operand} (hv : v ∈ b.operands) {x : String}
    (hx : v.symbol? = some x) (kind : UnitKind) : ⟨s.name, .symbol x⟩ ∈ (CompiledUnit.describe m kind).references := by
  cases hd with
  | @function f verified _ hf hdecl hv' =>
    have hname : f.name = s.name := Module.name_of_function? hf
    obtain ⟨j, hj, hv⟩ := List.mem_flatMap.mp hv
    obtain ⟨i, hi, facts, rfl⟩ := Verify.exists_lower_of_verified hv' hj
    have hop := Verify.mem_operands_of_lower hv hx
    have hsym : x ∈ f.symbols :=
      Ordered.mem_ofList.mpr (List.mem_filterMap.mpr ⟨v, List.mem_flatMap.mpr ⟨i, hi, hop⟩, hx⟩)
    apply CompiledUnit.mem_references_of_function hf hdecl
    rw [← hname]
    exact List.mem_append_left _ (List.mem_map_of_mem hsym)
  | @global d _ hf _ _ =>
    have hname : d.name = s.name := Module.name_of_global? hf
    have hsym : d.symbol? = some x := Option.bind_eq_some_iff.mpr ⟨v, Option.mem_toList.mp hv, hx⟩
    refine List.mem_append_right _ (List.mem_flatMap.mpr ⟨d, List.mem_of_find?_eq_some hf, ?_⟩)
    rw [← hname]
    exact List.mem_map_of_mem (Option.mem_toList.mpr hsym)

end Program

namespace Source

lemma ofBlobs_eq_ok {blobs : List (String × Bytes)} (hn : (blobs.map (·.1)).Nodup) {name : String} {bytes : Bytes}
    (h : (name, bytes) ∈ blobs) : ofBlobs blobs name = .ok bytes := by
  have hl : blobs.reverse.lookup name = some bytes := by
    refine Linked.lookup_eq_some (List.mem_reverse.mpr h) fun q hq hk => ?_
    exact congrArg Prod.snd (List.inj_on_of_nodup_map hn (List.mem_reverse.mp hq) h hk)
  rw [ofBlobs, hl]

lemma eq_of_decode_encode {m m' : Module} (h : Container.decode (Container.encode .current m) = .ok m') : m' = m := by
  rw [Container.encode, Container.decode_wrap, if_neg (by decide), Container.readModule_compact] at h
  by_cases hd : m.toJson.depth ≤ Json.maxDepth
  · rw [if_pos hd] at h
    exact (Except.ok.inj h).symm
  · rw [if_neg hd] at h
    cases h

lemma eq_of_fetch_encode {source : Source} {m m' : Module} {name : String}
    (hs : source name = .ok (Container.encode .current m)) (h : source.fetch name = .ok m') : m' = m := by
  rw [fetch, hs] at h
  dsimp only at h
  split at h
  · cases h
  · rename_i hd
    split at h
    · cases h
      exact eq_of_decode_encode hd
    · cases h

lemma fetch_encode {source : Source} {m m' : Module} (hs : source m.name = .ok (Container.encode .current m))
    (hd : Container.decode (Container.encode .current m) = .ok m') : source.fetch m.name = .ok m := by
  obtain rfl := eq_of_decode_encode hd
  simp only [fetch, hs, hd, if_true]

end Source

namespace Session

def describing (modules : List (Module × UnitKind)) (options : Options) : Session where
  units := modules.map fun x => .describe x.1 x.2
  source := .ofBlobs (modules.map fun x => (x.1.name, Container.encode .current x.1))
  options

variable {modules : List (Module × UnitKind)} {options : Options} {e : Strategy} {g : Graph}

lemma source_describing (h : Graph.build (describing modules options).units = .ok g) {m : Module} {kind : UnitKind}
    (hm : (m, kind) ∈ modules) :
    (describing modules options).source m.name = .ok (Container.encode .current m) := by
  have hnames : ((modules.map fun x => (x.1.name, Container.encode .current x.1)).map (·.1)).Nodup := by
    simpa [describing, CompiledUnit.describe, Function.comp_def] using (Graph.distinct_of_build h).names
  exact Source.ofBlobs_eq_ok hnames (List.mem_map.mpr ⟨(m, kind), hm, rfl⟩)

lemma units_describing {k : ModuleId} {u : CompiledUnit} (hu : (describing modules options).units[k]? = some u) :
    ∃ m kind, modules[k]? = some (m, kind) ∧ CompiledUnit.describe m kind = u := by
  simpa [describing] using hu

lemma exists_describe (h : Graph.build (describing modules options).units = .ok g) {id : SymbolId} {sym : Symbol}
    (hs : g.symbols[id]? = some sym) {m : Module}
    (hm : (describing modules options).source.fetch (g.moduleName sym.owner) = .ok m) :
    ∃ kind, (describing modules options).units[sym.owner]? = some (.describe m kind) := by
  obtain ⟨u, hu⟩ := Graph.exists_unit_of_build h hs
  obtain ⟨m', kind, hk, rfl⟩ := units_describing hu
  rw [Graph.moduleName_of_build h hu] at hm
  obtain rfl := Source.eq_of_fetch_encode (source_describing h (List.mem_of_getElem? hk)) hm
  exact ⟨kind, hu⟩

lemma Walks.not_dangles {roots : List SymbolId} {r : Reached} {l : Loader}
    (h : (describing modules options).Walks e g roots (.ok r, l)) : ¬ Linked.Dangles g r := by
  rintro ⟨id, s, b, v, x, hs, hb, hv, hx, hn⟩
  obtain ⟨hid, hout⟩ := h.covers.bodies.mp hb
  obtain ⟨s', m, hs', hm, hd⟩ := (Program.outcome_eq_ok_iff h.bounded).mp hout
  obtain rfl : s' = s := Option.some.inj (hs'.symm.trans hs)
  obtain ⟨kind, hu⟩ := exists_describe h.built hs hm
  have hr := Program.mem_references_of_definedIn hd hv hx kind
  obtain ⟨n, hn', hreach⟩ := Graph.reaches_target h.built hu hs rfl hr hid
  obtain ⟨t, ht, rfl⟩ := Option.map_eq_some_iff.mp hn'
  exact hn ⟨t, ht, h.covers.marks.mpr hreach⟩

lemma exists_links_describing {roots : List SymbolId} (hs : checkSegments options.segments = .ok ())
    (hg : Graph.build (describing modules options).units = .ok g) (hr : g.roots options.extraRoots = .ok roots)
    (hok : ∀ id < g.symbols.length, (((describing modules options).program g).outcome id).isOk = true)
    (hd : g.duplicateExternals = []) : ∃ a out, (describing modules options).Links e roots a out := by
  have hb := Graph.build_bounded hg
  obtain ⟨r, l, hw⟩ := @exists_walks (describing modules options) e g roots hs hg hr fun id hid =>
    Fallible.exists_of_isOk (hok id (Graph.symbol_mem_nodes.mp (hb.reaches (Graph.lt_of_mem_roots hg hr) hid)))
  exact ⟨_, hw.exists_links hd hw.not_dangles⟩

theorem describing_links {a : Analysis} (h : ((analyzeBy e).run.run (describing modules options)).1 = .ok a) :
    ((∀ x u v, ¬ Clash (describing modules options).units x u v) →
      ∃ out, ((runBy e).run.run (describing modules options)).1 = .ok out) ∧
    ((∃ x u v, Clash (describing modules options).units x u v) →
      ∃ x u v, Clash (describing modules options).units x u v ∧
        ((runBy e).run.run (describing modules options)).1 = .error (.duplicateExternal x u.name v.name)) ∧
    ∀ referrer x, Linked.link a.graph a.reached options ≠ .error (.unresolved referrer x) := by
  obtain ⟨roots, h⟩ := analyzeBy_eq_ok_iff.mp h
  have hrun := runBy_of_walks h
  by_cases hd : a.graph.duplicateExternals = []
  · obtain ⟨l, hl⟩ := Linked.link_eq_ok h.built h.roots_lt h.covers hd h.not_dangles options
    refine ⟨fun _ => ⟨_, hrun.trans (congrArg _ hl)⟩, ?_, fun referrer x hu => ?_⟩
    · rintro ⟨x, u, v, hc⟩
      exact absurd hd (Graph.duplicateExternals_ne_nil_of_clash h.built hc)
    · cases hl.symm.trans hu
  · obtain ⟨x, u, v, hc, hl⟩ := Linked.link_eq_error_of_duplicate h.built hd a.reached options
    refine ⟨fun hno => absurd hc (hno x u v), fun _ => ⟨x, u, v, hc, hrun.trans (congrArg _ hl)⟩, ?_⟩
    intro referrer y hu
    cases hl.symm.trans hu

theorem describing_links_twins :
    ∃ a out, ((analyzeBy .alone).run.run (describing [(Linked.appCode, .program), (Linked.libCode, .library)] {})).1 =
        .ok a ∧
      ((runBy .alone).run.run (describing [(Linked.appCode, .program), (Linked.libCode, .library)] {})).1 = .ok out ∧
      ∀ referrer x, Linked.link a.graph a.reached {} ≠ .error (.unresolved referrer x) := by
  obtain ⟨a, _, hw⟩ := twins_links .alone
  have ha := analyzeBy_eq_ok_iff.mpr ⟨[0], hw.walks⟩
  have hno : ∀ x u v, ¬ Clash twins.units x u v := fun x u v hc =>
    Graph.duplicateExternals_ne_nil_of_clash hw.walks.built hc (Linked.duplicateExternals_eq_nil_of_link hw.linked)
  obtain ⟨hok, _, hun⟩ := @describing_links [(Linked.appCode, .program), (Linked.libCode, .library)] {} .alone a ha
  obtain ⟨out, hout⟩ := hok hno
  exact ⟨a, out, ha, hout, hun⟩

end Session

end DeviceLink
