import DeviceLink.Manifest
import DeviceLink.Proofs.Kernels

namespace DeviceLink

open Ir Fallible

lemma CompiledUnit.mem_exports {u : CompiledUnit} {x : String} :
    x ∈ u.exports ↔ ∃ d ∈ u.symbols, (d.kind = .function ∧ u.opens d = true) ∧ d.name = x := by
  simp only [exports, List.mem_map, List.mem_filter, Bool.and_eq_true, decide_eq_true_eq, and_assoc]
  rfl

lemma CompiledUnit.isExternal_of_opens {u : CompiledUnit} {d : SymbolEntry} (h : u.opens d = true) :
    d.isExternal = true := by
  simp only [opens, SymbolEntry.isExternal, Bool.or_eq_true, Bool.and_eq_true] at h ⊢
  exact h.imp_right And.left

namespace Graph

variable {units : List CompiledUnit} {g : Graph} {id : SymbolId} {x : String}

lemma exists_symbol_of_designated? (hg : g.Catalogued) (h : g.designated? x = some id) :
    ∃ s, g.symbols[id]? = some s ∧ s.name = x := by
  unfold designated? at h
  cases hx : g.external? x with
  | some first =>
    rw [hx] at h
    obtain ⟨hlt, hp, _⟩ := List.findIdx?_eq_some_iff_getElem.mp ((hg.external x).symm.trans (hx.trans h))
    exact ⟨_, List.getElem?_eq_getElem hlt, of_decide_eq_true (Bool.and_eq_true_iff.mp hp).2⟩
  | none =>
    rw [hx] at h
    obtain ⟨hlt, hp, _⟩ := List.findIdx?_eq_some_iff_getElem.mp h
    exact ⟨_, List.getElem?_eq_getElem hlt, of_decide_eq_true hp⟩

lemma opens_of_mem_exports (h : build units = .ok g) (hd : g.duplicateExternals = []) (hid : g.designated? x = some id)
    {u : CompiledUnit} {d : SymbolEntry} (hst : Stands units id u d) (hx : x ∈ units.flatMap CompiledUnit.exports) :
    u.opens d = true := by
  obtain ⟨v, hv, hx⟩ := List.mem_flatMap.mp hx
  obtain ⟨d', hd', ⟨_, ho⟩, hn⟩ := CompiledUnit.mem_exports.mp hx
  have hext := CompiledUnit.isExternal_of_opens ho
  obtain ⟨id', hst'⟩ := exists_stands_of_mem hv hd'
  have hid' : g.external? x = some id' := (external?_eq_some_iff h hd).mpr ⟨v, d', hst', hext, hn⟩
  have hmem : x ∈ v.externals := CompiledUnit.mem_externals.mpr ⟨d', hd', hext, hn⟩
  rw [designated?_eq_external? h ⟨v, hv, hmem⟩, hid'] at hid
  obtain rfl := Option.some.inj hid
  obtain ⟨rfl, rfl⟩ := hst.unique hst'
  exact ho

end Graph

namespace Session

variable {s : Session} {e : Strategy} {roots : List SymbolId} {a : Analysis} {out : Output} {x : String}

def Designates (s : Session) (x : String) : Prop :=
  x ∈ s.options.extraRoots ∨ ∃ (m : Manifest) (given : Options) (read : String → Except String Bytes),
    s = m.toSession given read ∧ x ∈ m.kernels

lemma Designates.mem_extraRoots (h : s.Designates x) : x ∈ s.options.extraRoots := by
  rcases h with h | ⟨m, given, read, rfl, hx⟩
  · exact h
  · exact List.mem_append_right _ hx

namespace Links

lemma exists_designated (h : s.Links e roots a out) (hx : s.Designates x) :
    ∃ id u d, a.graph.designated? x = some id ∧ Graph.Stands s.units id u d ∧ d.name = x ∧
      a.graph.Reaches roots (.symbol id) := by
  obtain ⟨id, hid⟩ := Graph.exists_roots_iff.mp ⟨_, h.walks.rooted⟩ _ hx.mem_extraRoots
  obtain ⟨sym, hs, hn⟩ := Graph.exists_symbol_of_designated? (Graph.indexed_of_build h.walks.built).toCatalogued hid
  obtain ⟨k, u, d, hst, _, rfl⟩ := Graph.exists_stands h.walks.built hs
  have hroot : id ∈ roots := (Graph.mem_roots_iff h.walks.rooted).mpr (.inr ⟨x, hx.mem_extraRoots, hid⟩)
  exact ⟨id, u, d, hid, hst, hn, .root hroot⟩

lemma name_eq_of_isExternal (h : s.Links e roots a out) {id : SymbolId} {u : CompiledUnit} {d : SymbolEntry}
    (hst : Graph.Stands s.units id u d) (hid : a.graph.Reaches roots (.symbol id)) (hd : d.isExternal = true)
    {f : Function} (hf : (Linked.Naming.ofReached a.graph a.reached).Emits id (.function f)) : f.name = d.name := by
  obtain ⟨k, _, hs⟩ := hst.exists_symbol h.walks.built
  have hi := Linked.Naming.mem_symbols_of_reaches h.walks.built h.walks.roots_lt h.walks.covers hid
  refine (Linked.Naming.name_of_emits hf).trans ?_
  exact Linked.Naming.name_of_isExternal hi hs ((Graph.isExternal_symbolOfEntry k d).trans hd)

end Links

theorem designated_is_visible_iff (h : ((runBy e).run.run s).1 = .ok out) :
    ∃ a, ((analyzeBy e).run.run s).1 = .ok a ∧ ∀ x, s.Designates x → ∃ id k u d,
      a.graph.designated? x = some id ∧ s.units[k]? = some u ∧ d ∈ u.symbols ∧ d.name = x ∧
      a.graph.symbols[id]? = some (Graph.symbolOfEntry k d) ∧ (u.name, x) ∈ a.reachedNames ∧
      (d.kind = .function → ∃ f ∈ out.linked.code.functions,
        (Linked.Naming.ofReached a.graph a.reached).Emits id (.function f) ∧
        (u.opens d = true → f.name = x ∧ f.visibility = .external ∧ x ∈ out.linked.abiSurface) ∧
        (u.opens d = false → f.visibility = .internal ∧ x ∉ out.linked.abiSurface)) := by
  obtain ⟨roots, a, h⟩ := runBy_eq_ok_iff.mp h
  refine ⟨a, analyzeBy_eq_ok_iff.mpr ⟨roots, h.walks⟩, fun x hx => ?_⟩
  obtain ⟨id, u, d, hid, hst, rfl, hreach⟩ := h.exists_designated hx
  obtain ⟨k, hu, hs⟩ := hst.exists_symbol h.walks.built
  refine ⟨id, k, u, d, hid, hu, hst.mem.2, rfl, hs, (h.walks.names_mem_reachedNames_iff hst).mpr hreach, fun hk => ?_⟩
  obtain ⟨f, hf, hy, he⟩ := h.exists_mem_yields hst hreach hk
  refine ⟨f, hf, he, fun ho => ⟨?_, ?_, ?_⟩, fun ho => ⟨?_, ?_⟩⟩
  · exact h.name_eq_of_isExternal hst hreach (CompiledUnit.isExternal_of_opens ho) he
  · rw [hy.visibility, ho, if_pos rfl]
  · rw [h.abiSurface_eq]
    exact List.mem_flatMap.mpr ⟨u, hst.mem.1, CompiledUnit.mem_exports.mpr ⟨d, hst.mem.2, ⟨hk, ho⟩, rfl⟩⟩
  · rw [hy.visibility, ho]
    rfl
  · rw [h.abiSurface_eq]
    intro hmem
    have hdup := Linked.duplicateExternals_eq_nil_of_link h.linked
    exact Bool.false_ne_true (ho.symm.trans (Graph.opens_of_mem_exports h.walks.built hdup hid hst hmem))

def quietCode : Module where
  name := "app"
  functions := [
    { name := "main", result := .void, visibility := .external, isKernel := true, blocks := [⟨0, [.ret none]⟩] },
    { name := "warm", result := .void, blocks := [⟨0, [.ret none]⟩] }]

def toolCode : Module where
  name := "lib"
  functions := [{ name := "api", result := .void, visibility := .external, blocks := [⟨0, [.ret none]⟩] }]

def quiet : Session :=
  describing [(quietCode, .program), (toolCode, .library)] { extraRoots := ["main", "warm", "api"] }

lemma quiet_links : ∃ a out, quiet.Links .alone [0, 1, 2] a out :=
  exists_links_of_closed (g := (Graph.build quiet.units).toOption.getD {}) (by decide) rfl (by decide) (by decide)
    (by decide +kernel)

lemma quiet_abiSurface {out : Output} (h : quiet.Links e roots a out) : out.linked.abiSurface = ["main"] := by
  rw [h.abiSurface_eq]
  decide

theorem designated_is_visible_iff_quiet :
    ∃ out, ((runBy .alone).run.run quiet).1 = .ok out ∧ quiet.Designates "main" ∧
      ∃ f ∈ out.linked.code.functions, f.name = "main" ∧ f.visibility = .external ∧
        "main" ∈ out.linked.abiSurface := by
  obtain ⟨_, out, h⟩ := quiet_links
  have hrun := runBy_eq_ok_iff.mpr ⟨_, _, h⟩
  have hmain : quiet.Designates "main" := .inl (by decide)
  obtain ⟨a, ha, hdes⟩ := designated_is_visible_iff hrun
  obtain ⟨id, k, u, d, hid, hu, hd, hn, _, _, hf⟩ := hdes "main" hmain
  -- one entry alone has the name
  have hentry : ∀ u ∈ quiet.units, ∀ d ∈ u.symbols, d.name = "main" → d.kind = .function ∧ u.opens d = true := by
    decide
  obtain ⟨hk, ho⟩ := hentry u (List.mem_of_getElem? hu) d hd hn
  obtain ⟨f, hmem, _, hvis, _⟩ := hf hk
  exact ⟨out, hrun, hmain, f, hmem, hvis ho⟩

theorem designated_is_internal_quiet :
    ∃ out, ((runBy .alone).run.run quiet).1 = .ok out ∧ quiet.Designates "warm" ∧ quiet.Designates "api" ∧
      (∃ f ∈ out.linked.code.functions, f.name = "app__warm" ∧ f.visibility = .internal) ∧
      (∃ f ∈ out.linked.code.functions, f.name = "api" ∧ f.visibility = .internal) ∧
      "warm" ∉ out.linked.abiSurface ∧ "api" ∉ out.linked.abiSurface := by
  obtain ⟨a, out, h⟩ := quiet_links
  have hg : a.graph = (Graph.build quiet.units).toOption.getD {} := Except.ok.inj h.walks.built.symm
  have hall : ∀ id < a.graph.symbols.length, a.graph.Reaches [0, 1, 2] (.symbol id) := by
    rw [hg]
    intro id hid
    match id, hid with
    | 0, _ | 1, _ | 2, _ => exact .root (by decide)
  have hwarm : Graph.Stands quiet.units 1 (.describe quietCode .program) (.function "warm" .internal) := ⟨0, rfl, rfl⟩
  have hapi : Graph.Stands quiet.units 2 (.describe toolCode .library) (.function "api" .external) := ⟨1, rfl, rfl⟩
  obtain ⟨f, hf, hy, he⟩ := h.exists_mem_yields hwarm (.root (by decide)) rfl
  obtain ⟨f', hf', hy', he'⟩ := h.exists_mem_yields hapi (.root (by decide)) rfl
  refine ⟨out, runBy_eq_ok_iff.mpr ⟨_, a, h⟩, .inl (by decide), .inl (by decide), ⟨f, hf, ?_, hy.visibility⟩,
    ⟨f', hf', h.name_eq_of_isExternal hapi (.root (by decide)) rfl he', hy'.visibility⟩, ?_, ?_⟩
  · refine (Linked.Naming.name_of_emits he).trans ?_
    rw [h.name_eq hall, hg]
    decide +kernel
  · rw [quiet_abiSurface h]
    decide
  · rw [quiet_abiSurface h]
    decide

end Session

end DeviceLink
