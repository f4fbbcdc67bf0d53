import DeviceLink.Proofs.Build
import DeviceLink.Proofs.Session

namespace DeviceLink

def CompiledUnit.exports (u : CompiledUnit) : List String :=
  (u.symbols.filter fun e => e.kind = .function && (e.isKernel || (e.visibility = .external && u.kind = .program))).map
    (·.name)

namespace Graph

variable {units : List CompiledUnit} {g : Graph}

def isExported (g : Graph) (s : Symbol) : Bool := s.kind = .function && g.isRoot s

lemma isProgram_of_build (h : build units = .ok g) {u : CompiledUnit} {owner : ModuleId}
    (hu : units[owner]? = some u) : g.isProgram owner = (u.kind = .program : Bool) := by
  obtain ⟨m, hm, _, hk⟩ := exists_module_of_build h hu
  simp [isProgram, hm, hk]

lemma isExported_symbolOfEntry (h : build units = .ok g) {u : CompiledUnit} {owner : ModuleId}
    (hu : units[owner]? = some u) (e : SymbolEntry) :
    g.isExported (symbolOfEntry owner e) =
      (e.kind = .function && (e.isKernel || (e.visibility = .external && u.kind = .program))) := by
  have hp := isProgram_of_build h hu
  cases hk : e.isKernel <;> simp [isExported, isRoot, symbolOfEntry, Symbol.isExternal, hk, hp]

lemma exports_eq (h : build units = .ok g) :
    units.flatMap CompiledUnit.exports = (g.symbols.filter g.isExported).map (·.name) := by
  have hfst : units.flatMap CompiledUnit.exports = units.zipIdx.flatMap fun x => x.1.exports := by
    conv_lhs => rw [← List.zipIdx_map_fst 0 units, List.flatMap_map]
  rw [symbols_of_build h, symbolsOf, List.filter_flatMap, List.map_flatMap, hfst]
  refine List.flatMap_congr fun x hx => ?_
  have hu : units[x.2]? = some x.1 := List.mk_mem_zipIdx_iff_getElem?.mp hx
  rw [List.filter_map, List.map_map, CompiledUnit.exports]
  refine congrArg (List.map _) (List.filter_congr fun e _ => ?_)
  exact (isExported_symbolOfEntry h hu e).symm

lemma isExternal_of_isExported (h : build units = .ok g) {s : Symbol} (hs : s ∈ g.symbols)
    (he : g.isExported s = true) : s.isExternal = true := by
  rw [symbols_of_build h] at hs
  obtain ⟨⟨u, owner⟩, _, hs⟩ := List.mem_flatMap.mp hs
  obtain ⟨e, _, rfl⟩ := List.mem_map.mp hs
  cases hk : e.isKernel <;> simp_all [isExported, isRoot, symbolOfEntry, Symbol.isExternal]

end Graph

namespace Linked

variable {g : Graph} {r : Reached} {id : SymbolId}

lemma eq_ofModule_of_link {options : Options} {l : Linked} (h : link g r options = .ok l) :
    l = ofModule options.segments l.code := by
  obtain ⟨_, _, h⟩ := Fallible.bind_eq_ok_iff.mp h
  obtain ⟨code, _, h⟩ := Fallible.bind_eq_ok_iff.mp h
  split at h
  · cases h
  · cases h
    rfl

def exported (g : Graph) (id : SymbolId) : Bool := g.symbols[id]?.any g.isExported

section Emits

variable {units : List CompiledUnit} {p : Program} {roots : List SymbolId} {d : Definition}

lemma linkage_eq (g : Graph) (r : Reached) (s : Symbol) :
    (Naming.ofReached g r).linkage s = if g.isExported s then .external else .internal := rfl

lemma visible_iff_exported (hg : Graph.build units = .ok p.graph) (hc : p.Covers roots r)
    (h : (Naming.ofReached p.graph r).Emits id d) :
    exported p.graph id = (d.function?.filter (·.visibility = .external)).isSome ∧
      ∀ x, d.global? = some x → x.visibility = .internal := by
  obtain ⟨hf, _⟩ := kind_of_emits hg hc h
  obtain ⟨s, b, hs, _, rfl⟩ := h
  have hs : p.graph.symbols[id]? = some s := hs
  have hx : exported p.graph id = p.graph.isExported s := by rw [exported, hs, Option.any_some]
  cases b with
  | function v =>
    refine ⟨?_, nofun⟩
    rw [hx]
    cases he : p.graph.isExported s <;> simp [Naming.image, Definition.function?, linkage_eq, he]
  | global d =>
    have hn : p.graph.isExported s = false := by
      simp_all [Naming.image, Definition.function?, Graph.isExported]
    refine ⟨by simp [hx, hn, Naming.image, Definition.function?], ?_⟩
    rintro _ ⟨⟩
    simp [linkage_eq, hn]

lemma map_name_visible (hg : Graph.build units = .ok p.graph) (hc : p.Covers roots r) {ds : List Definition}
    (h : (Naming.ofReached p.graph r).definitions = .ok ds) :
    ((ds.filterMap Definition.function?).filter (·.visibility = .external)).map (·.name) =
      ((r.marks.symbols p.graph).filter (exported p.graph)).map (Naming.ofReached p.graph r).name := by
  have he := forall₂_filterMap (Naming.forall₂_emits hg hc h) fun _ _ hd => (visible_iff_exported hg hc hd).1
  rw [List.filter_filterMap, Eq.comm, ← List.forall₂_eq_eq_eq, List.forall₂_map_left_iff, List.forall₂_map_right_iff]
  refine he.imp ?_
  rintro id f ⟨d, hd, hf⟩
  obtain ⟨hf, _⟩ := Option.filter_eq_some_iff.mp hf
  obtain rfl := function?_eq_some_iff.mp hf
  exact (Naming.name_of_emits hd).symm

lemma map_name_exported (hx : ∀ id, exported g id = true → r.isReached id = true)
    (he : ∀ s ∈ g.symbols, g.isExported s = true → s.isExternal = true) :
    ((r.marks.symbols g).filter (exported g)).map (Naming.ofReached g r).name =
      (g.symbols.filter g.isExported).map (·.name) := by
  -- nothing that is exported was left behind
  have hids : (r.marks.symbols g).filter (exported g) = g.symbolIds.filter (exported g) := by
    rw [Marks.symbols, List.filter_filter]
    refine List.filter_congr fun id _ => ?_
    cases hid : exported g id with
    | false => rfl
    | true => exact hx id hid
  have hname : ∀ id ∈ g.symbolIds.filter (exported g),
      some ((Naming.ofReached g r).name id) = g.symbols[id]?.map (·.name) := by
    intro id hid
    obtain ⟨s, hs, hxs⟩ := (Option.any_eq_true _ _).mp (List.mem_filter.mp hid).2
    rw [hs, Naming.name_of_isExternal ?_ hs (he s (List.mem_of_getElem? hs) hxs)]
    · rfl
    · exact (List.mem_filter.mp (hids ▸ hid)).1
  rw [hids, ← filterMap_filter_range g.symbols g.isExported, List.map_filterMap, ← List.filterMap_eq_map]
  exact List.filterMap_congr hname

end Emits

end Linked

namespace Session

variable {s : Session} {e : Strategy} {out : Output}

lemma Links.isReached_of_exported {roots : List SymbolId} {a : Analysis} (h : s.Links e roots a out) {id : SymbolId}
    (hid : Linked.exported a.graph id = true) : a.reached.isReached id = true := by
  obtain ⟨sym, hs, hx⟩ := (Option.any_eq_true _ _).mp hid
  have hroot : id ∈ roots := (Graph.mem_roots_iff h.walks.rooted).mpr (.inl ⟨sym, hs, (Bool.and_eq_true_iff.mp hx).2⟩)
  exact h.walks.covers.marks.mpr (.root hroot)

lemma Links.map_name_visible {roots : List SymbolId} {a : Analysis} (h : s.Links e roots a out) :
    (out.linked.code.functions.filter (·.visibility = .external)).map (·.name) =
      s.units.flatMap CompiledUnit.exports := by
  obtain ⟨ds, hd, hcode⟩ := h.exists_definitions
  rw [Graph.exports_eq h.walks.built, hcode]
  refine (Linked.map_name_visible h.walks.built h.walks.covers hd).trans ?_
  exact Linked.map_name_exported (fun _ => h.isReached_of_exported)
    fun _ => Graph.isExternal_of_isExported h.walks.built

lemma Links.abiSurface_eq {roots : List SymbolId} {a : Analysis} (h : s.Links e roots a out) :
    out.linked.abiSurface = s.units.flatMap CompiledUnit.exports := by
  rw [Linked.eq_ofModule_of_link h.linked, ← h.map_name_visible]
  rfl

theorem abi_is_exact (h : ((runBy e).run.run s).1 = .ok out) :
    out.linked.abiSurface = s.units.flatMap CompiledUnit.exports ∧
    (out.linked.code.functions.filter (·.visibility = .external)).map (·.name) =
      s.units.flatMap CompiledUnit.exports ∧
    (∀ x ∈ s.units.flatMap CompiledUnit.exports, (Linked.defined out.linked.code).count x = 1) ∧
    (∀ f ∈ out.linked.code.functions, f.name ∉ s.units.flatMap CompiledUnit.exports → f.visibility = .internal) ∧
    (∀ d ∈ out.linked.code.globals, d.visibility = .internal) := by
  obtain ⟨roots, a, h⟩ := runBy_eq_ok_iff.mp h
  have hc := h.walks.covers
  obtain ⟨ds, hd, hcode⟩ := h.exists_definitions
  have hvisible := h.map_name_visible
  refine ⟨h.abiSurface_eq, hvisible, ?_, ?_, ?_⟩
  · intro x hx
    have hdup := Linked.duplicateExternals_eq_nil_of_link h.linked
    -- no other function and no global has the name either
    have hnodup : (Linked.defined out.linked.code).Nodup := by
      rw [hcode]
      exact (Linked.defined_perm _ ds _).nodup_iff.mpr (Linked.Naming.map_name_nodup h.walks.built hc hdup hd)
    rw [← hvisible] at hx
    obtain ⟨f, hf, rfl⟩ := List.mem_map.mp hx
    exact List.count_eq_one_of_mem hnodup
      (List.mem_append_left _ (List.mem_map_of_mem (List.mem_of_mem_filter hf)))
  · intro f hf hn
    cases hv : f.visibility with
    | internal => rfl
    | external =>
      rw [← hvisible] at hn
      exact (hn (List.mem_map_of_mem (List.mem_filter.mpr ⟨hf, by simp [hv]⟩))).elim
  · intro d hmem
    rw [hcode] at hmem
    obtain ⟨id, he⟩ := Linked.Naming.exists_emits_of_mem h.walks.built hc hd (Linked.mem_filterMap_global?.mp hmem)
    exact (Linked.visible_iff_exported h.walks.built hc he).2 d rfl

theorem abi_is_exact_twins :
    ∃ out, ((runBy .alone).run.run twins).1 = .ok out ∧ out.linked.abiSurface = ["main"] ∧
      (Linked.defined out.linked.code).count "main" = 1 := by
  obtain ⟨a, out, h⟩ := twins_links .alone
  have hrun := runBy_eq_ok_iff.mpr ⟨[0], a, h⟩
  obtain ⟨habi, _, hcount, _⟩ := abi_is_exact hrun
  have hx : twins.units.flatMap CompiledUnit.exports = ["main"] := by decide
  rw [hx] at habi hcount
  exact ⟨out, hrun, habi, hcount "main" List.mem_cons_self⟩

end Session

end DeviceLink
