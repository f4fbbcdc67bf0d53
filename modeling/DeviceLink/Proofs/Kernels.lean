import DeviceLink.Proofs.Described
import DeviceLink.Proofs.Entries

/-! What the host is told about the functions of a linked module. A function is a kernel if its bitcode says so, and
visible if the table of its unit does; the two may differ. -/

namespace DeviceLink

open Ir

structure Linked.Agrees (l : Linked) : Prop where
  visible (x : String) : x ∈ l.abiSurface ↔ x ∈ l.kernels ∨ x ∈ l.code.used
  disjoint {x : String} (hx : x ∈ l.kernels) : x ∉ l.code.used
  external {x : String} (hx : x ∈ l.kernels) : ∃ f ∈ l.code.functions, f.name = x ∧ f.visibility = .external

namespace Session

variable {s : Session} {e : Strategy} {roots : List SymbolId} {a : Analysis} {out : Output}

namespace Links

section Lists

variable (h : s.Links e roots a out) {x : String}

include h

lemma mem_kernels_iff :
    x ∈ out.linked.kernels ↔ ∃ f ∈ out.linked.code.functions, f.isKernel = true ∧ f.name = x := by
  rw [Linked.eq_ofModule_of_link h.linked]
  simp [Linked.ofModule, Module.kernels, and_assoc]

lemma mem_abiSurface_iff :
    x ∈ out.linked.abiSurface ↔ ∃ f ∈ out.linked.code.functions, f.visibility = .external ∧ f.name = x := by
  rw [Linked.eq_ofModule_of_link h.linked]
  simp [Linked.ofModule, and_assoc]

lemma mem_used_iff :
    x ∈ out.linked.code.used ↔
      ∃ f ∈ out.linked.code.functions, f.visibility = .external ∧ f.isKernel = false ∧ f.name = x := by
  obtain ⟨ds, _, hcode⟩ := h.exists_definitions
  rw [hcode]
  simp [Linked.assemble, and_assoc]

lemma function_eq_of_name {f f' : Function} (hf : f ∈ out.linked.code.functions)
    (hf' : f' ∈ out.linked.code.functions) (hn : f.name = f'.name) : f = f' := by
  obtain ⟨ds, hd, hcode⟩ := h.exists_definitions
  have hnodup : (Linked.defined out.linked.code).Nodup := by
    rw [hcode]
    have hdup := Linked.duplicateExternals_eq_nil_of_link h.linked
    exact (Linked.defined_perm _ ds _).nodup_iff.mpr
      (Linked.Naming.map_name_nodup h.walks.built h.walks.covers hdup hd)
  exact List.inj_on_of_nodup_map (List.nodup_append'.mp hnodup).1 hf hf' hn

lemma notMem_used_of_mem_kernels (hx : x ∈ out.linked.kernels) : x ∉ out.linked.code.used := by
  intro hu
  obtain ⟨f, hf, hk, rfl⟩ := h.mem_kernels_iff.mp hx
  obtain ⟨f', hf', _, hk', hn⟩ := h.mem_used_iff.mp hu
  obtain rfl := h.function_eq_of_name hf' hf hn
  exact Bool.false_ne_true (hk'.symm.trans hk)

lemma mem_abiSurface_iff_kernel_or_used :
    x ∈ out.linked.abiSurface ↔ (x ∈ out.linked.kernels ∧ x ∈ out.linked.abiSurface) ∨ x ∈ out.linked.code.used := by
  constructor
  · intro hx
    obtain ⟨f, hf, hv, hn⟩ := h.mem_abiSurface_iff.mp hx
    cases hk : f.isKernel with
    | true => exact .inl ⟨h.mem_kernels_iff.mpr ⟨f, hf, hk, hn⟩, hx⟩
    | false => exact .inr (h.mem_used_iff.mpr ⟨f, hf, hv, hk, hn⟩)
  · rintro (⟨_, hx⟩ | hx)
    · exact hx
    · obtain ⟨f, hf, hv, _, hn⟩ := h.mem_used_iff.mp hx
      exact h.mem_abiSurface_iff.mpr ⟨f, hf, hv, hn⟩

lemma agrees_iff :
    out.linked.Agrees ↔ ∀ f ∈ out.linked.code.functions, f.isKernel = true → f.visibility = .external := by
  constructor
  · intro hagree f hf hk
    obtain ⟨f', hf', hn, hv⟩ := hagree.external (h.mem_kernels_iff.mpr ⟨f, hf, hk, rfl⟩)
    exact h.function_eq_of_name hf' hf hn ▸ hv
  · intro hall
    have hkernel {x : String} (hx : x ∈ out.linked.kernels) :
        ∃ f ∈ out.linked.code.functions, f.name = x ∧ f.visibility = .external := by
      obtain ⟨f, hf, hk, hn⟩ := h.mem_kernels_iff.mp hx
      exact ⟨f, hf, hn, hall f hf hk⟩
    refine ⟨fun x => h.mem_abiSurface_iff_kernel_or_used.trans (or_congr_left ?_), h.notMem_used_of_mem_kernels,
      hkernel⟩
    refine and_iff_left_of_imp fun hx => ?_
    obtain ⟨f, hf, hn, hv⟩ := hkernel hx
    exact h.mem_abiSurface_iff.mpr ⟨f, hf, hv, hn⟩

end Lists

end Links

structure Yields (s : Session) (u : CompiledUnit) (d : SymbolEntry) (f : Function) : Prop where
  kind : d.kind = .function
  kernel : ∃ m b, s.source.fetch u.name = .ok m ∧ m.function? d.name = some b ∧ b.isDeclaration = false ∧
    b.isKernel = f.isKernel
  visibility : f.visibility = if u.opens d then .external else .internal

namespace Links

lemma yields (h : s.Links e roots a out) {id : SymbolId} {k : ModuleId} {u : CompiledUnit} {d : SymbolEntry}
    (hu : s.units[k]? = some u) {m : Module} (hm : s.source.fetch (a.graph.moduleName k) = .ok m)
    {v : Verify.Verified} (hdef : (s.program a.graph).DefinedIn (Graph.symbolOfEntry k d) m (.function v))
    {f : Function} (himage : (Linked.Naming.ofReached a.graph a.reached).image id (Graph.symbolOfEntry k d)
      (.function v) = .function f) : s.Yields u d f := by
  cases himage
  cases hdef with
  | @function b _ hk hb hdecl hv =>
    obtain ⟨blocks, hblocks, _⟩ := Verify.function_lowered hv
    have hflag : b.isKernel = v.function.isKernel := by rw [hblocks]
    rw [Graph.moduleName_of_build h.walks.built hu] at hm
    refine ⟨hk, ⟨m, b, hm, hb, hdecl, hflag⟩, ?_⟩
    have hexp : a.graph.isExported (Graph.symbolOfEntry k d) = u.opens d := by
      rw [Graph.isExported, Graph.isRoot_symbolOfEntry h.walks.built hu]
      simp [hk]
    simp only [Linked.linkage_eq, hexp]

lemma exists_yields_of_mem (h : s.Links e roots a out) {f : Function} (hf : f ∈ out.linked.code.functions) :
    ∃ id u d, Graph.Stands s.units id u d ∧ a.graph.Reaches roots (.symbol id) ∧ s.Yields u d f := by
  obtain ⟨id, sym, m, v, hs, hb, hm, hdef, himage⟩ := h.exists_of_mem_functions hf
  obtain ⟨k, u, d, hst, hu, rfl⟩ := Graph.exists_stands h.walks.built hs
  exact ⟨id, u, d, hst, (h.walks.covers.bodies.mp hb).1, h.yields hu hm hdef himage⟩

lemma exists_mem_yields (h : s.Links e roots a out) {id : SymbolId} {u : CompiledUnit} {d : SymbolEntry}
    (hst : Graph.Stands s.units id u d) (hid : a.graph.Reaches roots (.symbol id)) (hk : d.kind = .function) :
    ∃ f ∈ out.linked.code.functions, s.Yields u d f ∧
      (Linked.Naming.ofReached a.graph a.reached).Emits id (.function f) := by
  obtain ⟨k, hu, hs⟩ := hst.exists_symbol h.walks.built
  obtain ⟨f, hf, m, v, hm, hdef, himage⟩ := h.exists_mem_functions hs hk hid
  have hbody : a.reached.body? id = some (.function v) :=
    h.walks.covers.bodies.mpr ⟨hid, (Program.outcome_eq_ok_iff h.walks.bounded).mpr ⟨_, m, hs, hm, hdef⟩⟩
  exact ⟨f, hf, h.yields hu hm hdef himage, _, _, hs, hbody, himage⟩

lemma name_eq (h : s.Links e roots a out) (hall : ∀ id < a.graph.symbols.length, a.graph.Reaches roots (.symbol id))
    (id : SymbolId) : (Linked.Naming.ofReached a.graph a.reached).name id =
      ((Linked.assignNames a.graph a.graph.symbolIds).lookup id).getD "" := by
  have hids : a.reached.marks.symbols a.graph = a.graph.symbolIds :=
    List.filter_eq_self.mpr fun id hid => h.walks.covers.marks.mpr (hall id (List.mem_range.mp hid))
  rw [Linked.Naming.name, Linked.Naming.ofReached, hids]

end Links

/-- The bitcode of a unit has a kernel where its table has a function that is not exported. -/
structure HidesKernel (s : Session) (u : CompiledUnit) (d : SymbolEntry) : Prop where
  mem : d ∈ u.symbols
  kind : d.kind = .function
  hidden : u.opens d = false
  kernel : ∃ m f, s.source.fetch u.name = .ok m ∧ m.function? d.name = some f ∧ f.isKernel = true

lemma Links.agrees_iff_not_hidden (h : s.Links e roots a out) :
    out.linked.Agrees ↔ ∀ u ∈ s.units, ∀ d, s.HidesKernel u d → (u.name, d.name) ∉ a.reachedNames := by
  rw [h.agrees_iff]
  constructor
  · rintro hall u hu d ⟨hd, hk, hhid, m, b, hm, hb, hkernel⟩ hreach
    obtain ⟨id, hst⟩ := Graph.exists_stands_of_mem hu hd
    obtain ⟨f, hf, hy, _⟩ := h.exists_mem_yields hst ((h.walks.names_mem_reachedNames_iff hst).mp hreach) hk
    obtain ⟨m', b', hm', hb', _, hflag⟩ := hy.kernel
    obtain rfl := Except.ok.inj (hm'.symm.trans hm)
    obtain rfl := Option.some.inj (hb'.symm.trans hb)
    have hv := hall f hf (hflag.symm.trans hkernel)
    rw [hy.visibility, hhid] at hv
    cases hv
  · intro hno f hf hkernel
    obtain ⟨id, u, d, hst, hid, hy⟩ := h.exists_yields_of_mem hf
    obtain ⟨m, b, hm, hb, _, hflag⟩ := hy.kernel
    cases ho : u.opens d with
    | true => rw [hy.visibility, ho, if_pos rfl]
    | false =>
      have hhid : s.HidesKernel u d := ⟨hst.mem.2, hy.kind, ho, m, b, hm, hb, hflag.trans hkernel⟩
      exact absurd ((h.walks.names_mem_reachedNames_iff hst).mpr hid) (hno u hst.mem.1 d hhid)

section Described

variable {modules : List (Module × UnitKind)} {options : Options}

lemma Walks.not_hidesKernel (h : (describing modules options).Walks e a.graph roots (.ok a.reached, a.loader))
    {u : CompiledUnit} {d : SymbolEntry} (hu : u ∈ (describing modules options).units)
    (hr : (u.name, d.name) ∈ a.reachedNames) : ¬ (describing modules options).HidesKernel u d := by
  rintro ⟨hd, hk, hhid, m, b, hm, hb, hkernel⟩
  obtain ⟨id, hst⟩ := Graph.exists_stands_of_mem hu hd
  obtain ⟨k, hu', hs⟩ := hst.exists_symbol h.built
  obtain ⟨body, hbody⟩ := h.covers.defined ((h.names_mem_reachedNames_iff hst).mp hr)
  obtain ⟨sym, m', hs', hm', hdef⟩ := (Program.outcome_eq_ok_iff h.bounded).mp hbody
  obtain rfl := Option.some.inj (hs.symm.trans hs')
  obtain ⟨kind, hkind⟩ := exists_describe h.built hs hm'
  obtain rfl := Option.some.inj (hu'.symm.trans hkind)
  obtain rfl : m = m' := by
    have hname : a.graph.moduleName k = (CompiledUnit.describe m' kind).name :=
      Graph.moduleName_of_build h.built hu'
    exact Except.ok.inj (hm.symm.trans (hname ▸ hm'))
  cases hdef with
  | global hk' => cases hk'.symm.trans hk
  | @function f _ _ hf hdecl _ =>
    obtain rfl := Option.some.inj (hf.symm.trans hb)
    have hentry := CompiledUnit.eq_entryOfFunction ((Graph.distinct_of_build h.built).entries hu) hd
      (List.mem_of_find?_eq_some hf) (Module.name_of_function? hf) hdecl
    rw [hentry, CompiledUnit.opens, CompiledUnit.entryOfFunction, hkernel] at hhid
    cases hhid

theorem describing_agrees (h : ((runBy e).run.run (describing modules options)).1 = .ok out) : out.linked.Agrees := by
  obtain ⟨roots, a, h⟩ := runBy_eq_ok_iff.mp h
  exact h.agrees_iff_not_hidden.mpr fun u hu d hhid hr => h.walks.not_hidesKernel hu hr hhid

end Described

theorem host_lists_agree_iff (h : ((runBy e).run.run s).1 = .ok out) :
    ∃ a, ((analyzeBy e).run.run s).1 = .ok a ∧
      (∀ x, x ∈ out.linked.abiSurface ↔
        (x ∈ out.linked.kernels ∧ x ∈ s.units.flatMap CompiledUnit.exports) ∨ x ∈ out.linked.code.used) ∧
      (∀ x ∈ out.linked.kernels, x ∉ out.linked.code.used) ∧
      (out.linked.Agrees ↔ ∀ u ∈ s.units, ∀ d, s.HidesKernel u d → (u.name, d.name) ∉ a.reachedNames) := by
  obtain ⟨roots, a, h⟩ := runBy_eq_ok_iff.mp h
  refine ⟨a, analyzeBy_eq_ok_iff.mpr ⟨roots, h.walks⟩, fun x => ?_, fun x => h.notMem_used_of_mem_kernels,
    h.agrees_iff_not_hidden⟩
  rw [← h.abiSurface_eq]
  exact h.mem_abiSurface_iff_kernel_or_used

theorem host_lists_agree_iff_twins :
    ∃ out, ((runBy .alone).run.run twins).1 = .ok out ∧ out.linked.abiSurface = ["main"] ∧
      (("main" ∈ out.linked.kernels ∧ "main" ∈ twins.units.flatMap CompiledUnit.exports) ∨
        "main" ∈ out.linked.code.used) ∧ out.linked.Agrees := by
  obtain ⟨_, out, hl⟩ := twins_links .alone
  have hrun := runBy_eq_ok_iff.mpr ⟨[0], _, hl⟩
  obtain ⟨a, ha, hvisible, _, hagree⟩ := host_lists_agree_iff hrun
  obtain ⟨roots, hw⟩ := analyzeBy_eq_ok_iff.mp ha
  have hw : (describing [(Linked.appCode, .program), (Linked.libCode, .library)] {}).Walks .alone a.graph roots
    (.ok a.reached, a.loader) := hw
  have habi : out.linked.abiSurface = ["main"] := by
    rw [hl.abiSurface_eq]
    decide
  exact ⟨out, hrun, habi, (hvisible "main").mp (habi ▸ List.mem_cons_self),
    hagree.mpr fun u hu d hhid hr => hw.not_hidesKernel hu hr hhid⟩

def maskedCode : Module where
  name := "app"
  functions := [
    { name := "main", result := .void, visibility := .external, isKernel := true, blocks := [⟨0, [.ret none]⟩] },
    { name := "warm", result := .void, isKernel := true, blocks := [⟨0, [.ret none]⟩] }]

def masked : Session where
  units := [{
    name := "app"
    symbols := [.kernel "main", .function "warm" .internal]
    references := [⟨"main", .symbol "warm"⟩] }]
  source := .ofBlobs [("app", Container.encode .current maskedCode)]

theorem kernel_is_hidden_masked :
    ∃ out, ((runBy .alone).run.run masked).1 = .ok out ∧ "app__warm" ∈ out.linked.kernels ∧
      out.linked.abiSurface = ["main"] ∧ ¬ out.linked.Agrees := by
  obtain ⟨a, out, h⟩ : ∃ a out, masked.Links .alone [0] a out :=
    exists_links_of_closed (g := (Graph.build masked.units).toOption.getD {}) (by decide) rfl (by decide) (by decide)
      (by decide +kernel)
  have hg : a.graph = (Graph.build masked.units).toOption.getD {} := Except.ok.inj h.walks.built.symm
  have h0 : a.graph.Reaches [0] (.symbol 0) := .root (by decide)
  have h1 : a.graph.Reaches [0] (.symbol 1) := .step h0 (hg ▸ by decide)
  have hst : Graph.Stands masked.units 1 masked.units[0] (.function "warm" .internal) := ⟨0, rfl, rfl⟩
  obtain ⟨f, hf, hy, he⟩ := h.exists_mem_yields hst h1 rfl
  obtain ⟨m, b, hm, hb, _, hflag⟩ := hy.kernel
  have hsource : masked.source "app" = .ok (Container.encode .current maskedCode) := rfl
  obtain rfl := Source.eq_of_fetch_encode hsource hm
  have hkernel : ∀ b ∈ maskedCode.function? "warm", b.isKernel = true := by decide
  have hname : (Linked.Naming.ofReached a.graph a.reached).name 1 = "app__warm" := by
    have hall : ∀ id < a.graph.symbols.length, a.graph.Reaches [0] (.symbol id) := by
      rw [hg] at h0 h1 ⊢
      intro id hid
      match id, hid with
      | 0, _ => exact h0
      | 1, _ => exact h1
    rw [h.name_eq hall, hg]
    decide +kernel
  have habi : out.linked.abiSurface = ["main"] := by
    rw [h.abiSurface_eq]
    decide
  have hmem : "app__warm" ∈ out.linked.kernels :=
    h.mem_kernels_iff.mpr ⟨f, hf, hflag.symm.trans (hkernel b hb), (Linked.Naming.name_of_emits he).trans hname⟩
  refine ⟨out, runBy_eq_ok_iff.mpr ⟨[0], a, h⟩, hmem, habi, fun hagree => ?_⟩
  have hvis := (hagree.visible "app__warm").mpr (.inl hmem)
  rw [habi] at hvis
  exact absurd hvis (by decide)

end Session

end DeviceLink
