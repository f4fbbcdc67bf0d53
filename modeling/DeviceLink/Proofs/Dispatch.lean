import DeviceLink.Proofs.Described

/-! There is a dispatch table for each capability that a reached symbol is listed to dispatch on, and for no other.
It names each implementation as often as the implementation names the capability. -/

namespace DeviceLink

open Ir Fallible

namespace Graph

variable {units : List CompiledUnit} {g : Graph} {c : String} {id : SymbolId}

section Sites

variable {k : SiteId} {site : DispatchSite}

lemma implementations_of_build (h : build units = .ok g) (hk : g.sites[k]? = some site) :
    site.implementations = implementationsOf units site.capability := by
  rw [(filled_of_build h).sites] at hk
  obtain ⟨c, _, rfl⟩ := List.mem_map.mp (List.mem_of_getElem? hk)
  rfl

lemma reaches_implementation (h : build units = .ok g) {roots : List SymbolId} (hk : g.Reaches roots (.dispatch k))
    (hsite : g.sites[k]? = some site) (hid : id ∈ implementationsOf units site.capability) :
    g.Reaches roots (.symbol id) := by
  refine .step hk ?_
  rw [(indexed_of_build h).successors_dispatch hsite, implementations_of_build h hsite]
  exact List.mem_map_of_mem hid

lemma dispatch_of_target? (hg : g.Indexed) {owner : ModuleId} {target : Target}
    (h : g.target? owner target = some (.dispatch k)) (hk : g.sites[k]? = some site) :
    target = .dispatch site.capability := by
  cases target with
  | symbol x =>
    obtain ⟨_, _, he⟩ := Option.map_eq_some_iff.mp h
    cases he
  | dispatch c =>
    obtain ⟨j, hj, he⟩ := Option.map_eq_some_iff.mp h
    cases he
    obtain ⟨site', hs, rfl⟩ := hg.exists_site_of_siteId? hj
    rw [Option.some.inj (hs.symm.trans hk)]

lemma reaches_dispatch_iff (h : build units = .ok g) {roots : List SymbolId} :
    (∃ k site, g.Reaches roots (.dispatch k) ∧ g.sites[k]? = some site ∧ site.capability = c) ↔
      ∃ id s u, g.Reaches roots (.symbol id) ∧ g.symbols[id]? = some s ∧ units[s.owner]? = some u ∧
        ⟨s.name, .dispatch c⟩ ∈ u.references := by
  have hg := indexed_of_build h
  constructor
  · rintro ⟨k, site, hk, hsite, rfl⟩
    cases hk with
    | @step n _ hn hm =>
      cases n with
      | dispatch j =>
        -- a capability leads to symbols only
        rw [hg.dispatch] at hm
        cases hj : g.sites[j]? <;> simp [hj] at hm
      | symbol id =>
        obtain ⟨_, u, ⟨referrer, target⟩, hu, hr, hown, ht⟩ := (mem_successors_iff h).mp hm
        obtain ⟨s, hs, rfl, rfl⟩ := hg.exists_symbol_of_own? hown
        obtain rfl := dispatch_of_target? hg ht hsite
        exact ⟨id, s, u, hn, hs, hu, hr⟩
  · rintro ⟨id, s, u, hid, hs, hu, hr⟩
    obtain ⟨n, hn, hreach⟩ := reaches_target h hu hs rfl hr hid
    obtain ⟨k, hk, rfl⟩ := Option.map_eq_some_iff.mp hn
    obtain ⟨site, hsite, hc⟩ := hg.exists_site_of_siteId? hk
    exact ⟨k, site, hreach, hsite, hc⟩

end Sites

section Implementations

lemma count_zipIdx (entries : List SymbolEntry) (c : String) (first i : Nat) :
    ((entries.zipIdx first).flatMap fun (e, id) => (e.implements.filter (· = c)).map fun _ => id).count (first + i) =
      (entries[i]?.map (·.implements.count c)).getD 0 := by
  induction entries generalizing first i with
  | nil => rfl
  | cons e rest ih =>
    have hlen : (e.implements.filter (· = c)).length = e.implements.count c := by
      rw [List.count_eq_countP, List.countP_eq_length_filter]
      rfl
    rw [List.zipIdx_cons, List.flatMap_cons, List.count_append]
    dsimp only
    rw [List.map_const', List.count_replicate]
    cases i with
    | zero =>
      have hrest : ((rest.zipIdx (first + 1)).flatMap fun (e, id) =>
          (e.implements.filter (· = c)).map fun _ => id).count (first + 0) = 0 := by
        rw [List.count_eq_zero]
        intro hm
        obtain ⟨⟨e, id⟩, he, hm⟩ := List.mem_flatMap.mp hm
        obtain ⟨_, _, rfl⟩ := List.mem_map.mp hm
        have hle := List.le_snd_of_mem_zipIdx he
        omega
      rw [hrest]
      simp [hlen]
    | succ i =>
      have hi := ih (first + 1) i
      rw [Nat.add_right_comm, Nat.add_assoc] at hi
      rw [hi]
      simp

lemma count_implementationsOf (units : List CompiledUnit) (c : String) (id : SymbolId) :
    (implementationsOf units c).count id = ((entries units)[id]?.map (·.implements.count c)).getD 0 := by
  have h := count_zipIdx (entries units) c 0 id
  rwa [Nat.zero_add] at h

lemma mem_implementationsOf :
    id ∈ implementationsOf units c ↔ ∃ e, (entries units)[id]? = some e ∧ c ∈ e.implements := by
  rw [← List.count_pos_iff, count_implementationsOf]
  cases (entries units)[id]? <;> simp [List.count_pos_iff]

end Implementations

end Graph

namespace Linked

variable {p : Program} {units : List CompiledUnit} {roots : List SymbolId} {r : Reached} {name : String}
  {ds : List Definition} {c : String} {names : List String}

lemma mem_tables (h : Graph.build units = .ok p.graph) (hc : p.Covers roots r) {t : String × List String} :
    t ∈ (Naming.ofReached p.graph r).tables ↔
      (∃ k site, p.graph.Reaches roots (.dispatch k) ∧ p.graph.sites[k]? = some site ∧ site.capability = t.1) ∧
        t.2 = (Graph.implementationsOf units t.1).map (Naming.ofReached p.graph r).name := by
  constructor
  · intro ht
    obtain ⟨site, hsite, rfl⟩ := List.mem_map.mp ht
    obtain ⟨k, hk, hsite⟩ := List.mem_filterMap.mp hsite
    refine ⟨⟨k, site, hc.marks.mp (List.mem_filter.mp hk).2, hsite, rfl⟩, ?_⟩
    rw [Naming.tableOf, Graph.implementations_of_build h hsite]
  · rintro ⟨⟨k, site, hk, hsite, hcap⟩, hn⟩
    have hlt : k < p.graph.sites.length := (List.getElem?_eq_some_iff.mp hsite).1
    have hmem : k ∈ r.marks.sites p.graph := List.mem_filter.mpr ⟨List.mem_range.mpr hlt, hc.marks.mpr hk⟩
    refine List.mem_map.mpr ⟨site, List.mem_filterMap.mpr ⟨k, hmem, hsite⟩, ?_⟩
    rw [Naming.tableOf, Graph.implementations_of_build h hsite, hcap, ← hn]

lemma find?_tables (h : Graph.build units = .ok p.graph) (hc : p.Covers roots r) :
    (assemble name ds (Naming.ofReached p.graph r).tables).dispatchTables.find? c = some names ↔
      (∃ k site, p.graph.Reaches roots (.dispatch k) ∧ p.graph.sites[k]? = some site ∧ site.capability = c) ∧
        names = (Graph.implementationsOf units c).map (Naming.ofReached p.graph r).name := by
  rw [assemble, Table.find?_ofList]
  constructor
  · intro hl
    obtain ⟨before, after, hsplit, _⟩ := List.lookup_eq_some_iff.mp hl
    have ht : (c, names) ∈ (Naming.ofReached p.graph r).tables.reverse := by simp [hsplit]
    exact (mem_tables h hc).mp (List.mem_reverse.mp ht)
  · intro ht
    refine lookup_eq_some (List.mem_reverse.mpr ((mem_tables h hc).mpr ht)) ?_
    rintro ⟨_, names'⟩ hq rfl
    exact ((mem_tables h hc).mp (List.mem_reverse.mp hq)).2.trans ht.2.symm

lemma capability?_mapOperands (ρ : Operand → Operand) (i : Instr) : (i.mapOperands ρ).capability? = i.capability? := by
  rw [Instr.mapOperands_eq]
  cases i <;> rfl

lemma capabilities_image (n : Naming) (id : SymbolId) (s : Symbol) {v : Verify.Verified} {f : Function}
    (h : n.image id s (.function v) = .function f) : f.capabilities = v.function.capabilities := by
  cases h
  simp only [Function.capabilities, Function.code, List.flatMap_map, List.filterMap_flatMap, List.filterMap_map,
    Function.comp_def, capability?_mapOperands]

end Linked

namespace Session

variable {s : Session} {e : Strategy} {out : Output} {roots : List SymbolId} {a : Analysis} {c : String}
  {names : List String}

def Dispatches (s : Session) (a : Analysis) (c : String) : Prop :=
  ∃ id sym u, a.reached.isReached id = true ∧ a.graph.symbols[id]? = some sym ∧ s.units[sym.owner]? = some u ∧
    ⟨sym.name, .dispatch c⟩ ∈ u.references

structure Tabulates (s : Session) (n : Linked.Naming) (c : String) (names : List String) : Prop where
  complete {id : SymbolId} {entry : SymbolEntry} (he : (Graph.entries s.units)[id]? = some entry)
    (hc : c ∈ entry.implements) : ∃ x, n.outputName id = .ok x ∧ names.count x = entry.implements.count c
  sound {x : String} (hx : x ∈ names) :
    ∃ id entry, (Graph.entries s.units)[id]? = some entry ∧ c ∈ entry.implements ∧ n.outputName id = .ok x

namespace Links

variable (h : s.Links e roots a out)

include h

lemma dispatches_iff :
    s.Dispatches a c ↔
      ∃ k site, a.graph.Reaches roots (.dispatch k) ∧ a.graph.sites[k]? = some site ∧ site.capability = c := by
  rw [Graph.reaches_dispatch_iff h.walks.built]
  have hm (id : SymbolId) : a.reached.isReached id = true ↔ a.graph.Reaches roots (.symbol id) := h.walks.covers.marks
  simp only [Dispatches, hm]

lemma find?_dispatchTables :
    out.linked.code.dispatchTables.find? c = some names ↔ s.Dispatches a c ∧
      names = (Graph.implementationsOf s.units c).map (Linked.Naming.ofReached a.graph a.reached).name := by
  obtain ⟨ds, _, hcode⟩ := h.exists_definitions
  rw [hcode, h.dispatches_iff]
  exact Linked.find?_tables (p := s.program a.graph) h.walks.built h.walks.covers

lemma exists_table_iff : (∃ names, out.linked.code.dispatchTables.find? c = some names) ↔ s.Dispatches a c := by
  simp only [h.find?_dispatchTables, exists_and_left, exists_eq, and_true]

lemma mem_symbols_of_implements (hd : s.Dispatches a c) {id : SymbolId} (hid : id ∈ Graph.implementationsOf s.units c) :
    id ∈ a.reached.marks.symbols a.graph := by
  obtain ⟨k, site, hk, hsite, rfl⟩ := h.dispatches_iff.mp hd
  apply Linked.Naming.mem_symbols_of_reaches h.walks.built h.walks.roots_lt h.walks.covers
  exact Graph.reaches_implementation h.walks.built hk hsite hid

lemma tabulates (hn : out.linked.code.dispatchTables.find? c = some names) :
    s.Tabulates (Linked.Naming.ofReached a.graph a.reached) c names := by
  obtain ⟨hd, rfl⟩ := h.find?_dispatchTables.mp hn
  have hdup := Linked.duplicateExternals_eq_nil_of_link h.linked
  refine ⟨fun {id entry} he hc => ?_, fun {x} hx => ?_⟩
  · have hid := h.mem_symbols_of_implements hd (Graph.mem_implementationsOf.mpr ⟨entry, he, hc⟩)
    refine ⟨_, Linked.Naming.outputName_eq_ok hid, ?_⟩
    have hcount := Graph.count_implementationsOf s.units c id
    rw [he, Option.map_some, Option.getD_some] at hcount
    rw [List.count_eq_countP, List.countP_map, ← hcount, List.count_eq_countP]
    -- reached symbols have different names
    refine List.countP_congr fun j hj => ?_
    have hj := h.mem_symbols_of_implements hd hj
    simp only [Function.comp_apply, beq_iff_eq]
    exact ⟨Linked.Naming.name_injective (Graph.indexed_of_build h.walks.built).toCatalogued hdup hj hid, congrArg _⟩
  · obtain ⟨id, hid, rfl⟩ := List.mem_map.mp hx
    obtain ⟨entry, he, hc⟩ := Graph.mem_implementationsOf.mp hid
    exact ⟨id, entry, he, hc, Linked.Naming.outputName_eq_ok (h.mem_symbols_of_implements hd hid)⟩

end Links

def Serves (s : Session) (n : Linked.Naming) (m : Module) : Prop :=
  ∀ f ∈ m.functions, ∀ c ∈ f.capabilities, ∃ names, m.dispatchTables.find? c = some names ∧
    ∀ (id : SymbolId) (entry : SymbolEntry), (Graph.entries s.units)[id]? = some entry → c ∈ entry.implements →
      ∃ x, n.outputName id = .ok x ∧ names.count x = 1

lemma Links.serves_iff (h : s.Links e roots a out) :
    s.Serves (Linked.Naming.ofReached a.graph a.reached) out.linked.code ↔
      ∀ f ∈ out.linked.code.functions, ∀ c ∈ f.capabilities, s.Dispatches a c ∧
        ∀ entry ∈ Graph.entries s.units, entry.implements.count c ≤ 1 := by
  refine forall₂_congr fun f _ => forall₂_congr fun c _ => ?_
  constructor
  · rintro ⟨names, hn, honce⟩
    refine ⟨h.exists_table_iff.mp ⟨names, hn⟩, fun entry he => ?_⟩
    obtain ⟨id, he⟩ := List.mem_iff_getElem?.mp he
    by_cases hc : c ∈ entry.implements
    · obtain ⟨x, hx, hone⟩ := honce id entry he hc
      obtain ⟨y, hy, hcount⟩ := (h.tabulates hn).complete he hc
      obtain rfl : y = x := Except.ok.inj (hy.symm.trans hx)
      omega
    · rw [List.count_eq_zero.mpr hc]
      exact Nat.zero_le 1
  · rintro ⟨hd, honce⟩
    obtain ⟨names, hn⟩ := h.exists_table_iff.mpr hd
    refine ⟨names, hn, fun id entry he hc => ?_⟩
    obtain ⟨x, hx, hcount⟩ := (h.tabulates hn).complete he hc
    have hle := honce entry (List.mem_of_getElem? he)
    have hpos := List.count_pos_iff.mpr hc
    exact ⟨x, hx, by omega⟩

/-- The tables are exact, but a dispatch is served only if a reached symbol is listed for it and no implementation
names its capability twice. -/
theorem dispatch_tables_are_exact (h : ((runBy e).run.run s).1 = .ok out) :
    ∃ a, ((analyzeBy e).run.run s).1 = .ok a ∧
      (∀ c, (∃ names, out.linked.code.dispatchTables.find? c = some names) ↔ s.Dispatches a c) ∧
      (∀ c names, out.linked.code.dispatchTables.find? c = some names →
        s.Tabulates (Linked.Naming.ofReached a.graph a.reached) c names) ∧
      (s.Serves (Linked.Naming.ofReached a.graph a.reached) out.linked.code ↔
        ∀ f ∈ out.linked.code.functions, ∀ c ∈ f.capabilities, s.Dispatches a c ∧
          ∀ entry ∈ Graph.entries s.units, entry.implements.count c ≤ 1) := by
  obtain ⟨roots, a, h⟩ := runBy_eq_ok_iff.mp h
  have ha := analyzeBy_eq_ok_iff.mpr ⟨roots, h.walks⟩
  exact ⟨a, ha, fun c => h.exists_table_iff, fun c names => h.tabulates, h.serves_iff⟩

theorem dispatch_tables_are_exact_twins :
    ∃ out names, ((runBy .alone).run.run twins).1 = .ok out ∧
      out.linked.code.dispatchTables.find? "paint" = some names ∧ names.count "api" = 1 ∧ ∀ x ∈ names, x = "api" := by
  obtain ⟨a₀, out, hl⟩ := twins_links .alone
  have hrun := runBy_eq_ok_iff.mpr ⟨[0], a₀, hl⟩
  obtain ⟨a, ha, hkey, htab, _⟩ := dispatch_tables_are_exact hrun
  have ha₀ := analyzeBy_eq_ok_iff.mpr ⟨[0], hl.walks⟩
  obtain rfl : a = a₀ := Except.ok.inj (ha.symm.trans ha₀)
  have hg : a.graph = Linked.twins.graph := Except.ok.inj (hl.walks.built.symm.trans Linked.twins_build)
  have hreach (id : SymbolId) (hid : id < 5) : a.reached.isReached id = true := by
    apply hl.walks.covers.marks.mpr
    exact hg ▸ Linked.twins_reaches id hid
  have hname : (Linked.Naming.ofReached a.graph a.reached).outputName 3 = .ok "api" := by
    have hi : 3 ∈ a.reached.marks.symbols a.graph :=
      Linked.Naming.mem_symbols.mpr ⟨hg ▸ by decide, hreach 3 (by decide)⟩
    rw [Linked.Naming.outputName_eq_ok hi]
    exact congrArg _ (Linked.Naming.name_of_isExternal (s := Graph.symbolOfEntry 1 (.function "api" .external)) hi
      (hg ▸ rfl) rfl)
  have hmain : a.graph.symbols[0]? = some (Graph.symbolOfEntry 0 (.kernel "main")) := hg ▸ rfl
  obtain ⟨names, hn⟩ := (hkey "paint").mpr ⟨0, _, _, hreach 0 (by decide), hmain, rfl, by decide⟩
  have ht := htab "paint" names hn
  refine ⟨out, names, hrun, hn, ?_, ?_⟩
  · obtain ⟨x, hx, hcount⟩ := ht.complete (show (Graph.entries twins.units)[3]? = some _ from rfl) (by decide)
    obtain rfl : "api" = x := Except.ok.inj (hname.symm.trans hx)
    exact hcount
  · intro x hx
    obtain ⟨id, entry, he, hc, hx⟩ := ht.sound hx
    have hthree : ∀ id < 5, ∀ entry ∈ (Graph.entries twins.units)[id]?, "paint" ∈ entry.implements → id = 3 := by decide
    obtain rfl := hthree id (List.getElem?_eq_some_iff.mp he).1 entry he hc
    exact Except.ok.inj (hx.symm.trans hname)

theorem describing_dispatches {modules : List (Module × UnitKind)} {options : Options}
    (h : ((runBy e).run.run (describing modules options)).1 = .ok out) {f : Function}
    (hf : f ∈ out.linked.code.functions) (hc : c ∈ f.capabilities) :
    ∃ names, out.linked.code.dispatchTables.find? c = some names := by
  obtain ⟨roots, a, h⟩ := runBy_eq_ok_iff.mp h
  obtain ⟨id, sym, m, v, hs, hb, hm, hdef, himage⟩ := h.exists_of_mem_functions hf
  obtain ⟨kind, hu⟩ := exists_describe h.walks.built hs hm
  have hid := (h.walks.covers.bodies.mp hb).1
  refine h.exists_table_iff.mpr ⟨id, sym, _, h.walks.covers.marks.mpr hid, hs, hu, ?_⟩
  cases hdef with
  | @function g _ _ hg hdecl hv =>
    rw [Linked.capabilities_image _ _ _ himage, Verify.function_capabilities hv] at hc
    have hname : g.name = sym.name := by simpa using List.find?_some hg
    apply CompiledUnit.mem_references_of_function hg hdecl
    rw [← hname]
    exact List.mem_append_right _ (List.mem_map_of_mem hc)

def strayCode : Module where
  name := "stray"
  functions := [
    { name := "main", result := .void, visibility := .external, isKernel := true
      blocks := [⟨0, [.dispatch none "paint" .undef [] .void, .dispatch none "fill" .undef [] .void, .ret none]⟩] },
    { name := "brush", result := .void, visibility := .external, blocks := [⟨0, [.ret none]⟩] }]

def stray : Session where
  units := [{
    name := "stray"
    symbols := [.kernel "main", (((SymbolEntry.function "brush" .external).implementing "paint").implementing
      "fill").implementing "fill"]
    references := [⟨"main", .dispatch "fill"⟩] }]
  source := .ofBlobs [("stray", Container.encode .current strayCode)]

lemma stray_links : ∃ a out, stray.Links .alone [0, 1] a out :=
  exists_links_of_closed (g := (Graph.build stray.units).toOption.getD {}) (by decide) rfl (by decide) (by decide)
    (by decide +kernel)

theorem dispatch_dangles_stray :
    ∃ out, ((runBy .alone).run.run stray).1 = .ok out ∧
      (∃ f ∈ out.linked.code.functions, "paint" ∈ f.capabilities) ∧
      out.linked.code.dispatchTables.find? "paint" = none ∧
      out.linked.code.dispatchTables.find? "fill" = some ["brush", "brush"] := by
  obtain ⟨a, out, h⟩ := stray_links
  have hg : a.graph = (Graph.build stray.units).toOption.getD {} := Except.ok.inj h.walks.built.symm
  have hmain : a.graph.symbols[0]? = some (Graph.symbolOfEntry 0 (.kernel "main")) := hg ▸ rfl
  refine ⟨out, runBy_eq_ok_iff.mpr ⟨[0, 1], a, h⟩, ?_, ?_, ?_⟩
  · obtain ⟨f, hf, m, v, hm, hdef, himage⟩ := h.exists_mem_functions hmain rfl (.root (by decide))
    have hname : a.graph.moduleName 0 = "stray" := hg ▸ rfl
    have hsource : stray.source "stray" = .ok (Container.encode .current strayCode) := rfl
    obtain rfl := Source.eq_of_fetch_encode hsource (hname ▸ hm)
    cases hdef with
    | @function g _ _ hg _ hv =>
      have hpaint : ∀ g ∈ strayCode.function? "main", "paint" ∈ g.capabilities := by decide
      refine ⟨f, hf, ?_⟩
      rw [Linked.capabilities_image _ _ _ himage, Verify.function_capabilities hv]
      exact hpaint g hg
  · rw [Option.eq_none_iff_forall_not_mem]
    intro names hn
    obtain ⟨⟨_, sym, u, _, _, hu, hr⟩, _⟩ := h.find?_dispatchTables.mp hn
    have hlist : ∀ u ∈ stray.units, ∀ r ∈ u.references, r.target ≠ .dispatch "paint" := by decide
    exact hlist u (List.mem_of_getElem? hu) _ hr rfl
  · apply h.find?_dispatchTables.mpr
    refine ⟨⟨0, _, _, h.walks.covers.marks.mpr (.root (by decide)), hmain, rfl, by decide⟩, ?_⟩
    have hi : 1 ∈ a.reached.marks.symbols a.graph :=
      Linked.Naming.mem_symbols.mpr ⟨hg ▸ by decide, h.walks.covers.marks.mpr (.root (by decide))⟩
    have hbrush : (Linked.Naming.ofReached a.graph a.reached).name 1 = "brush" :=
      Linked.Naming.name_of_isExternal (s := Graph.symbolOfEntry 0 (.function "brush" .external)) hi (hg ▸ rfl) rfl
    have himpl : Graph.implementationsOf stray.units "fill" = [1, 1] := by decide
    rw [himpl, List.map_cons, List.map_cons, List.map_nil, hbrush]

end Session

end DeviceLink
