import DeviceLink.Proofs.Extension
import DeviceLink.Proofs.Isolation
import DeviceLink.Proofs.Scope

namespace DeviceLink

open Ir Fallible

section Grows

variable {p q : Program} {units : List CompiledUnit} {u : CompiledUnit} {k : ModuleId} {m : Module} {s : Symbol}
  {id : SymbolId} {b : Body}

structure Program.Grows (p q : Program) (units : List CompiledUnit) (u : CompiledUnit) : Prop where
  built : Graph.build units = .ok p.graph
  grown : Graph.build (units ++ [u]) = .ok q.graph
  source {x : String} (hx : x ≠ u.name) : q.source x = p.source x
  segments : q.segments = p.segments
  strict : q.strict = p.strict

namespace Program.Grows

variable (h : p.Grows q units u)

include h

lemma scope_extends (hk : k < units.length) : (p.scope k m).Extends (q.scope k m) where
  space := by
    intro x space hx
    simp only [scope, Option.bind_eq_bind, Option.bind_eq_some_iff] at hx ⊢
    obtain ⟨t, ht, s, hs, hx⟩ := hx
    exact ⟨t, Graph.resolve?_append h.built h.grown hk ht, s, Graph.symbol_append h.built h.grown hs, hx⟩
  params := rfl

lemma rules_eq : q.rules k m = { p.rules k m with scope := q.scope k m } := by
  rw [rules, h.segments, h.strict, rules]

lemma knows_of_resolve? {v : Operand} (hv : ∀ x, v.symbol? = some x → ∃ t, p.graph.resolve? k x = some t) :
    (p.scope k m).Knows v := by
  intro x hx
  obtain ⟨t, ht⟩ := hv x hx
  simp [scope, ht, (Graph.indexed_of_build h.built).lt_of_resolve? ht]

lemma definedIn (hs : p.graph.symbols[id]? = some s) (hd : p.DefinedIn s m b)
    (hv : ∀ v ∈ b.operands, ∀ x, v.symbol? = some x → ∃ t, p.graph.resolve? s.owner x = some t) :
    q.DefinedIn s m b := by
  have he := h.scope_extends (m := m) (Graph.owner_lt h.built hs)
  cases hd with
  | function hk hf hdecl hver =>
    refine .function hk hf hdecl ?_
    rw [h.rules_eq]
    exact Verify.function_of_extends he hver fun v hmem => h.knows_of_resolve? (hv v hmem)
  | global hk hg hp hver =>
    refine .global hk hg hp (Verify.global_of_extends he hver fun v hmem => h.knows_of_resolve? (hv v ?_))
    exact Option.mem_toList.mpr hmem

lemma fetch_eq (hs : p.graph.symbols[id]? = some s) :
    q.source.fetch (q.graph.moduleName s.owner) = p.source.fetch (p.graph.moduleName s.owner) := by
  obtain ⟨v, hv⟩ := Graph.exists_unit_of_build h.built hs
  have hn : v.name ≠ u.name := by
    have hnames := (Graph.distinct_of_build h.grown).names
    rw [List.map_append, List.nodup_append'] at hnames
    intro hn
    exact hnames.2.2 (List.mem_map_of_mem (List.mem_of_getElem? hv)) (by simp [hn])
  rw [Graph.moduleName_append h.built h.grown (Graph.owner_lt h.built hs), Graph.moduleName_of_build h.built hv]
  exact Source.fetch_congr (h.source hn)

lemma outcome_eq_ok (ho : p.outcome id = .ok b) (hs : p.graph.symbols[id]? = some s)
    (hv : ∀ v ∈ b.operands, ∀ x, v.symbol? = some x → ∃ t, p.graph.resolve? s.owner x = some t) :
    q.outcome id = .ok b := by
  obtain ⟨s', m, hs', hm, hd⟩ := (outcome_eq_ok_iff (Graph.build_bounded h.built)).mp ho
  obtain rfl : s' = s := Option.some.inj (hs'.symm.trans hs)
  refine (outcome_eq_ok_iff (Graph.build_bounded h.grown)).mpr ⟨s', m, ?_, ?_, h.definedIn hs hd hv⟩
  · exact Graph.symbol_append h.built h.grown hs
  · exact (h.fetch_eq hs).trans hm

end Program.Grows

structure Program.Spares (p q : Program) (units : List CompiledUnit) (u : CompiledUnit) (roots : List SymbolId) : Prop
    extends p.Grows q units u where
  roots_lt : ∀ id ∈ roots, id < p.graph.symbols.length
  spared (j : SiteId) (site : DispatchSite) (hj : p.graph.Reaches roots (.dispatch j))
    (hs : p.graph.sites[j]? = some site) : ∀ e ∈ u.symbols, site.capability ∉ e.implements

namespace Program.Spares

variable {roots : List SymbolId} (h : p.Spares q units u roots)

include h

lemma reaches_iff : q.graph.Reaches roots (.symbol id) ↔ p.graph.Reaches roots (.symbol id) :=
  Graph.reaches_symbol_append_iff h.built h.grown h.roots_lt h.spared

lemma roots_lt_grown : ∀ id ∈ roots, id < q.graph.symbols.length := by
  intro id hid
  rw [Graph.symbols_append h.built h.grown, List.length_append]
  exact Nat.lt_add_right _ (h.roots_lt id hid)

end Program.Spares

end Grows

namespace Linked

section Append

variable {units : List CompiledUnit} {u : CompiledUnit} {g g' : Graph} {ids : List SymbolId} {id : SymbolId}
  {s : Symbol} {r r' : Reached} (h : Graph.build units = .ok g) (h' : Graph.build (units ++ [u]) = .ok g')

include h h'

lemma named_append (hids : ∀ id ∈ ids, id < g.symbols.length) : named g' ids = named g ids := by
  refine List.filterMap_congr fun id hid => ?_
  have hs := List.getElem?_eq_getElem (hids id hid)
  rw [hs, Graph.symbol_append h h' hs]

lemma assignNames_append (hids : ∀ id ∈ ids, id < g.symbols.length) : assignNames g' ids = assignNames g ids := by
  have hnamed : named g' ids = named g ids := named_append h h' hids
  rw [named, named] at hnamed
  simp only [assignNames, hnamed]
  refine List.foldl_ext _ _ _ fun names q hq => ?_
  have hs := (mem_named.mp (List.mem_filter.mp hq).1).2
  rw [Graph.moduleName_append h h' (Graph.owner_lt h hs)]

namespace Naming

lemma linkage_append (hs : g.symbols[id]? = some s) : (ofReached g' r').linkage s = (ofReached g r).linkage s := by
  rw [linkage, ofReached, Graph.isRoot_append h h' hs]
  rfl

variable (hr : r'.marks.symbols g' = r.marks.symbols g)

include hr

lemma name_append : (ofReached g' r').name = (ofReached g r).name := by
  funext id
  have hnames : assignNames g' (r.marks.symbols g) = assignNames g (r.marks.symbols g) :=
    assignNames_append h h' fun id hid => (mem_symbols.mp hid).1
  simp only [name, ofReached, hr, hnames]

lemma rename_append (hs : g.symbols[id]? = some s) {v : Operand}
    (hv : ∀ x, v.symbol? = some x → ∃ t, g.resolve? s.owner x = some t) :
    (ofReached g' r').rename s.owner v = (ofReached g r).rename s.owner v := by
  cases hx : v.symbol? with
  | none => simp only [rename, hx, Option.bind_none]
  | some x =>
    obtain ⟨t, ht⟩ := hv x hx
    rw [rename_of_resolve? hx ht, rename_of_resolve? hx (Graph.resolve?_append h h' (Graph.owner_lt h hs) ht),
      name_append h h' hr]

lemma image_append (hs : g.symbols[id]? = some s) {b : Body}
    (hv : ∀ v ∈ b.operands, ∀ x, v.symbol? = some x → ∃ t, g.resolve? s.owner x = some t) :
    (ofReached g' r').image id s b = (ofReached g r).image id s b := by
  have hren : ∀ v ∈ b.operands, (ofReached g' r').rename s.owner v = (ofReached g r).rename s.owner v :=
    fun v hmem => rename_append h h' hr hs (hv v hmem)
  have hlink : (ofReached g' r').linkage s = (ofReached g r).linkage s := linkage_append h h' hs
  cases b with
  | function v =>
    have hblocks : ∀ c ∈ v.function.blocks, ∀ i ∈ c.code,
        i.mapOperands ((ofReached g' r').rename s.owner) = i.mapOperands ((ofReached g r).rename s.owner) := by
      intro c hc i hi
      rw [Instr.mapOperands_eq, Instr.mapOperands_eq]
      refine congrArg i.withOperands (List.map_congr_left fun w hw => hren w ?_)
      exact List.mem_flatMap.mpr ⟨i, List.mem_flatMap.mpr ⟨c, hc, hi⟩, hw⟩
    simp only [image, name_append h h' hr, hlink, Definition.function.injEq, Function.mk.injEq, true_and, and_true]
    refine List.map_congr_left fun c hc => ?_
    rw [List.map_congr_left (hblocks c hc)]
  | global d =>
    have hinit : d.initializer.map ((ofReached g' r').rename s.owner) =
        d.initializer.map ((ofReached g r).rename s.owner) :=
      Option.map_congr fun v hmem => hren v (Option.mem_toList.mpr hmem)
    simp only [image, name_append h h' hr, hlink, hinit]

end Naming

end Append

lemma Naming.tables_pairwise {units : List CompiledUnit} {g : Graph} (h : Graph.build units = .ok g) (r : Reached) :
    (ofReached g r).tables.Pairwise fun a b => a.1 < b.1 := by
  have hsites : g.sites.Pairwise fun a b => a.capability < b.capability := by
    rw [Graph.sites_of_build h, Graph.sitesOf, List.pairwise_map]
    exact Ordered.pairwise_ofList _
  have hsub : ((r.marks.sites g).filterMap (g.sites[·]?)).Sublist g.sites := by
    conv_rhs => rw [← filterMap_getElem?_range g.sites]
    exact List.filter_sublist.filterMap _
  exact List.pairwise_map.mpr (hsites.sublist hsub)

section Spares

variable {p q : Program} {units : List CompiledUnit} {u : CompiledUnit} {roots : List SymbolId} {r r' : Reached}
  (h : p.Spares q units u roots) (hc : p.Covers roots r) (hc' : q.Covers roots r')

include h hc hc'

lemma symbols_of_spares : r'.marks.symbols q.graph = r.marks.symbols p.graph := by
  have hsorted (r : Reached) (g : Graph) : (r.marks.symbols g).Pairwise (· < ·) := List.pairwise_lt_range.filter _
  refine (hsorted r' q.graph).eq_of_mem_iff (hsorted r p.graph) fun id => ?_
  constructor
  · intro hid
    have hreach := h.reaches_iff.mp (hc'.marks.mp (Naming.mem_symbols.mp hid).2)
    exact Naming.mem_symbols_of_reaches h.built h.roots_lt hc hreach
  · intro hid
    have hreach := h.reaches_iff.mpr (hc.marks.mp (Naming.mem_symbols.mp hid).2)
    exact Naming.mem_symbols_of_reaches h.grown h.roots_lt_grown hc' hreach

lemma tables_of_spares : (Naming.ofReached q.graph r').tables = (Naming.ofReached p.graph r).tables := by
  have hirrefl : Std.Irrefl fun a b : String × List String => a.1 < b.1 := ⟨fun a => String.lt_irrefl a.1⟩
  have hantisymm : Std.Antisymm fun a b : String × List String => a.1 < b.1 :=
    ⟨fun a b hab hba => absurd hba (String.lt_asymm hab)⟩
  refine (Naming.tables_pairwise h.grown r').eq_of_mem_iff (Naming.tables_pairwise h.built r) fun t => ?_
  rw [mem_tables h.grown hc', mem_tables h.built hc, Graph.reaches_site_append_iff h.built h.grown h.roots_lt h.spared,
    Naming.name_append h.built h.grown (symbols_of_spares h hc hc')]
  refine and_congr_right fun ⟨j, site, hj, hsite, hcap⟩ => ?_
  rw [Graph.implementationsOf_append (hcap ▸ h.spared j site hj hsite)]

lemma emit_of_spares {id : SymbolId} {d : Definition} (hi : id ∈ r.marks.symbols p.graph)
    (hd : (Naming.ofReached p.graph r).emit id = .ok d) : (Naming.ofReached q.graph r').emit id = .ok d := by
  have hsym := symbols_of_spares h hc hc'
  obtain ⟨s, b, hs, hb⟩ := Naming.exists_body hc hi
  obtain ⟨hres, rfl⟩ := (Naming.emit_eq_ok_iff (Graph.indexed_of_build h.built) hi hs hb).mp hd
  obtain ⟨hid, ho⟩ := hc.bodies.mp hb
  have hknown : ∀ v ∈ b.operands, ∀ x, v.symbol? = some x → ∃ t, p.graph.resolve? s.owner x = some t :=
    fun v hv x hx => (hres v hv x hx).imp fun _ => And.left
  have hb' : r'.body? id = some b := hc'.bodies.mpr ⟨h.reaches_iff.mpr hid, h.outcome_eq_ok ho hs hknown⟩
  have hs' := Graph.symbol_append h.built h.grown hs
  refine (Naming.emit_eq_ok_iff (Graph.indexed_of_build h.grown) (hsym ▸ hi) hs' hb').mpr ⟨?_, ?_⟩
  · intro v hv x hx
    obtain ⟨t, ht, hreach⟩ := hres v hv x hx
    exact ⟨t, Graph.resolve?_append h.built h.grown (Graph.owner_lt h.built hs) ht,
      hc'.marks.mpr (h.reaches_iff.mpr (hc.marks.mp hreach))⟩
  · exact Naming.image_append h.built h.grown hsym hs hknown

lemma link_of_spares {options : Options} {l : Linked} (hx : q.graph.duplicateExternals = [])
    (hl : link p.graph r options = .ok l) : link q.graph r' options = .ok l := by
  obtain ⟨ds, hd, _⟩ := exists_definitions_of_link h.built h.roots_lt hc hl
  have hd' : (Naming.ofReached q.graph r').definitions = .ok ds := by
    have hm : List.Forall₂ _ (r.marks.symbols p.graph) ds := mapM_eq_ok_iff.mp hd
    have hf := ((List.forall₂_and_left _ _).mpr ⟨fun _ hi => hi, hm⟩).imp fun id d ⟨hi, he⟩ =>
      emit_of_spares h hc hc' hi he
    rw [← symbols_of_spares h hc hc'] at hf
    exact mapM_eq_ok_iff.mpr hf
  rw [link_eq_map_merge h.built h.roots_lt hc (duplicateExternals_eq_nil_of_link hl),
    merge_eq h.built h.roots_lt hc, hd] at hl
  rw [link_eq_map_merge h.grown h.roots_lt_grown hc' hx, merge_eq h.grown h.roots_lt_grown hc', hd',
    tables_of_spares h hc hc']
  exact hl

end Spares

end Linked

namespace Session

variable {s : Session} {u : CompiledUnit} {b : Source} {e f : Strategy} {roots : List SymbolId} {a : Analysis}
  {out : Output}

lemma Walks.find?_readsPerModule (h : s.Walks e a.graph roots (.ok a.reached, a.loader)) {k : ModuleId}
    (hu : s.units[k]? = some u) : a.stats.readsPerModule.find? u.name = some (a.loader.reads k) := by
  obtain ⟨m, hm, hname, _⟩ := Graph.exists_module_of_build h.built hu
  rw [Analysis.stats, Table.find?_ofList]
  refine Linked.lookup_eq_some (List.mem_reverse.mpr (List.mem_map.mpr ⟨(m, k), ?_, ?_⟩)) fun p hp hpn => ?_
  · exact List.mk_mem_zipIdx_iff_getElem?.mpr hm
  · exact congrArg (·, a.loader.reads k) hname
  · obtain ⟨⟨m', k'⟩, hmem, rfl⟩ := List.mem_map.mp (List.mem_reverse.mp hp)
    obtain ⟨v, hv, hname'⟩ := Graph.exists_unit_of_module h.built (List.mk_mem_zipIdx_iff_getElem?.mp hmem)
    rw [Graph.eq_of_unit h.built hv hu (hname'.trans hpn)]

structure Unused (s : Session) (a : Analysis) (u : CompiledUnit) : Prop where
  kind : u.kind = .library
  fresh : ∀ v ∈ s.units, v.name ≠ u.name
  distinct : (u.symbols.map (·.name)).Nodup
  kernels : ∀ d ∈ u.symbols, d.isKernel = false
  referrers : ∀ r ∈ u.references, ∃ d ∈ u.symbols, d.name = r.referrer
  targets : ∀ r ∈ u.references, ∀ x, r.target = .symbol x →
    (∃ d ∈ u.symbols, d.name = x) ∨ ∃ v ∈ s.units, x ∈ v.externals
  externals : ∀ x ∈ u.externals, (∀ v ∈ s.units, x ∉ v.externals) ∧ x ∉ s.options.extraRoots
  implements : ∀ j site, a.reached.isSiteReached j = true → a.graph.sites[j]? = some site →
    ∀ d ∈ u.symbols, site.capability ∉ d.implements

section Unused

variable (h : s.Links e roots a out) (hu : s.Unused a u) (hb : ∀ x, x ≠ u.name → b x = s.source x)

include h hu hb

lemma Unused.exists_spares :
    ∃ g, Graph.build (s.units ++ [u]) = .ok g ∧ g.roots s.options.extraRoots = .ok roots ∧ g.duplicateExternals = [] ∧
      (s.program a.graph).Spares (({ s.add u with source := b } : Session).program g) s.units u roots := by
  have hg := h.walks.built
  have hopens : ∀ d ∈ u.symbols, u.opens d = false := by
    intro d hd
    simp [CompiledUnit.opens, hu.kernels d hd, hu.kind]
  obtain ⟨g, hg'⟩ := Graph.exists_build_iff.mpr
    (Graph.wellFormed_append (Graph.wellFormed_of_build hg) hu.fresh hu.distinct hu.referrers hu.targets)
  refine ⟨g, hg', ?_, ?_, ⟨hg, hg', hb _, rfl, rfl⟩, h.walks.roots_lt, fun j site hj hsite => ?_⟩
  · exact Graph.roots_append hg hg' hopens (fun x hx => (hu.externals x hx).2) h.walks.rooted
  · exact Graph.duplicateExternals_append hg hg' (Linked.duplicateExternals_eq_nil_of_link h.linked)
      fun x hx => (hu.externals x hx).1
  · exact hu.implements j site (h.walks.covers.marks.mpr hj) hsite

lemma Unused.exists_links :
    ∃ a' out', ({ s.add u with source := b } : Session).Links f roots a' out' ∧ out'.linked = out.linked ∧
      a'.loader.reads s.units.length = 0 := by
  obtain ⟨g, hg, hr, hd, hsp⟩ := hu.exists_spares h hb
  obtain ⟨ds, hds, _⟩ := h.exists_definitions
  have hn : ¬ Linked.Dangles a.graph a.reached :=
    Linked.Naming.not_dangles_of_definitions (p := s.program a.graph) h.walks.built h.walks.roots_lt
      h.walks.covers hds
  obtain ⟨r, l, hw⟩ := @exists_walks { s.add u with source := b } f g roots h.walks.segments hg hr fun id hid => by
    have hid := hsp.reaches_iff.mp hid
    obtain ⟨c, hc⟩ := h.walks.covers.defined hid
    have hlt := Graph.symbol_mem_nodes.mp (h.walks.bounded.reaches h.walks.roots_lt hid)
    have hs := List.getElem?_eq_getElem hlt
    refine ⟨c, hsp.outcome_eq_ok hc hs fun v hv x hx => ?_⟩
    by_contra hres
    refine hn ⟨id, _, c, v, x, hs, h.walks.covers.bodies.mpr ⟨hid, hc⟩, hv, hx, fun ⟨t, ht, _⟩ => hres ⟨t, ht⟩⟩
  have hlink := Linked.link_of_spares hsp h.walks.covers hw.covers hd h.linked
  refine ⟨⟨g, l, r⟩, ⟨out.linked, Container.encode .current out.linked.code, Analysis.stats ⟨g, l, r⟩⟩,
    ⟨hw, hlink, rfl, rfl⟩, rfl, (hw.reads _).2.2 ?_⟩
  rintro ⟨id, sym, hs, ho, hid⟩
  have hid := hsp.reaches_iff.mp hid
  have hlt := Graph.symbol_mem_nodes.mp (h.walks.bounded.reaches h.walks.roots_lt hid)
  have hs' := List.getElem?_eq_getElem hlt
  have hsym := Graph.symbol_append h.walks.built hg hs'
  obtain rfl := Option.some.inj (hsym.symm.trans hs)
  exact Nat.ne_of_lt (Graph.owner_lt h.walks.built hs') ho

end Unused

theorem unused_library_is_free (ha : ((analyzeBy e).run.run s).1 = .ok a) (ho : ((runBy e).run.run s).1 = .ok out)
    (hu : s.Unused a u) (hb : ∀ x, x ≠ u.name → b x = s.source x) (f : Strategy) :
    ∃ out', ((runBy f).run.run { s.add u with source := b }).1 = .ok out' ∧ out'.linked = out.linked ∧
      out'.bitcode = out.bitcode ∧ out'.stats.readsPerModule.find? u.name = some 0 := by
  obtain ⟨roots, a₀, h⟩ := runBy_eq_ok_iff.mp ho
  obtain rfl : a₀ = a := Except.ok.inj ((analyzeBy_eq_ok_iff.mpr ⟨roots, h.walks⟩).symm.trans ha)
  obtain ⟨a', out', hl, hlinked, hreads⟩ := hu.exists_links (f := f) h hb
  refine ⟨out', runBy_eq_ok_iff.mpr ⟨roots, a', hl⟩, hlinked, ?_, ?_⟩
  · rw [hl.bitcode, h.bitcode, hlinked]
  · have hunit : ({ s.add u with source := b } : Session).units[s.units.length]? = some u :=
      List.getElem?_concat_length ..
    rw [hl.stats, hl.walks.find?_readsPerModule hunit, hreads]

def shelf : CompiledUnit where
  name := "shelf"
  kind := .library
  symbols := [(SymbolEntry.function "brush" .external).implementing "fill", .function "step" .internal]
  references := [⟨"brush", .symbol "step"⟩, ⟨"brush", .symbol "api"⟩, ⟨"step", .dispatch "paint"⟩]

def cluttered : Source := fun name => if name = "shelf" then .ok [0xff] else twins.source name

theorem unused_library_is_free_shelf :
    ∃ a out out', ((analyzeBy .alone).run.run twins).1 = .ok a ∧ ((runBy .alone).run.run twins).1 = .ok out ∧
      twins.Unused a shelf ∧ (∀ x, x ≠ shelf.name → cluttered x = twins.source x) ∧
      ((runBy .alone).run.run { twins.add shelf with source := cluttered }).1 = .ok out' ∧
      out'.linked = out.linked ∧ out'.stats.readsPerModule.find? "shelf" = some 0 := by
  obtain ⟨a, out, hl⟩ := twins_links .alone
  have ha : ((analyzeBy .alone).run.run twins).1 = .ok a := analyzeBy_eq_ok_iff.mpr ⟨_, hl.walks⟩
  have ho : ((runBy .alone).run.run twins).1 = .ok out := runBy_eq_ok_iff.mpr ⟨_, a, hl⟩
  have hg : a.graph = Linked.twins.graph := Except.ok.inj (hl.walks.built.symm.trans Linked.twins_build)
  have hcap : ∀ site ∈ Linked.twins.graph.sites, ∀ d ∈ shelf.symbols, site.capability ∉ d.implements := by decide
  have htargets : ∀ r ∈ shelf.references, ∀ x, r.target = .symbol x →
      (∃ d ∈ shelf.symbols, d.name = x) ∨ ∃ v ∈ twins.units, x ∈ v.externals := by
    intro r hr x hx
    simp only [shelf, List.mem_cons, List.not_mem_nil, or_false] at hr
    rcases hr with rfl | rfl | rfl <;> cases hx
    · exact .inl (by decide)
    · exact .inr (by decide)
  have hu : twins.Unused a shelf := {
    kind := rfl
    fresh := by decide
    distinct := by decide
    kernels := by decide
    referrers := by decide
    targets := htargets
    externals := by decide
    implements := fun j site _ hs => hcap site (List.mem_of_getElem? (hg ▸ hs)) }
  have hb : ∀ x, x ≠ shelf.name → cluttered x = twins.source x := fun x hx => if_neg hx
  obtain ⟨out', ho', hlinked, _, hreads⟩ := unused_library_is_free ha ho hu hb .alone
  exact ⟨a, out, out', ha, ho, hu, hb, ho', hlinked, hreads⟩

end Session

end DeviceLink
