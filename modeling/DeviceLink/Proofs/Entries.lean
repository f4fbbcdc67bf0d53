import DeviceLink.Proofs.Abi
import DeviceLink.Proofs.Dispatch

namespace DeviceLink

open Fallible

def SymbolEntry.place (e : SymbolEntry) : Space :=
  match e.kind with
  | .data => e.space
  | .function => .generic

def CompiledUnit.opens (u : CompiledUnit) (e : SymbolEntry) : Bool :=
  e.isKernel || (e.visibility = .external && u.kind = .program)

lemma CompiledUnit.mem_externals {u : CompiledUnit} {x : String} :
    x ∈ u.externals ↔ ∃ e ∈ u.symbols, e.isExternal = true ∧ e.name = x := by
  simp only [externals, List.mem_map, List.mem_filter, and_assoc]

/-- What a name means in a unit: its own entry of that name, or else an external one. -/
def Means (units : List CompiledUnit) (u : CompiledUnit) (x : String) (v : CompiledUnit) (d : SymbolEntry) : Prop :=
  d ∈ v.symbols ∧ d.name = x ∧ (v = u ∨ v ∈ units ∧ d.isExternal = true ∧ ∀ e ∈ u.symbols, e.name ≠ x)

structure WellFormed (units : List CompiledUnit) : Prop extends Graph.Distinct units where
  referrers {u : CompiledUnit} (hu : u ∈ units) {r : Reference} (hr : r ∈ u.references) :
    ∃ e ∈ u.symbols, e.name = r.referrer
  targets {u : CompiledUnit} (hu : u ∈ units) {r : Reference} (hr : r ∈ u.references) {x : String}
    (hx : r.target = .symbol x) : ∃ v d, Means units u x v d

/-- The entries that a link keeps. -/
inductive Kept (units : List CompiledUnit) (extra : List String) : CompiledUnit → SymbolEntry → Prop
  | root {u : CompiledUnit} {e : SymbolEntry} (hu : u ∈ units) (he : e ∈ u.symbols) (ho : u.opens e = true) :
      Kept units extra u e
  | designated {u : CompiledUnit} {e : SymbolEntry} (hu : u ∈ units) (he : e ∈ u.symbols)
      (hv : e.isExternal = true) (hx : e.name ∈ extra) : Kept units extra u e
  | symbol {u v : CompiledUnit} {e d : SymbolEntry} {x : String} (hk : Kept units extra u e)
      (hr : ⟨e.name, .symbol x⟩ ∈ u.references) (hm : Means units u x v d) : Kept units extra v d
  | dispatch {u v : CompiledUnit} {e d : SymbolEntry} {c : String} (hk : Kept units extra u e)
      (hr : ⟨e.name, .dispatch c⟩ ∈ u.references) (hv : v ∈ units) (hd : d ∈ v.symbols) (hc : c ∈ d.implements) :
      Kept units extra v d

section Perm

variable {units units' : List CompiledUnit} {u v : CompiledUnit} {d e : SymbolEntry} {x : String} {extra : List String}

lemma Means.perm (h : Means units u x v d) (hp : units.Perm units') : Means units' u x v d := by
  obtain ⟨hd, hx, hv⟩ := h
  exact ⟨hd, hx, hv.imp_right (.imp_left hp.mem_iff.mp)⟩

lemma means_iff_of_perm (hp : units.Perm units') : Means units u x v d ↔ Means units' u x v d :=
  ⟨fun h => h.perm hp, fun h => h.perm hp.symm⟩

lemma WellFormed.perm (h : WellFormed units) (hp : units.Perm units') : WellFormed units' where
  names := (hp.map _).nodup_iff.mp h.names
  entries hu := h.entries (hp.mem_iff.mpr hu)
  referrers hu := h.referrers (hp.mem_iff.mpr hu)
  targets hu _ hr x hx := by
    obtain ⟨v, d, hm⟩ := h.targets (hp.mem_iff.mpr hu) hr hx
    exact ⟨v, d, hm.perm hp⟩

lemma Kept.perm (h : Kept units extra u e) (hp : units.Perm units') : Kept units' extra u e := by
  induction h with
  | root hu he ho => exact .root (hp.mem_iff.mp hu) he ho
  | designated hu he hv hx => exact .designated (hp.mem_iff.mp hu) he hv hx
  | symbol _ hr hm ih => exact .symbol ih hr (hm.perm hp)
  | dispatch _ hr hv hd hc ih => exact .dispatch ih hr (hp.mem_iff.mp hv) hd hc

end Perm

section Mem

variable {units : List CompiledUnit} {u v : CompiledUnit} {d e : SymbolEntry} {x : String}

lemma Means.mem (h : Means units u x v d) (hu : u ∈ units) : v ∈ units ∧ d ∈ v.symbols := by
  obtain ⟨hd, _, rfl | ⟨hv, _⟩⟩ := h
  · exact ⟨hu, hd⟩
  · exact ⟨hv, hd⟩

lemma exists_means_iff :
    (∃ v d, Means units u x v d) ↔ (∃ e ∈ u.symbols, e.name = x) ∨ ∃ v ∈ units, x ∈ v.externals := by
  constructor
  · rintro ⟨v, d, hd, rfl, rfl | ⟨hv, hx, _⟩⟩
    · exact .inl ⟨d, hd, rfl⟩
    · exact .inr ⟨v, hv, CompiledUnit.mem_externals.mpr ⟨d, hd, hx, rfl⟩⟩
  · rintro (⟨e, he, rfl⟩ | ⟨v, hv, hx⟩)
    · exact ⟨u, e, he, rfl, .inl rfl⟩
    · obtain ⟨d, hd, hv', rfl⟩ := CompiledUnit.mem_externals.mp hx
      by_cases hown : ∃ e ∈ u.symbols, e.name = d.name
      · obtain ⟨e, he, hn⟩ := hown
        exact ⟨u, e, he, hn, .inl rfl⟩
      · push Not at hown
        exact ⟨v, d, hd, rfl, .inr ⟨hv, hv', hown⟩⟩

lemma Kept.mem {extra : List String} (h : Kept units extra u e) : u ∈ units ∧ e ∈ u.symbols := by
  induction h with
  | root hu he | designated hu he => exact ⟨hu, he⟩
  | symbol _ _ hm ih => exact hm.mem ih.1
  | dispatch _ _ hv hd => exact ⟨hv, hd⟩

end Mem

namespace Graph

variable {units : List CompiledUnit} {g : Graph}

section Names

variable {k : ModuleId} {u : CompiledUnit} {x : String}

variable (hg : Filled units g)

include hg

lemma isSome_own?_iff (hu : units[k]? = some u) : (g.own? k x).isSome = true ↔ ∃ e ∈ u.symbols, e.name = x := by
  simp only [hg.own, ownedBy?, hg.symbols, List.findIdx?_isSome, List.any_eq_true, mem_symbolsOf, Bool.and_eq_true,
    decide_eq_true_eq]
  constructor
  · rintro ⟨_, ⟨j, v, e, hv, he, rfl⟩, rfl, rfl⟩
    obtain rfl : v = u := Option.some.inj (hv.symm.trans hu)
    exact ⟨e, he, rfl⟩
  · rintro ⟨e, he, rfl⟩
    exact ⟨_, ⟨k, u, e, hu, he, rfl⟩, rfl, rfl⟩

lemma isSome_external?_iff : (g.external? x).isSome = true ↔ ∃ v ∈ units, x ∈ v.externals := by
  simp only [hg.external, firstExternal?, hg.symbols, List.findIdx?_isSome, List.any_eq_true, mem_symbolsOf,
    Bool.and_eq_true, decide_eq_true_eq, CompiledUnit.mem_externals]
  constructor
  · rintro ⟨_, ⟨j, v, e, hv, he, rfl⟩, hx, rfl⟩
    exact ⟨v, List.mem_of_getElem? hv, e, he, (isExternal_symbolOfEntry j e).symm.trans hx, rfl⟩
  · rintro ⟨v, hv, e, he, hx, rfl⟩
    obtain ⟨j, hv⟩ := List.mem_iff_getElem?.mp hv
    exact ⟨_, ⟨j, v, e, hv, he, rfl⟩, (isExternal_symbolOfEntry j e).trans hx, rfl⟩

lemma isSome_resolve?_iff (hu : units[k]? = some u) :
    (g.resolve? k x).isSome = true ↔ ∃ v d, Means units u x v d := by
  rw [resolve?, Option.orElse_eq_orElse, Option.orElse_eq_or, Option.isSome_or, Bool.or_eq_true,
    isSome_own?_iff hg hu, isSome_external?_iff hg, exists_means_iff]

lemma isSome_siteId?_of_dispatched {c referrer : String} (hu : u ∈ units)
    (hr : ⟨referrer, .dispatch c⟩ ∈ u.references) : (g.siteId? c).isSome = true := by
  have hc : c ∈ capabilitiesOf units :=
    mem_capabilitiesOf.mpr (.inr ⟨u, hu, List.mem_filterMap.mpr ⟨_, hr, rfl⟩⟩)
  simp only [hg.site, hg.sites, List.findIdx?_isSome, List.any_eq_true, sitesOf, List.mem_map]
  exact ⟨_, ⟨c, hc, rfl⟩, decide_eq_true rfl⟩

end Names

section WellFormed

lemma wellFormed_of_build (h : build units = .ok g) : WellFormed units := by
  have hg := filled_of_build h
  refine ⟨distinct_of_build h, fun {u} hu r hr => ?_, fun {u} hu r hr x hx => ?_⟩
  all_goals
    obtain ⟨k, hu⟩ := List.mem_iff_getElem?.mp hu
    obtain ⟨⟨id, n⟩, he⟩ := exists_edgeOf h hu hr
    obtain ⟨hown, ht⟩ := edgeOf_eq_ok_iff.mp he
  · exact (isSome_own?_iff hg hu).mp (Option.isSome_of_eq_some hown)
  · rw [hx] at ht
    obtain ⟨t, ht, _⟩ := Option.map_eq_some_iff.mp ht
    exact (isSome_resolve?_iff hg hu).mp (Option.isSome_of_eq_some ht)

lemma exists_edgeOf_of_filled (h : WellFormed units) (hg : Filled units g) {k : ModuleId} {u : CompiledUnit}
    (hu : units[k]? = some u) {r : Reference} (hr : r ∈ u.references) : ∃ e, g.edgeOf u k r = .ok e := by
  have hmem := List.mem_of_getElem? hu
  obtain ⟨id, hid⟩ := Option.isSome_iff_exists.mp ((isSome_own?_iff hg hu).mpr (h.referrers hmem hr))
  suffices ht : ∃ n, g.target? k r.target = some n by
    obtain ⟨n, hn⟩ := ht
    exact ⟨(id, n), edgeOf_eq_ok_iff.mpr ⟨hid, hn⟩⟩
  rcases r with ⟨referrer, x | c⟩
  · obtain ⟨t, ht⟩ := Option.isSome_iff_exists.mp ((isSome_resolve?_iff hg hu).mpr (h.targets hmem hr rfl))
    exact ⟨.symbol t, Option.map_eq_some_iff.mpr ⟨t, ht, rfl⟩⟩
  · obtain ⟨t, ht⟩ := Option.isSome_iff_exists.mp (isSome_siteId?_of_dispatched hg hmem hr)
    exact ⟨.dispatch t, Option.map_eq_some_iff.mpr ⟨t, ht, rfl⟩⟩

lemma exists_build_iff : (∃ g, build units = .ok g) ↔ WellFormed units := by
  constructor
  · rintro ⟨g, h⟩
    exact wellFormed_of_build h
  · intro h
    obtain ⟨t, ht⟩ := exists_ofUnits_iff.mpr h.toDistinct
    obtain ⟨lists, hl⟩ : ∃ lists, (units.zipIdx.mapM fun x => x.1.references.mapM (t.edgeOf x.1 x.2)) = .ok lists := by
      apply exists_mapM_eq_ok
      intro x hx
      apply exists_mapM_eq_ok
      exact fun r hr => exists_edgeOf_of_filled h (filled_of_ofUnits ht) (List.mk_mem_zipIdx_iff_getElem?.mp hx) hr
    have he : t.edgesOf units = .ok lists.flatten := bind_eq_ok_iff.mpr ⟨lists, hl, rfl⟩
    exact ⟨_, bind_eq_ok_iff.mpr ⟨t, ht, bind_eq_ok_iff.mpr ⟨_, he, rfl⟩⟩⟩

end WellFormed

section Stands

def placed (units : List CompiledUnit) : List (ModuleId × SymbolEntry) :=
  units.zipIdx.flatMap fun (u, k) => u.symbols.map (k, ·)

lemma symbolsOf_eq (units : List CompiledUnit) :
    symbolsOf units = (placed units).map fun p => symbolOfEntry p.1 p.2 := by
  simp only [symbolsOf, placed, List.map_flatMap, List.map_map, Function.comp_def]

lemma entries_eq (units : List CompiledUnit) : entries units = (placed units).map (·.2) := by
  simp only [entries, placed, List.map_flatMap, List.map_map, Function.comp_def, List.map_id']
  conv_lhs => rw [← List.zipIdx_map_fst 0 units, List.flatMap_map]

lemma mem_placed {k : ModuleId} {e : SymbolEntry} :
    (k, e) ∈ placed units ↔ ∃ u, units[k]? = some u ∧ e ∈ u.symbols := by
  simp [placed, List.mem_flatMap, List.mk_mem_zipIdx_iff_getElem?]

def Stands (units : List CompiledUnit) (id : SymbolId) (u : CompiledUnit) (e : SymbolEntry) : Prop :=
  ∃ k, units[k]? = some u ∧ (placed units)[id]? = some (k, e)

variable {id : SymbolId} {s : Symbol} {u v : CompiledUnit} {e d : SymbolEntry}

lemma Stands.mem (h : Stands units id u e) : u ∈ units ∧ e ∈ u.symbols := by
  obtain ⟨k, hu, hid⟩ := h
  obtain ⟨v, hv, he⟩ := mem_placed.mp (List.mem_of_getElem? hid)
  obtain rfl : v = u := Option.some.inj (hv.symm.trans hu)
  exact ⟨List.mem_of_getElem? hu, he⟩

lemma Stands.unique (h : Stands units id u e) (h' : Stands units id v d) : u = v ∧ e = d := by
  obtain ⟨k, hu, hid⟩ := h
  obtain ⟨j, hv, hid'⟩ := h'
  obtain ⟨rfl, rfl⟩ := Prod.mk.inj (Option.some.inj (hid.symm.trans hid'))
  exact ⟨Option.some.inj (hu.symm.trans hv), rfl⟩

lemma exists_stands_of_mem (hu : u ∈ units) (he : e ∈ u.symbols) : ∃ id, Stands units id u e := by
  obtain ⟨k, hu⟩ := List.mem_iff_getElem?.mp hu
  obtain ⟨id, hid⟩ := List.mem_iff_getElem?.mp (mem_placed.mpr ⟨u, hu, he⟩)
  exact ⟨id, k, hu, hid⟩

lemma Stands.mem_implementationsOf_iff (h : Stands units id u e) {c : String} :
    id ∈ implementationsOf units c ↔ c ∈ e.implements := by
  obtain ⟨k, _, hid⟩ := h
  simp [mem_implementationsOf, entries_eq, hid]

variable (h : build units = .ok g)

include h

lemma Stands.exists_symbol (hs : Stands units id u e) :
    ∃ k, units[k]? = some u ∧ g.symbols[id]? = some (symbolOfEntry k e) := by
  obtain ⟨k, hu, hid⟩ := hs
  refine ⟨k, hu, ?_⟩
  rw [symbols_of_build h, symbolsOf_eq, List.getElem?_map, hid]
  rfl

lemma exists_stands (hs : g.symbols[id]? = some s) :
    ∃ k u e, Stands units id u e ∧ units[k]? = some u ∧ s = symbolOfEntry k e := by
  rw [symbols_of_build h, symbolsOf_eq, List.getElem?_map] at hs
  obtain ⟨⟨k, e⟩, hid, rfl⟩ := Option.map_eq_some_iff.mp hs
  obtain ⟨u, hu, _⟩ := mem_placed.mp (List.mem_of_getElem? hid)
  exact ⟨k, u, e, ⟨k, hu, hid⟩, hu, rfl⟩

lemma eq_of_unit {k j : ModuleId} (hk : units[k]? = some u) (hj : units[j]? = some v) (hn : u.name = v.name) :
    k = j := by
  have hlt : k < (units.map (·.name)).length := by
    rw [List.length_map]
    exact (List.getElem?_eq_some_iff.mp hk).1
  refine (List.getElem?_inj hlt (distinct_of_build h).names).mp ?_
  rw [List.getElem?_map, List.getElem?_map, hk, hj]
  exact congrArg some hn

lemma Stands.eq_of_names {id' : SymbolId} (hs : Stands units id u e) (hs' : Stands units id' v d)
    (hu : u.name = v.name) (he : e.name = d.name) : id = id' := by
  obtain ⟨k, hk, hs⟩ := hs.exists_symbol h
  obtain ⟨j, hj, hs'⟩ := hs'.exists_symbol h
  obtain rfl := eq_of_unit h hk hj hu
  have hown : g.own? k e.name = some id := own?_eq_some_of_build h hs
  have hown' : g.own? k d.name = some id' := own?_eq_some_of_build h hs'
  rw [he] at hown
  exact Option.some.inj (hown.symm.trans hown')

lemma external?_eq_some_iff (hd : g.duplicateExternals = []) {x : String} :
    g.external? x = some id ↔ ∃ v d, Stands units id v d ∧ d.isExternal = true ∧ d.name = x := by
  have hg := indexed_of_build h
  constructor
  · intro hx
    rw [hg.external] at hx
    obtain ⟨hlt, hp, _⟩ := List.findIdx?_eq_some_iff_getElem.mp hx
    obtain ⟨hext, hn⟩ := Bool.and_eq_true_iff.mp hp
    obtain ⟨k, v, d, hst, _, hs⟩ := exists_stands h (List.getElem?_eq_getElem hlt)
    rw [hs] at hext hn
    exact ⟨v, d, hst, (isExternal_symbolOfEntry k d).symm.trans hext, of_decide_eq_true hn⟩
  · rintro ⟨v, d, hst, hext, rfl⟩
    obtain ⟨k, _, hs⟩ := hst.exists_symbol h
    exact hg.external?_eq_some hd hs ((isExternal_symbolOfEntry k d).trans hext)

section Means

variable {k : ModuleId} {x : String} (hu : units[k]? = some u)

include hu

lemma means_iff_of_own {own : SymbolId} (hown : g.own? k x = some own) (hs : Stands units id v d) :
    Means units u x v d ↔ id = own := by
  obtain ⟨s, hsym, rfl, rfl⟩ := (indexed_of_build h).exists_symbol_of_own? hown
  obtain ⟨k, w, e, hst, hw, rfl⟩ := exists_stands h hsym
  obtain rfl : w = u := Option.some.inj (hw.symm.trans hu)
  constructor
  · rintro ⟨_, hn, rfl | ⟨_, _, hnone⟩⟩
    · exact hs.eq_of_names h hst rfl hn
    · exact absurd rfl (hnone e hst.mem.2)
  · rintro rfl
    obtain ⟨rfl, rfl⟩ := hs.unique hst
    exact ⟨hst.mem.2, rfl, .inl rfl⟩

lemma means_iff_of_not_own (hown : g.own? k x = none) (hs : Stands units id v d) :
    Means units u x v d ↔ d.isExternal = true ∧ d.name = x := by
  have hnone : ∀ e ∈ u.symbols, e.name ≠ x := by
    intro e he hn
    have hsome := (isSome_own?_iff (filled_of_build h) hu).mpr ⟨e, he, hn⟩
    simp [hown] at hsome
  constructor
  · rintro ⟨hd, hn, rfl | ⟨_, hx, _⟩⟩
    · exact absurd hn (hnone d hd)
    · exact ⟨hx, hn⟩
  · rintro ⟨hx, hn⟩
    exact ⟨hs.mem.2, hn, .inr ⟨hs.mem.1, hx, hnone⟩⟩

end Means

lemma resolve?_eq_some_iff (hd : g.duplicateExternals = []) {k : ModuleId} (hu : units[k]? = some u) {x : String} :
    g.resolve? k x = some id ↔ ∃ v d, Means units u x v d ∧ Stands units id v d := by
  rw [resolve?]
  cases hown : g.own? k x with
  | some own =>
    obtain ⟨s, hsym, _⟩ := (indexed_of_build h).exists_symbol_of_own? hown
    obtain ⟨_, w, e, hst, _⟩ := exists_stands h hsym
    constructor
    · intro hr
      obtain rfl : own = id := Option.some.inj hr
      exact ⟨w, e, (means_iff_of_own h hu hown hst).mpr rfl, hst⟩
    · rintro ⟨v, d, hm, hst'⟩
      exact congrArg some ((means_iff_of_own h hu hown hst').mp hm).symm
  | none =>
    refine (external?_eq_some_iff h hd).trans (exists₂_congr fun v d => ?_)
    rw [and_comm]
    exact and_congr_left fun hst => (means_iff_of_not_own h hu hown hst).symm

end Stands

section Successors

variable (h : build units = .ok g) {n : Node}

include h

lemma exists_symbol_of_mem_successors {id : SymbolId} (hn : n ∈ g.successors (.symbol id)) :
    ∃ s, g.symbols[id]? = some s := by
  obtain ⟨_, _, _, _, _, hown, _⟩ := (mem_successors_iff h).mp hn
  exact ⟨_, List.getElem?_eq_getElem ((indexed_of_build h).lt_of_own? hown)⟩

lemma cases_successor (hd : g.duplicateExternals = []) {own : SymbolId} {u : CompiledUnit} {e : SymbolEntry}
    (hs : Stands units own u e) (hn : n ∈ g.successors (.symbol own)) :
    (∃ x id v d, n = .symbol id ∧ ⟨e.name, .symbol x⟩ ∈ u.references ∧ Means units u x v d ∧ Stands units id v d) ∨
      ∃ j site, n = .dispatch j ∧ g.sites[j]? = some site ∧ ⟨e.name, .dispatch site.capability⟩ ∈ u.references := by
  obtain ⟨k, v, ⟨referrer, target⟩, hv, href, hown, ht⟩ := (mem_successors_iff h).mp hn
  obtain ⟨s, hsym, rfl, rfl⟩ := (indexed_of_build h).exists_symbol_of_own? hown
  obtain ⟨k, u', e', hs', hu', rfl⟩ := exists_stands h hsym
  obtain ⟨rfl, rfl⟩ := hs.unique hs'
  obtain rfl : u = v := Option.some.inj (hu'.symm.trans hv)
  cases target with
  | symbol x =>
    obtain ⟨id, hid, rfl⟩ := Option.map_eq_some_iff.mp ht
    obtain ⟨v, d, hm, hst⟩ := (resolve?_eq_some_iff h hd hv).mp hid
    exact .inl ⟨x, id, v, d, rfl, href, hm, hst⟩
  | dispatch c =>
    obtain ⟨j, hj, rfl⟩ := Option.map_eq_some_iff.mp ht
    obtain ⟨site, hsite, rfl⟩ := (indexed_of_build h).exists_site_of_siteId? hj
    exact .inr ⟨j, site, rfl, hsite, href⟩

lemma exists_implementation_of_mem_successors {j : SiteId} (hn : n ∈ g.successors (.dispatch j)) :
    ∃ site id v d, g.sites[j]? = some site ∧ n = .symbol id ∧ Stands units id v d ∧
      site.capability ∈ d.implements := by
  rw [(indexed_of_build h).dispatch] at hn
  cases hj : g.sites[j]? with
  | none => simp [hj] at hn
  | some site =>
    simp only [hj, Option.map_some, Option.getD_some, implementations_of_build h hj] at hn
    obtain ⟨id, hid, rfl⟩ := List.mem_map.mp hn
    have hlt : id < g.symbols.length := by
      rw [symbols_of_build h]
      exact lt_of_mem_implementationsOf hid
    obtain ⟨_, v, d, hst, _⟩ := exists_stands h (List.getElem?_eq_getElem hlt)
    exact ⟨site, id, v, d, rfl, rfl, hst, hst.mem_implementationsOf_iff.mp hid⟩

end Successors

section Kept

def KeepsNode (g : Graph) (units : List CompiledUnit) (extra : List String) : Node → Prop
  | .symbol id => ∀ u e, Stands units id u e → Kept units extra u e
  | .dispatch j => ∀ site, g.sites[j]? = some site →
      ∃ u e, Kept units extra u e ∧ ⟨e.name, .dispatch site.capability⟩ ∈ u.references

variable {extra : List String} {roots : List SymbolId} {id : SymbolId} {u : CompiledUnit} {e : SymbolEntry}

lemma isRoot_symbolOfEntry (h : build units = .ok g) {k : ModuleId} (hu : units[k]? = some u) (e : SymbolEntry) :
    g.isRoot (symbolOfEntry k e) = u.opens e := by
  have hp := isProgram_of_build h hu
  cases hk : e.isKernel <;> simp [isRoot, symbolOfEntry, Symbol.isExternal, CompiledUnit.opens, hk, hp]

lemma designated?_eq_external? (h : build units = .ok g) {x : String} (hx : ∃ v ∈ units, x ∈ v.externals) :
    g.designated? x = g.external? x := by
  obtain ⟨t, ht⟩ := Option.isSome_iff_exists.mp ((isSome_external?_iff (filled_of_build h)).mpr hx)
  simp [designated?, ht]

variable (h : build units = .ok g) (hx : ∀ x ∈ extra, ∃ v ∈ units, x ∈ v.externals)

include h hx

lemma exists_roots : ∃ roots, g.roots extra = .ok roots := by
  refine exists_roots_iff.mpr fun x hmem => ?_
  rw [designated?_eq_external? h (hx x hmem)]
  exact Option.isSome_iff_exists.mp ((isSome_external?_iff (filled_of_build h)).mpr (hx x hmem))

variable (hd : g.duplicateExternals = []) (hr : g.roots extra = .ok roots)

include hd hr

lemma Stands.mem_roots_iff (hs : Stands units id u e) :
    id ∈ roots ↔ u.opens e = true ∨ (e.isExternal = true ∧ e.name ∈ extra) := by
  obtain ⟨k, hu, hsym⟩ := hs.exists_symbol h
  rw [Graph.mem_roots_iff hr]
  refine or_congr ?_ ?_
  · simp [hsym, isRoot_symbolOfEntry h hu]
  · constructor
    · rintro ⟨x, hmem, hdes⟩
      rw [designated?_eq_external? h (hx x hmem)] at hdes
      obtain ⟨v, d, hst, hext, rfl⟩ := (external?_eq_some_iff h hd).mp hdes
      obtain ⟨rfl, rfl⟩ := hs.unique hst
      exact ⟨hext, hmem⟩
    · rintro ⟨hext, hmem⟩
      refine ⟨e.name, hmem, ?_⟩
      rw [designated?_eq_external? h (hx _ hmem)]
      exact (external?_eq_some_iff h hd).mpr ⟨u, e, hs, hext, rfl⟩

lemma keepsNode_of_reaches {n : Node} (hn : g.Reaches roots n) : g.KeepsNode units extra n := by
  -- along the path: a capability is carried on by the entry that dispatches on it
  induction hn with
  | root hid =>
    intro u e hst
    obtain ⟨hu, he⟩ := hst.mem
    rcases (hst.mem_roots_iff h hx hd hr).mp hid with ho | ⟨hext, hmem⟩
    · exact .root hu he ho
    · exact .designated hu he hext hmem
  | @step n m hn hm ih =>
    cases n with
    | symbol own =>
      obtain ⟨s, hs⟩ := exists_symbol_of_mem_successors h hm
      obtain ⟨_, u, e, hst, _⟩ := exists_stands h hs
      have hk := ih u e hst
      rcases cases_successor h hd hst hm with ⟨x, id, v, d, rfl, href, hmean, hst'⟩ | ⟨j, site, rfl, hj, href⟩
      · intro v' d' hst''
        obtain ⟨rfl, rfl⟩ := hst'.unique hst''
        exact .symbol hk href hmean
      · intro site' hj'
        obtain rfl : site = site' := Option.some.inj (hj.symm.trans hj')
        exact ⟨u, e, hk, href⟩
    | dispatch j =>
      obtain ⟨site, id, v, d, hj, rfl, hst, hc⟩ := exists_implementation_of_mem_successors h hm
      obtain ⟨u, e, hk, href⟩ := ih site hj
      intro v' d' hst'
      obtain ⟨rfl, rfl⟩ := hst.unique hst'
      exact .dispatch hk href hst.mem.1 hst.mem.2 hc

lemma reaches_of_kept (hk : Kept units extra u e) : ∀ id, Stands units id u e → g.Reaches roots (.symbol id) := by
  induction hk with
  | root _ _ ho => exact fun id hst => .root ((hst.mem_roots_iff h hx hd hr).mpr (.inl ho))
  | designated _ _ hext hmem => exact fun id hst => .root ((hst.mem_roots_iff h hx hd hr).mpr (.inr ⟨hext, hmem⟩))
  | @symbol u v e d x hk href hm ih =>
    intro id hst
    obtain ⟨own, hown⟩ := exists_stands_of_mem hk.mem.1 hk.mem.2
    obtain ⟨k, hu, hs⟩ := hown.exists_symbol h
    obtain ⟨n, hn, hreach⟩ := reaches_target h hu hs rfl href (ih own hown)
    have hres := (resolve?_eq_some_iff h hd hu).mpr ⟨v, d, hm, hst⟩
    obtain rfl : .symbol id = n := by simpa [target?, hres] using hn
    exact hreach
  | @dispatch u v e d c hk href _ _ hc ih =>
    intro id hst
    obtain ⟨own, hown⟩ := exists_stands_of_mem hk.mem.1 hk.mem.2
    obtain ⟨k, hu, hs⟩ := hown.exists_symbol h
    obtain ⟨n, hn, hreach⟩ := reaches_target h hu hs rfl href (ih own hown)
    obtain ⟨j, hj, rfl⟩ := Option.map_eq_some_iff.mp hn
    obtain ⟨site, hsite, rfl⟩ := (indexed_of_build h).exists_site_of_siteId? hj
    exact reaches_implementation h hreach hsite (hst.mem_implementationsOf_iff.mpr hc)

lemma Stands.reaches_iff_kept (hs : Stands units id u e) : g.Reaches roots (.symbol id) ↔ Kept units extra u e :=
  ⟨fun hid => keepsNode_of_reaches h hx hd hr hid u e hs, fun hk => reaches_of_kept h hx hd hr hk id hs⟩

end Kept

end Graph

def Analysis.reachedNames (a : Analysis) : List (String × String) :=
  (a.reached.marks.symbols a.graph).filterMap fun id =>
    a.graph.symbols[id]?.map fun s => (a.graph.moduleName s.owner, s.name)

namespace Session.Walks

variable {s : Session} {e : Strategy} {roots : List SymbolId} {a : Analysis}

lemma mem_reachedNames_iff (h : s.Walks e a.graph roots (.ok a.reached, a.loader)) {unit x : String} :
    (unit, x) ∈ a.reachedNames ↔
      ∃ id u d, Graph.Stands s.units id u d ∧ a.graph.Reaches roots (.symbol id) ∧ u.name = unit ∧ d.name = x := by
  simp only [Analysis.reachedNames, List.mem_filterMap, Option.map_eq_some_iff, Prod.mk.injEq]
  constructor
  · rintro ⟨id, hid, sym, hs, rfl, rfl⟩
    obtain ⟨k, u, d, hst, hu, rfl⟩ := Graph.exists_stands h.built hs
    have hreach := h.covers.marks.mp (Linked.Naming.mem_symbols.mp hid).2
    exact ⟨id, u, d, hst, hreach, (Graph.moduleName_of_build h.built hu).symm, rfl⟩
  · rintro ⟨id, u, d, hst, hreach, rfl, rfl⟩
    obtain ⟨k, hu, hs⟩ := hst.exists_symbol h.built
    exact ⟨id, Linked.Naming.mem_symbols_of_reaches h.built h.roots_lt h.covers hreach, _, hs,
      Graph.moduleName_of_build h.built hu, rfl⟩

lemma names_mem_reachedNames_iff (h : s.Walks e a.graph roots (.ok a.reached, a.loader)) {id : SymbolId}
    {u : CompiledUnit} {d : SymbolEntry} (hst : Graph.Stands s.units id u d) :
    (u.name, d.name) ∈ a.reachedNames ↔ a.graph.Reaches roots (.symbol id) := by
  refine h.mem_reachedNames_iff.trans ⟨?_, fun hid => ⟨id, u, d, hst, hid, rfl, rfl⟩⟩
  rintro ⟨id', u', d', hst', hid', hu, hd⟩
  exact hst'.eq_of_names h.built hst hu hd ▸ hid'

end Session.Walks

end DeviceLink
