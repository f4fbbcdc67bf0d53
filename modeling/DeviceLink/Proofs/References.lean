import DeviceLink.Proofs.Entries
import Mathlib.Order.Bounds.Defs

/-! The edges of a graph are the references of its units: each leads to the first entry that its name means, or to
its capability, and it does not matter in which order or how often it is listed. -/

namespace DeviceLink

open Fallible

lemma isLeast_iff_first {P : Nat → Prop} {n : Nat} : IsLeast {i | P i} n ↔ P n ∧ ∀ i < n, ¬ P i := by
  refine and_congr_right fun _ => ⟨fun hmin i hi hp => ?_, fun hmin i hp => ?_⟩
  · exact Nat.not_le.mpr hi (hmin hp)
  · exact Nat.not_lt.mp fun hi => hmin i hi hp

lemma findIdx?_eq_some_iff_isLeast {α : Type} {p : α → Bool} {xs : List α} {i : Nat} :
    xs.findIdx? p = some i ↔ IsLeast {i | ∃ a, xs[i]? = some a ∧ p a = true} i := by
  rw [List.findIdx?_eq_some_iff_getElem, isLeast_iff_first]
  constructor
  · rintro ⟨hlt, hp, hmin⟩
    refine ⟨⟨xs[i], List.getElem?_eq_getElem hlt, hp⟩, fun j hj ⟨a, ha, hpa⟩ => ?_⟩
    obtain ⟨_, rfl⟩ := List.getElem?_eq_some_iff.mp ha
    exact hmin j hj hpa
  · rintro ⟨⟨a, ha, hpa⟩, hmin⟩
    obtain ⟨hlt, rfl⟩ := List.getElem?_eq_some_iff.mp ha
    exact ⟨hlt, hpa, fun j hj hpj => hmin j hj ⟨_, List.getElem?_eq_getElem (Nat.lt_trans hj hlt), hpj⟩⟩

def Graph.Denotes (units : List CompiledUnit) (u : CompiledUnit) (x : String) (id : SymbolId) : Prop :=
  (∃ v d, Stands units id v d ∧ Means units u x v d) ∧ ∀ i < id, ∀ v d, Stands units i v d → ¬ Means units u x v d

def Graph.LeadsTo (g : Graph) (units : List CompiledUnit) (u : CompiledUnit) : Target → Node → Prop
  | .symbol x, .symbol id => Denotes units u x id
  | .dispatch c, .dispatch j => ∃ site, g.sites[j]? = some site ∧ site.capability = c
  | _, _ => False

namespace Graph

variable {units : List CompiledUnit} {g : Graph} {k : ModuleId} {u : CompiledUnit} {x c : String} {id : SymbolId}
  {n : Node}

section Externals

def Exports (units : List CompiledUnit) (x : String) (id : SymbolId) : Prop :=
  ∃ e, (entries units)[id]? = some e ∧ e.isExternal = true ∧ e.name = x

lemma getElem?_symbols (h : build units = .ok g) (id : SymbolId) :
    g.symbols[id]? = (placed units)[id]?.map fun p => symbolOfEntry p.1 p.2 := by
  rw [symbols_of_build h, symbolsOf_eq, List.getElem?_map]

lemma exists_entry_iff (h : build units = .ok g) {P : SymbolEntry → Prop} {q : Symbol → Bool}
    (hq : ∀ k e, q (symbolOfEntry k e) = true ↔ P e) :
    (∃ e, (entries units)[id]? = some e ∧ P e) ↔ ∃ s, g.symbols[id]? = some s ∧ q s = true := by
  rw [getElem?_symbols h, entries_eq, List.getElem?_map]
  cases (placed units)[id]? with
  | none => simp
  | some p => simp [hq]

lemma findIdx?_symbols_eq_some_iff (h : build units = .ok g) {P : SymbolEntry → Prop} {q : Symbol → Bool}
    (hq : ∀ k e, q (symbolOfEntry k e) = true ↔ P e) :
    g.symbols.findIdx? q = some id ↔ IsLeast {i | ∃ e, (entries units)[i]? = some e ∧ P e} id := by
  simp only [exists_entry_iff h hq]
  exact findIdx?_eq_some_iff_isLeast

lemma exists_findIdx?_symbols_iff (h : build units = .ok g) {P : SymbolEntry → Prop} {q : Symbol → Bool}
    (hq : ∀ k e, q (symbolOfEntry k e) = true ↔ P e) :
    (∃ i, g.symbols.findIdx? q = some i) ↔ ∃ (i : SymbolId) (e : SymbolEntry), (entries units)[i]? = some e ∧ P e := by
  constructor
  · rintro ⟨i, hi⟩
    exact ⟨i, ((findIdx?_symbols_eq_some_iff h hq).mp hi).1⟩
  · rintro ⟨i, hi⟩
    obtain ⟨s, hs, hp⟩ := (exists_entry_iff h hq).mp hi
    apply Option.isSome_iff_exists.mp
    rw [List.findIdx?_isSome, List.any_eq_true]
    exact ⟨s, List.mem_of_getElem? hs, hp⟩

lemma exports_symbolOfEntry (k : ModuleId) (e : SymbolEntry) :
    ((symbolOfEntry k e).isExternal && (symbolOfEntry k e).name = x) = true ↔ e.isExternal = true ∧ e.name = x := by
  rw [isExternal_symbolOfEntry, Bool.and_eq_true, decide_eq_true_eq]
  rfl

lemma exports_iff (h : build units = .ok g) :
    Exports units x id ↔ ∃ s, g.symbols[id]? = some s ∧ (s.isExternal && s.name = x) = true :=
  exists_entry_iff h exports_symbolOfEntry

lemma external?_eq_some_iff_isLeast (h : build units = .ok g) :
    g.external? x = some id ↔ IsLeast {i | Exports units x i} id := by
  rw [(indexed_of_build h).external]
  exact findIdx?_symbols_eq_some_iff h exports_symbolOfEntry

lemma exists_external?_iff (h : build units = .ok g) :
    (∃ id, g.external? x = some id) ↔ ∃ i, Exports units x i := by
  rw [(indexed_of_build h).external]
  exact exists_findIdx?_symbols_iff h exports_symbolOfEntry

lemma exports_iff_stands : Exports units x id ↔ ∃ v d, Stands units id v d ∧ d.isExternal = true ∧ d.name = x := by
  rw [Exports, entries_eq, List.getElem?_map]
  constructor
  · rintro ⟨d, hd, hx⟩
    obtain ⟨⟨k, d⟩, hid, rfl⟩ := Option.map_eq_some_iff.mp hd
    obtain ⟨v, hv, _⟩ := mem_placed.mp (List.mem_of_getElem? hid)
    exact ⟨v, d, ⟨k, hv, hid⟩, hx⟩
  · rintro ⟨v, d, ⟨k, _, hid⟩, hx⟩
    exact ⟨d, by rw [hid]; rfl, hx⟩

end Externals

section Resolve

variable (h : build units = .ok g)

include h

lemma resolve?_eq_some_iff_denotes (hu : units[k]? = some u) : g.resolve? k x = some id ↔ Denotes units u x id := by
  rw [resolve?]
  cases hown : g.own? k x with
  | some own =>
    obtain ⟨s, hsym, _⟩ := (indexed_of_build h).exists_symbol_of_own? hown
    obtain ⟨_, v, e, hst, _⟩ := exists_stands h hsym
    constructor
    · intro hr
      obtain rfl : own = id := Option.some.inj hr
      refine ⟨⟨v, e, hst, (means_iff_of_own h hu hown hst).mpr rfl⟩, fun i hi w d hst' hm => ?_⟩
      exact Nat.ne_of_lt hi ((means_iff_of_own h hu hown hst').mp hm)
    · rintro ⟨⟨w, d, hst', hm⟩, _⟩
      exact congrArg some ((means_iff_of_own h hu hown hst').mp hm).symm
  | none =>
    have hmeans (i : SymbolId) : Exports units x i ↔ ∃ v d, Stands units i v d ∧ Means units u x v d :=
      exports_iff_stands.trans <| exists₂_congr fun v d => and_congr_right fun hst =>
        (means_iff_of_not_own h hu hown hst).symm
    refine (external?_eq_some_iff_isLeast h).trans ?_
    simp only [isLeast_iff_first, hmeans, not_exists, not_and]
    rfl

end Resolve

section Sites

variable {j : SiteId}

lemma sites_of_build (h : build units = .ok g) : g.sites = sitesOf units := (filled_of_build h).sites

lemma capabilitiesOf_nodup (units : List CompiledUnit) : (capabilitiesOf units).Nodup :=
  (Ordered.pairwise_ofList _).nodup

lemma exists_site_iff (h : build units = .ok g) :
    (∃ site, g.sites[j]? = some site ∧ site.capability = c) ↔ (capabilitiesOf units)[j]? = some c := by
  rw [sites_of_build h, sitesOf]
  simp

lemma siteId?_eq_some_iff (h : build units = .ok g) :
    g.siteId? c = some j ↔ ∃ site, g.sites[j]? = some site ∧ site.capability = c := by
  have hg := indexed_of_build h
  refine ⟨hg.exists_site_of_siteId?, fun hj => ?_⟩
  obtain ⟨site, hsite, hc⟩ := id hj
  obtain ⟨i, hi⟩ : ∃ i, g.siteId? c = some i := by
    apply Option.isSome_iff_exists.mp
    rw [hg.site, List.findIdx?_isSome, List.any_eq_true]
    exact ⟨site, List.mem_of_getElem? hsite, decide_eq_true hc⟩
  have hi' := (exists_site_iff h).mp (hg.exists_site_of_siteId? hi)
  have hj' := (exists_site_iff h).mp hj
  have hlt := (List.getElem?_eq_some_iff.mp hi').1
  rw [hi, (List.getElem?_inj hlt (capabilitiesOf_nodup units)).mp (hi'.trans hj'.symm)]

end Sites

section Successors

variable (h : build units = .ok g)

include h

lemma target?_eq_some_iff (hu : units[k]? = some u) {target : Target} :
    g.target? k target = some n ↔ g.LeadsTo units u target n := by
  cases target with
  | symbol x => cases n <;> simp [target?, LeadsTo, resolve?_eq_some_iff_denotes h hu]
  | dispatch c => cases n <;> simp [target?, LeadsTo, siteId?_eq_some_iff h]

lemma Stands.mem_successors_iff {e : SymbolEntry} (hs : Stands units id u e) :
    n ∈ g.successors (.symbol id) ↔ ∃ r ∈ u.references, r.referrer = e.name ∧ g.LeadsTo units u r.target n := by
  obtain ⟨k, hu, hsym⟩ := hs.exists_symbol h
  rw [Graph.mem_successors_iff h]
  constructor
  · rintro ⟨j, v, r, hv, hr, hown, ht⟩
    obtain ⟨s, hs', rfl, hn⟩ := (indexed_of_build h).exists_symbol_of_own? hown
    obtain rfl := Option.some.inj (hsym.symm.trans hs')
    obtain rfl : u = v := Option.some.inj (hu.symm.trans hv)
    exact ⟨r, hr, hn.symm, (target?_eq_some_iff h hu).mp ht⟩
  · rintro ⟨r, hr, hn, ht⟩
    refine ⟨k, u, r, hu, hr, ?_, (target?_eq_some_iff h hu).mpr ht⟩
    rw [hn]
    exact own?_eq_some_of_build h hsym

lemma successors_pairwise (id : SymbolId) : (g.successors (.symbol id)).Pairwise (· < ·) := by
  obtain ⟨t, edges, _, _, rfl⟩ := build_eq_ok h
  simp only [successors, List.getD_eq_getElem?_getD, List.getElem?_map]
  cases t.symbolIds[id]? with
  | none => exact .nil
  | some j => exact Ordered.pairwise_ofList _

end Successors

section NoSite

lemma edgeOf_ne_noSite (hg : Filled units g) {r : Reference} (hu : u ∈ units) (hr : r ∈ u.references) (k : ModuleId)
    (c : String) : g.edgeOf u k r ≠ .error (.internal (.noSite c)) := by
  intro he
  unfold edgeOf at he
  split at he
  · cases he
  · split at he
    · split at he <;> cases he
    · rename_i c' ht
      have hr' : ⟨r.referrer, .dispatch c'⟩ ∈ u.references := ht ▸ hr
      have hsite := isSome_siteId?_of_dispatched hg hu hr'
      split at he
      · cases he
      · rename_i hnone
        rw [hnone] at hsite
        cases hsite

lemma build_ne_noSite (units : List CompiledUnit) (c : String) : build units ≠ .error (.internal (.noSite c)) := by
  intro h
  rcases bind_eq_error_iff.mp h with h | ⟨t, ht, h⟩
  · rcases ofUnits_cases units with ⟨_, g, hg, _⟩ | ⟨_, cause, hg, hc⟩
    · cases hg.symm.trans h
    · obtain rfl : cause = .noSite c := Fault.internal.inj (Except.error.inj (hg.symm.trans h))
      exact hc c rfl
  · rcases bind_eq_error_iff.mp h with h | ⟨_, _, h⟩
    · rcases bind_eq_error_iff.mp h with h | ⟨_, _, h⟩
      · obtain ⟨⟨u, k⟩, hu, h⟩ := exists_of_mapM_eq_error h
        obtain ⟨r, hr, h⟩ := exists_of_mapM_eq_error h
        have hu := List.mem_of_getElem? (List.mk_mem_zipIdx_iff_getElem?.mp hu)
        exact edgeOf_ne_noSite (filled_of_ofUnits ht) hu hr k c h
      · cases h
    · cases h

end NoSite

end Graph

structure CompiledUnit.Relists (u v : CompiledUnit) : Prop where
  name : v.name = u.name
  kind : v.kind = u.kind
  symbols : v.symbols = u.symbols
  references {r : Reference} : r ∈ v.references ↔ r ∈ u.references

lemma CompiledUnit.Relists.symm {u v : CompiledUnit} (h : u.Relists v) : v.Relists u :=
  ⟨h.name.symm, h.kind.symm, h.symbols.symm, h.references.symm⟩

namespace Graph

section Relists

lemma addUnit_of_relists {u v : CompiledUnit} (hu : u.Relists v) (d : Draft) (k : ModuleId) :
    d.addUnit v k = d.addUnit u k := by
  have hentry : Draft.addEntry v k = Draft.addEntry u k := by
    funext d e
    rw [Draft.addEntry, Draft.addEntry, hu.name]
  have hextend (d : Draft) : d.implementers.extend (dispatched v) [] = d.implementers.extend (dispatched u) [] :=
    Table.extend_nil_congr fun c => by simp only [dispatched, List.mem_filterMap, hu.references]
  simp only [Draft.addUnit, hu.name, hu.kind, hu.symbols, hentry, hextend]

variable {units units' : List CompiledUnit} {g : Graph} (hr : List.Forall₂ CompiledUnit.Relists units units')

include hr

lemma exists_relisted {k : ModuleId} {v : CompiledUnit} (hv : units'[k]? = some v) :
    ∃ u, units[k]? = some u ∧ u.Relists v := by
  induction hr generalizing k with
  | nil => cases hv
  | cons hu _ ih =>
    cases k with
    | zero =>
      obtain rfl := Option.some.inj hv
      exact ⟨_, rfl, hu⟩
    | succ k => exact ih hv

lemma map_name_of_relists : units'.map (·.name) = units.map (·.name) := by
  induction hr with
  | nil => rfl
  | cons hu _ ih => rw [List.map_cons, List.map_cons, hu.name, ih]

lemma exists_externals_of_relists {x : String} :
    (∃ v ∈ units', x ∈ v.externals) ↔ ∃ v ∈ units, x ∈ v.externals := by
  induction hr with
  | nil => rfl
  | cons hu _ ih =>
    rw [List.exists_mem_cons_iff, List.exists_mem_cons_iff, ih, CompiledUnit.externals, CompiledUnit.externals,
      hu.symbols]

lemma addUnits_of_relists (d : Draft) (k : ModuleId) : d.addUnits (units'.zipIdx k) = d.addUnits (units.zipIdx k) := by
  induction hr generalizing d k with
  | nil => rfl
  | cons hu _ ih =>
    have hadd (d : Draft) : d.addUnit _ k = d.addUnit _ k := addUnit_of_relists hu d k
    simp only [Draft.addUnits, List.zipIdx_cons, List.foldlM_cons, hadd] at ih ⊢
    simp only [ih]

lemma ofUnits_of_relists : ofUnits units' = ofUnits units :=
  congrArg (Draft.addSites <$> ·) (addUnits_of_relists hr {} 0)

lemma wellFormed_of_relists (h : WellFormed units) : WellFormed units' := by
  refine ⟨⟨map_name_of_relists hr ▸ h.names, fun {v} hv => ?_⟩, fun {v} hv r hmem => ?_,
    fun {v} hv r hmem x hx => ?_⟩
  all_goals
    obtain ⟨k, hv⟩ := List.mem_iff_getElem?.mp hv
    obtain ⟨u, hu, huv⟩ := exists_relisted hr hv
    have hu' := List.mem_of_getElem? hu
  · exact huv.symbols ▸ h.entries hu'
  · exact huv.symbols ▸ h.referrers hu' (huv.references.mp hmem)
  · have hmeans := exists_means_iff.mp (h.targets hu' (huv.references.mp hmem) hx)
    rw [exists_means_iff, huv.symbols, exists_externals_of_relists hr]
    exact hmeans

lemma mem_edges_of_relists {t : Graph} {edges edges' : List (SymbolId × Node)} (he : t.edgesOf units = .ok edges)
    (he' : t.edgesOf units' = .ok edges') {e : SymbolId × Node} (hmem : e ∈ edges') : e ∈ edges := by
  obtain ⟨k, v, r, hv, hmem, hedge⟩ := (mem_edgesOf_iff he').mp hmem
  obtain ⟨u, hu, huv⟩ := exists_relisted hr hv
  rw [edgeOf_eq_ok_iff] at hedge
  exact (mem_edgesOf_iff he).mpr ⟨k, u, r, hu, huv.references.mp hmem, edgeOf_eq_ok_iff.mpr hedge⟩

lemma build_of_relists (h : build units = .ok g) : build units' = .ok g := by
  obtain ⟨g', h'⟩ := exists_build_iff.mpr (wellFormed_of_relists hr (wellFormed_of_build h))
  obtain ⟨t, edges, ht, he, rfl⟩ := build_eq_ok h
  obtain ⟨t', edges', ht', he', rfl⟩ := build_eq_ok h'
  obtain rfl : t' = t := Except.ok.inj (ht'.symm.trans ((ofUnits_of_relists hr).trans ht))
  have hr' : List.Forall₂ CompiledUnit.Relists units' units := (hr.imp fun _ _ => CompiledUnit.Relists.symm).flip
  have hmem (e : SymbolId × Node) : e ∈ edges' ↔ e ∈ edges :=
    ⟨mem_edges_of_relists hr he he', mem_edges_of_relists hr' he' he⟩
  have hsucc : successorsIn edges' = successorsIn edges := by
    funext id
    apply Ordered.ofList_congr
    simp [hmem]
  rw [h', hsucc]

end Relists

theorem build_is_exact (units : List CompiledUnit) :
    ((∃ g, build units = .ok g) ↔
      (units.map (·.name)).Nodup ∧ ∀ u ∈ units, (u.symbols.map (·.name)).Nodup ∧
        ∀ r ∈ u.references, (∃ e ∈ u.symbols, e.name = r.referrer) ∧
          ∀ x, r.target = .symbol x → (∃ e ∈ u.symbols, e.name = x) ∨ ∃ v ∈ units, x ∈ v.externals) ∧
    (∀ c, build units ≠ .error (.internal (.noSite c))) ∧
    ∀ g, build units = .ok g →
      (∀ id, (g.successors (.symbol id)).Pairwise (· < ·)) ∧
      (∀ id u e, Stands units id u e → ∀ n, n ∈ g.successors (.symbol id) ↔
        ∃ r ∈ u.references, r.referrer = e.name ∧ g.LeadsTo units u r.target n) ∧
      ∀ units', List.Forall₂ CompiledUnit.Relists units units' → build units' = .ok g := by
  refine ⟨?_, build_ne_noSite units, fun g h => ⟨successors_pairwise h, fun id u e hs n => hs.mem_successors_iff h,
    fun units' hr => build_of_relists hr h⟩⟩
  rw [exists_build_iff]
  constructor
  · intro h
    refine ⟨h.names, fun u hu => ⟨h.entries hu, fun r hr => ⟨h.referrers hu hr, fun x hx => ?_⟩⟩⟩
    exact exists_means_iff.mp (h.targets hu hr hx)
  · rintro ⟨hn, h⟩
    refine ⟨⟨hn, fun hu => (h _ hu).1⟩, fun hu r hr => ((h _ hu).2 r hr).1, fun hu r hr x hx => ?_⟩
    exact exists_means_iff.mpr (((h _ hu).2 r hr).2 x hx)

theorem build_is_exact_twins :
    build ([CompiledUnit.describe Linked.appCode .program, .describe Linked.libCode .library].map fun u =>
      { u with references := u.references ++ u.references.reverse }) = .ok Linked.twins.graph := by
  refine ((build_is_exact _).2.2 _ Linked.twins_build).2.2 _ ?_
  rw [List.forall₂_map_right_iff, List.forall₂_same]
  exact fun u _ => ⟨rfl, rfl, rfl, by simp⟩

end Graph

end DeviceLink
