import DeviceLink.Proofs.References

/-! A unit that is put behind the others leaves their part of the graph as it is: their names mean what they did, the
roots stay the same, and so does what the roots reach, unless the unit implements what is dispatched on. -/

namespace DeviceLink.Graph

open Fallible

variable {units : List CompiledUnit} {u v : CompiledUnit} {g g' : Graph} {id t : SymbolId} {s : Symbol} {k : ModuleId}
  {x c : String}

section Tables

lemma implementationsOf_append (hc : ∀ e ∈ u.symbols, c ∉ e.implements) :
    implementationsOf (units ++ [u]) c = implementationsOf units c := by
  rw [implementationsOf, entries_append, implementersIn_append]
  refine (congrArg _ (List.flatMap_eq_nil_iff.mpr ?_)).trans (List.append_nil _)
  rintro ⟨e, i⟩ he
  have hmem : e ∈ u.symbols := by simpa [entries] using List.fst_mem_of_mem_zipIdx he
  rw [List.map_eq_nil_iff, List.filter_eq_nil_iff]
  intro d hd hdc
  exact hc e hmem (of_decide_eq_true hdc ▸ hd)

lemma mem_capabilitiesOf_append (hc : c ∈ capabilitiesOf units) : c ∈ capabilitiesOf (units ++ [u]) := by
  rw [mem_capabilitiesOf] at hc ⊢
  rw [entries_append]
  refine hc.imp ?_ ?_
  · rintro ⟨e, he, hc⟩
    exact ⟨e, List.mem_append_left _ he, hc⟩
  · rintro ⟨v, hv, hc⟩
    exact ⟨v, List.mem_append_left _ hv, hc⟩

end Tables

section WellFormed

lemma cases_unit_append (hk : (units ++ [u])[k]? = some v) : units[k]? = some v ∨ k = units.length ∧ v = u := by
  by_cases hlt : k < units.length
  · rw [List.getElem?_append_left hlt] at hk
    exact .inl hk
  · have hle := (List.getElem?_eq_some_iff.mp hk).1
    rw [List.length_append, List.length_singleton] at hle
    obtain rfl : k = units.length := Nat.le_antisymm (Nat.le_of_lt_succ hle) (Nat.not_lt.mp hlt)
    rw [List.getElem?_concat_length] at hk
    exact .inr ⟨rfl, (Option.some.inj hk).symm⟩

lemma wellFormed_append (h : WellFormed units) (hn : ∀ v ∈ units, v.name ≠ u.name)
    (hs : (u.symbols.map (·.name)).Nodup) (hr : ∀ r ∈ u.references, ∃ e ∈ u.symbols, e.name = r.referrer)
    (ht : ∀ r ∈ u.references, ∀ x, r.target = .symbol x →
      (∃ e ∈ u.symbols, e.name = x) ∨ ∃ v ∈ units, x ∈ v.externals) : WellFormed (units ++ [u]) := by
  have hmore {v : CompiledUnit} {x : String} :
      ((∃ e ∈ v.symbols, e.name = x) ∨ ∃ w ∈ units, x ∈ w.externals) → ∃ w d, Means (units ++ [u]) v x w d := by
    refine fun hx => exists_means_iff.mpr (hx.imp_right ?_)
    rintro ⟨w, hw, hmem⟩
    exact ⟨w, List.mem_append_left _ hw, hmem⟩
  refine ⟨h.toDistinct.concat (by simpa using hn) hs, fun {v} hv r hmem => ?_, fun {v} hv r hmem x hx => ?_⟩
  all_goals rcases List.mem_append.mp hv with hv | hv
  · exact h.referrers hv hmem
  · obtain rfl := List.mem_singleton.mp hv
    exact hr r hmem
  · exact hmore (exists_means_iff.mp (h.targets hv hmem hx))
  · obtain rfl := List.mem_singleton.mp hv
    exact hmore (ht r hmem x hx)

end WellFormed

section Append

variable (h : build units = .ok g) (h' : build (units ++ [u]) = .ok g')

include h h'

lemma symbols_append : g'.symbols = g.symbols ++ u.symbols.map (symbolOfEntry units.length) := by
  rw [symbols_of_build h, symbols_of_build h', symbolsOf_concat]

lemma symbol_append (hs : g.symbols[id]? = some s) : g'.symbols[id]? = some s := by
  rw [symbols_append h h']
  exact List.getElem?_append_left (List.getElem?_eq_some_iff.mp hs).1 ▸ hs

lemma cases_symbol_append (hs : g'.symbols[id]? = some s) :
    g.symbols[id]? = some s ∨ ∃ e ∈ u.symbols, s = symbolOfEntry units.length e := by
  rw [symbols_append h h'] at hs
  by_cases hid : id < g.symbols.length
  · rw [List.getElem?_append_left hid] at hs
    exact .inl hs
  · rw [List.getElem?_append_right (Nat.not_lt.mp hid)] at hs
    obtain ⟨e, he, hse⟩ := List.mem_map.mp (List.mem_of_getElem? hs)
    exact .inr ⟨e, he, hse.symm⟩

omit h' in
lemma owner_lt (hs : g.symbols[id]? = some s) : s.owner < units.length := by
  apply owner_lt_of_mem_symbolsOf
  rw [← symbols_of_build h]
  exact List.mem_of_getElem? hs

lemma moduleName_append (hk : k < units.length) : g'.moduleName k = g.moduleName k := by
  have hv := List.getElem?_eq_getElem hk
  rw [moduleName_of_build h hv]
  exact moduleName_of_build h' (List.getElem?_append_left hk ▸ hv)

section Find

variable {q : Symbol → Bool}

lemma findIdx?_append_of_some (ht : g.symbols.findIdx? q = some t) : g'.symbols.findIdx? q = some t := by
  rw [symbols_append h h', List.findIdx?_append, ht]
  rfl

lemma findIdx?_append_of_forall (hq : ∀ e ∈ u.symbols, q (symbolOfEntry units.length e) = false) :
    g'.symbols.findIdx? q = g.symbols.findIdx? q := by
  have hnone : (u.symbols.map (symbolOfEntry units.length)).findIdx? q = none := by
    simpa [List.findIdx?_eq_none_iff] using hq
  rw [symbols_append h h', List.findIdx?_append, hnone]
  simp

end Find

lemma own?_append (hk : k < units.length) : g'.own? k x = g.own? k x := by
  rw [(indexed_of_build h).own, (indexed_of_build h').own]
  refine findIdx?_append_of_forall h h' fun e _ => ?_
  simp [symbolOfEntry, Nat.ne_of_gt hk]

lemma external?_append (ht : g.external? x = some t) : g'.external? x = some t := by
  rw [(indexed_of_build h).external] at ht
  rw [(indexed_of_build h').external]
  exact findIdx?_append_of_some h h' ht

lemma external?_append_of_notMem (hx : x ∉ u.externals) : g'.external? x = g.external? x := by
  rw [(indexed_of_build h).external, (indexed_of_build h').external]
  refine findIdx?_append_of_forall h h' fun e he => ?_
  by_contra hp
  rw [Bool.not_eq_false, Bool.and_eq_true, isExternal_symbolOfEntry] at hp
  exact hx (CompiledUnit.mem_externals.mpr ⟨e, he, hp.1, of_decide_eq_true hp.2⟩)

lemma resolve?_append (hk : k < units.length) (ht : g.resolve? k x = some t) : g'.resolve? k x = some t := by
  simp only [resolve?, Option.orElse_eq_orElse, Option.orElse_eq_or, Option.or_eq_some_iff] at ht ⊢
  rw [own?_append h h' hk]
  exact ht.imp_right (.imp_right (external?_append h h'))

lemma designated?_append (hx : x ∉ u.externals) (ht : g.designated? x = some t) : g'.designated? x = some t := by
  simp only [designated?, Option.orElse_eq_orElse, Option.orElse_eq_or, Option.or_eq_some_iff] at ht ⊢
  rw [external?_append_of_notMem h h' hx]
  exact ht.imp_right (.imp_right (findIdx?_append_of_some h h'))

lemma duplicateExternals_append (hd : g.duplicateExternals = [])
    (hx : ∀ x ∈ u.externals, ∀ v ∈ units, x ∉ v.externals) : g'.duplicateExternals = [] := by
  refine List.eq_nil_iff_forall_not_mem.mpr fun ⟨i, j⟩ hmem => ?_
  obtain ⟨s, t, v, w, _, _, _, _, k, l, hkl, hk, hl, hv, hw⟩ := clash_of_mem_duplicateExternals h' hmem
  rcases cases_unit_append hk with hold | ⟨hlast, rfl⟩
  · rcases cases_unit_append hl with hold' | ⟨_, rfl⟩
    · exact duplicateExternals_ne_nil_of_clash h ⟨k, l, hkl, hold, hold', hv, hw⟩ hd
    · exact hx _ hw v (List.mem_of_getElem? hold) hv
  · rcases cases_unit_append hl with hold | ⟨hlast', _⟩
    · exact hx _ hv w (List.mem_of_getElem? hold) hw
    · exact hkl (hlast.trans hlast'.symm)

lemma isRoot_append (hs : g.symbols[id]? = some s) : g'.isRoot s = g.isRoot s := by
  have hk := owner_lt h hs
  have hv := List.getElem?_eq_getElem hk
  have hv' : (units ++ [u])[s.owner]? = some units[s.owner] := (List.getElem?_append_left hk).trans hv
  rw [isRoot, isRoot, isProgram_of_build h hv, isProgram_of_build h' hv']

lemma isRoot_symbol_append_iff (ho : ∀ e ∈ u.symbols, u.opens e = false) :
    (∃ s, g'.symbols[id]? = some s ∧ g'.isRoot s = true) ↔ ∃ s, g.symbols[id]? = some s ∧ g.isRoot s = true := by
  constructor
  · rintro ⟨s, hs', hr⟩
    rcases cases_symbol_append h h' hs' with hs | ⟨e, he, rfl⟩
    · exact ⟨s, hs, isRoot_append h h' hs ▸ hr⟩
    · rw [isRoot_symbolOfEntry h' (List.getElem?_concat_length ..), ho e he] at hr
      cases hr
  · rintro ⟨s, hs, hr⟩
    exact ⟨s, symbol_append h h' hs, (isRoot_append h h' hs).trans hr⟩

lemma roots_append (ho : ∀ e ∈ u.symbols, u.opens e = false) {extra : List String}
    (hx : ∀ x ∈ u.externals, x ∉ extra) {roots : List SymbolId} (hr : g.roots extra = .ok roots) :
    g'.roots extra = .ok roots := by
  have hdes : ∀ x ∈ extra, ∃ t, g.designated? x = some t ∧ g'.designated? x = some t := by
    intro x hmem
    obtain ⟨t, ht⟩ := exists_roots_iff.mp ⟨roots, hr⟩ x hmem
    exact ⟨t, ht, designated?_append h h' (fun hmem' => hx x hmem' hmem) ht⟩
  obtain ⟨roots', hr'⟩ := exists_roots_iff.mpr fun x hmem => (hdes x hmem).imp fun _ => And.right
  rw [hr', (roots_pairwise hr').eq_of_mem_iff (roots_pairwise hr) fun id => ?_]
  rw [mem_roots_iff hr', mem_roots_iff hr, isRoot_symbol_append_iff h h' ho]
  refine or_congr_right (exists_congr fun x => and_congr_right fun hmem => ?_)
  obtain ⟨t, ht, ht'⟩ := hdes x hmem
  rw [ht, ht']

/-- A node of the shorter list, as a node of the longer one: only capabilities change their numbers. -/
def carry (g g' : Graph) : Node → Node
  | .symbol id => .symbol id
  | .dispatch j => .dispatch ((g'.siteId? (g.capabilityName j)).getD 0)

lemma dispatch_carry {j : SiteId} {site : DispatchSite} (hj : g.sites[j]? = some site) :
    ∃ i, g.carry g' (.dispatch j) = .dispatch i ∧ g'.siteId? site.capability = some i := by
  have hc := (exists_site_iff h).mp ⟨site, hj, rfl⟩
  obtain ⟨i, hi⟩ := List.mem_iff_getElem?.mp (mem_capabilitiesOf_append (u := u) (List.mem_of_getElem? hc))
  have hi := (siteId?_eq_some_iff h').mpr ((exists_site_iff h').mpr hi)
  refine ⟨i, ?_, hi⟩
  simp [carry, capabilityName, hj, hi]

lemma target?_append (hk : k < units.length) {target : Target} {n : Node} (hn : g.target? k target = some n) :
    g'.target? k target = some (g.carry g' n) := by
  cases target with
  | symbol x =>
    obtain ⟨t, ht, rfl⟩ := Option.map_eq_some_iff.mp hn
    exact Option.map_eq_some_iff.mpr ⟨t, resolve?_append h h' hk ht, rfl⟩
  | dispatch c =>
    obtain ⟨j, hj, rfl⟩ := Option.map_eq_some_iff.mp hn
    obtain ⟨site, hsite, rfl⟩ := (indexed_of_build h).exists_site_of_siteId? hj
    obtain ⟨i, hi, hid⟩ := dispatch_carry h h' hsite
    exact Option.map_eq_some_iff.mpr ⟨i, hid, hi.symm⟩

lemma mem_successors_symbol_append (hs : g.symbols[id]? = some s) {m : Node} :
    m ∈ g'.successors (.symbol id) ↔ ∃ n ∈ g.successors (.symbol id), g.carry g' n = m := by
  constructor
  · intro hm
    obtain ⟨k, v, r, hv, hr, hown, ht⟩ := (mem_successors_iff h').mp hm
    obtain ⟨s', hs', rfl, _⟩ := (indexed_of_build h').exists_symbol_of_own? hown
    obtain rfl : s = s' := Option.some.inj ((symbol_append h h' hs).symm.trans hs')
    have hk := owner_lt h hs
    rw [List.getElem?_append_left hk] at hv
    -- the reference leads somewhere in the shorter list already
    obtain ⟨⟨own, n⟩, he⟩ := exists_edgeOf h hv hr
    obtain ⟨_, hn⟩ := edgeOf_eq_ok_iff.mp he
    refine ⟨n, (mem_successors_iff h).mpr ⟨_, v, r, hv, hr, own?_append h h' hk ▸ hown, hn⟩, ?_⟩
    exact Option.some.inj ((target?_append h h' hk hn).symm.trans ht)
  · rintro ⟨n, hn, rfl⟩
    obtain ⟨k, v, r, hv, hr, hown, ht⟩ := (mem_successors_iff h).mp hn
    have hk := (List.getElem?_eq_some_iff.mp hv).1
    exact (mem_successors_iff h').mpr ⟨k, v, r, (List.getElem?_append_left hk).trans hv, hr,
      (own?_append h h' hk).trans hown, target?_append h h' hk ht⟩

lemma successors_dispatch_append {j : SiteId} {site : DispatchSite} (hj : g.sites[j]? = some site)
    (hc : ∀ e ∈ u.symbols, site.capability ∉ e.implements) :
    g'.successors (g.carry g' (.dispatch j)) = g.successors (.dispatch j) := by
  obtain ⟨i, hi, hid⟩ := dispatch_carry h h' hj
  obtain ⟨site', hsite', hcap⟩ := (indexed_of_build h').exists_site_of_siteId? hid
  rw [hi]
  rw [(indexed_of_build h').successors_dispatch hsite', (indexed_of_build h).successors_dispatch hj,
    implementations_of_build h hj, implementations_of_build h' hsite', hcap, implementationsOf_append hc]

section Reaches

variable {roots : List SymbolId} (hr : ∀ id ∈ roots, id < g.symbols.length)
  (hun : ∀ j site, g.Reaches roots (.dispatch j) → g.sites[j]? = some site →
    ∀ e ∈ u.symbols, site.capability ∉ e.implements)

include hr hun

lemma mem_successors_carry {n m : Node} (hn : g.Reaches roots n) :
    m ∈ g'.successors (g.carry g' n) ↔ ∃ n' ∈ g.successors n, g.carry g' n' = m := by
  have hmem := (build_bounded h).reaches hr hn
  cases n with
  | symbol id => exact mem_successors_symbol_append h h' (List.getElem?_eq_getElem (symbol_mem_nodes.mp hmem))
  | dispatch j =>
    have hj := List.getElem?_eq_getElem (dispatch_mem_nodes.mp hmem)
    rw [successors_dispatch_append h h' hj (hun j _ hn hj)]
    -- implementations are symbols, which keep their numbers
    simp only [(indexed_of_build h).successors_dispatch hj, List.mem_map]
    constructor
    · rintro ⟨id, hid, rfl⟩
      exact ⟨_, ⟨id, hid, rfl⟩, rfl⟩
    · rintro ⟨_, ⟨id, hid, rfl⟩, rfl⟩
      exact ⟨id, hid, rfl⟩

lemma reaches_append_iff {m : Node} : g'.Reaches roots m ↔ ∃ n, g.Reaches roots n ∧ g.carry g' n = m := by
  constructor
  · intro hm
    induction hm with
    | root hid => exact ⟨_, .root hid, rfl⟩
    | step _ hm ih =>
      obtain ⟨n, hn, rfl⟩ := ih
      obtain ⟨n', hn', hc⟩ := (mem_successors_carry h h' hr hun hn).mp hm
      exact ⟨n', .step hn hn', hc⟩
  · rintro ⟨n, hn, rfl⟩
    induction hn with
    | root hid => exact .root hid
    | step hn hm ih => exact .step ih ((mem_successors_carry h h' hr hun hn).mpr ⟨_, hm, rfl⟩)

lemma reaches_symbol_append_iff : g'.Reaches roots (.symbol id) ↔ g.Reaches roots (.symbol id) := by
  rw [reaches_append_iff h h' hr hun]
  constructor
  · rintro ⟨n, hn, hc⟩
    cases n with
    | symbol i => exact hc ▸ hn
    | dispatch j => cases hc
  · exact fun hid => ⟨_, hid, rfl⟩

lemma reaches_site_append_iff :
    (∃ k site, g'.Reaches roots (.dispatch k) ∧ g'.sites[k]? = some site ∧ site.capability = c) ↔
      ∃ k site, g.Reaches roots (.dispatch k) ∧ g.sites[k]? = some site ∧ site.capability = c := by
  rw [reaches_dispatch_iff h', reaches_dispatch_iff h]
  simp only [reaches_symbol_append_iff h h' hr hun]
  refine exists₃_congr fun id s v => and_congr_right fun hid => ?_
  obtain ⟨s', hs⟩ : ∃ s', g.symbols[id]? = some s' :=
    ⟨_, List.getElem?_eq_getElem (symbol_mem_nodes.mp ((build_bounded h).reaches hr hid))⟩
  rw [symbol_append h h' hs, hs]
  refine and_congr_right fun he => ?_
  obtain rfl := Option.some.inj he
  rw [List.getElem?_append_left (owner_lt h hs)]

end Reaches

end Append

end DeviceLink.Graph
