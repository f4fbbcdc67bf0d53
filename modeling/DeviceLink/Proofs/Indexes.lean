import DeviceLink.Proofs.References

/-! What a graph knows is what its units say: the numbers of symbols follow the tables, names lead to the first symbol
that they can mean, and each capability has one site. -/

namespace DeviceLink

lemma zipIdx_pairwise {α : Type} (xs : List α) : xs.zipIdx.Pairwise fun p q => p.2 < q.2 := by
  rw [← List.pairwise_map, List.zipIdx_map_snd]
  exact List.pairwise_lt_range'

namespace Graph

variable {units : List CompiledUnit} {g : Graph} {k : ModuleId} {id : SymbolId} {u : CompiledUnit} {e : SymbolEntry}
  {x c : String}

section Tables

def firstId (units : List CompiledUnit) (k : ModuleId) : SymbolId := (entries (units.take k)).length

@[simp] lemma firstId_zero (units : List CompiledUnit) : firstId units 0 = 0 := rfl

@[simp] lemma firstId_succ (u : CompiledUnit) (rest : List CompiledUnit) (k : ModuleId) :
    firstId (u :: rest) (k + 1) = u.symbols.length + firstId rest k := by
  simp [firstId, entries]

lemma placed_cons (u : CompiledUnit) (rest : List CompiledUnit) :
    placed (u :: rest) = u.symbols.map (0, ·) ++ (placed rest).map fun p => (p.1 + 1, p.2) := by
  simp [placed, List.zipIdx_cons, List.zipIdx_succ, List.flatMap_map, List.map_flatMap, Function.comp_def]

lemma getElem?_placed_iff :
    (placed units)[id]? = some (k, e) ↔
      ∃ u j, units[k]? = some u ∧ u.symbols[j]? = some e ∧ id = firstId units k + j := by
  induction units generalizing id k with
  | nil => simp [placed]
  | cons u rest ih =>
    rw [placed_cons, List.getElem?_append, List.length_map]
    -- A number below the length of the first table is in that table; any other is in those of the rest.
    split
    · rename_i hlt
      constructor
      · intro h
        obtain ⟨d, hd, he⟩ := Option.map_eq_some_iff.mp ((List.getElem?_map ..).symm.trans h)
        cases he
        exact ⟨u, id, rfl, hd, by simp⟩
      · rintro ⟨v, j, hv, hj, rfl⟩
        cases k with
        | zero =>
          cases hv
          simp [hj]
        | succ k =>
          rw [firstId_succ] at hlt
          omega
    · rename_i hge
      constructor
      · intro h
        obtain ⟨⟨k, d⟩, hd, he⟩ := Option.map_eq_some_iff.mp ((List.getElem?_map ..).symm.trans h)
        cases he
        obtain ⟨v, j, hv, hj, hid⟩ := ih.mp hd
        refine ⟨v, j, hv, hj, ?_⟩
        rw [firstId_succ, Nat.add_assoc, ← hid]
        exact (Nat.add_sub_cancel' (Nat.not_lt.mp hge)).symm
      · rintro ⟨v, j, hv, hj, rfl⟩
        cases k with
        | zero =>
          cases hv
          have hlt := (List.getElem?_eq_some_iff.mp hj).1
          rw [firstId_zero] at hge
          omega
        | succ k =>
          rw [firstId_succ, Nat.add_assoc, Nat.add_sub_cancel_left, List.getElem?_map, ih.mpr ⟨v, j, hv, hj, rfl⟩]
          rfl

lemma getElem?_modulesOf (first : SymbolId) (units : List CompiledUnit) (k : ModuleId) :
    (modulesOf first units)[k]? = units[k]?.map fun u =>
      ⟨u.name, u.kind, List.range' (first + firstId units k) u.symbols.length⟩ := by
  induction units generalizing first k with
  | nil => rfl
  | cons u rest ih =>
    cases k with
    | zero => simp [modulesOf]
    | succ k => simp [modulesOf, ih, Nat.add_assoc]

variable (h : build units = .ok g)

include h

lemma getElem?_modules (k : ModuleId) :
    g.modules[k]? = units[k]?.map fun u =>
      ⟨u.name, u.kind, List.range' (firstId units k) u.symbols.length⟩ := by
  rw [(filled_of_build h).modules, getElem?_modulesOf, Nat.zero_add]

lemma resolve?_eq_firstId (hu : units[k]? = some u) {j : Nat} (hj : u.symbols[j]? = some e) :
    g.resolve? k e.name = some (firstId units k + j) := by
  have hs : g.symbols[firstId units k + j]? = some (symbolOfEntry k e) := by
    rw [getElem?_symbols h, getElem?_placed_iff.mpr ⟨u, j, hu, hj, rfl⟩]
    rfl
  have hown : g.own? k e.name = some (firstId units k + j) := own?_eq_some_of_build h hs
  rw [resolve?, hown]
  rfl

lemma resolve?_of_forall_ne (hx : ∀ u, units[k]? = some u → ∀ e ∈ u.symbols, e.name ≠ x) :
    g.resolve? k x = g.external? x := by
  have hown : g.own? k x = none := by
    cases hown : g.own? k x with
    | none => rfl
    | some id =>
      obtain ⟨s, hs, rfl, rfl⟩ := (indexed_of_build h).exists_symbol_of_own? hown
      obtain ⟨k, u, e, hst, hu, rfl⟩ := exists_stands h hs
      exact absurd rfl (hx u hu e hst.mem.2)
  rw [resolve?, hown]
  rfl

end Tables

section Externals

lemma isLeast_entry {P : SymbolEntry → Prop} (hid : ∃ e, (entries units)[id]? = some e ∧ P e)
    (hmin : ∀ i < id, ∀ e ∈ (entries units)[i]?, ¬ P e) :
    IsLeast {i | ∃ e, (entries units)[i]? = some e ∧ P e} id := by
  refine isLeast_iff_first.mpr ⟨hid, ?_⟩
  rintro i hi ⟨e, he, hp⟩
  exact hmin i hi e he hp

section Duplicates

variable (h : build units = .ok g)

include h

lemma mem_duplicateExternals_iff {first later : SymbolId} :
    (first, later) ∈ g.duplicateExternals ↔
      ∃ x, IsLeast {i | Exports units x i} first ∧ Exports units x later ∧ first < later := by
  have hg := indexed_of_build h
  simp only [hg.duplicates, ← hg.external, external?_eq_some_iff_isLeast h]
  constructor
  · rintro ⟨s, hs, he, hfirst, hlt⟩
    have hlater : Exports units s.name later := (exports_iff h).mpr ⟨s, hs, by simp [he]⟩
    exact ⟨s.name, hfirst, hlater, hlt⟩
  · rintro ⟨x, hfirst, hlater, hlt⟩
    obtain ⟨s, hs, hp⟩ := (exports_iff h).mp hlater
    obtain ⟨he, hn⟩ := Bool.and_eq_true_iff.mp hp
    obtain rfl := of_decide_eq_true hn
    exact ⟨s, hs, he, hfirst, hlt⟩

lemma duplicateExternals_ne_nil_of_lt {i j : SymbolId} (hi : Exports units x i) (hj : Exports units x j) (hlt : i < j) :
    g.duplicateExternals ≠ [] := by
  obtain ⟨first, hf⟩ := (exists_external?_iff h).mpr ⟨i, hi⟩
  have hleast := (external?_eq_some_iff_isLeast h).mp hf
  have hlt' : first < j := Nat.lt_of_le_of_lt (hleast.2 hi) hlt
  exact List.ne_nil_of_mem ((mem_duplicateExternals_iff h).mpr ⟨x, hleast, hj, hlt'⟩)

lemma duplicateExternals_eq_nil_iff :
    g.duplicateExternals = [] ↔ ∀ x i j, Exports units x i → Exports units x j → i = j := by
  constructor
  · intro hnil x i j hi hj
    rcases Nat.lt_trichotomy i j with hlt | rfl | hlt
    · exact absurd hnil (duplicateExternals_ne_nil_of_lt h hi hj hlt)
    · rfl
    · exact absurd hnil (duplicateExternals_ne_nil_of_lt h hj hi hlt)
  · intro hunique
    apply List.eq_nil_iff_forall_not_mem.mpr
    rintro ⟨first, later⟩ hmem
    obtain ⟨x, hfirst, hlater, hlt⟩ := (mem_duplicateExternals_iff h).mp hmem
    exact Nat.ne_of_lt hlt (hunique x first later hfirst.1 hlater)

end Duplicates

end Externals

section Sites

lemma map_capability_of_build (h : build units = .ok g) : g.sites.map (·.capability) = capabilitiesOf units := by
  rw [sites_of_build h, sitesOf, List.map_map]
  exact List.map_id' _

lemma mem_dispatched_iff : c ∈ dispatched u ↔ ∃ r ∈ u.references, r.target = .dispatch c := by
  rw [dispatched, List.mem_filterMap]
  refine exists_congr fun r => and_congr_right fun _ => ?_
  cases r.target <;> simp

lemma mem_capabilitiesOf_iff :
    c ∈ capabilitiesOf units ↔
      (∃ u ∈ units, ∃ e ∈ u.symbols, c ∈ e.implements) ∨ ∃ u ∈ units, ∃ r ∈ u.references, r.target = .dispatch c := by
  simp only [mem_capabilitiesOf, entries, List.mem_flatMap, mem_dispatched_iff]
  refine or_congr_left ?_
  constructor
  · rintro ⟨e, ⟨u, hu, he⟩, hc⟩
    exact ⟨u, hu, e, he, hc⟩
  · rintro ⟨u, hu, e, he, hc⟩
    exact ⟨e, ⟨u, hu, he⟩, hc⟩

lemma implementationsOf_pairwise (units : List CompiledUnit) (c : String) :
    (implementationsOf units c).Pairwise (· ≤ ·) := by
  rw [implementationsOf, implementersIn, List.pairwise_flatMap]
  refine ⟨fun p _ => ?_, (zipIdx_pairwise _).imp fun {p q} hpq a ha b hb => ?_⟩
  · obtain ⟨e, id⟩ := p
    dsimp only
    rw [List.map_const', List.pairwise_replicate]
    exact .inr (Nat.le_refl _)
  · obtain ⟨_, _, rfl⟩ := List.mem_map.mp ha
    obtain ⟨_, _, rfl⟩ := List.mem_map.mp hb
    exact Nat.le_of_lt hpq

/-- The implementations are told apart by their numbers unless an entry names the capability more than once. -/
lemma implementationsOf_strict_iff :
    (implementationsOf units c).Pairwise (· < ·) ↔ ∀ u ∈ units, ∀ e ∈ u.symbols, e.implements.count c ≤ 1 := by
  -- The list ascends anyway, so it is strict iff no number stands in it twice.
  have hnodup : (implementationsOf units c).Pairwise (· < ·) ↔ (implementationsOf units c).Nodup := by
    refine ⟨fun hlt => hlt.imp Nat.ne_of_lt, fun hne => ?_⟩
    exact ((implementationsOf_pairwise units c).and hne).imp fun ⟨hle, hne⟩ => Nat.lt_of_le_of_ne hle hne
  rw [hnodup, List.nodup_iff_count_le_one]
  constructor
  · intro hcount u hu e he
    have hmem : e ∈ entries units := List.mem_flatMap.mpr ⟨u, hu, he⟩
    obtain ⟨id, hid⟩ := List.getElem?_of_mem hmem
    have hone := hcount id
    rwa [count_implementationsOf, hid] at hone
  · intro hcount id
    rw [count_implementationsOf]
    cases hid : (entries units)[id]? with
    | none => exact Nat.zero_le 1
    | some e =>
      obtain ⟨u, hu, he⟩ := List.mem_flatMap.mp (List.mem_of_getElem? hid)
      exact hcount u hu e he

end Sites

theorem indexes_are_exact (h : build units = .ok g) :
    ((∀ k : ModuleId, g.modules[k]? = units[k]?.map fun u =>
        ⟨u.name, u.kind, List.range' (firstId units k) u.symbols.length⟩) ∧
      g.symbols.length = (entries units).length ∧
      ∀ id e, (entries units)[id]? = some e → ∃ k u j, units[k]? = some u ∧ u.symbols[j]? = some e ∧
        id = firstId units k + j ∧ g.symbols[id]? = some
          { name := e.name, kind := e.kind, space := e.space,
            visibility := if e.isKernel then .external else e.visibility, owner := k, isKernel := e.isKernel }) ∧
    (∀ k x,
      (∀ u j e, units[k]? = some u → u.symbols[j]? = some e → e.name = x →
        g.resolve? k x = some (firstId units k + j)) ∧
      ((∀ u, units[k]? = some u → ∀ e ∈ u.symbols, e.name ≠ x) →
        (∀ id, g.resolve? k x = some id ↔ IsLeast {i | Exports units x i} id) ∧
        ((∀ i, ¬ Exports units x i) → g.resolve? k x = none))) ∧
    ((g.duplicateExternals.map (·.2)).Pairwise (· < ·) ∧
      (∀ first later, (first, later) ∈ g.duplicateExternals ↔
        ∃ x, IsLeast {i | Exports units x i} first ∧ Exports units x later ∧ first < later) ∧
      (g.duplicateExternals = [] ↔ ∀ x i j, Exports units x i → Exports units x j → i = j)) ∧
    (g.sites.map (·.capability)).Pairwise (· < ·) ∧
    (∀ c, c ∈ g.sites.map (·.capability) ↔
      (∃ u ∈ units, ∃ e ∈ u.symbols, c ∈ e.implements) ∨
        ∃ u ∈ units, ∃ r ∈ u.references, r.target = .dispatch c) ∧
    ∀ j site, g.sites[j]? = some site →
      (∀ c, g.siteId? c = some j ↔ site.capability = c) ∧
      g.successors (.dispatch j) = site.implementations.map .symbol ∧
      site.implementations.Pairwise (· ≤ ·) ∧
      (∀ id, id ∈ site.implementations ↔ ∃ e, (entries units)[id]? = some e ∧ site.capability ∈ e.implements) ∧
      (∀ id e, (entries units)[id]? = some e →
        site.implementations.count id = e.implements.count site.capability) ∧
      (site.implementations.Pairwise (· < ·) ↔
        ∀ u ∈ units, ∀ e ∈ u.symbols, e.implements.count site.capability ≤ 1) := by
  have hg := indexed_of_build h
  refine ⟨⟨getElem?_modules h, ?_, ?_⟩, ?_, ⟨hg.ascending, fun _ _ => mem_duplicateExternals_iff h,
    duplicateExternals_eq_nil_iff h⟩, ?_, ?_, ?_⟩
  · rw [symbols_of_build h, length_symbolsOf]
  · intro id e he
    rw [entries_eq, List.getElem?_map] at he
    obtain ⟨⟨k, d⟩, hp, rfl⟩ := Option.map_eq_some_iff.mp he
    obtain ⟨u, j, hu, hj, hid⟩ := getElem?_placed_iff.mp hp
    refine ⟨k, u, j, hu, hj, hid, ?_⟩
    rw [getElem?_symbols h, hp]
    rfl
  · intro k x
    refine ⟨?_, fun hx => ?_⟩
    · rintro u j e hu hj rfl
      exact resolve?_eq_firstId h hu hj
    · rw [resolve?_of_forall_ne h hx]
      refine ⟨fun id => external?_eq_some_iff_isLeast h, fun hnone => ?_⟩
      apply Option.eq_none_iff_forall_ne_some.mpr
      intro id hid
      exact hnone id ((external?_eq_some_iff_isLeast h).mp hid).1
  · rw [map_capability_of_build h]
    exact Ordered.pairwise_ofList _
  · intro c
    rw [map_capability_of_build h, mem_capabilitiesOf_iff]
  · intro j site hj
    have himpl : site.implementations = implementationsOf units site.capability := implementations_of_build h hj
    refine ⟨fun c => ?_, hg.successors_dispatch hj, ?_⟩
    · rw [siteId?_eq_some_iff h, hj]
      simp
    · rw [himpl]
      refine ⟨implementationsOf_pairwise .., fun id => mem_implementationsOf, fun id e he => ?_,
        implementationsOf_strict_iff⟩
      rw [count_implementationsOf, he]
      rfl

def sketch : List CompiledUnit :=
  [{ name := "app"
     symbols := [{ name := "main", kind := .function, isKernel := true }, .function "pick" .internal]
     references := [⟨"main", .symbol "pick"⟩, ⟨"main", .dispatch "fill"⟩, ⟨"pick", .dispatch "blur"⟩] },
   { name := "base"
     kind := .library
     symbols := [.function "pick" .external, (SymbolEntry.function "brush" .external).implementing "fill"] },
   { name := "extra"
     kind := .library
     symbols := [((SymbolEntry.function "brush" .external).implementing "paint").implementing "fill",
       .function "mix" .internal]
     references := [⟨"brush", .symbol "pick"⟩] }]

theorem indexes_are_exact_sketch :
    ∃ g, build sketch = .ok g ∧ (∃ s, g.symbols[0]? = some s ∧ s.name = "main" ∧ s.visibility = .external) ∧
      g.resolve? 0 "pick" = some 1 ∧ g.resolve? 2 "pick" = some 2 ∧ (3, 4) ∈ g.duplicateExternals ∧
      ∃ j site, g.siteId? "fill" = some j ∧ g.sites[j]? = some site ∧ 3 ∈ site.implementations ∧
        4 ∈ site.implementations ∧ site.implementations.Pairwise (· < ·) := by
  refine ⟨(build sketch).toOption.getD {}, rfl, ?_⟩
  obtain ⟨⟨_, _, hsymbols⟩, hresolve, ⟨_, hduplicates, _⟩, _, hcapabilities, hsites⟩ := @indexes_are_exact sketch _ rfl
  refine ⟨?_, (hresolve 0 "pick").1 _ 1 _ rfl rfl rfl, ?_, ?_, ?_⟩
  · obtain ⟨k, u, j, _, _, _, hs⟩ := hsymbols 0 _ rfl
    exact ⟨_, hs, rfl, rfl⟩
  · have hnone : ∀ u ∈ sketch[2]?, ∀ e ∈ u.symbols, e.name ≠ "pick" := by decide
    exact (((hresolve 2 "pick").2 hnone).1 2).mpr (isLeast_entry ⟨_, rfl, rfl, rfl⟩ (by decide))
  · have hleast : IsLeast {i | Exports sketch "brush" i} 3 := isLeast_entry ⟨_, rfl, rfl, rfl⟩ (by decide)
    exact (hduplicates 3 4).mpr ⟨"brush", hleast, ⟨_, rfl, rfl, rfl⟩, by decide⟩
  · obtain ⟨site, hmem, hc⟩ := List.mem_map.mp ((hcapabilities "fill").mpr (by decide))
    obtain ⟨j, hj⟩ := List.getElem?_of_mem hmem
    obtain ⟨hfound, _, _, himplements, _, hstrict⟩ := hsites j site hj
    rw [hc] at himplements hstrict
    exact ⟨j, site, (hfound "fill").mpr hc, hj, (himplements 3).mpr ⟨_, rfl, by decide⟩,
      (himplements 4).mpr ⟨_, rfl, by decide⟩, hstrict.mpr (by decide)⟩

/-- A brush that names its capability twice stands twice behind the site. -/
theorem site_repeats_brush :
    ∃ g, build [{ name := "app", symbols := [((SymbolEntry.function "brush" .internal).implementing "fill").implementing
        "fill"] }] = .ok g ∧
      g.siteId? "fill" = some 0 ∧ g.successors (.dispatch 0) = [.symbol 0, .symbol 0] :=
  ⟨_, rfl, by decide, by decide⟩

end Graph

end DeviceLink
