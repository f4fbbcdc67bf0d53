import DeviceLink.Proofs.Naming

/-! The names that a list of symbols gets. External symbols keep theirs. Then every internal symbol, in the order of the
list, gets the first of its numbered names that is still free. -/

namespace DeviceLink.Linked

variable {g : Graph} {ids before rest : List SymbolId} {i j : SymbolId} {s t : Symbol} {x : String}

def base (g : Graph) (s : Symbol) : String := Names.mangle (g.moduleName s.owner) ++ s.name

/-- A name that the symbol behind `before` cannot get, because a listed external symbol has it or a symbol of `before`
got it. -/
def Taken (g : Graph) (ids before : List SymbolId) (x : String) : Prop :=
  (∃ j ∈ ids, ∃ t, g.symbols[j]? = some t ∧ t.isExternal = true ∧ t.name = x) ∨
    ∃ j ∈ before, (assignNames g ids).lookup j = some x

def assigned (g : Graph) (ids before : List SymbolId) : List (SymbolId × String) :=
  ((named g before).filter (!·.2.isExternal)).foldl
    (fun names p => names ++ [(p.1, Names.fresh (names.map (·.2)) (base g p.2))])
    (((named g ids).filter (·.2.isExternal)).map fun p => (p.1, p.2.name))

lemma assignNames_eq_assigned (g : Graph) (ids : List SymbolId) : assignNames g ids = assigned g ids ids := rfl

lemma assigned_append : assigned g ids (before ++ rest) =
    ((named g rest).filter (!·.2.isExternal)).foldl
      (fun names p => names ++ [(p.1, Names.fresh (names.map (·.2)) (base g p.2))]) (assigned g ids before) := by
  simp only [assigned, named, List.filterMap_append, List.filter_append, List.foldl_append]

lemma assigned_extends (h : before <+: ids) : assigned g ids before <+: assignNames g ids := by
  obtain ⟨rest, hids⟩ := h
  rw [assignNames_eq_assigned]
  nth_rewrite 3 [← hids]
  rw [assigned_append]
  exact foldl_fresh_extends

lemma assigned_concat (hs : g.symbols[i]? = some s) (he : s.isExternal = false) :
    assigned g ids (before ++ [i]) =
      assigned g ids before ++ [(i, Names.fresh ((assigned g ids before).map (·.2)) (base g s))] := by
  simp [assigned_append, named, hs, he]

lemma mem_assigned_of_isExternal (hj : j ∈ ids) (ht : g.symbols[j]? = some t) (he : t.isExternal = true) :
    (j, t.name) ∈ assigned g ids before := by
  apply List.IsPrefix.subset foldl_fresh_extends
  exact List.mem_map.mpr ⟨(j, t), List.mem_filter.mpr ⟨mem_named.mpr ⟨hj, ht⟩, he⟩, rfl⟩

lemma mem_keys_assigned_iff : j ∈ (assigned g ids before).map (·.1) ↔
    (j ∈ ids ∧ ∃ t, g.symbols[j]? = some t ∧ t.isExternal = true) ∨
      (j ∈ before ∧ ∃ t, g.symbols[j]? = some t ∧ t.isExternal = false) := by
  have hkeys : (assigned g ids before).map (·.1) = _ := foldl_fresh_keys
  rw [hkeys, List.mem_append, List.map_map]
  simp [mem_named, and_assoc]

section Listed

variable (hn : ids.Nodup) (hids : ∀ id ∈ ids, id < g.symbols.length)

include hids

lemma map_fst_named : (named g ids).map (·.1) = ids := by
  have hfst : ∀ id ∈ ids, (g.symbols[id]?.map (id, ·)).map (·.1) = some id := by
    intro id hid
    rw [List.getElem?_eq_getElem (hids id hid)]
    rfl
  rw [named, List.map_filterMap, List.filterMap_congr hfst, List.filterMap_some]

lemma keys_perm : ((assignNames g ids).map (·.1)).Perm ids := by
  have hkeys : (assignNames g ids).map (·.1) = _ := foldl_fresh_keys
  rw [hkeys, List.map_map]
  change (((named g ids).filter _).map (·.1) ++ ((named g ids).filter _).map (·.1)).Perm ids
  rw [← List.map_append]
  nth_rewrite 3 [← map_fst_named hids]
  exact (List.filter_append_perm _ _).map _

include hn

lemma lookup_eq_some_iff_mem : (assignNames g ids).lookup i = some x ↔ (i, x) ∈ assignNames g ids := by
  have hkeys : ((assignNames g ids).map (·.1)).Nodup := (keys_perm hids).nodup_iff.mpr hn
  constructor
  · intro h
    obtain ⟨front, back, hnames, _⟩ := List.lookup_eq_some_iff.mp h
    simp [hnames]
  · intro h
    exact lookup_eq_some h fun p hp hi => congrArg Prod.snd (List.inj_on_of_nodup_map hkeys hp h hi)

lemma lookup_of_mem_assigned (h : before <+: ids) (hp : (j, x) ∈ assigned g ids before) :
    (assignNames g ids).lookup j = some x :=
  (lookup_eq_some_iff_mem hn hids).mpr ((assigned_extends h).subset hp)

lemma mem_assigned_iff (h : before <+: ids) : x ∈ (assigned g ids before).map (·.2) ↔ Taken g ids before x := by
  constructor
  · intro hx
    obtain ⟨⟨j, y⟩, hp, rfl⟩ := List.mem_map.mp hx
    have hl := lookup_of_mem_assigned hn hids h hp
    rcases mem_keys_assigned_iff.mp (List.mem_map_of_mem hp) with ⟨hj, t, ht, he⟩ | ⟨hj, _⟩
    · exact .inl ⟨j, hj, t, ht, he, Option.some.inj ((lookup_of_isExternal hj ht he).symm.trans hl)⟩
    · exact .inr ⟨j, hj, hl⟩
  · rintro (⟨j, hj, t, ht, he, rfl⟩ | ⟨j, hj, hl⟩)
    · exact List.mem_map_of_mem (mem_assigned_of_isExternal hj ht he)
    · have hk : j ∈ (assigned g ids before).map (·.1) := by
        have hlt := hids j (h.subset hj)
        have ht := List.getElem?_eq_getElem hlt
        cases he : g.symbols[j].isExternal with
        | true => exact mem_keys_assigned_iff.mpr (.inl ⟨h.subset hj, _, ht, he⟩)
        | false => exact mem_keys_assigned_iff.mpr (.inr ⟨hj, _, ht, he⟩)
      obtain ⟨⟨_, y⟩, hp, rfl⟩ := List.mem_map.mp hk
      rw [lookup_of_mem_assigned hn hids h hp] at hl
      exact Option.some.inj hl ▸ List.mem_map_of_mem hp

lemma lookup_of_isInternal (h : before ++ [i] <+: ids) (hs : g.symbols[i]? = some s) (he : s.isExternal = false) :
    ∃ k < ids.length, (assignNames g ids).lookup i = some (Names.numbered (base g s) k) ∧
      ¬ Taken g ids before (Names.numbered (base g s) k) ∧
      ∀ j < k, Taken g ids before (Names.numbered (base g s) j) := by
  have hbefore : before <+: ids := (List.prefix_append before [i]).trans h
  obtain ⟨k, hk, hfresh, hfree, hmin⟩ := Names.exists_fresh ((assigned g ids before).map (·.2)) (base g s)
  have hp : assigned g ids (before ++ [i]) <+: assignNames g ids := assigned_extends h
  rw [assigned_concat hs he, hfresh] at hp
  refine ⟨k, ?_, ?_, ?_, fun j hj => (mem_assigned_iff hn hids hbefore).mp (hmin j hj)⟩
  -- each number that is gone belongs to another symbol of the list
  · have hle := hp.length_le
    have hlength : (assignNames g ids).length = ids.length := by
      rw [← (keys_perm hids).length_eq, List.length_map]
    rw [List.length_map] at hk
    rw [List.length_append, List.length_singleton] at hle
    omega
  · exact (lookup_eq_some_iff_mem hn hids).mpr (hp.subset (by simp))
  · rwa [← mem_assigned_iff hn hids hbefore]

end Listed

/-- The names of a list of symbols. Every graph that is built is catalogued, by `Graph.indexed_of_build`. -/
theorem assigned_names_are_exact (hg : g.Catalogued) (hd : g.duplicateExternals = []) (hn : ids.Nodup)
    (hids : ∀ id ∈ ids, id < g.symbols.length) :
    (∀ i, (∃ x, (assignNames g ids).lookup i = some x) ↔ i ∈ ids) ∧
    (∀ i j x, (assignNames g ids).lookup i = some x → (assignNames g ids).lookup j = some x → i = j) ∧
    (∀ i s, i ∈ ids → g.symbols[i]? = some s → s.isExternal = true → (assignNames g ids).lookup i = some s.name) ∧
    (∀ before i rest s, ids = before ++ i :: rest → g.symbols[i]? = some s → s.isExternal = false →
      ∃ k < ids.length, (assignNames g ids).lookup i = some (Names.numbered (base g s) k) ∧
        ¬ Taken g ids before (Names.numbered (base g s) k) ∧
        ∀ j < k, Taken g ids before (Names.numbered (base g s) j)) ∧
    ∀ i s j t, i ∈ ids → g.symbols[i]? = some s → s.isExternal = false →
      j ∈ ids → g.symbols[j]? = some t → t.isExternal = true → (assignNames g ids).lookup i ≠ some t.name := by
  have hinjective : ∀ i j x, (assignNames g ids).lookup i = some x → (assignNames g ids).lookup j = some x → i = j := by
    intro i j x hi hj
    rw [lookup_eq_some_iff_mem hn hids] at hi hj
    exact congrArg Prod.fst (List.inj_on_of_nodup_map (assignNames_nodup hg hd hn) hi hj rfl)
  refine ⟨fun i => ?_, hinjective, fun i s => lookup_of_isExternal, ?_, ?_⟩
  · simp only [lookup_eq_some_iff_mem hn hids]
    rw [← (keys_perm hids).mem_iff, List.mem_map]
    constructor
    · rintro ⟨x, hx⟩
      exact ⟨(i, x), hx, rfl⟩
    · rintro ⟨⟨_, x⟩, hx, rfl⟩
      exact ⟨x, hx⟩
  · rintro before i rest s rfl
    exact lookup_of_isInternal hn hids ⟨rest, by simp⟩
  · intro i s j t _ hs hsi hj ht hte hl
    obtain rfl := hinjective i j t.name hl (lookup_of_isExternal hj ht hte)
    rw [Option.some.inj (hs.symm.trans ht), hte] at hsi
    cases hsi

def crowdUnits : List CompiledUnit :=
  [{ name := "a.b", symbols := [.function "f" .internal] },
   { name := "a-b", symbols := [.function "f" .internal, .function "a_b__f.1" .external, .function "f.2" .internal] }]

def crowd : Graph := (Graph.build crowdUnits).toOption.getD {}

lemma crowd_build : Graph.build crowdUnits = .ok crowd := rfl

theorem assigned_names_are_exact_crowd :
    Graph.build crowdUnits = .ok crowd ∧ crowd.Catalogued ∧ crowd.duplicateExternals = [] ∧ [3, 0, 1, 2].Nodup ∧
      (∀ id ∈ [3, 0, 1, 2], id < crowd.symbols.length) ∧
      (assignNames crowd [3, 0, 1, 2]).lookup 1 = some "a_b__f.3" ∧
      ∀ j < 3, Taken crowd [3, 0, 1, 2] [3, 0] (Names.numbered "a_b__f" j) := by
  have hg : crowd.Catalogued := (Graph.indexed_of_build crowd_build).toCatalogued
  have hd : crowd.duplicateExternals = [] := by decide
  have hn : [3, 0, 1, 2].Nodup := by decide
  have hids : ∀ id ∈ [3, 0, 1, 2], id < crowd.symbols.length := by decide
  have hname : (assignNames crowd [3, 0, 1, 2]).lookup 1 = some (Names.numbered "a_b__f" 3) := by decide +kernel
  have hbase : base crowd (Graph.symbolOfEntry 1 (.function "f" .internal)) = "a_b__f" := by decide +kernel
  obtain ⟨_, _, _, hinternal, _⟩ := assigned_names_are_exact hg hd hn hids
  obtain ⟨k, _, hl, _, hmin⟩ := hinternal [3, 0] 1 [2] _ rfl rfl rfl
  rw [hbase] at hl hmin
  obtain rfl : 3 = k := Names.numbered_injective _ (Option.some.inj (hname.symm.trans hl))
  exact ⟨crowd_build, hg, hd, hn, hids, hname, hmin⟩

end DeviceLink.Linked
