import DeviceLink.Linked
import DeviceLink.Proofs.Graph
import DeviceLink.Proofs.Names

namespace DeviceLink

namespace Linked

lemma lookup_eq_some {κ β : Type} [BEq κ] [LawfulBEq κ] {bindings : List (κ × β)} {key : κ} {x : β}
    (h : (key, x) ∈ bindings) (hu : ∀ p ∈ bindings, p.1 = key → p.2 = x) : bindings.lookup key = some x := by
  cases hl : bindings.lookup key with
  | none => simpa using List.lookup_eq_none_iff.mp hl _ h
  | some y =>
    obtain ⟨before, after, hn, _⟩ := List.lookup_eq_some_iff.mp hl
    exact congrArg some (hu (key, y) (by simp [hn]) rfl)

section Fresh

variable {base : SymbolId × Symbol → String} {named : List (SymbolId × Symbol)}
variable {names : List (SymbolId × String)}

lemma foldl_fresh_nodup (h : (names.map (·.2)).Nodup) :
    ((named.foldl (fun names p => names ++ [(p.1, Names.fresh (names.map (·.2)) (base p))]) names).map
      (·.2)).Nodup := by
  induction named generalizing names with
  | nil => exact h
  | cons p rest ih =>
    apply ih
    rw [List.map_append, List.nodup_append']
    refine ⟨h, List.nodup_singleton _, ?_⟩
    simpa using Names.fresh_notMem (names.map (·.2)) (base p)

lemma foldl_fresh_keys :
    (named.foldl (fun names p => names ++ [(p.1, Names.fresh (names.map (·.2)) (base p))]) names).map (·.1) =
      names.map (·.1) ++ named.map (·.1) := by
  induction named generalizing names with
  | nil => simp
  | cons p rest ih => simp [ih]

lemma foldl_fresh_extends : names <+:
    named.foldl (fun names p => names ++ [(p.1, Names.fresh (names.map (·.2)) (base p))]) names := by
  induction named generalizing names with
  | nil => exact List.prefix_rfl
  | cons p rest ih => exact (List.prefix_append _ _).trans ih

end Fresh

variable {g : Graph} {ids : List SymbolId}

def named (g : Graph) (ids : List SymbolId) : List (SymbolId × Symbol) :=
  ids.filterMap fun id => g.symbols[id]?.map (id, ·)

lemma mem_named {p : SymbolId × Symbol} : p ∈ named g ids ↔ p.1 ∈ ids ∧ g.symbols[p.1]? = some p.2 := by
  simp only [named, List.mem_filterMap, Option.map_eq_some_iff]
  constructor
  · rintro ⟨id, hid, s, hs, rfl⟩
    exact ⟨hid, hs⟩
  · rintro ⟨hid, hs⟩
    exact ⟨p.1, hid, p.2, hs, rfl⟩

lemma named_nodup (hn : ids.Nodup) : (named g ids).Nodup := by
  refine hn.filterMap fun i j p hi hj => ?_
  obtain ⟨_, _, rfl⟩ := Option.map_eq_some_iff.mp hi
  obtain ⟨_, _, hp⟩ := Option.map_eq_some_iff.mp hj
  exact (congrArg Prod.fst hp).symm

lemma externalNames_nodup (hg : g.Catalogued) (hd : g.duplicateExternals = []) (hn : ids.Nodup) :
    (((named g ids).filter (·.2.isExternal)).map (·.2.name)).Nodup := by
  refine ((named_nodup hn).filter _).map_on fun p hp q hq h => ?_
  obtain ⟨hp, hpe⟩ := List.mem_filter.mp hp
  obtain ⟨hq, hqe⟩ := List.mem_filter.mp hq
  have hps := (mem_named.mp hp).2
  have hqs := (mem_named.mp hq).2
  have hid : p.1 = q.1 := by
    have he := (hg.external?_eq_some hd hps hpe).symm.trans
      ((congrArg g.external? h).trans (hg.external?_eq_some hd hqs hqe))
    exact Option.some.inj he
  exact Prod.ext hid (Option.some.inj (hps.symm.trans (hid ▸ hqs)))

lemma assignNames_nodup (hg : g.Catalogued) (hd : g.duplicateExternals = []) (hn : ids.Nodup) :
    ((assignNames g ids).map (·.2)).Nodup := by
  apply foldl_fresh_nodup
  rw [List.map_map]
  exact externalNames_nodup hg hd hn

lemma mem_keys_assignNames {id : SymbolId} (hid : id ∈ ids) (hlt : id < g.symbols.length) :
    id ∈ (assignNames g ids).map (·.1) := by
  have hm : (id, g.symbols[id]) ∈ named g ids := mem_named.mpr ⟨hid, List.getElem?_eq_getElem hlt⟩
  have hk : (assignNames g ids).map (·.1) = _ := foldl_fresh_keys
  rw [hk, List.mem_append, List.map_map]
  cases he : g.symbols[id].isExternal with
  | true => exact .inl (List.mem_map.mpr ⟨_, List.mem_filter.mpr ⟨hm, he⟩, rfl⟩)
  | false => exact .inr (List.mem_map.mpr ⟨_, List.mem_filter.mpr ⟨hm, by simp [he]⟩, rfl⟩)

lemma lookup_of_isExternal {i : SymbolId} {s : Symbol} (hi : i ∈ ids) (hs : g.symbols[i]? = some s)
    (he : s.isExternal = true) : (assignNames g ids).lookup i = some s.name := by
  let external := ((named g ids).filter (·.2.isExternal)).map fun p => (p.1, p.2.name)
  have hl : external.lookup i = some s.name := by
    refine lookup_eq_some ?_ ?_
    · exact List.mem_map.mpr ⟨(i, s), List.mem_filter.mpr ⟨mem_named.mpr ⟨hi, hs⟩, he⟩, rfl⟩
    · rintro _ hp rfl
      obtain ⟨q, hq, rfl⟩ := List.mem_map.mp hp
      have hq := (mem_named.mp (List.mem_filter.mp hq).1).2
      rw [Option.some.inj (hq.symm.trans hs)]
  obtain ⟨rest, hrest⟩ : external <+: assignNames g ids := foldl_fresh_extends
  rw [← hrest, List.lookup_append, hl]
  rfl

namespace Naming

def name (n : Naming) (id : SymbolId) : String := (n.names.lookup id).getD ""

variable {r : Reached} {i j : SymbolId}

lemma mem_symbols : i ∈ r.marks.symbols g ↔ i < g.symbols.length ∧ r.isReached i = true := by
  simp [Marks.symbols, Graph.symbolIds, Reached.isReached]

lemma symbols_nodup (r : Reached) (g : Graph) : (r.marks.symbols g).Nodup :=
  List.nodup_range.filter _

lemma lookup_names (hi : i ∈ r.marks.symbols g) :
    (ofReached g r).names.lookup i = some ((ofReached g r).name i) := by
  cases hl : (ofReached g r).names.lookup i with
  | some x => simp [name, hl]
  | none =>
    obtain ⟨p, hp, hpi⟩ := List.mem_map.mp (mem_keys_assignNames hi (mem_symbols.mp hi).1)
    have hne := List.lookup_eq_none_iff.mp hl p hp
    simp [hpi] at hne

lemma mem_names (hi : i ∈ r.marks.symbols g) : (i, (ofReached g r).name i) ∈ (ofReached g r).names := by
  obtain ⟨before, after, h, _⟩ := List.lookup_eq_some_iff.mp (lookup_names hi)
  rw [h]
  exact List.mem_append_right _ List.mem_cons_self

lemma outputName_eq_ok (hi : i ∈ r.marks.symbols g) :
    (ofReached g r).outputName i = .ok ((ofReached g r).name i) := by
  rw [outputName, lookup_names hi]

lemma name_injective (hg : g.Catalogued) (hd : g.duplicateExternals = []) (hi : i ∈ r.marks.symbols g)
    (hj : j ∈ r.marks.symbols g) (h : (ofReached g r).name i = (ofReached g r).name j) : i = j := by
  have hn : ((ofReached g r).names.map (·.2)).Nodup := assignNames_nodup hg hd (symbols_nodup r g)
  exact congrArg Prod.fst (List.inj_on_of_nodup_map hn (mem_names hi) (mem_names hj) h)

lemma name_of_isExternal {s : Symbol} (hi : i ∈ r.marks.symbols g) (hs : g.symbols[i]? = some s)
    (he : s.isExternal = true) : (ofReached g r).name i = s.name := by
  have hl : (ofReached g r).names.lookup i = some s.name := lookup_of_isExternal hi hs he
  rw [name, hl]
  rfl

end Naming

end Linked

end DeviceLink
