import DeviceLink.Proofs.Graph
import Mathlib.Data.List.Pairwise

namespace DeviceLink.Graph

open Fallible

variable {units : List CompiledUnit} {g : Graph}

section Modules

variable {k : ModuleId} {u : CompiledUnit}

lemma modules_of_build (h : build units = .ok g) (k : ModuleId) :
    g.modules[k]?.map (fun m => (m.name, m.kind)) = units[k]?.map fun u => (u.name, u.kind) := by
  have hm := congrArg (·[k]?) (map_modulesOf units 0)
  rwa [List.getElem?_map, List.getElem?_map, ← (filled_of_build h).modules] at hm

lemma exists_module_of_build (h : build units = .ok g) (hu : units[k]? = some u) :
    ∃ m, g.modules[k]? = some m ∧ m.name = u.name ∧ m.kind = u.kind := by
  have hm := modules_of_build h k
  rw [hu] at hm
  obtain ⟨m, hm, he⟩ := Option.map_eq_some_iff.mp hm
  obtain ⟨hn, hk⟩ := Prod.mk.inj he
  exact ⟨m, hm, hn, hk⟩

lemma exists_unit_of_module (h : build units = .ok g) {m : ModuleInfo} (hm : g.modules[k]? = some m) :
    ∃ u, units[k]? = some u ∧ u.name = m.name := by
  have hu := modules_of_build h k
  rw [hm] at hu
  obtain ⟨u, hu, he⟩ := Option.map_eq_some_iff.mp hu.symm
  exact ⟨u, hu, (Prod.mk.inj he).1⟩

lemma moduleName_of_build (h : build units = .ok g) (hu : units[k]? = some u) : g.moduleName k = u.name := by
  obtain ⟨m, hm, hn, _⟩ := exists_module_of_build h hu
  simp [moduleName, hm, hn]

end Modules

section Symbols

variable {s : Symbol}

lemma symbols_of_build (h : build units = .ok g) : g.symbols = symbolsOf units := (filled_of_build h).symbols

lemma mem_symbolsOf :
    s ∈ symbolsOf units ↔ ∃ k u e, units[k]? = some u ∧ e ∈ u.symbols ∧ symbolOfEntry k e = s := by
  simp only [symbolsOf, List.mem_flatMap, List.mem_map, Prod.exists, List.mk_mem_zipIdx_iff_getElem?]
  constructor
  · rintro ⟨u, k, hu, e, he, rfl⟩
    exact ⟨k, u, e, hu, he, rfl⟩
  · rintro ⟨k, u, e, hu, he, rfl⟩
    exact ⟨u, k, hu, e, he, rfl⟩

lemma distinct_of_build (h : build units = .ok g) : Distinct units := by
  obtain ⟨t, edges, ht, _⟩ := build_eq_ok h
  exact exists_ofUnits_iff.mp ⟨t, ht⟩

lemma keys_nodup_of_build (h : build units = .ok g) : (g.symbols.map fun s => (s.owner, s.name)).Nodup := by
  have hs := distinct_of_build h
  have hidx : units.zipIdx.Nodup := by
    apply List.Nodup.of_map Prod.snd
    rw [List.zipIdx_map_snd]
    exact List.nodup_range'
  rw [symbols_of_build h, symbolsOf, List.map_flatMap, List.nodup_flatMap]
  refine ⟨?_, hidx.pairwise_of_forall_ne ?_⟩
  · rintro ⟨u, k⟩ hu
    have hn := hs.entries (List.mem_of_getElem? (List.mk_mem_zipIdx_iff_getElem?.mp hu))
    apply List.Nodup.of_map Prod.snd
    rw [List.map_map, List.map_map]
    exact hn
  · rintro ⟨u, k⟩ hu ⟨v, j⟩ hv hne key hk hj
    obtain ⟨s, hs, rfl⟩ := List.mem_map.mp hk
    obtain ⟨t, ht, he⟩ := List.mem_map.mp hj
    obtain ⟨_, _, rfl⟩ := List.mem_map.mp hs
    obtain ⟨_, _, rfl⟩ := List.mem_map.mp ht
    -- symbols of different units have different owners
    obtain rfl : j = k := congrArg Prod.fst he
    rw [List.mk_mem_zipIdx_iff_getElem?] at hu hv
    exact hne (congrArg (·, j) (Option.some.inj (hu.symm.trans hv)))

variable {id : SymbolId}

lemma exists_unit_of_build (h : build units = .ok g) (hs : g.symbols[id]? = some s) :
    ∃ u, units[s.owner]? = some u := by
  obtain ⟨k, u, e, hu, _, rfl⟩ := mem_symbolsOf.mp (symbols_of_build h ▸ List.mem_of_getElem? hs)
  exact ⟨u, hu⟩

lemma own?_eq_some_of_build (h : build units = .ok g) (hs : g.symbols[id]? = some s) :
    g.own? s.owner s.name = some id := by
  obtain ⟨hlt, rfl⟩ := List.getElem?_eq_some_iff.mp hs
  rw [(indexed_of_build h).own]
  refine List.findIdx?_eq_some_iff_getElem.mpr ⟨hlt, by simp, fun j hj hp => ?_⟩
  have hk : (g.symbols[j].owner, g.symbols[j].name) = (g.symbols[id].owner, g.symbols[id].name) := by
    simpa using hp
  have hn := List.pairwise_map.mp (keys_nodup_of_build h)
  exact List.pairwise_iff_getElem.mp hn j id (Nat.lt_trans hj hlt) hlt hj hk

end Symbols

section Edges

variable {k : ModuleId} {u : CompiledUnit} {r : Reference} {id : SymbolId} {n : Node}

def target? (g : Graph) (owner : ModuleId) : Target → Option Node
  | .symbol name => (g.resolve? owner name).map .symbol
  | .dispatch capability => (g.siteId? capability).map .dispatch

lemma edgeOf_eq_ok_iff :
    g.edgeOf u k r = .ok (id, n) ↔ g.own? k r.referrer = some id ∧ g.target? k r.target = some n := by
  unfold edgeOf target?
  cases g.own? k r.referrer with
  | none => simp
  | some own =>
    cases r.target with
    | symbol name => cases hn : g.resolve? k name <;> simp [hn]
    | dispatch capability => cases hn : g.siteId? capability <;> simp [hn]

lemma mem_edgesOf_iff {edges : List (SymbolId × Node)} (h : g.edgesOf units = .ok edges) :
    (id, n) ∈ edges ↔ ∃ k u r, units[k]? = some u ∧ r ∈ u.references ∧ g.edgeOf u k r = .ok (id, n) := by
  obtain ⟨lists, hl, hf⟩ := bind_eq_ok_iff.mp h
  cases hf
  constructor
  · intro he
    obtain ⟨list, hlist, he⟩ := List.mem_flatten.mp he
    obtain ⟨⟨u, k⟩, hu, hm⟩ := exists_of_mem_mapM hl hlist
    obtain ⟨r, hr, he⟩ := exists_of_mem_mapM hm he
    exact ⟨k, u, r, List.mk_mem_zipIdx_iff_getElem?.mp hu, hr, he⟩
  · rintro ⟨k, u, r, hu, hr, he⟩
    obtain ⟨list, hlist, hm⟩ := exists_mem_mapM hl (List.mk_mem_zipIdx_iff_getElem?.mpr hu)
    obtain ⟨e, hmem, he'⟩ := exists_mem_mapM hm hr
    rw [he] at he'
    exact List.mem_flatten.mpr ⟨list, hlist, Except.ok.inj he' ▸ hmem⟩

lemma exists_edgeOf (h : build units = .ok g) (hu : units[k]? = some u) (hr : r ∈ u.references) :
    ∃ e, g.edgeOf u k r = .ok e := by
  obtain ⟨t, edges, _, he, rfl⟩ := build_eq_ok h
  obtain ⟨lists, hl, _⟩ := bind_eq_ok_iff.mp he
  obtain ⟨list, _, hm⟩ := exists_mem_mapM hl (List.mk_mem_zipIdx_iff_getElem?.mpr hu)
  obtain ⟨e, _, he⟩ := exists_mem_mapM hm hr
  exact ⟨e, he⟩

lemma mem_successors_iff (h : build units = .ok g) :
    n ∈ g.successors (.symbol id) ↔ ∃ k u r, units[k]? = some u ∧ r ∈ u.references ∧
      g.own? k r.referrer = some id ∧ g.target? k r.target = some n := by
  obtain ⟨t, edges, ht, he, rfl⟩ := build_eq_ok h
  have hedge : (id, n) ∈ edges ↔ _ := mem_edgesOf_iff he
  simp only [edgeOf_eq_ok_iff] at hedge
  refine Iff.trans ?_ hedge
  simp only [successors, List.getD_eq_getElem?_getD, List.getElem?_map]
  cases hi : t.symbolIds[id]? with
  | none =>
    have hlt : ¬ id < t.symbols.length := by simpa [symbolIds] using hi
    refine iff_of_false (by simp) fun hm => ?_
    obtain ⟨_, _, _, _, _, hown, _⟩ := hedge.mp hm
    exact hlt ((filled_of_ofUnits ht).lt_of_own? hown)
  | some j =>
    obtain rfl : id = j := by
      obtain ⟨_, hj⟩ := List.getElem?_eq_some_iff.mp hi
      simpa [symbolIds] using hj
    simp [successorsIn, Ordered.mem_ofList]

lemma reaches_target (h : build units = .ok g) (hu : units[k]? = some u) {s : Symbol} (hs : g.symbols[id]? = some s)
    (hk : s.owner = k) {target : Target} (hr : ⟨s.name, target⟩ ∈ u.references) {roots : List SymbolId}
    (hid : g.Reaches roots (.symbol id)) : ∃ n, g.target? k target = some n ∧ g.Reaches roots n := by
  obtain ⟨⟨own, n⟩, he⟩ := exists_edgeOf h hu hr
  obtain ⟨hown, hn⟩ := edgeOf_eq_ok_iff.mp he
  obtain rfl : id = own := by
    rw [← hk, own?_eq_some_of_build h hs] at hown
    exact Option.some.inj hown
  exact ⟨n, hn, .step hid ((mem_successors_iff h).mpr ⟨k, u, _, hu, hr, hown, hn⟩)⟩

end Edges

end DeviceLink.Graph
