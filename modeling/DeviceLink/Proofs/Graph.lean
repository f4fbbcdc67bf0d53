import DeviceLink.Proofs.Tables

namespace DeviceLink

section Numbered

variable {α : Type} (xs : List α)

lemma filterMap_getElem?_range : (List.range xs.length).filterMap (xs[·]?) = xs := by
  have h : (List.range xs.length).map (xs[·]?) = xs.map some := List.ext_getElem (by simp) (by simp)
  have hid := congrArg (List.filterMap id) h
  rwa [List.filterMap_map, List.filterMap_map, Function.id_comp, Function.id_comp, List.filterMap_some] at hid

lemma filterMap_filter_range (q : α → Bool) :
    ((List.range xs.length).filter fun i => xs[i]?.any q).filterMap (xs[·]?) = xs.filter q := by
  have h := congrArg (List.filter q) (filterMap_getElem?_range xs)
  rw [← h, List.filter_filterMap, List.filterMap_filter]
  refine List.filterMap_congr fun i _ => ?_
  cases xs[i]? <;> simp [Option.filter]

lemma length_filter_range (q : α → Bool) :
    ((List.range xs.length).filter fun i => xs[i]?.any q).length = xs.countP q := by
  rw [List.countP_eq_length_filter, ← filterMap_filter_range xs q, eq_comm, List.filterMap_length_eq_length]
  intro i hi
  simpa using List.mem_range.mp (List.mem_of_mem_filter hi)

end Numbered

namespace Node

@[simp] lemma symbol_lt_symbol {i j : SymbolId} : symbol i < symbol j ↔ i < j := decide_eq_true_iff

@[simp] lemma symbol_lt_dispatch {i : SymbolId} {j : SiteId} : symbol i < dispatch j := rfl

@[simp] lemma not_dispatch_lt_symbol {i : SiteId} {j : SymbolId} : ¬ dispatch i < symbol j := Bool.false_ne_true

@[simp] lemma dispatch_lt_dispatch {i j : SiteId} : dispatch i < dispatch j ↔ i < j := decide_eq_true_iff

instance : Std.Trichotomous (α := Node) (· < ·) where
  trichotomous a b hab hba := by
    cases a <;> cases b
    · exact congrArg _ (Nat.le_antisymm (by simpa using hba) (by simpa using hab))
    · exact absurd symbol_lt_dispatch hab
    · exact absurd symbol_lt_dispatch hba
    · exact congrArg _ (Nat.le_antisymm (by simpa using hba) (by simpa using hab))

instance : IsTrans Node (· < ·) where
  trans a b c hab hbc := by
    cases a <;> cases b <;> cases c <;> simp_all
    · exact Nat.lt_trans hab hbc
    · exact Nat.lt_trans hab hbc

instance : Std.Asymm (α := Node) (· < ·) where
  asymm a b hab hba := by
    cases a <;> cases b <;> simp_all
    · exact Nat.lt_asymm hab hba
    · exact Nat.lt_asymm hab hba

end Node

namespace Graph

open Fallible

inductive Reaches (g : Graph) (roots : List SymbolId) : Node → Prop
  | root {id : SymbolId} (h : id ∈ roots) : Reaches g roots (.symbol id)
  | step {n m : Node} (hn : Reaches g roots n) (hm : m ∈ g.successors n) : Reaches g roots m

lemma Reaches.mono {g : Graph} {roots roots' : List SymbolId} {n : Node} (h : g.Reaches roots n)
    (hr : roots ⊆ roots') : g.Reaches roots' n := by
  induction h with
  | root h => exact .root (hr h)
  | step _ hm ih => exact .step ih hm

@[simp] lemma symbol_mem_nodes {g : Graph} {id : SymbolId} :
    .symbol id ∈ g.nodes ↔ id < g.symbols.length := by
  simp [nodes, symbolIds]

@[simp] lemma dispatch_mem_nodes {g : Graph} {id : SiteId} :
    .dispatch id ∈ g.nodes ↔ id < g.sites.length := by
  simp [nodes, symbolIds]

structure Bounded (g : Graph) : Prop where
  successors {n m : Node} (h : m ∈ g.successors n) : m ∈ g.nodes
  owners {s : Symbol} (h : s ∈ g.symbols) : s.owner < g.modules.length

lemma Bounded.reaches {g : Graph} (hg : g.Bounded) {roots : List SymbolId}
    (hr : ∀ id ∈ roots, id < g.symbols.length) {n : Node} (h : g.Reaches roots n) : n ∈ g.nodes := by
  cases h with
  | root h => exact symbol_mem_nodes.mpr (hr _ h)
  | step _ hm => exact hg.successors hm

namespace Catalogued

variable {g : Graph} (hg : g.Catalogued) {x : String} {id : SymbolId}

include hg

lemma lt_of_external? (h : g.external? x = some id) : id < g.symbols.length := by
  rw [hg.external] at h
  exact lt_of_firstExternal? h

lemma exists_of_mem_duplicateExternals {i j : SymbolId} (h : (i, j) ∈ g.duplicateExternals) :
    ∃ s t, i < j ∧ g.symbols[i]? = some s ∧ g.symbols[j]? = some t ∧ s.isExternal = true ∧ t.isExternal = true ∧
      s.name = t.name := by
  obtain ⟨t, ht, hext, hi, hlt⟩ := hg.duplicates.mp h
  obtain ⟨hi, hp, _⟩ := List.findIdx?_eq_some_iff_getElem.mp hi
  obtain ⟨hext', hn⟩ := Bool.and_eq_true_iff.mp hp
  exact ⟨g.symbols[i], t, hlt, List.getElem?_eq_getElem hi, ht, hext', hext, of_decide_eq_true hn⟩

lemma external?_eq_some (hd : g.duplicateExternals = []) {s : Symbol} (hs : g.symbols[id]? = some s)
    (he : s.isExternal = true) : g.external? s.name = some id := by
  obtain ⟨first, hf⟩ := exists_firstExternal? hs he
  rw [hg.external, hf]
  obtain ⟨hlt, rfl⟩ := List.getElem?_eq_some_iff.mp hs
  have hle : first ≤ id := by
    by_contra hid
    exact (List.findIdx?_eq_some_iff_getElem.mp hf).2.2 id (Nat.not_le.mp hid) (by simp [he])
  rcases Nat.lt_or_eq_of_le hle with hlt | rfl
  · have hmem := hg.duplicates.mpr ⟨_, hs, he, hf, hlt⟩
    rw [hd] at hmem
    cases hmem
  · rfl

end Catalogued

namespace Indexed

variable {g : Graph} (hg : g.Indexed) {owner : ModuleId} {x : String} {id : SymbolId}

include hg

lemma exists_symbol_of_own? (h : g.own? owner x = some id) :
    ∃ s, g.symbols[id]? = some s ∧ s.owner = owner ∧ s.name = x := by
  rw [hg.own] at h
  obtain ⟨hlt, hp, _⟩ := List.findIdx?_eq_some_iff_getElem.mp h
  obtain ⟨ho, hn⟩ := Bool.and_eq_true_iff.mp hp
  exact ⟨g.symbols[id], List.getElem?_eq_getElem hlt, of_decide_eq_true ho, of_decide_eq_true hn⟩

lemma lt_of_own? (h : g.own? owner x = some id) : id < g.symbols.length := by
  obtain ⟨s, hs, _⟩ := hg.exists_symbol_of_own? h
  exact (List.getElem?_eq_some_iff.mp hs).1

lemma lt_of_resolve? (h : g.resolve? owner x = some id) : id < g.symbols.length := by
  unfold resolve? at h
  cases ho : g.own? owner x with
  | some own =>
    rw [ho] at h
    exact hg.lt_of_own? (ho.trans h)
  | none =>
    rw [ho] at h
    exact hg.lt_of_external? h

lemma lt_of_designated? (h : g.designated? x = some id) : id < g.symbols.length := by
  unfold designated? at h
  cases he : g.external? x with
  | some first =>
    rw [he] at h
    exact hg.lt_of_external? (he.trans h)
  | none =>
    rw [he] at h
    exact (List.findIdx?_eq_some_iff_getElem.mp h).1

lemma exists_site_of_siteId? {c : String} {j : SiteId} (h : g.siteId? c = some j) :
    ∃ site, g.sites[j]? = some site ∧ site.capability = c := by
  rw [hg.site] at h
  obtain ⟨hlt, hc, _⟩ := List.findIdx?_eq_some_iff_getElem.mp h
  exact ⟨g.sites[j], List.getElem?_eq_getElem hlt, of_decide_eq_true hc⟩

lemma successors_dispatch {j : SiteId} {site : DispatchSite} (hj : g.sites[j]? = some site) :
    g.successors (.dispatch j) = site.implementations.map .symbol := by
  rw [hg.dispatch, hj]
  rfl

end Indexed

lemma designate_eq_ok_iff {g : Graph} {name : String} {id : SymbolId} :
    g.designate name = .ok id ↔ g.designated? name = some id := by
  unfold designate
  split <;> simp_all

lemma exists_roots_iff {g : Graph} {extra : List String} :
    (∃ roots, g.roots extra = .ok roots) ↔ ∀ x ∈ extra, ∃ id, g.designated? x = some id := by
  constructor
  · rintro ⟨roots, h⟩ x hx
    obtain ⟨designated, hd, _⟩ := bind_eq_ok_iff.mp h
    obtain ⟨id, _, hid⟩ := exists_mem_mapM hd hx
    exact ⟨id, designate_eq_ok_iff.mp hid⟩
  · intro h
    obtain ⟨designated, hd⟩ : ∃ designated, extra.mapM g.designate = .ok designated :=
      exists_mapM_eq_ok fun x hx => (h x hx).imp fun _ => designate_eq_ok_iff.mpr
    exact ⟨_, bind_eq_ok_iff.mpr ⟨designated, hd, rfl⟩⟩

lemma roots_pairwise {g : Graph} {extra : List String} {roots : List SymbolId} (h : g.roots extra = .ok roots) :
    roots.Pairwise (· < ·) := by
  obtain ⟨designated, _, h⟩ := bind_eq_ok_iff.mp h
  cases h
  exact Ordered.pairwise_ofList _

lemma mem_roots_iff {g : Graph} {extra : List String} {roots : List SymbolId} (h : g.roots extra = .ok roots)
    {id : SymbolId} : id ∈ roots ↔ (∃ s, g.symbols[id]? = some s ∧ g.isRoot s = true) ∨
      ∃ name ∈ extra, g.designated? name = some id := by
  obtain ⟨designated, hd, h⟩ := bind_eq_ok_iff.mp h
  cases h
  have hown : id ∈ g.symbolIds.filter (fun id => g.symbols[id]?.any g.isRoot) ↔
      ∃ s, g.symbols[id]? = some s ∧ g.isRoot s = true := by
    rw [List.mem_filter, symbolIds, List.mem_range, Option.any_eq_true]
    exact and_iff_right_of_imp fun ⟨s, hs, _⟩ => (List.getElem?_eq_some_iff.mp hs).1
  rw [Ordered.mem_ofList, List.mem_append, hown]
  refine or_congr_right ⟨fun hid => ?_, fun ⟨name, hn, hid⟩ => ?_⟩
  · obtain ⟨name, hn, hid⟩ := exists_of_mem_mapM hd hid
    exact ⟨name, hn, designate_eq_ok_iff.mp hid⟩
  · obtain ⟨k, hk, he⟩ := exists_mem_mapM hd hn
    rw [designate_eq_ok_iff.mpr hid] at he
    exact Except.ok.inj he ▸ hk

lemma Indexed.edgeOf_mem_nodes {g : Graph} (hg : g.Indexed) {u : CompiledUnit} {owner : ModuleId} {r : Reference}
    {e : SymbolId × Node} (h : g.edgeOf u owner r = .ok e) : e.2 ∈ g.nodes := by
  unfold edgeOf at h
  split at h
  · cases h
  · split at h
    · split at h
      · cases h
        exact symbol_mem_nodes.mpr (hg.lt_of_resolve? ‹_›)
      · cases h
    · split at h
      · cases h
        obtain ⟨site, hj, _⟩ := hg.exists_site_of_siteId? ‹_›
        exact dispatch_mem_nodes.mpr (List.getElem?_eq_some_iff.mp hj).1
      · cases h

lemma Indexed.edgesOf_mem_nodes {g : Graph} (hg : g.Indexed) {units : List CompiledUnit}
    {edges : List (SymbolId × Node)} (h : g.edgesOf units = .ok edges) {e : SymbolId × Node} (he : e ∈ edges) :
    e.2 ∈ g.nodes := by
  obtain ⟨lists, hl, hf⟩ := bind_eq_ok_iff.mp h
  cases hf
  obtain ⟨list, hlist, he⟩ := List.mem_flatten.mp he
  obtain ⟨u, _, hu⟩ := exists_of_mem_mapM hl hlist
  obtain ⟨r, _, hr⟩ := exists_of_mem_mapM hu he
  exact hg.edgeOf_mem_nodes hr

lemma length_modulesOf (first : SymbolId) (units : List CompiledUnit) :
    (modulesOf first units).length = units.length := by
  induction units generalizing first with
  | nil => rfl
  | cons u rest ih => simp [modulesOf, ih]

lemma lt_of_mem_implementationsOf {units : List CompiledUnit} {capability : String} {id : SymbolId}
    (h : id ∈ implementationsOf units capability) : id < (symbolsOf units).length := by
  obtain ⟨⟨e, k⟩, he, hk⟩ := List.mem_flatMap.mp h
  obtain ⟨_, _, rfl⟩ := List.mem_map.mp hk
  rw [length_symbolsOf]
  exact (List.mem_zipIdx' he).1

def successorsIn (edges : List (SymbolId × Node)) (id : SymbolId) : List Node :=
  Ordered.ofList ((edges.filter (·.1 = id)).map (·.2))

lemma getElem?_foldl_addEdge (edges : List (SymbolId × Node)) (lists : List (List Node)) (id : SymbolId) :
    (edges.foldl addEdge lists)[id]? = lists[id]?.map (· ++ (edges.filter (·.1 = id)).map (·.2)) := by
  induction edges generalizing lists with
  | nil => simp
  | cons e edges ih =>
    rw [List.foldl_cons, ih, addEdge, List.getElem?_modify]
    by_cases he : e.1 = id <;> simp [he, Function.comp_def]

lemma map_foldl_addEdge (g : Graph) (edges : List (SymbolId × Node)) :
    (edges.foldl addEdge (g.symbols.map fun _ => [])).map Ordered.ofList = g.symbolIds.map (successorsIn edges) := by
  apply List.ext_getElem?
  intro id
  rw [List.getElem?_map, getElem?_foldl_addEdge, List.getElem?_map, List.getElem?_map, symbolIds]
  by_cases hid : id < g.symbols.length
  · simp [hid, successorsIn]
  · simp [hid]

lemma build_eq_ok {units : List CompiledUnit} {g : Graph} (h : build units = .ok g) :
    ∃ t edges, ofUnits units = .ok t ∧ t.edgesOf units = .ok edges ∧
      g = { t with edges := t.symbolIds.map (successorsIn edges) } := by
  obtain ⟨t, ht, h⟩ := bind_eq_ok_iff.mp h
  obtain ⟨edges, he, h⟩ := bind_eq_ok_iff.mp h
  refine ⟨t, edges, ht, he, ?_⟩
  rw [← map_foldl_addEdge]
  exact (Except.ok.inj h).symm

lemma filled_of_build {units : List CompiledUnit} {g : Graph} (h : build units = .ok g) : Filled units g := by
  obtain ⟨t, edges, ht, _, rfl⟩ := build_eq_ok h
  have htab := filled_of_ofUnits ht
  exact ⟨⟨⟨htab.external, htab.ascending, htab.duplicates⟩, htab.own, htab.site, htab.dispatch⟩,
    htab.modules, htab.symbols, htab.sites⟩

lemma indexed_of_build {units : List CompiledUnit} {g : Graph} (h : build units = .ok g) : g.Indexed :=
  (filled_of_build h).toIndexed

lemma lt_of_mem_roots {units : List CompiledUnit} {g : Graph} (h : build units = .ok g) {extra : List String}
    {roots : List SymbolId} (hr : g.roots extra = .ok roots) : ∀ id ∈ roots, id < g.symbols.length := by
  intro id hid
  rcases (mem_roots_iff hr).mp hid with ⟨s, hs, _⟩ | ⟨name, _, hn⟩
  · exact (List.getElem?_eq_some_iff.mp hs).1
  · exact (indexed_of_build h).lt_of_designated? hn

lemma build_bounded {units : List CompiledUnit} {g : Graph} (h : build units = .ok g) : g.Bounded := by
  have htab := filled_of_build h
  refine ⟨?_, ?_⟩
  · rintro (id | id) m hm
    · obtain ⟨t, edges, ht, he, rfl⟩ := build_eq_ok h
      simp only [successors, List.getD_eq_getElem?_getD, List.getElem?_map] at hm
      cases hi : t.symbolIds[id]? with
      | none => simp [hi] at hm
      | some k =>
        simp only [hi, Option.map_some, Option.getD_some] at hm
        obtain ⟨e, hmem, rfl⟩ := List.mem_map.mp (Ordered.mem_of_mem_ofList hm)
        exact (filled_of_ofUnits ht).edgesOf_mem_nodes he (List.mem_of_mem_filter hmem)
    · rw [htab.dispatch, htab.sites, sitesOf, List.getElem?_map] at hm
      cases hi : (capabilitiesOf units)[id]? with
      | none => simp [hi] at hm
      | some c =>
        simp only [hi, Option.map_some, Option.getD_some] at hm
        obtain ⟨k, hk, rfl⟩ := List.mem_map.mp hm
        rw [symbol_mem_nodes, htab.symbols]
        exact lt_of_mem_implementationsOf hk
  · intro s hs
    rw [htab.modules, length_modulesOf]
    rw [htab.symbols] at hs
    exact owner_lt_of_mem_symbolsOf hs

end Graph

end DeviceLink
