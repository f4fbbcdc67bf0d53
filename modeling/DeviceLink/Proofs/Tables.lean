import DeviceLink.Graph.Build
import DeviceLink.Proofs.Fallible
import DeviceLink.Proofs.Ordered
import Mathlib.Data.List.Induction

/-! The tables of a graph are filled unit by unit and entry by entry. What they find in the end is what a search of
all symbols and sites finds. -/

namespace DeviceLink

namespace Graph

section Searches

def ownedBy? (symbols : List Symbol) (owner : ModuleId) (x : String) : Option SymbolId :=
  symbols.findIdx? fun s => s.owner = owner && s.name = x

def firstExternal? (symbols : List Symbol) (x : String) : Option SymbolId :=
  symbols.findIdx? fun s => s.isExternal && s.name = x

structure Catalogued (g : Graph) : Prop where
  external (x : String) : g.external? x = firstExternal? g.symbols x
  ascending : (g.duplicateExternals.map (·.2)).Pairwise (· < ·)
  duplicates {i j : SymbolId} : (i, j) ∈ g.duplicateExternals ↔
    ∃ s, g.symbols[j]? = some s ∧ s.isExternal = true ∧ firstExternal? g.symbols s.name = some i ∧ i < j

structure Indexed (g : Graph) : Prop extends Catalogued g where
  own (owner : ModuleId) (x : String) : g.own? owner x = ownedBy? g.symbols owner x
  site (c : String) : g.siteId? c = g.sites.findIdx? (·.capability = c)
  dispatch (j : SiteId) : g.successors (.dispatch j) = (g.sites[j]?.map (·.implementations.map .symbol)).getD []

end Searches

section Units

def entries (units : List CompiledUnit) : List SymbolEntry := units.flatMap (·.symbols)

def symbolsOf (units : List CompiledUnit) : List Symbol :=
  units.zipIdx.flatMap fun (u, owner) => u.symbols.map (symbolOfEntry owner)

def modulesOf (first : SymbolId) : List CompiledUnit → List ModuleInfo
  | [] => []
  | u :: rest =>
    { name := u.name, kind := u.kind, symbols := List.range' first u.symbols.length } ::
      modulesOf (first + u.symbols.length) rest

def capabilitiesOf (units : List CompiledUnit) : List String :=
  Ordered.ofList ((entries units).flatMap (·.implements) ++ units.flatMap dispatched)

def implementersIn (es : List SymbolEntry) (capability : String) : List SymbolId :=
  es.zipIdx.flatMap fun (e, id) => (e.implements.filter (· = capability)).map fun _ => id

def implementationsOf (units : List CompiledUnit) (capability : String) : List SymbolId :=
  implementersIn (entries units) capability

def sitesOf (units : List CompiledUnit) : List DispatchSite :=
  (capabilitiesOf units).map fun c => { capability := c, implementations := implementationsOf units c }

structure Distinct (units : List CompiledUnit) : Prop where
  names : (units.map (·.name)).Nodup
  entries {u : CompiledUnit} (hu : u ∈ units) : (u.symbols.map (·.name)).Nodup

lemma Distinct.left {us vs : List CompiledUnit} (h : Distinct (us ++ vs)) : Distinct us where
  names := (List.nodup_append'.mp (List.map_append ▸ h.names)).1
  entries hu := h.entries (List.mem_append_left _ hu)

lemma Distinct.concat {us : List CompiledUnit} {u : CompiledUnit} (h : Distinct us) (hu : u.name ∉ us.map (·.name))
    (he : (u.symbols.map (·.name)).Nodup) : Distinct (us ++ [u]) where
  names := by
    rw [List.map_append, List.nodup_append']
    exact ⟨h.names, List.nodup_singleton _, by simpa using hu⟩
  entries {v} hv := by
    rcases List.mem_append.mp hv with hv | hv
    · exact h.entries hv
    · exact List.mem_singleton.mp hv ▸ he

variable (us : List CompiledUnit) (u : CompiledUnit)

lemma entries_append (vs : List CompiledUnit) : entries (us ++ vs) = entries us ++ entries vs := List.flatMap_append

lemma implementersIn_append (es fs : List SymbolEntry) (c : String) :
    implementersIn (es ++ fs) c = implementersIn es c ++
      (fs.zipIdx es.length).flatMap fun (e, id) => (e.implements.filter (· = c)).map fun _ => id := by
  rw [implementersIn, List.zipIdx_append, List.flatMap_append, Nat.zero_add]
  rfl

lemma symbolsOf_concat : symbolsOf (us ++ [u]) = symbolsOf us ++ u.symbols.map (symbolOfEntry us.length) := by
  simp [symbolsOf, List.zipIdx_append]

lemma length_symbolsOf : (symbolsOf us).length = (entries us).length := by
  induction us using List.reverseRecOn with
  | nil => rfl
  | append_singleton us u ih => simp [symbolsOf_concat, entries, ih]

lemma modulesOf_concat (first : SymbolId) : modulesOf first (us ++ [u]) =
    modulesOf first us ++ [⟨u.name, u.kind, List.range' (first + (entries us).length) u.symbols.length⟩] := by
  induction us generalizing first with
  | nil => simp [modulesOf, entries]
  | cons v rest ih => simp [modulesOf, ih, entries, Nat.add_assoc]

lemma map_modulesOf (first : SymbolId) :
    (modulesOf first us).map (fun m => (m.name, m.kind)) = us.map fun u => (u.name, u.kind) := by
  induction us generalizing first with
  | nil => rfl
  | cons u rest ih => simp [modulesOf, ih]

lemma isExternal_symbolOfEntry (k : ModuleId) (e : SymbolEntry) : (symbolOfEntry k e).isExternal = e.isExternal := by
  cases hk : e.isKernel <;> simp [Symbol.isExternal, symbolOfEntry, SymbolEntry.isExternal, hk]

lemma mem_capabilitiesOf {units : List CompiledUnit} {c : String} :
    c ∈ capabilitiesOf units ↔ (∃ e ∈ entries units, c ∈ e.implements) ∨ ∃ u ∈ units, c ∈ dispatched u := by
  rw [capabilitiesOf, Ordered.mem_ofList, List.mem_append, List.mem_flatMap, List.mem_flatMap]

lemma owner_lt_of_mem_symbolsOf {us : List CompiledUnit} {s : Symbol} (h : s ∈ symbolsOf us) :
    s.owner < us.length := by
  obtain ⟨⟨u, owner⟩, hu, hs⟩ := List.mem_flatMap.mp h
  obtain ⟨e, _, rfl⟩ := List.mem_map.mp hs
  exact (List.mem_zipIdx' hu).1

end Units

section Externals

variable {g : Graph} {e : SymbolEntry} {s : Symbol}

lemma exists_addExternal (g : Graph) (e : SymbolEntry) (id : SymbolId) : ∃ names duplicates,
    g.addExternal e id = { g with externalNames := names, duplicateExternals := duplicates } := by
  unfold addExternal
  split
  · split <;> exact ⟨_, _, rfl⟩
  · exact ⟨_, _, rfl⟩

lemma external?_addExternal (e : SymbolEntry) (id : SymbolId) (x : String) :
    (g.addExternal e id).external? x =
      (g.external? x).or (if e.isExternal = true ∧ e.name = x then some id else none) := by
  unfold addExternal
  split
  · rename_i he
    cases hx : g.external? e.name with
    | some first =>
      by_cases hn : e.name = x
      · subst hn
        change g.external? e.name = _
        rw [hx]
        rfl
      · simp [external?, hn]
    | none =>
      change (g.externalNames.insert e.name id).find? x = _
      rw [Table.find?_insert]
      by_cases hn : e.name = x
      · subst hn
        simp [he, hx]
      · simp [external?, hn, Ne.symm hn]
  · rename_i he
    simp [he]

lemma duplicateExternals_addExternal (e : SymbolEntry) (id : SymbolId) :
    (g.addExternal e id).duplicateExternals = g.duplicateExternals ++
      if e.isExternal then (g.external? e.name).toList.map (·, id) else [] := by
  unfold addExternal
  split
  · cases g.external? e.name <;> simp
  · simp

@[simp] lemma symbols_addExternal (e : SymbolEntry) (id : SymbolId) : (g.addExternal e id).symbols = g.symbols := by
  obtain ⟨names, duplicates, h⟩ := exists_addExternal g e id
  rw [h]

lemma firstExternal?_concat (symbols : List Symbol) (s : Symbol) (x : String) :
    firstExternal? (symbols ++ [s]) x =
      (firstExternal? symbols x).or (if s.isExternal = true ∧ s.name = x then some symbols.length else none) := by
  simp [firstExternal?]

lemma lt_of_firstExternal? {symbols : List Symbol} {x : String} {i : SymbolId} (h : firstExternal? symbols x = some i) :
    i < symbols.length :=
  (List.findIdx?_eq_some_iff_getElem.mp h).1

lemma exists_firstExternal? {symbols : List Symbol} {j : SymbolId} (hs : symbols[j]? = some s)
    (he : s.isExternal = true) : ∃ i, firstExternal? symbols s.name = some i := by
  apply Option.isSome_iff_exists.mp
  rw [firstExternal?, List.findIdx?_isSome, List.any_eq_true]
  exact ⟨s, List.mem_of_getElem? hs, by simp [he]⟩

lemma exists_later_concat_iff {symbols : List Symbol} {i j : SymbolId} :
    (∃ t, (symbols ++ [s])[j]? = some t ∧ t.isExternal = true ∧
        firstExternal? (symbols ++ [s]) t.name = some i ∧ i < j) ↔
      (∃ t, symbols[j]? = some t ∧ t.isExternal = true ∧ firstExternal? symbols t.name = some i ∧ i < j) ∨
        s.isExternal = true ∧ firstExternal? symbols s.name = some i ∧ j = symbols.length := by
  -- An old symbol has its first one among the old symbols; the new one has it there or is the first itself.
  constructor
  · rintro ⟨t, ht, he, hi, hlt⟩
    by_cases hj : j < symbols.length
    · rw [List.getElem?_append_left hj] at ht
      obtain ⟨first, hfirst⟩ := exists_firstExternal? ht he
      rw [firstExternal?_concat, hfirst, Option.some_or] at hi
      exact .inl ⟨t, ht, he, hfirst.trans hi, hlt⟩
    · obtain rfl : j = symbols.length := by
        have hlen := (List.getElem?_eq_some_iff.mp ht).1
        rw [List.length_append] at hlen
        exact Nat.le_antisymm (Nat.le_of_lt_succ hlen) (Nat.not_lt.mp hj)
      rw [List.getElem?_concat_length] at ht
      obtain rfl := Option.some.inj ht
      rw [firstExternal?_concat] at hi
      cases hf : firstExternal? symbols s.name with
      | some first => exact .inr ⟨he, by rwa [hf] at hi, rfl⟩
      | none =>
        rw [hf, Option.none_or, if_pos ⟨he, rfl⟩] at hi
        exact absurd (Option.some.inj hi) (Nat.ne_of_gt hlt)
  · rintro (⟨t, ht, he, hi, hlt⟩ | ⟨he, hi, rfl⟩)
    · have hj := (List.getElem?_eq_some_iff.mp ht).1
      refine ⟨t, (List.getElem?_append_left hj).trans ht, he, ?_, hlt⟩
      rw [firstExternal?_concat, hi, Option.some_or]
    · refine ⟨s, List.getElem?_concat_length .., he, ?_, lt_of_firstExternal? hi⟩
      rw [firstExternal?_concat, hi, Option.some_or]

lemma Catalogued.lt_of_mem (h : g.Catalogued) {i j : SymbolId} (hm : (i, j) ∈ g.duplicateExternals) :
    j < g.symbols.length := by
  obtain ⟨s, hs, _⟩ := h.duplicates.mp hm
  exact (List.getElem?_eq_some_iff.mp hs).1

lemma Catalogued.add (h : g.Catalogued) (he : s.isExternal = e.isExternal) (hn : s.name = e.name) :
    ((g.addExternal e g.symbols.length).addSymbol s).Catalogued := by
  have hsymbols : ((g.addExternal e g.symbols.length).addSymbol s).symbols = g.symbols ++ [s] := by
    simp [addSymbol]
  have hdup : ((g.addExternal e g.symbols.length).addSymbol s).duplicateExternals = _ :=
    duplicateExternals_addExternal e g.symbols.length
  have hnew {i j : SymbolId} : (i, j) ∈ (if e.isExternal then
      (g.external? e.name).toList.map (·, g.symbols.length) else []) ↔
      s.isExternal = true ∧ firstExternal? g.symbols s.name = some i ∧ j = g.symbols.length := by
    rw [h.external, he, hn]
    split
    · rename_i hext
      simp [hext, eq_comm (a := j)]
    · rename_i hext
      simp [hext]
  refine ⟨fun x => ?_, ?_, fun {i j} => ?_⟩
  · rw [hsymbols, firstExternal?_concat, ← h.external, he, hn]
    exact external?_addExternal e g.symbols.length x
  · rw [hdup, List.map_append, List.pairwise_append]
    refine ⟨h.ascending, ?_, ?_⟩
    · split
      · cases g.external? e.name <;> simp
      · exact .nil
    · intro i hi j hj
      obtain ⟨⟨a, b⟩, hab, rfl⟩ := List.mem_map.mp hi
      obtain ⟨⟨c, d⟩, hcd, rfl⟩ := List.mem_map.mp hj
      obtain ⟨_, _, rfl⟩ := hnew.mp hcd
      exact h.lt_of_mem hab
  · rw [hdup, hsymbols, List.mem_append, hnew, h.duplicates, exists_later_concat_iff]

end Externals

section Reading

/-- All of some units were read, and some entries of the next one. -/
structure Reading (us : List CompiledUnit) (es : List SymbolEntry) (d : Draft) : Prop where
  distinct : Distinct us
  told : (es.map (·.name)).Nodup
  modules : d.graph.modules = modulesOf 0 us
  symbols : d.graph.symbols = symbolsOf us ++ es.map (symbolOfEntry us.length)
  catalogued : d.graph.Catalogued
  locals : d.graph.localNames.length = us.length
  own {owner : ModuleId} (hk : owner < us.length) (x : String) :
    d.graph.own? owner x = ownedBy? d.graph.symbols owner x
  names (x : String) : d.names.find? x = ownedBy? d.graph.symbols us.length x
  ids : d.ids = List.range' (entries us).length es.length
  known {c : String} : (d.implementers.find? c).isSome = true ↔
    (∃ e ∈ entries us ++ es, c ∈ e.implements) ∨ ∃ u ∈ us, c ∈ dispatched u
  implementers (c : String) : (d.implementers.find? c).getD [] = implementersIn (entries us ++ es) c
  sites : d.graph.sites = [] ∧ d.graph.dispatchEdges = [] ∧ d.graph.capabilities = .empty

variable {us : List CompiledUnit} {es : List SymbolEntry} {d : Draft} {u : CompiledUnit} {e : SymbolEntry}

lemma ownedBy?_concat (symbols : List Symbol) (s : Symbol) (owner : ModuleId) (x : String) :
    ownedBy? (symbols ++ [s]) owner x =
      (ownedBy? symbols owner x).or (if s.owner = owner ∧ s.name = x then some symbols.length else none) := by
  simp [ownedBy?]

lemma Reading.start : Reading [] [] {} where
  distinct := ⟨.nil, fun hu => absurd hu List.not_mem_nil⟩
  told := .nil
  modules := rfl
  symbols := rfl
  catalogued := ⟨fun _ => rfl, .nil, fun {i j} => by simp⟩
  locals := rfl
  own hk := absurd hk (Nat.not_lt_zero _)
  names _ := rfl
  ids := rfl
  known := by simp [Table.find?, Table.empty, entries]
  implementers _ := rfl
  sites := ⟨rfl, rfl, rfl⟩

namespace Reading

lemma length_symbols (h : Reading us es d) : d.graph.symbols.length = (entries us ++ es).length := by
  rw [h.symbols, List.length_append, List.length_append, List.length_map, length_symbolsOf]

lemma isSome_names_iff (h : Reading us es d) {x : String} :
    (d.names.find? x).isSome = true ↔ x ∈ es.map (·.name) := by
  rw [h.names, ownedBy?, List.findIdx?_isSome, List.any_eq_true, h.symbols, List.mem_map]
  constructor
  · rintro ⟨s, hs, hp⟩
    obtain ⟨ho, hn⟩ := Bool.and_eq_true_iff.mp hp
    rcases List.mem_append.mp hs with hs | hs
    · exact absurd (of_decide_eq_true ho) (Nat.ne_of_lt (owner_lt_of_mem_symbolsOf hs))
    · obtain ⟨e, he, rfl⟩ := List.mem_map.mp hs
      exact ⟨e, he, of_decide_eq_true hn⟩
  · rintro ⟨e, he, rfl⟩
    exact ⟨_, List.mem_append_right _ (List.mem_map_of_mem he), by simp [symbolOfEntry]⟩

lemma addEntry (h : Reading us es d) (u : CompiledUnit) (hx : e.name ∉ es.map (·.name)) :
    ∃ d', d.addEntry u us.length e = .ok d' ∧ Reading us (es ++ [e]) d' := by
  have hnone : d.names.find? e.name = none := by
    rwa [← Option.not_isSome_iff_eq_none, h.isSome_names_iff]
  obtain ⟨names, duplicates, hg⟩ := exists_addExternal d.graph e d.graph.symbols.length
  have hsymbols : ((d.graph.addExternal e d.graph.symbols.length).addSymbol (symbolOfEntry us.length e)).symbols =
      d.graph.symbols ++ [symbolOfEntry us.length e] := by
    simp [addSymbol]
  refine ⟨_, by rw [Draft.addEntry, hnone]; rfl, ?_⟩
  exact {
    distinct := h.distinct
    told := by
      rw [List.map_append, List.nodup_append']
      exact ⟨h.told, List.nodup_singleton _, by simpa using hx⟩
    modules := by
      rw [hg]
      exact h.modules
    symbols := by
      rw [hsymbols, h.symbols, List.map_append, List.append_assoc]
      rfl
    catalogued := h.catalogued.add (isExternal_symbolOfEntry us.length e) rfl
    locals := by
      rw [hg]
      exact h.locals
    own := fun {owner} hk x => by
      rw [hsymbols, ownedBy?_concat, ← h.own hk, if_neg fun ho => Nat.ne_of_gt hk ho.1, Option.or_none, hg]
      rfl
    names := fun x => by
      rw [hsymbols, ownedBy?_concat, ← h.names, Table.find?_insert]
      by_cases hn : x = e.name
      · subst hn
        rw [if_pos rfl, if_pos ⟨rfl, rfl⟩, hnone, Option.none_or]
      · rw [if_neg hn, if_neg fun ho => hn ho.2.symm, Option.or_none]
    ids := by
      rw [h.ids, h.length_symbols, List.length_append, List.length_append, List.length_singleton, List.range'_1_concat]
    known := fun {c} => by
      rw [Table.isSome_find?_extend, h.known]
      simp only [List.mem_append, List.mem_singleton]
      grind
    implementers := fun c => by
      rw [Table.getD_find?_extend, h.implementers, ← List.append_assoc, implementersIn_append (_ ++ _),
        h.length_symbols]
      simp [List.map_eq_flatMap]
    sites := by
      rw [hg]
      exact h.sites }

lemma addEntries (h : Reading us es d) (u : CompiledUnit) (rest : List SymbolEntry) :
    (∃ d', rest.foldlM (Draft.addEntry u us.length) d = .ok d' ∧ Reading us (es ++ rest) d') ∨
      ¬ ((es ++ rest).map (·.name)).Nodup ∧
        ∃ x, rest.foldlM (Draft.addEntry u us.length) d = .error (.internal (.symbolTwice x u.name)) := by
  induction rest generalizing es d with
  | nil => exact .inl ⟨d, rfl, by rwa [List.append_nil]⟩
  | cons e rest ih =>
    rw [List.foldlM_cons, List.append_cons]
    by_cases hx : e.name ∈ es.map (·.name)
    · have hfail : d.addEntry u us.length e = .error (.internal (.symbolTwice e.name u.name)) := by
        rw [Draft.addEntry, h.isSome_names_iff.mpr hx]
        rfl
      refine .inr ⟨fun hn => ?_, e.name, by rw [hfail]; rfl⟩
      rw [List.append_assoc, List.map_append, List.nodup_append'] at hn
      exact hn.2.2 hx List.mem_cons_self
    · obtain ⟨d', hd, h'⟩ := h.addEntry u hx
      rw [hd]
      exact ih h'

lemma isSome_moduleId?_iff (h : Reading us es d) {x : String} :
    (d.graph.moduleId? x).isSome = true ↔ x ∈ us.map (·.name) := by
  have hm : ((modulesOf 0 us).map fun m => (m.name, m.kind)).map Prod.fst = _ :=
    congrArg (List.map Prod.fst) (map_modulesOf us 0)
  rw [List.map_map, List.map_map] at hm
  replace hm : (modulesOf 0 us).map (·.name) = us.map (·.name) := hm
  rw [moduleId?, List.findIdx?_isSome, h.modules, ← hm, List.any_eq_true, List.mem_map]
  simp only [decide_eq_true_eq]

lemma addModule (h : Reading us u.symbols d) (hu : u.name ∉ us.map (·.name)) : Reading (us ++ [u]) [] {
    graph := d.graph.addModule ⟨u.name, u.kind, d.ids⟩ d.names
    implementers := d.implementers.extend (dispatched u) [] } where
  distinct := h.distinct.concat hu h.told
  told := .nil
  modules := by
    rw [modulesOf_concat, Nat.zero_add, ← h.modules, ← h.ids]
    rfl
  symbols := by
    rw [symbolsOf_concat, ← h.symbols, List.map_nil, List.append_nil]
    rfl
  catalogued := ⟨h.catalogued.external, h.catalogued.ascending, h.catalogued.duplicates⟩
  locals := by simp [Graph.addModule, h.locals]
  own {owner} hk x := by
    change (d.graph.localNames ++ [d.names])[owner]?.bind (·.find? x) = _
    rcases Nat.lt_or_ge owner us.length with hlt | hge
    · rw [List.getElem?_append_left (h.locals.symm ▸ hlt)]
      exact h.own hlt x
    · obtain rfl : owner = us.length := by
        rw [List.length_append] at hk
        exact Nat.le_antisymm (Nat.le_of_lt_succ hk) hge
      rw [← h.locals, List.getElem?_concat_length, h.locals]
      exact h.names x
  names x := by
    -- every symbol so far belongs to a unit that was read
    have hnone : ownedBy? d.graph.symbols (us ++ [u]).length x = none := by
      rw [h.symbols, ← symbolsOf_concat, ownedBy?, List.findIdx?_eq_none_iff]
      intro s hs
      rw [decide_eq_false (Nat.ne_of_lt (owner_lt_of_mem_symbolsOf hs)), Bool.false_and]
    exact hnone.symm
  ids := rfl
  known {c} := by
    rw [Table.isSome_find?_extend, h.known]
    simp only [entries, List.flatMap_append, List.flatMap_singleton, List.append_nil, List.mem_append,
      List.mem_singleton]
    grind
  implementers c := by
    rw [Table.getD_find?_extend, h.implementers]
    simp [entries]
  sites := h.sites

lemma addUnit (h : Reading us [] d) (u : CompiledUnit) :
    (∃ d', d.addUnit u us.length = .ok d' ∧ Reading (us ++ [u]) [] d') ∨
      ¬ Distinct (us ++ [u]) ∧ ∃ cause, d.addUnit u us.length = .error (.internal cause) ∧ ∀ c, cause ≠ .noSite c := by
  rw [Draft.addUnit]
  by_cases hu : u.name ∈ us.map (·.name)
  · rw [h.isSome_moduleId?_iff.mpr hu]
    refine .inr ⟨fun hd => ?_, _, rfl, fun _ => Inconsistency.noConfusion⟩
    have hn := hd.names
    rw [List.map_append, List.nodup_append'] at hn
    exact hn.2.2 hu List.mem_cons_self
  · have hnone : (d.graph.moduleId? u.name).isSome = false := by
      rwa [← Bool.not_eq_true, h.isSome_moduleId?_iff]
    rw [hnone]
    rcases h.addEntries u u.symbols with ⟨d', hd, h'⟩ | ⟨hn, x, hd⟩
    · rw [hd]
      exact .inl ⟨_, rfl, h'.addModule hu⟩
    · rw [hd]
      refine .inr ⟨fun hdis => hn ?_, _, rfl, fun _ => Inconsistency.noConfusion⟩
      exact hdis.entries (List.mem_append_right _ (List.mem_singleton_self u))

lemma addUnits (h : Reading us [] d) (rest : List CompiledUnit) :
    (∃ d', d.addUnits (rest.zipIdx us.length) = .ok d' ∧ Reading (us ++ rest) [] d') ∨
      ¬ Distinct (us ++ rest) ∧
        ∃ cause, d.addUnits (rest.zipIdx us.length) = .error (.internal cause) ∧ ∀ c, cause ≠ .noSite c := by
  induction rest generalizing us d with
  | nil => exact .inl ⟨d, rfl, by rwa [List.append_nil]⟩
  | cons u rest ih =>
    rw [List.zipIdx_cons, Draft.addUnits, List.foldlM_cons, List.append_cons]
    rcases h.addUnit u with ⟨d', hd, h'⟩ | ⟨hn, cause, hd, hc⟩
    · rw [hd]
      have hrun := ih h'
      rwa [List.length_append] at hrun
    · exact .inr ⟨fun hdis => hn hdis.left, cause, by rw [hd]; rfl, hc⟩

end Reading

end Reading

section Sites

def withSites (g : Graph) (bs : List (String × List SymbolId)) (capabilities : Table SiteId) : Graph :=
  { g with
    sites := bs.map fun b => ⟨b.1, b.2⟩
    dispatchEdges := bs.map fun b => b.2.map .symbol
    capabilities }

lemma addSite_withSites (g : Graph) (bs : List (String × List SymbolId)) (t : Table SiteId)
    (b : String × List SymbolId) : (g.withSites bs t).addSite bs.length ⟨b.1, b.2⟩ =
      g.withSites (bs ++ [b]) (t.insert b.1 bs.length) := by
  simp [addSite, withSites]

lemma find?_insert_eq_findIdx? {bs : List (String × List SymbolId)} {t : Table SiteId}
    (ht : ∀ c, t.find? c = bs.findIdx? (·.1 = c)) {b : String × List SymbolId} (hb : ∀ a ∈ bs, a.1 ≠ b.1) (c : String) :
    (t.insert b.1 bs.length).find? c = (bs ++ [b]).findIdx? (·.1 = c) := by
  rw [Table.find?_insert, ht, List.findIdx?_append]
  by_cases hc : c = b.1
  · have hnone : bs.findIdx? (·.1 = c) = none := by
      rw [List.findIdx?_eq_none_iff]
      exact fun a ha => decide_eq_false (hc ▸ hb a ha)
    rw [hnone]
    simp [hc]
  · simp [hc, Ne.symm hc]

lemma exists_addSites (g : Graph) (bs rest : List (String × List SymbolId))
    (hasc : (bs ++ rest).Pairwise fun a b => a.1 < b.1) {t : Table SiteId}
    (ht : ∀ c, t.find? c = bs.findIdx? (·.1 = c)) :
    ∃ t', (∀ c, t'.find? c = (bs ++ rest).findIdx? (·.1 = c)) ∧
      (rest.zipIdx bs.length).foldl (fun g x => g.addSite x.2 ⟨x.1.1, x.1.2⟩) (g.withSites bs t) =
        g.withSites (bs ++ rest) t' := by
  induction rest generalizing bs t with
  | nil => exact ⟨t, by simpa using ht, by simp⟩
  | cons b rest ih =>
    have hb : ∀ a ∈ bs, a.1 ≠ b.1 := fun a ha =>
      String.ne_of_lt ((List.pairwise_append.mp hasc).2.2 a ha b List.mem_cons_self)
    rw [List.append_cons] at hasc ⊢
    have hrun := ih _ hasc (find?_insert_eq_findIdx? ht hb)
    rwa [List.length_append, ← addSite_withSites] at hrun

end Sites

structure Filled (units : List CompiledUnit) (g : Graph) : Prop extends Indexed g where
  modules : g.modules = modulesOf 0 units
  symbols : g.symbols = symbolsOf units
  sites : g.sites = sitesOf units

section Filled

variable {units : List CompiledUnit} {d : Draft}

lemma Reading.map_entries (h : Reading units [] d) :
    (d.implementers.entries.map fun b => (⟨b.1, b.2⟩ : DispatchSite)) = sitesOf units := by
  have hkeys : d.implementers.entries.map (·.1) = capabilitiesOf units := by
    refine (List.pairwise_map.mpr d.implementers.ascending).eq_of_mem_iff (Ordered.pairwise_ofList _) fun c => ?_
    rw [Table.mem_keys_iff, h.known, List.append_nil]
    exact mem_capabilitiesOf.symm
  rw [sitesOf, ← hkeys, List.map_map]
  refine List.map_congr_left fun b hb => ?_
  have himpl := h.implementers b.1
  rw [Table.mem_entries_iff.mp hb, List.append_nil, Option.getD_some] at himpl
  exact congrArg (DispatchSite.mk b.1) himpl

lemma Reading.own?_eq (h : Reading units [] d) (owner : ModuleId) (x : String) :
    d.graph.own? owner x = ownedBy? d.graph.symbols owner x := by
  rcases Nat.lt_or_ge owner units.length with hlt | hge
  · exact h.own hlt x
  · have hnone : ownedBy? d.graph.symbols owner x = none := by
      rw [h.symbols, List.map_nil, List.append_nil, ownedBy?, List.findIdx?_eq_none_iff]
      intro s hs
      rw [decide_eq_false (Nat.ne_of_lt (Nat.lt_of_lt_of_le (owner_lt_of_mem_symbolsOf hs) hge)), Bool.false_and]
    rw [hnone, own?, List.getElem?_eq_none (h.locals.symm ▸ hge)]
    rfl

lemma Reading.filled (h : Reading units [] d) : Filled units d.addSites := by
  obtain ⟨hsites, hedges, hcapabilities⟩ := h.sites
  have hstart : d.graph.withSites [] .empty = d.graph := by
    rw [withSites, ← hcapabilities, List.map_nil, List.map_nil, ← hsites, ← hedges]
  obtain ⟨t, ht, heq⟩ := exists_addSites d.graph [] _ d.implementers.ascending (t := .empty) fun _ => rfl
  rw [hstart, List.nil_append] at heq
  have heq : d.addSites = d.graph.withSites d.implementers.entries t := heq
  rw [heq]
  exact {
    external := h.catalogued.external
    ascending := h.catalogued.ascending
    duplicates := h.catalogued.duplicates
    own := h.own?_eq
    site := fun c => by
      rw [siteId?, withSites, List.findIdx?_map]
      exact ht c
    dispatch := fun j => by
      simp only [successors, withSites, List.getD_eq_getElem?_getD, List.getElem?_map, Option.map_map]
      rfl
    modules := h.modules
    symbols := h.symbols.trans (List.append_nil _)
    sites := h.map_entries }

lemma ofUnits_cases (units : List CompiledUnit) :
    (Distinct units ∧ ∃ g, ofUnits units = .ok g ∧ Filled units g) ∨
      ¬ Distinct units ∧ ∃ cause, ofUnits units = .error (.internal cause) ∧ ∀ c, cause ≠ .noSite c := by
  rw [ofUnits]
  rcases Reading.start.addUnits units with ⟨d, hd, h⟩ | ⟨hn, cause, hd, hc⟩
  · exact .inl ⟨h.distinct, d.addSites, congrArg (Draft.addSites <$> ·) hd, h.filled⟩
  · exact .inr ⟨hn, cause, congrArg (Draft.addSites <$> ·) hd, hc⟩

lemma exists_ofUnits_iff : (∃ g, ofUnits units = .ok g) ↔ Distinct units := by
  rcases ofUnits_cases units with ⟨hd, g, hg, _⟩ | ⟨hd, cause, hg, _⟩ <;> simp [hd, hg]

lemma filled_of_ofUnits {g : Graph} (h : ofUnits units = .ok g) : Filled units g := by
  rcases ofUnits_cases units with ⟨_, g', hg, ht⟩ | ⟨_, cause, hg, _⟩
  · exact Except.ok.inj (hg.symm.trans h) ▸ ht
  · cases hg.symm.trans h

end Filled

end Graph

end DeviceLink
