import DeviceLink.Proofs.Image
import DeviceLink.Proofs.Workers

/-! Linking fails only for a duplicate or a dangling reference. In a linked module everything is defined
once, and what a definition refers to is found under its output name. -/

namespace DeviceLink.Linked

open Ir Fallible

def defined (m : Module) : List String := m.functions.map (·.name) ++ m.globals.map (·.name)

structure Closed (m : Module) : Prop where
  nodup : (defined m).Nodup
  function {f : Function} (hf : f ∈ m.functions) {v : Operand} (hv : v ∈ f.code.flatMap Instr.operands)
    {x : String} (hx : v.symbol? = some x) : x ∈ defined m
  global {d : Global} (hd : d ∈ m.globals) {x : String} (hx : d.symbol? = some x) : x ∈ defined m
  table {t : String × List String} (ht : t ∈ m.dispatchTables.entries) {x : String} (hx : x ∈ t.2) :
    x ∈ defined m

lemma missing_eq_none_iff {names known : List String} {referrer : String} :
    (names.find? (· ∉ known)).map (Fault.unresolved referrer) = none ↔ ∀ x ∈ names, x ∈ known := by
  simp

lemma fault?_eq_none_iff {m : Module} :
    fault? m = none ↔ (defined m).Nodup ∧ (∀ f ∈ m.functions, ∀ x ∈ f.symbols, x ∈ defined m) ∧
      (∀ d ∈ m.globals, ∀ x ∈ d.symbol?.toList, x ∈ defined m) ∧
      ∀ t ∈ m.dispatchTables.entries, ∀ x ∈ t.2, x ∈ defined m := by
  have hn : Names.repeated? [] (defined m) = none ↔ (defined m).Nodup := by
    simp [Names.repeated?_eq_none_iff]
  simp only [fault?, Option.orElse_eq_orElse, Option.orElse_eq_or, Option.or_eq_none_iff,
    List.findSome?_eq_none_iff, missing_eq_none_iff]
  rw [Option.map_eq_none_iff]
  exact and_congr_left' hn

lemma Closed.fault?_eq_none {m : Module} (h : Closed m) : fault? m = none := by
  refine fault?_eq_none_iff.mpr ⟨h.nodup, fun f hf x hx => ?_, fun d hd x hx => ?_, fun t ht x => h.table ht⟩
  · obtain ⟨v, hv, hx⟩ := List.mem_filterMap.mp (Ordered.mem_of_mem_ofList hx)
    exact h.function hf hv hx
  · exact h.global hd (Option.mem_toList.mp hx)

namespace Naming

def definitions (n : Naming) : Except Fault (List Definition) := (n.reached.marks.symbols n.graph).mapM n.emit

def tableOf (n : Naming) (site : DispatchSite) : String × List String :=
  (site.capability, site.implementations.map n.name)

def tables (n : Naming) : List (String × List String) :=
  ((n.reached.marks.sites n.graph).filterMap (n.graph.sites[·]?)).map n.tableOf

end Naming

lemma find?_key_eq_some {α : Type} {key : α → String} {xs : List α} (hn : (xs.map key).Nodup) {x : α}
    (hx : x ∈ xs) : xs.find? (fun y => key y = key x) = some x := by
  cases hf : xs.find? (fun y => key y = key x) with
  | none => simpa using List.find?_eq_none.mp hf x hx
  | some y =>
    have hk : key y = key x := by simpa using List.find?_some hf
    rw [List.inj_on_of_nodup_map hn (List.mem_of_find?_eq_some hf) hx hk]

section Assemble

variable {name : String} {ds : List Definition} {tables : List (String × List String)} {d : Definition}

lemma function?_eq_some_iff {f : Function} : d.function? = some f ↔ d = .function f := by
  cases d <;> simp [Definition.function?]

lemma global?_eq_some_iff {f : Global} : d.global? = some f ↔ d = .global f := by
  cases d <;> simp [Definition.global?]

lemma mem_filterMap_function? {f : Function} : f ∈ ds.filterMap Definition.function? ↔ .function f ∈ ds := by
  simp [function?_eq_some_iff]

lemma mem_filterMap_global? {f : Global} : f ∈ ds.filterMap Definition.global? ↔ .global f ∈ ds := by
  simp [global?_eq_some_iff]

lemma defined_perm (name : String) (ds : List Definition) (tables : List (String × List String)) :
    (defined (assemble name ds tables)).Perm (ds.map Definition.name) := by
  simp only [defined, assemble]
  induction ds with
  | nil => exact .nil
  | cons d rest ih =>
    cases d with
    | function f => exact ih.cons _
    | global f => exact List.perm_middle.trans (ih.cons _)

lemma lookup_assemble (hn : (ds.map Definition.name).Nodup) (hd : d ∈ ds) :
    (assemble name ds tables).function? d.name = d.function? ∧
      (assemble name ds tables).global? d.name = d.global? := by
  have hdef := (defined_perm name ds tables).nodup_iff.mpr hn
  obtain ⟨hf, hg, hdis⟩ := List.nodup_append'.mp hdef
  cases d with
  | function f =>
    have hm : f ∈ (assemble name ds tables).functions := mem_filterMap_function?.mpr hd
    refine ⟨find?_key_eq_some hf hm, List.find?_eq_none.mpr fun e he hname => ?_⟩
    have hname : e.name = f.name := of_decide_eq_true hname
    exact hdis (List.mem_map_of_mem hm) (hname ▸ List.mem_map_of_mem he)
  | global f =>
    have hm : f ∈ (assemble name ds tables).globals := mem_filterMap_global?.mpr hd
    refine ⟨List.find?_eq_none.mpr fun e he hname => ?_, find?_key_eq_some hg hm⟩
    have hname : e.name = f.name := of_decide_eq_true hname
    exact hdis (List.mem_map_of_mem he) (hname ▸ List.mem_map_of_mem hm)

end Assemble

namespace Naming

variable {units : List CompiledUnit} {p : Program} {roots : List SymbolId} {r : Reached} {id : SymbolId}
variable {ds : List Definition} {d : Definition}

lemma exists_body (hc : p.Covers roots r) (hi : id ∈ r.marks.symbols p.graph) :
    ∃ s b, p.graph.symbols[id]? = some s ∧ r.body? id = some b := by
  obtain ⟨hlt, hr⟩ := mem_symbols.mp hi
  obtain ⟨b, hb⟩ := Option.isSome_iff_exists.mp (hc.isSome_body?_iff.mpr hr)
  exact ⟨_, b, List.getElem?_eq_getElem hlt, hb⟩

section Built

variable (hg : Graph.build units = .ok p.graph) (hc : p.Covers roots r)

include hg hc

lemma emits_of_emit (hi : id ∈ r.marks.symbols p.graph) (h : (ofReached p.graph r).emit id = .ok d) :
    (ofReached p.graph r).Emits id d := by
  obtain ⟨s, b, hs, hb⟩ := exists_body hc hi
  exact ⟨s, b, hs, hb, ((emit_eq_ok_iff (Graph.indexed_of_build hg) hi hs hb).mp h).2⟩

lemma forall₂_emits (h : (ofReached p.graph r).definitions = .ok ds) :
    List.Forall₂ (ofReached p.graph r).Emits (r.marks.symbols p.graph) ds := by
  have hf := (List.forall₂_and_left _ _).mpr ⟨fun _ hi => hi, mapM_eq_ok_iff.mp h⟩
  exact hf.imp fun id d hd => emits_of_emit hg hc hd.1 hd.2

lemma exists_emits_of_mem (h : (ofReached p.graph r).definitions = .ok ds) (hd : d ∈ ds) :
    ∃ id, (ofReached p.graph r).Emits id d := by
  obtain ⟨id, hi, he⟩ := exists_of_mem_mapM h hd
  exact ⟨id, emits_of_emit hg hc hi he⟩

lemma exists_mem_emits (h : (ofReached p.graph r).definitions = .ok ds) (hi : id ∈ r.marks.symbols p.graph) :
    ∃ d ∈ ds, (ofReached p.graph r).Emits id d := by
  obtain ⟨d, hd, he⟩ := exists_mem_mapM h hi
  exact ⟨d, hd, emits_of_emit hg hc hi he⟩

lemma map_name_eq (h : (ofReached p.graph r).definitions = .ok ds) :
    ds.map Definition.name = (r.marks.symbols p.graph).map (ofReached p.graph r).name := by
  refine Eq.symm ?_
  rw [← List.forall₂_eq_eq_eq, List.forall₂_map_left_iff, List.forall₂_map_right_iff]
  exact (forall₂_emits hg hc h).imp fun id d hd => (name_of_emits hd).symm

lemma map_name_nodup (hd : p.graph.duplicateExternals = []) (h : (ofReached p.graph r).definitions = .ok ds) :
    (ds.map Definition.name).Nodup := by
  rw [map_name_eq hg hc h]
  have hcat := (Graph.indexed_of_build hg).toCatalogued
  exact (symbols_nodup r p.graph).map_on fun i hi j hj => name_injective hcat hd hi hj

lemma dangles_of_definitions_eq_error {e : Fault} (h : (ofReached p.graph r).definitions = .error e) :
    Dangles p.graph r ∧ ∃ referrer x, e = .unresolved referrer x := by
  obtain ⟨id, hi, he⟩ := exists_of_mapM_eq_error h
  obtain ⟨s, b, hs, hb⟩ := exists_body hc hi
  exact dangles_of_emit_eq_error (Graph.indexed_of_build hg) hi hs hb he

end Built

section Rooted

variable (hg : Graph.build units = .ok p.graph) (hr : ∀ id ∈ roots, id < p.graph.symbols.length)
  (hc : p.Covers roots r)

include hg hr hc

lemma mem_symbols_of_reaches (h : p.graph.Reaches roots (.symbol id)) : id ∈ r.marks.symbols p.graph :=
  mem_symbols.mpr ⟨Graph.symbol_mem_nodes.mp ((Graph.build_bounded hg).reaches hr h), hc.marks.mpr h⟩

lemma not_dangles_of_definitions (h : (ofReached p.graph r).definitions = .ok ds) :
    ¬ Dangles p.graph r := by
  rintro ⟨id, s, b, v, x, hs, hb, hv, hx, hn⟩
  have hi := mem_symbols_of_reaches hg hr hc (hc.bodies.mp hb).1
  obtain ⟨d, _, he⟩ := exists_mem_mapM h hi
  exact hn (((emit_eq_ok_iff (Graph.indexed_of_build hg) hi hs hb).mp he).1 v hv x hx)

lemma implementations_reached {site : DispatchSite}
    (hs : site ∈ (r.marks.sites p.graph).filterMap (p.graph.sites[·]?)) (hi : id ∈ site.implementations) :
    id ∈ r.marks.symbols p.graph := by
  obtain ⟨k, hk, hs⟩ := List.mem_filterMap.mp hs
  have hk' : p.graph.Reaches roots (.dispatch k) := hc.marks.mp (List.mem_filter.mp hk).2
  refine mem_symbols_of_reaches hg hr hc (.step hk' ?_)
  rw [(Graph.indexed_of_build hg).successors_dispatch hs]
  exact List.mem_map_of_mem hi

lemma mapM_dispatchTable :
    ((r.marks.sites p.graph).filterMap (p.graph.sites[·]?)).mapM (ofReached p.graph r).dispatchTable =
      .ok (ofReached p.graph r).tables := by
  apply mapM_eq_ok_map
  intro site hs
  rw [dispatchTable, mapM_eq_ok_map fun id hi => outputName_eq_ok (implementations_reached hg hr hc hs hi)]
  rfl

end Rooted

end Naming

section Merge

variable {units : List CompiledUnit} {p : Program} {roots : List SymbolId} {r : Reached} {name : String} {m : Module}
variable (hg : Graph.build units = .ok p.graph) (hr : ∀ id ∈ roots, id < p.graph.symbols.length)
  (hc : p.Covers roots r)

include hg hr hc

lemma merge_eq (name : String) :
    merge p.graph r name = (fun ds => assemble name ds (Naming.ofReached p.graph r).tables) <$>
      (Naming.ofReached p.graph r).definitions := by
  simp only [merge, Naming.mapM_dispatchTable hg hr hc]
  change ((Naming.ofReached p.graph r).definitions >>= _) = _
  cases (Naming.ofReached p.graph r).definitions <;> rfl

lemma merge_eq_ok_iff :
    merge p.graph r name = .ok m ↔
      ∃ ds, (Naming.ofReached p.graph r).definitions = .ok ds ∧
        assemble name ds (Naming.ofReached p.graph r).tables = m := by
  rw [merge_eq hg hr hc]
  cases (Naming.ofReached p.graph r).definitions <;> simp

lemma closed_of_merge (hd : p.graph.duplicateExternals = []) (hm : merge p.graph r name = .ok m) :
    Closed m := by
  obtain ⟨ds, h, rfl⟩ := (merge_eq_ok_iff hg hr hc).mp hm
  -- what is defined are the output names of the reached symbols
  have hperm := defined_perm name ds (Naming.ofReached p.graph r).tables
  have hname {t : SymbolId} (ht : t ∈ r.marks.symbols p.graph) :
      (Naming.ofReached p.graph r).name t ∈ defined (assemble name ds (Naming.ofReached p.graph r).tables) := by
    rw [hperm.mem_iff, Naming.map_name_eq hg hc h]
    exact List.mem_map_of_mem ht
  have href {d : Definition} (hd : d ∈ ds) {v : Operand} (hv : v ∈ d.operands) {x : String}
      (hx : v.symbol? = some x) : x ∈ defined (assemble name ds (Naming.ofReached p.graph r).tables) := by
    obtain ⟨id, he⟩ := Naming.exists_emits_of_mem hg hc h hd
    have hn := Naming.not_dangles_of_definitions hg hr hc h
    obtain ⟨t, ht, rfl⟩ := Naming.exists_name_of_emits (Graph.indexed_of_build hg) hn he hv hx
    exact hname ht
  refine ⟨hperm.nodup_iff.mpr (Naming.map_name_nodup hg hc hd h), ?_, ?_, ?_⟩
  · intro f hf v hv x hx
    exact href (mem_filterMap_function?.mp hf) hv hx
  · intro d hd x hx
    obtain ⟨v, hv, hx⟩ := Option.bind_eq_some_iff.mp hx
    exact href (mem_filterMap_global?.mp hd) (Option.mem_toList.mpr hv) hx
  · intro t ht x hx
    obtain ⟨site, hs, rfl⟩ := List.mem_map.mp (Table.mem_of_mem_ofList ht)
    obtain ⟨id, hi, rfl⟩ := List.mem_map.mp hx
    exact hname (Naming.implementations_reached hg hr hc hs hi)

lemma link_eq_map_merge (hd : p.graph.duplicateExternals = []) (options : Options) :
    link p.graph r options = ofModule options.segments <$> merge p.graph r options.outputName := by
  have hx : checkExternals p.graph = .ok () := by rw [checkExternals, hd]
  cases hm : merge p.graph r options.outputName with
  | error e =>
    rw [link, hx, hm]
    rfl
  | ok m =>
    have hf : fault? m = none := (closed_of_merge hg hr hc hd hm).fault?_eq_none
    simp only [link, hx, hm, bind, Except.bind, hf]
    rfl

end Merge

lemma link_eq_duplicateExternal {g : Graph} (h : g.duplicateExternals ≠ []) (r : Reached) (options : Options) :
    ∃ x first second, link g r options = .error (.duplicateExternal x first second) := by
  obtain ⟨⟨first, second⟩, rest, hd⟩ := List.exists_cons_of_ne_nil h
  exact ⟨_, _, _, by rw [link, checkExternals, hd]; rfl⟩

lemma duplicateExternals_eq_nil_of_link {g : Graph} {r : Reached} {options : Options} {l : Linked}
    (h : link g r options = .ok l) : g.duplicateExternals = [] := by
  by_contra hd
  obtain ⟨_, _, _, he⟩ := link_eq_duplicateExternal hd r options
  cases he.symm.trans h

lemma exists_definitions_of_link {units : List CompiledUnit} {p : Program} {roots : List SymbolId} {r : Reached}
    {options : Options} {l : Linked} (hg : Graph.build units = .ok p.graph)
    (hr : ∀ id ∈ roots, id < p.graph.symbols.length) (hc : p.Covers roots r) (hl : link p.graph r options = .ok l) :
    ∃ ds, (Naming.ofReached p.graph r).definitions = .ok ds ∧
      l.code = assemble options.outputName ds (Naming.ofReached p.graph r).tables := by
  rw [link_eq_map_merge hg hr hc (duplicateExternals_eq_nil_of_link hl)] at hl
  cases hm : merge p.graph r options.outputName with
  | error e => simp [hm] at hl
  | ok m =>
    obtain ⟨ds, h, rfl⟩ := (merge_eq_ok_iff hg hr hc).mp hm
    rw [hm] at hl
    exact ⟨ds, h, congrArg Linked.code (Except.ok.inj hl).symm⟩

def reachedOf (g : Graph) (r : Reached) (kind : SymbolKind) : List SymbolId :=
  g.symbolIds.filter fun id => r.isReached id && g.symbols[id]?.any (·.kind = kind)

lemma reachedOf_eq (g : Graph) (r : Reached) (kind : SymbolKind) :
    reachedOf g r kind = (r.marks.symbols g).filter fun id => g.symbols[id]?.any (·.kind = kind) := by
  simp only [reachedOf, Marks.symbols, List.filter_filter]
  exact List.filter_congr fun _ _ => Bool.and_comm _ _

lemma forall₂_filterMap {α β γ : Type} {R : α → β → Prop} {q : α → Bool} {f : β → Option γ} {xs : List α}
    {ys : List β} (h : List.Forall₂ R xs ys) (hq : ∀ x y, R x y → q x = (f y).isSome) :
    List.Forall₂ (fun x z => ∃ y, R x y ∧ f y = some z) (xs.filter q) (ys.filterMap f) := by
  induction h with
  | nil => exact .nil
  | @cons x y xs ys hxy _ ih =>
    have hx := hq x y hxy
    cases hf : f y with
    | none =>
      rw [List.filterMap_cons_none hf, List.filter_cons_of_neg (by simp [hx, hf])]
      exact ih
    | some z =>
      rw [List.filterMap_cons_some hf, List.filter_cons_of_pos (by simp [hx, hf])]
      exact .cons ⟨y, hxy, hf⟩ ih

section Link

variable {units : List CompiledUnit} {p : Program} {roots : List SymbolId} {r : Reached} {id : SymbolId}
  {d : Definition}

lemma kind_of_emits (hg : Graph.build units = .ok p.graph) (hc : p.Covers roots r)
    (h : (Naming.ofReached p.graph r).Emits id d) :
    p.graph.symbols[id]?.any (·.kind = .function) = d.function?.isSome ∧
      p.graph.symbols[id]?.any (·.kind = .data) = d.global?.isSome := by
  obtain ⟨s, b, hs, hb, rfl⟩ := h
  obtain ⟨s', m, hs', _, hd⟩ := (Program.outcome_eq_ok_iff (Graph.build_bounded hg)).mp (hc.bodies.mp hb).2
  obtain rfl : s' = s := Option.some.inj (hs'.symm.trans hs)
  have hs : p.graph.symbols[id]? = some s' := hs
  rw [hs]
  cases hd with
  | function hk => simp [hk, Naming.image, Definition.function?, Definition.global?]
  | global hk => simp [hk, Naming.image, Definition.function?, Definition.global?]

section Rooted

variable (hg : Graph.build units = .ok p.graph) (hr : ∀ id ∈ roots, id < p.graph.symbols.length)
  (hc : p.Covers roots r)

include hg hr hc

lemma link_eq_unresolved (hd : p.graph.duplicateExternals = []) (hn : Dangles p.graph r) (options : Options) :
    ∃ referrer x, link p.graph r options = .error (.unresolved referrer x) := by
  rw [link_eq_map_merge hg hr hc hd, merge_eq hg hr hc]
  cases h : (Naming.ofReached p.graph r).definitions with
  | ok ds => exact absurd hn (Naming.not_dangles_of_definitions hg hr hc h)
  | error e =>
    obtain ⟨referrer, x, rfl⟩ := (Naming.dangles_of_definitions_eq_error hg hc h).2
    exact ⟨referrer, x, rfl⟩

lemma link_eq_ok (hd : p.graph.duplicateExternals = []) (hn : ¬ Dangles p.graph r) (options : Options) :
    ∃ l, link p.graph r options = .ok l := by
  rw [link_eq_map_merge hg hr hc hd, merge_eq hg hr hc]
  cases h : (Naming.ofReached p.graph r).definitions with
  | ok ds => exact ⟨_, rfl⟩
  | error e => exact absurd (Naming.dangles_of_definitions_eq_error hg hc h).1 hn

end Rooted

theorem link_preserves_references {options : Options} {l : Linked}
    (hg : Graph.build units = .ok p.graph) (hr : ∀ id ∈ roots, id < p.graph.symbols.length)
    (hf : p.Finds roots r) (hl : link p.graph r options = .ok l) :
    let n := Naming.ofReached p.graph r
    List.Forall₂ (fun id f => n.Emits id (.function f)) (reachedOf p.graph r .function) l.code.functions ∧
    List.Forall₂ (fun id d => n.Emits id (.global d)) (reachedOf p.graph r .data) l.code.globals ∧
    (∀ id d, n.Emits id d → ∃ s b, p.graph.symbols[id]? = some s ∧ r.body? id = some b ∧ p.Defines id b ∧
      Copies (n.rename s.owner) (n.name id) (n.linkage s) b d ∧ d.operands = b.operands.map (n.rename s.owner) ∧
      ∀ v ∈ b.operands, n.Renames s.owner v (n.rename s.owner v)) ∧
    (∀ t, r.isReached t = true → ∃ d, n.Emits t d ∧ l.code.function? (n.name t) = d.function? ∧
      l.code.global? (n.name t) = d.global?) := by
  intro n
  have hb := Graph.build_bounded hg
  have hc := hf.covers hb hr
  obtain ⟨ds, h, hcode⟩ := exists_definitions_of_link hg hr hc hl
  have hn := Naming.map_name_nodup hg hc (duplicateExternals_eq_nil_of_link hl) h
  have he := Naming.forall₂_emits hg hc h
  rw [hcode, reachedOf_eq, reachedOf_eq]
  refine ⟨?_, ?_, ?_, ?_⟩
  · refine (forall₂_filterMap he fun _ _ h => (kind_of_emits hg hc h).1).imp ?_
    rintro id f ⟨d, hd, hf⟩
    exact function?_eq_some_iff.mp hf ▸ hd
  · refine (forall₂_filterMap he fun _ _ h => (kind_of_emits hg hc h).2).imp ?_
    rintro id f ⟨d, hd, hf⟩
    exact global?_eq_some_iff.mp hf ▸ hd
  · rintro id d ⟨s, b, hs, hbody, rfl⟩
    have hdef : p.Defines id b := (Program.outcome_eq_ok_iff hb).mp (hc.bodies.mp hbody).2
    refine ⟨s, b, hs, hbody, hdef, n.copies_image id s b, n.operands_image id s b, fun v hv => ?_⟩
    apply Naming.renames_rename
    intro x hx
    by_contra hno
    exact Naming.not_dangles_of_definitions hg hr hc h ⟨id, s, b, v, x, hs, hbody, hv, hx, hno⟩
  · intro t ht
    obtain ⟨d, hd, he⟩ :=
      Naming.exists_mem_emits hg hc h (Naming.mem_symbols_of_reaches hg hr hc (hc.marks.mp ht))
    rw [← Naming.name_of_emits he]
    exact ⟨d, he, lookup_assemble hn hd⟩

def appCode : Module where
  name := "app"
  functions := [
    { name := "main", result := .void, visibility := .external, isKernel := true
      blocks := [⟨0, [.load 0 (.global "table") .i64, .call none (.function "step") [] .void,
        .dispatch none "paint" .undef [] .void, .ret none]⟩] },
    { name := "step", result := .void, blocks := [⟨0, [.ret none]⟩] }]
  globals := [{ name := "table", type := .i64, space := .global, initializer := some (.function "api") }]

def libCode : Module where
  name := "lib"
  functions := [
    { name := "api", result := .void, visibility := .external, implements := ["paint"]
      blocks := [⟨0, [.call none (.function "step") [] .void, .ret none]⟩] },
    { name := "step", result := .void, blocks := [⟨0, [.ret none]⟩] }]

def twins : Program where
  graph := (Graph.build [.describe appCode .program, .describe libCode .library]).toOption.getD {}
  source := .ofBlobs [("app", Container.encode .current appCode), ("lib", Container.encode .current libCode)]

lemma twins_build :
    Graph.build [.describe appCode .program, .describe libCode .library] = .ok twins.graph := rfl

lemma twins_roots : ∀ id ∈ [0], id < twins.graph.symbols.length := by decide

lemma twins_reaches : ∀ id < 5, twins.graph.Reaches [0] (.symbol id) := by
  have h0 : twins.graph.Reaches [0] (.symbol 0) := .root (by decide)
  have h3 : twins.graph.Reaches [0] (.symbol 3) := .step (.step h0 (m := .dispatch 0) (by decide)) (by decide)
  intro id hid
  match id, hid with
  | 0, _ => exact h0
  | 1, _ => exact .step h0 (by decide)
  | 2, _ => exact .step h0 (by decide)
  | 3, _ => exact h3
  | 4, _ => exact .step h3 (by decide)

lemma twins_outcome : ∀ id < 5, ∃ b, twins.outcome id = .ok b ∧ ∀ s, twins.graph.symbols[id]? = some s →
    ∀ v ∈ b.operands, ∀ x, v.symbol? = some x → (twins.graph.resolve? s.owner x).isSome = true := by
  have h : ∀ id < 5, ((twins.outcome id).toOption.any fun b => twins.graph.symbols[id]?.all fun s =>
      b.operands.all fun v => v.symbol?.all fun x => (twins.graph.resolve? s.owner x).isSome) = true := by
    decide +kernel
  intro id hid
  obtain ⟨b, ho, hb⟩ := exists_of_any (h id hid)
  refine ⟨b, ho, fun s hs v hv x hx => ?_⟩
  simp only [hs, Option.all_some, List.all_eq_true] at hb
  simpa [hx] using hb v hv

lemma twins_finds : ∃ r, twins.Finds [0] r := by
  have hi := Program.walk_inv (Graph.build_bounded twins_build) twins_roots
  suffices hc : (twins.walk [0]).cancelled = false by
    have hx : twins.Explores [0] ((twins.walk [0]).finish [0], (twins.walk [0]).loader) := .alone
    rw [hi.finish_eq_ok_iff.mpr ⟨hc, rfl⟩] at hx
    exact ⟨_, _, hx⟩
  refine hi.cancelled_eq_false_iff.mpr fun id hid => ?_
  have hlt : id < 5 :=
    Graph.symbol_mem_nodes.mp ((Graph.build_bounded twins_build).reaches twins_roots hid)
  exact (twins_outcome id hlt).imp fun _ h => h.1

lemma twins_not_dangles_of_mem {roots : List SymbolId} (h0 : 0 ∈ roots) (hc : twins.Covers roots r) :
    ¬ Dangles twins.graph r := by
  rintro ⟨id, s, b, v, x, hs, hb, hv, hx, hn⟩
  obtain ⟨c, ho, hr⟩ := twins_outcome id (List.getElem?_eq_some_iff.mp hs).1
  obtain rfl : c = b := Except.ok.inj (ho.symm.trans (hc.bodies.mp hb).2)
  obtain ⟨t, ht⟩ := Option.isSome_iff_exists.mp (hr s hs v hv x hx)
  have hreach := (twins_reaches t ((Graph.indexed_of_build twins_build).lt_of_resolve? ht)).mono
    (List.cons_subset.mpr ⟨h0, List.nil_subset _⟩)
  exact hn ⟨t, ht, hc.marks.mpr hreach⟩

lemma twins_not_dangles (hc : twins.Covers [0] r) : ¬ Dangles twins.graph r :=
  twins_not_dangles_of_mem List.mem_cons_self hc

lemma twins_symbols (hc : twins.Covers [0] r) : r.marks.symbols twins.graph = [0, 1, 2, 3, 4] :=
  List.filter_eq_self.mpr fun id hid => hc.marks.mpr (twins_reaches id (List.mem_range.mp hid))

theorem link_preserves_references_twins :
    Graph.build [.describe appCode .program, .describe libCode .library] = .ok twins.graph ∧
      (∀ id ∈ [0], id < twins.graph.symbols.length) ∧
      ∃ r l, twins.Finds [0] r ∧ link twins.graph r {} = .ok l ∧
        l.code.functions.length = 4 ∧ l.code.globals.length = 1 ∧
        (∃ d, (Naming.ofReached twins.graph r).Emits 1 d ∧ l.code.function? "app__step" = d.function?) ∧
        ∃ d, (Naming.ofReached twins.graph r).Emits 4 d ∧ l.code.function? "lib__step" = d.function? := by
  have hb := Graph.build_bounded twins_build
  obtain ⟨r, hf⟩ := twins_finds
  have hc := hf.covers hb twins_roots
  obtain ⟨l, hl⟩ := link_eq_ok twins_build twins_roots hc (by decide) (twins_not_dangles hc) {}
  obtain ⟨hfun, hglob, _, hfind⟩ := link_preserves_references twins_build twins_roots hf hl
  have hname : (Naming.ofReached twins.graph r).names = assignNames twins.graph [0, 1, 2, 3, 4] := by
    rw [← twins_symbols hc]
    rfl
  have hfind (id : SymbolId) (hid : id < 5) := hfind id (hc.marks.mpr (twins_reaches id hid))
  have h1 : (Naming.ofReached twins.graph r).name 1 = "app__step" := by
    rw [Naming.name, hname]
    decide +kernel
  have h4 : (Naming.ofReached twins.graph r).name 4 = "lib__step" := by
    rw [Naming.name, hname]
    decide +kernel
  refine ⟨twins_build, twins_roots, r, l, hf, hl, ?_, ?_, ?_, ?_⟩
  · rw [← hfun.length_eq, reachedOf_eq, twins_symbols hc]
    decide
  · rw [← hglob.length_eq, reachedOf_eq, twins_symbols hc]
    decide
  · obtain ⟨d, hd, hl, _⟩ := hfind 1 (by decide)
    exact ⟨d, hd, h1 ▸ hl⟩
  · obtain ⟨d, hd, hl, _⟩ := hfind 4 (by decide)
    exact ⟨d, hd, h4 ▸ hl⟩

theorem link_outcome (hg : Graph.build units = .ok p.graph)
    (hr : ∀ id ∈ roots, id < p.graph.symbols.length) (hf : p.Finds roots r) (options : Options) :
    ((∃ x first second, link p.graph r options = .error (.duplicateExternal x first second)) ↔
      p.graph.duplicateExternals ≠ []) ∧
    ((∃ referrer x, link p.graph r options = .error (.unresolved referrer x)) ↔
      p.graph.duplicateExternals = [] ∧ Dangles p.graph r) ∧
    ((∃ l, link p.graph r options = .ok l) ↔
      p.graph.duplicateExternals = [] ∧ ¬ Dangles p.graph r) ∧
    (∀ cause, link p.graph r options ≠ .error (.internal cause)) ∧
    (p.graph.duplicateExternals = [] → ∀ m, merge p.graph r options.outputName = .ok m →
      Closed m ∧ fault? m = none) := by
  have hb := Graph.build_bounded hg
  have hc := hf.covers hb hr
  by_cases hd : p.graph.duplicateExternals = []
  · have hm : ∀ m, merge p.graph r options.outputName = .ok m → Closed m ∧ fault? m = none := by
      intro m hm
      have h := closed_of_merge hg hr hc hd hm
      exact ⟨h, h.fault?_eq_none⟩
    by_cases hn : Dangles p.graph r
    · obtain ⟨referrer, x, hl⟩ := link_eq_unresolved hg hr hc hd hn options
      simpa [hl, hd, hn] using hm
    · obtain ⟨l, hl⟩ := link_eq_ok hg hr hc hd hn options
      simpa [hl, hd, hn] using hm
  · obtain ⟨x, first, second, hl⟩ := link_eq_duplicateExternal hd r options
    simp [hl, hd]

theorem link_outcome_twins :
    Graph.build [.describe appCode .program, .describe libCode .library] = .ok twins.graph ∧
      (∀ id ∈ [0], id < twins.graph.symbols.length) ∧
      ∃ r, twins.Finds [0] r ∧ (∃ l, link twins.graph r {} = .ok l) ∧
        ∀ m, merge twins.graph r "merged" = .ok m → Closed m ∧ fault? m = none := by
  obtain ⟨r, hf⟩ := twins_finds
  have hc := hf.covers (Graph.build_bounded twins_build) twins_roots
  obtain ⟨_, _, hok, _, hm⟩ := link_outcome twins_build twins_roots hf {}
  exact ⟨twins_build, twins_roots, r, hf, hok.mpr ⟨by decide, twins_not_dangles hc⟩, hm (by decide)⟩

end Link

end DeviceLink.Linked
