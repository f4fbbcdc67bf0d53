import DeviceLink.Proofs.Naming
import DeviceLink.Proofs.Traversal

namespace DeviceLink

open Ir Fallible

def Body.operands : Body → List Operand
  | .function v => v.function.code.flatMap Instr.operands
  | .global g => g.initializer.toList

lemma Ir.Operand.symbol?_withSymbol {v : Operand} {x y : String} (h : v.symbol? = some x) :
    (v.withSymbol y).symbol? = some y := by
  cases v with
  | global | function => rfl
  | _ => cases h

namespace Linked

def Definition.name : Definition → String
  | .function f => f.name
  | .global d => d.name

def Definition.operands : Definition → List Operand
  | .function f => f.code.flatMap Instr.operands
  | .global d => d.initializer.toList

/-- A definition that differs from a body in its name, its visibility and its operands only. Each operand is the image
of the one in its place. -/
inductive Copies (ρ : Operand → Operand) (name : String) (visibility : Visibility) : Body → Definition → Prop
  | function {v : Verify.Verified} {blocks : List Block}
    (hb : List.Forall₂ (fun b c => c.id = b.id ∧ List.Forall₂ (fun i j => Instr.SameForm i j ∧
      j.operands = i.operands.map ρ) b.code c.code) v.function.blocks blocks) :
    Copies ρ name visibility (.function v) (.function { v.function with name, visibility, blocks })
  | global (d : Global) :
    Copies ρ name visibility (.global d) (.global { d with name, visibility, initializer := d.initializer.map ρ })

def Resolves (g : Graph) (r : Reached) (owner : ModuleId) (x : String) : Prop :=
  ∃ target, g.resolve? owner x = some target ∧ r.isReached target = true

def Dangles (g : Graph) (r : Reached) : Prop :=
  ∃ id s b v x, g.symbols[id]? = some s ∧ r.body? id = some b ∧ v ∈ b.operands ∧ v.symbol? = some x ∧
    ¬ Resolves g r s.owner x

namespace Naming

def rename (n : Naming) (owner : ModuleId) (v : Operand) : Operand :=
  match v.symbol?.bind (n.graph.resolve? owner) with
  | none => v
  | some target => v.withSymbol (n.name target)

def image (n : Naming) (id : SymbolId) (s : Symbol) : Body → Definition
  | .function v => .function { v.function with
      name := n.name id
      visibility := n.linkage s
      blocks := v.function.blocks.map fun b =>
        { b with code := b.code.map (Instr.mapOperands (n.rename s.owner)) } }
  | .global d => .global { d with
      name := n.name id
      visibility := n.linkage s
      initializer := d.initializer.map (n.rename s.owner) }

inductive Renames (n : Naming) (owner : ModuleId) : Operand → Operand → Prop
  | global {x : String} {t : SymbolId} (ht : n.graph.resolve? owner x = some t) (hr : n.reached.isReached t = true) :
    Renames n owner (.global x) (.global (n.name t))
  | function {x : String} {t : SymbolId} (ht : n.graph.resolve? owner x = some t) (hr : n.reached.isReached t = true) :
    Renames n owner (.function x) (.function (n.name t))
  | other {v : Operand} (hg : ∀ x, v ≠ .global x) (hf : ∀ x, v ≠ .function x) : Renames n owner v v

def Emits (n : Naming) (id : SymbolId) (d : Definition) : Prop :=
  ∃ s b, n.graph.symbols[id]? = some s ∧ n.reached.body? id = some b ∧ n.image id s b = d

variable {g : Graph} {r : Reached} {s : Symbol} {id : SymbolId} {b : Body} {v w : Operand}

lemma operand_of_resolves (hg : g.Indexed) (h : ∀ x, v.symbol? = some x → Resolves g r s.owner x) :
    (ofReached g r).operand s v = .ok ((ofReached g r).rename s.owner v) := by
  cases hx : v.symbol? with
  | none => simp [operand, rename, hx]
  | some x =>
    obtain ⟨t, ht, hr⟩ := h x hx
    have hn := outputName_eq_ok (mem_symbols.mpr ⟨hg.lt_of_resolve? ht, hr⟩)
    have ht' : (ofReached g r).graph.resolve? s.owner x = some t := ht
    have hr' : (ofReached g r).reached.isReached t = true := hr
    simp only [operand, rename, hx, ht', hr', Option.filter_some, if_true, hn, Option.bind_some]
    rfl

lemma operand_of_not_resolves {x : String} (hx : v.symbol? = some x) (h : ¬ Resolves g r s.owner x) :
    (ofReached g r).operand s v = .error (.unresolved s.name x) := by
  have hf : (g.resolve? s.owner x).filter r.isReached = none := by
    rw [Option.filter_eq_none_iff]
    intro t ht hr
    exact h ⟨t, ht, hr⟩
  simp only [operand, hx, ofReached, hf]

lemma operand_eq_ok_iff (hg : g.Indexed) :
    (ofReached g r).operand s v = .ok w ↔
      (∀ x, v.symbol? = some x → Resolves g r s.owner x) ∧ (ofReached g r).rename s.owner v = w := by
  constructor
  · intro h
    have hx : ∀ x, v.symbol? = some x → Resolves g r s.owner x := by
      intro x hx
      by_contra hd
      cases (operand_of_not_resolves hx hd).symm.trans h
    exact ⟨hx, Except.ok.inj ((operand_of_resolves hg hx).symm.trans h)⟩
  · rintro ⟨hx, rfl⟩
    exact operand_of_resolves hg hx

lemma exists_of_operand_eq_error (hg : g.Indexed) {e : Fault} (h : (ofReached g r).operand s v = .error e) :
    ∃ x, v.symbol? = some x ∧ ¬ Resolves g r s.owner x ∧ e = .unresolved s.name x := by
  by_contra hn
  push Not at hn
  by_cases hx : ∀ x, v.symbol? = some x → Resolves g r s.owner x
  · cases (operand_of_resolves hg hx).symm.trans h
  · push Not at hx
    obtain ⟨x, hx, hd⟩ := hx
    exact hn x hx hd (Except.error.inj (h.symm.trans (operand_of_not_resolves hx hd)))

lemma rename_of_operand (hg : g.Indexed) {s : Symbol} (v w : Operand) (h : (ofReached g r).operand s v = .ok w) :
    (ofReached g r).rename s.owner v = w :=
  ((operand_eq_ok_iff hg).mp h).2

lemma block_eq (hg : g.Indexed) (s : Symbol) (b : Block) :
    (ofReached g r).block s b =
      (fun _ => { b with code := b.code.map (Instr.mapOperands ((ofReached g r).rename s.owner)) }) <$>
        (b.code.flatMap Instr.operands).mapM ((ofReached g r).operand s) := by
  rw [block, mapM_eq_flatMap (Instr.mapOperandsM_eq_const (rename_of_operand hg)), bind_pure_comp, Functor.map_map]

lemma function_eq (hg : g.Indexed) (s : Symbol) (name : String) (f : Function) :
    (ofReached g r).function s name f =
      (fun _ => { f with
        name
        visibility := (ofReached g r).linkage s
        blocks := f.blocks.map fun b =>
          { b with code := b.code.map (Instr.mapOperands ((ofReached g r).rename s.owner)) } }) <$>
        (f.code.flatMap Instr.operands).mapM ((ofReached g r).operand s) := by
  rw [function, mapM_eq_flatMap (block_eq hg s), bind_pure_comp, Functor.map_map, Function.code, List.flatMap_assoc]

lemma global_eq (hg : g.Indexed) (s : Symbol) (name : String) (d : Global) :
    (ofReached g r).global s name d =
      (fun _ => { d with
        name
        visibility := (ofReached g r).linkage s
        initializer := d.initializer.map ((ofReached g r).rename s.owner) }) <$>
        d.initializer.toList.mapM ((ofReached g r).operand s) := by
  rw [global, bind_pure_comp, Instr.mapM_toList, Functor.map_map]
  cases h : d.initializer.toList.mapM ((ofReached g r).operand s) with
  | error e => rfl
  | ok ws =>
    have hw := eq_map_of_mapM_eq_ok (rename_of_operand hg) h
    have hi : ws.head? = d.initializer.map ((ofReached g r).rename s.owner) := by
      rw [← hw]
      cases d.initializer <;> rfl
    simp [hi]

lemma emit_eq (hg : g.Indexed) (hi : id ∈ r.marks.symbols g) (hs : g.symbols[id]? = some s) (hb : r.body? id = some b) :
    (ofReached g r).emit id = (fun _ => (ofReached g r).image id s b) <$>
      b.operands.mapM ((ofReached g r).operand s) := by
  have hs' : (ofReached g r).graph.symbols[id]? = some s := hs
  have hb' : (ofReached g r).reached.body? id = some b := hb
  cases b with
  | function verified =>
    simp only [emit, outputName_eq_ok hi, hs', hb', function_eq hg, Body.operands]
    cases (verified.function.code.flatMap Instr.operands).mapM ((ofReached g r).operand s) <;> rfl
  | global d =>
    simp only [emit, outputName_eq_ok hi, hs', hb', global_eq hg, Body.operands]
    cases d.initializer.toList.mapM ((ofReached g r).operand s) <;> rfl

lemma emit_eq_ok_iff (hg : g.Indexed) {d : Definition} (hi : id ∈ r.marks.symbols g) (hs : g.symbols[id]? = some s)
    (hb : r.body? id = some b) :
    (ofReached g r).emit id = .ok d ↔
      (∀ v ∈ b.operands, ∀ x, v.symbol? = some x → Resolves g r s.owner x) ∧
        (ofReached g r).image id s b = d := by
  rw [emit_eq hg hi hs hb]
  constructor
  · intro h
    cases hm : b.operands.mapM ((ofReached g r).operand s) with
    | error e => simp [hm] at h
    | ok ws =>
      rw [hm] at h
      refine ⟨fun v hv => ?_, Except.ok.inj h⟩
      obtain ⟨w, _, hw⟩ := exists_mem_mapM hm hv
      exact ((operand_eq_ok_iff hg).mp hw).1
  · rintro ⟨hx, rfl⟩
    rw [mapM_eq_ok_map fun v hv => operand_of_resolves hg (hx v hv)]
    rfl

lemma dangles_of_emit_eq_error (hg : g.Indexed) {e : Fault} (hi : id ∈ r.marks.symbols g) (hs : g.symbols[id]? = some s)
    (hb : r.body? id = some b) (he : (ofReached g r).emit id = .error e) :
    Dangles g r ∧ ∃ referrer x, e = .unresolved referrer x := by
  rw [emit_eq hg hi hs hb] at he
  cases hm : b.operands.mapM ((ofReached g r).operand s) with
  | ok ws => simp [hm] at he
  | error f =>
    rw [hm] at he
    obtain ⟨v, hv, hf⟩ := exists_of_mapM_eq_error hm
    obtain ⟨x, hx, hd, rfl⟩ := exists_of_operand_eq_error hg hf
    exact ⟨⟨id, s, b, v, x, hs, hb, hv, hx, hd⟩, s.name, x, (Except.error.inj he).symm⟩

lemma name_of_emits {d : Definition} (h : (ofReached g r).Emits id d) : d.name = (ofReached g r).name id := by
  obtain ⟨s, b, _, _, rfl⟩ := h
  cases b <;> rfl

lemma copies_image (n : Naming) (id : SymbolId) (s : Symbol) (b : Body) :
    Copies (n.rename s.owner) (n.name id) (n.linkage s) b (n.image id s b) := by
  cases b with
  | function v =>
    refine .function (List.forall₂_map_right_iff.mpr (List.forall₂_same.mpr fun b _ => ⟨rfl, ?_⟩))
    refine List.forall₂_map_right_iff.mpr (List.forall₂_same.mpr fun i _ => ?_)
    exact (Instr.mapOperands_eq_iff _ i _).mp rfl
  | global d => exact .global d

lemma operands_image (n : Naming) (id : SymbolId) (s : Symbol) (b : Body) :
    (n.image id s b).operands = b.operands.map (n.rename s.owner) := by
  cases b with
  | function verified => exact Function.operands_mapOperands (n.rename s.owner) verified.function
  | global d =>
    simp only [image, Definition.operands, Body.operands]
    cases d.initializer <;> rfl

lemma rename_of_resolve? {owner : ModuleId} {x : String} {t : SymbolId} (hx : v.symbol? = some x)
    (ht : g.resolve? owner x = some t) :
    (ofReached g r).rename owner v = v.withSymbol ((ofReached g r).name t) := by
  have ht' : (ofReached g r).graph.resolve? owner x = some t := ht
  simp only [rename, hx, Option.bind_some, ht']

lemma exists_of_symbol?_rename {owner : ModuleId} {y : String}
    (h : ((ofReached g r).rename owner v).symbol? = some y) : ∃ x, v.symbol? = some x := by
  cases hx : v.symbol? with
  | some x => exact ⟨x, rfl⟩
  | none =>
    simp only [rename, hx, Option.bind_none] at h
    cases h

lemma renames_rename {owner : ModuleId} (h : ∀ x, v.symbol? = some x → Resolves g r owner x) :
    (ofReached g r).Renames owner v ((ofReached g r).rename owner v) := by
  cases v with
  | global x =>
    obtain ⟨t, ht, hr⟩ := h x rfl
    rw [rename_of_resolve? rfl ht]
    exact .global ht hr
  | function x =>
    obtain ⟨t, ht, hr⟩ := h x rfl
    rw [rename_of_resolve? rfl ht]
    exact .function ht hr
  | _ => exact .other (fun _ => nofun) (fun _ => nofun)

lemma exists_name_of_emits (hg : g.Indexed) (hd : ¬ Dangles g r) {d : Definition} (h : (ofReached g r).Emits id d)
    (hw : w ∈ d.operands) {y : String} (hy : w.symbol? = some y) :
    ∃ t ∈ r.marks.symbols g, (ofReached g r).name t = y := by
  obtain ⟨s, b, hs, hb, rfl⟩ := h
  rw [operands_image] at hw
  obtain ⟨v, hv, rfl⟩ := List.mem_map.mp hw
  obtain ⟨x, hx⟩ := exists_of_symbol?_rename hy
  have hr : Resolves g r s.owner x := by
    by_contra hn
    exact hd ⟨id, s, b, v, x, hs, hb, hv, hx, hn⟩
  obtain ⟨t, ht, hr⟩ := hr
  rw [rename_of_resolve? hx ht, Operand.symbol?_withSymbol hx] at hy
  exact ⟨t, mem_symbols.mpr ⟨hg.lt_of_resolve? ht, hr⟩, Option.some.inj hy⟩

end Naming

end Linked

end DeviceLink
