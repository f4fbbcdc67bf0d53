import DeviceLink.Ir.Module
import DeviceLink.Proofs.Operands
import DeviceLink.Proofs.Ordered

/-! Listing the operands of an instruction and replacing them are one traversal: an operand is replaced if and only if
it is listed, in the order of the list, and nothing else of the instruction changes. So a body whose symbols are renamed
names the images of the symbols that it named before. -/

namespace DeviceLink.Ir

namespace Operand

def rename (r : String → String) (v : Operand) : Operand :=
  match v.symbol? with
  | none => v
  | some x => v.withSymbol (r x)

lemma symbol?_rename (r : String → String) (v : Operand) : (v.rename r).symbol? = v.symbol?.map r := by
  cases v <;> rfl

end Operand

namespace Instr

inductive SameForm : Instr → Instr → Prop
  | binary (r : Temp) (op : BinaryOp) (a b c d : Operand) (t : Ty) : SameForm (.binary r op a b t) (.binary r op c d t)
  | load (r : Temp) (p q : Operand) (t : Ty) : SameForm (.load r p t) (.load r q t)
  | store (v p w q : Operand) : SameForm (.store v p) (.store w q)
  | element (r : Temp) (p q : Operand) (is js : List Operand) (t : Ty) :
    SameForm (.element r p is t) (.element r q js t)
  | alloca (r : Temp) (a : Ty) (n m : Option Operand) (t : Ty) : SameForm (.alloca r a n t) (.alloca r a m t)
  | call (r : Option Temp) (f g : Operand) (as bs : List Operand) (t : Ty) : SameForm (.call r f as t) (.call r g bs t)
  | dispatch (r : Option Temp) (c : String) (v w : Operand) (as bs : List Operand) (t : Ty) :
    SameForm (.dispatch r c v as t) (.dispatch r c w bs t)
  | spaceCast (r : Temp) (p q : Operand) (s : Space) (t : Ty) : SameForm (.spaceCast r p s t) (.spaceCast r q s t)
  | checkedCast (r : Temp) (p q : Operand) (s : Space) (t : Ty) : SameForm (.checkedCast r p s t) (.checkedCast r q s t)
  | spaceTest (r : Temp) (p q : Operand) (s : Space) : SameForm (.spaceTest r p s) (.spaceTest r q s)
  | cast (r : Temp) (v w : Operand) (t : Ty) : SameForm (.cast r v t) (.cast r w t)
  | select (r : Temp) (c a b d e f : Operand) (t : Ty) : SameForm (.select r c a b t) (.select r d e f t)
  | phi (r : Temp) {is js : List (Operand × Label)} (t : Ty) (labels : is.map Prod.snd = js.map Prod.snd) :
    SameForm (.phi r is t) (.phi r js t)
  | ret (v w : Option Operand) : SameForm (.ret v) (.ret w)
  | branch (l : Label) : SameForm (.branch l) (.branch l)
  | branchIf (c d : Operand) (l k : Label) : SameForm (.branchIf c l k) (.branchIf d l k)
  | location (p : Location) : SameForm (.location p) (.location p)
  | comment (s : String) : SameForm (.comment s) (.comment s)

lemma sameForm_self (i : Instr) : SameForm i i := by
  cases i <;> constructor
  rfl

lemma SameForm.withOperands_eq {i j : Instr} (h : SameForm i j) : i.withOperands j.operands = j := by
  cases h with
  | alloca _ _ _ m | ret _ m => cases m <;> rfl
  | phi r t labels => exact congrArg (Instr.phi r · t) (List.zip_of_prod rfl labels.symm).symm
  | _ => rfl

lemma sameForm_mapOperands (g : Operand → Operand) (i : Instr) : SameForm i (i.mapOperands g) := by
  rw [mapOperands_eq]
  cases i with
  | phi r incoming t =>
    refine .phi r t ?_
    rw [List.map_snd_zip (by simp [operands])]
  | _ => constructor

lemma mapOperands_eq_iff (g : Operand → Operand) (i j : Instr) :
    i.mapOperands g = j ↔ SameForm i j ∧ j.operands = i.operands.map g := by
  constructor
  · rintro rfl
    exact ⟨sameForm_mapOperands g i, operands_mapOperands g i⟩
  · rintro ⟨hform, hoperands⟩
    rw [mapOperands_eq, ← hoperands, hform.withOperands_eq]

lemma mapOperands_id (i : Instr) : i.mapOperands id = i := by
  rw [mapOperands_eq_iff, List.map_id]
  exact ⟨sameForm_self i, rfl⟩

def visit (g : Operand → Operand) (v : Operand) : StateM (List Operand) Operand := do
  modify (· ++ [v])
  return g v

lemma mapM_visit (g : Operand → Operand) (vs seen : List Operand) :
    (vs.mapM (visit g)).run seen = pure (vs.map g, seen ++ vs) := by
  induction vs generalizing seen with
  | nil => simp
  | cons v rest ih => simp [visit, ih]

lemma mapOperandsM_visit (g : Operand → Operand) (i : Instr) :
    (i.mapOperandsM (visit g)).run [] = pure (i.mapOperands g, i.operands) := by
  rw [mapOperandsM_eq, mapOperands_eq, StateT.run_map, mapM_visit]
  rfl

end Instr

namespace Function

def mapOperands (g : Operand → Operand) (f : Function) : Function :=
  { f with blocks := f.blocks.map fun b => { b with code := b.code.map (Instr.mapOperands g) } }

lemma operands_mapOperands (g : Operand → Operand) (f : Function) :
    (f.mapOperands g).code.flatMap Instr.operands = (f.code.flatMap Instr.operands).map g := by
  simp only [mapOperands, code, List.flatMap_map, List.map_flatMap, List.flatMap_assoc, Instr.operands_mapOperands]

lemma symbols_mapOperands_rename (r : String → String) (f : Function) :
    (f.mapOperands (Operand.rename r)).symbols = Ordered.ofList (f.symbols.map r) := by
  have hsymbols : Operand.symbol? ∘ Operand.rename r = fun v => v.symbol?.map r :=
    funext (Operand.symbol?_rename r)
  apply Ordered.ofList_congr
  intro x
  rw [operands_mapOperands, List.filterMap_map, hsymbols, ← List.map_filterMap]
  simp only [symbols, List.mem_map, Ordered.mem_ofList]

end Function

namespace Instr

theorem replacing_follows_listing (i : Instr) (g : Operand → Operand) (f : Function) (r : String → String) :
    ((i.mapOperandsM (visit g)).run []).run = (i.mapOperands g, i.operands) ∧
    (∀ j, i.mapOperands g = j ↔ SameForm i j ∧ j.operands = i.operands.map g) ∧
    i.mapOperands id = i ∧
    (f.mapOperands (Operand.rename r)).symbols = Ordered.ofList (f.symbols.map r) := by
  refine ⟨congrArg Id.run (mapOperandsM_visit g i), mapOperands_eq_iff g i, mapOperands_id i, ?_⟩
  exact f.symbols_mapOperands_rename r

example :
    Instr.mapOperands (Operand.rename fun _ => "renamed") (.store (.constant 1) (.global "x")) =
      .store (.constant 1) (.global "renamed") := by
  decide

end Instr

end DeviceLink.Ir
