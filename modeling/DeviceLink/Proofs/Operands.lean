import DeviceLink.Ir.Code
import DeviceLink.Proofs.Fallible

namespace DeviceLink.Ir.Instr

open Fallible

def withOperands : Instr → List Operand → Instr
  | .binary r op _ _ t, [lhs, rhs] => .binary r op lhs rhs t
  | .load r _ t, [p] => .load r p t
  | .store _ _, [v, p] => .store v p
  | .element r _ _ t, p :: is => .element r p is t
  | .alloca r a _ t, vs => .alloca r a vs.head? t
  | .call r _ _ t, f :: as => .call r f as t
  | .dispatch r c _ _ t, v :: as => .dispatch r c v as t
  | .spaceCast r _ s t, [p] => .spaceCast r p s t
  | .checkedCast r _ s t, [p] => .checkedCast r p s t
  | .spaceTest r _ s, [p] => .spaceTest r p s
  | .cast r _ t, [v] => .cast r v t
  | .select r _ _ _ t, [c, a, b] => .select r c a b t
  | .phi r incoming t, vs => .phi r (vs.zip (incoming.map (·.2))) t
  | .ret _, vs => .ret vs.head?
  | .branchIf _ l k, [c] => .branchIf c l k
  | i, _ => i

section Monadic

variable {m : Type → Type} [Monad m] [LawfulMonad m] (f : Operand → m Operand)

lemma mapM_toList (v : Option Operand) : v.mapM f = List.head? <$> v.toList.mapM f := by
  cases v <;> simp

lemma mapM_incoming (incoming : List (Operand × Label)) :
    (incoming.mapM fun p => (·, p.2) <$> f p.1) =
      (·.zip (incoming.map (·.2))) <$> incoming.mapM fun p => f p.1 := by
  induction incoming with
  | nil => simp
  | cons p rest ih => simp [ih]

lemma mapOperandsM_eq (i : Instr) : i.mapOperandsM f = i.withOperands <$> i.operands.mapM f := by
  cases i with
  | alloca r a n t =>
    simp only [mapOperandsM, operands, mapM_toList, bind_pure_comp, Functor.map_map]
    rfl
  | ret v =>
    simp only [mapOperandsM, operands, mapM_toList, bind_pure_comp, Functor.map_map]
    rfl
  | phi r incoming t =>
    simp only [mapOperandsM, operands, List.mapM_map, bind_pure_comp, mapM_incoming, Functor.map_map]
    rfl
  | _ => simp [mapOperandsM, operands, withOperands]

end Monadic

lemma mapOperands_eq (g : Operand → Operand) (i : Instr) :
    i.mapOperands g = i.withOperands (i.operands.map g) := by
  simp [mapOperands, mapOperandsM_eq]

@[simp]
lemma operands_mapOperands (g : Operand → Operand) (i : Instr) :
    (i.mapOperands g).operands = i.operands.map g := by
  rw [mapOperands_eq]
  cases i with
  | alloca _ _ n _ => cases n <;> rfl
  | ret v => cases v <;> rfl
  | phi _ incoming _ => exact List.map_fst_zip (by simp [operands])
  | _ => simp [operands, withOperands]

lemma mapOperandsM_eq_const {ε : Type} {f : Operand → Except ε Operand} {g : Operand → Operand}
    (hg : ∀ v w, f v = .ok w → g v = w) (i : Instr) :
    i.mapOperandsM f = (fun _ => i.mapOperands g) <$> i.operands.mapM f := by
  rw [mapOperandsM_eq, mapOperands_eq]
  cases h : i.operands.mapM f with
  | error e => rfl
  | ok ws =>
    rw [eq_map_of_mapM_eq_ok hg h]
    rfl

end DeviceLink.Ir.Instr
