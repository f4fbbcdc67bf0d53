import DeviceLink.Space

namespace DeviceLink.Ir

inductive Ty where
  | void
  | i1
  | i8
  | i16
  | i32
  | i64
  | f32
  | f64
  | ptr (pointee : Ty) (space : Space)
  | array (size : UInt64) (element : Ty)
  | function (result : Ty) (params : List Ty) (isVararg : Bool)
  | struct (name : Option String) (fields : List Ty) (packed : Bool)
  | label

namespace Ty

mutual

def same : Ty → Ty → Bool
  | .void, .void => true
  | .i1, .i1 => true
  | .i8, .i8 => true
  | .i16, .i16 => true
  | .i32, .i32 => true
  | .i64, .i64 => true
  | .f32, .f32 => true
  | .f64, .f64 => true
  | .label, .label => true
  | .ptr a s, .ptr b t => same a b && s = t
  | .array m a, .array n b => m = n && same a b
  | .function a ps v, .function b qs w => same a b && sameAll ps qs && v = w
  | .struct m fs p, .struct n gs q => m = n && sameAll fs gs && p = q
  | _, _ => false

def sameAll : List Ty → List Ty → Bool
  | [], [] => true
  | a :: as, b :: bs => same a b && sameAll as bs
  | _, _ => false

end

mutual

theorem same_iff : ∀ a b : Ty, same a b = true ↔ a = b
  | .void, b | .i1, b | .i8, b | .i16, b | .i32, b | .i64, b | .f32, b | .f64, b | .label, b => by
    cases b <;> simp [same]
  | .ptr a s, b => by cases b <;> simp [same, same_iff a]
  | .array n a, b => by cases b <;> simp [same, same_iff a]
  | .function a ps v, b => by cases b <;> simp [same, same_iff a, sameAll_iff ps, and_assoc]
  | .struct n fs p, b => by cases b <;> simp [same, sameAll_iff fs, and_assoc]

theorem sameAll_iff : ∀ as bs : List Ty, sameAll as bs = true ↔ as = bs
  | [], bs => by cases bs <;> simp [sameAll]
  | a :: as, bs => by cases bs <;> simp [sameAll, same_iff a, sameAll_iff as]

end

instance : DecidableEq Ty := fun a b => decidable_of_iff _ (same_iff a b)

def isInteger : Ty → Bool
  | .i1 | .i8 | .i16 | .i32 | .i64 => true
  | _ => false

def isFloat : Ty → Bool
  | .f32 | .f64 => true
  | _ => false

def space? : Ty → Option Space
  | .ptr _ s => some s
  | _ => none

def isPointer (t : Ty) : Bool := t.space?.isSome

def specific? (t : Ty) : Option Space := t.space?.filter Space.isSpecific

def inSpace (s : Space) : Ty → Ty
  | .ptr t _ => .ptr t s
  | t => t

def element? : Ty → Option Ty
  | .ptr t _ => some t
  | .array _ t => some t
  | _ => none

end Ty

end DeviceLink.Ir
