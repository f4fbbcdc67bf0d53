import DeviceLink.Ir.Type
import DeviceLink.Location

namespace DeviceLink.Ir

abbrev Temp := UInt32

abbrev Label := UInt32

inductive Operand where
  | temp (t : Temp)
  | constant (n : Int64)
  | global (name : String)
  | function (name : String)
  | constants (values : List Int64)
  | null (space : Space)
  | undef
  deriving DecidableEq

namespace Operand

def symbol? : Operand → Option String
  | .global n => some n
  | .function n => some n
  | _ => none

def withSymbol (n : String) : Operand → Operand
  | .global _ => .global n
  | .function _ => .function n
  | v => v

end Operand

inductive BinaryOp where
  | add | sub | mul
  | sdiv | udiv | srem | urem
  | fadd | fsub | fmul | fdiv
  | and | or | xor
  | shl | lshr | ashr
  | eq | ne
  | slt | sle | sgt | sge
  | ult | ule | ugt | uge
  deriving DecidableEq

namespace BinaryOp

def isComparison : BinaryOp → Bool
  | .eq | .ne | .slt | .sle | .sgt | .sge | .ult | .ule | .ugt | .uge => true
  | _ => false

end BinaryOp

inductive Instr where
  | binary (result : Temp) (op : BinaryOp) (lhs rhs : Operand) (type : Ty)
  | load (result : Temp) (address : Operand) (type : Ty)
  | store (value address : Operand)
  | element (result : Temp) (base : Operand) (indices : List Operand) (type : Ty)
  | alloca (result : Temp) (allocated : Ty) (count : Option Operand) (type : Ty)
  | call (result : Option Temp) (callee : Operand) (args : List Operand) (type : Ty)
  -- a call of whichever implementation of the capability the receiver has
  | dispatch (result : Option Temp) (capability : String) (receiver : Operand) (args : List Operand) (type : Ty)
  | spaceCast (result : Temp) (address : Operand) (target : Space) (type : Ty)
  -- a conversion out of the generic space that is tested when it runs
  | checkedCast (result : Temp) (address : Operand) (target : Space) (type : Ty)
  | spaceTest (result : Temp) (address : Operand) (space : Space)
  | cast (result : Temp) (value : Operand) (type : Ty)
  | select (result : Temp) (condition ifTrue ifFalse : Operand) (type : Ty)
  | phi (result : Temp) (incoming : List (Operand × Label)) (type : Ty)
  | ret (value : Option Operand)
  | branch (target : Label)
  | branchIf (condition : Operand) (ifTrue ifFalse : Label)
  | location (place : Location)
  | comment (text : String)
  deriving DecidableEq

namespace Instr

def result? : Instr → Option Temp
  | .binary r .. | .load r .. | .element r .. | .alloca r .. | .spaceCast r .. | .checkedCast r ..
  | .spaceTest r .. | .cast r .. | .select r .. | .phi r .. => some r
  | .call r .. | .dispatch r .. => r
  | .store .. | .ret _ | .branch _ | .branchIf .. | .location _ | .comment _ => none

def operands : Instr → List Operand
  | .binary _ _ lhs rhs _ => [lhs, rhs]
  | .load _ p _ | .spaceCast _ p _ _ | .checkedCast _ p _ _ | .spaceTest _ p _ => [p]
  | .store v p => [v, p]
  | .element _ p is _ => p :: is
  | .alloca _ _ n _ => n.toList
  | .call _ f as _ => f :: as
  | .dispatch _ _ r as _ => r :: as
  | .cast _ v _ => [v]
  | .select _ c a b _ => [c, a, b]
  | .phi _ incoming _ => incoming.map (·.1)
  | .ret v => v.toList
  | .branchIf c _ _ => [c]
  | .branch _ | .location _ | .comment _ => []

def mapOperandsM {m : Type → Type} [Monad m] (f : Operand → m Operand) : Instr → m Instr
  | .binary r op lhs rhs t => do return .binary r op (← f lhs) (← f rhs) t
  | .load r p t => do return .load r (← f p) t
  | .store v p => do return .store (← f v) (← f p)
  | .element r p is t => do return .element r (← f p) (← is.mapM f) t
  | .alloca r a n t => do return .alloca r a (← n.mapM f) t
  | .call r g as t => do return .call r (← f g) (← as.mapM f) t
  | .dispatch r c v as t => do return .dispatch r c (← f v) (← as.mapM f) t
  | .spaceCast r p s t => do return .spaceCast r (← f p) s t
  | .checkedCast r p s t => do return .checkedCast r (← f p) s t
  | .spaceTest r p s => do return .spaceTest r (← f p) s
  | .cast r v t => do return .cast r (← f v) t
  | .select r c a b t => do return .select r (← f c) (← f a) (← f b) t
  | .phi r incoming t => do return .phi r (← incoming.mapM fun p => do return (← f p.1, p.2)) t
  | .ret v => do return .ret (← v.mapM f)
  | .branch l => return .branch l
  | .branchIf c l k => do return .branchIf (← f c) l k
  | .location p => return .location p
  | .comment s => return .comment s

def mapOperands (f : Operand → Operand) (i : Instr) : Instr := Id.run (i.mapOperandsM fun v => pure (f v))

def capability? : Instr → Option String
  | .dispatch _ c _ _ _ => some c
  | _ => none

def isTerminator : Instr → Bool
  | .ret _ | .branch _ | .branchIf .. => true
  | _ => false

end Instr

structure Block where
  id : Label
  code : List Instr := []
  deriving DecidableEq

namespace Block

def add (b : Block) (i : Instr) : Block := { b with code := b.code ++ [i] }

def isEmpty (b : Block) : Bool := b.code.isEmpty

def terminator? (b : Block) : Option Instr := b.code.getLast?.filter Instr.isTerminator

def hasTerminator (b : Block) : Bool := b.terminator?.isSome

end Block

end DeviceLink.Ir
