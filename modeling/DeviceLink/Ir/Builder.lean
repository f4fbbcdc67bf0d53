import DeviceLink.Ir.Module

namespace DeviceLink.Ir

structure Builder where
  function : Option Function := none
  block : Option Label := none
  nextTemp : Temp := 0
  nextLabel : Label := 0

namespace Builder

inductive Error where
  | noFunction
  | noBlock
  | unknownBlock (label : Label)
  | lostBlock
  deriving DecidableEq

def Error.message : Error → String
  | .noFunction => "No current function"
  | .noBlock => "No current block"
  | .unknownBlock label => s!"Block L{label.toNat} not found"
  | .lostBlock => "Current block not found"

/-- A step of a builder. A step that fails keeps the numbers it has given out. -/
abbrev Build := ExceptT Error (StateM Builder)

def newTemp : Build Temp := do
  let b ← get
  set { b with nextTemp := b.nextTemp + 1 }
  return b.nextTemp

def newLabel : Build Label := do
  let b ← get
  set { b with nextLabel := b.nextLabel + 1 }
  return b.nextLabel

/-- Starts a function, and drops one that was not finished. Its body is empty whatever `f` holds. -/
def createFunction (f : Function) : Build Unit :=
  set { function := some { f with params := [], blocks := [] } : Builder }

def currentFunction : Build Function := do
  match (← get).function with
  | some f => return f
  | none => throw .noFunction

def addParameter (type : Ty) : Build Temp := do
  let t ← newTemp
  let f ← currentFunction
  modify fun b => { b with function := some { f with params := f.params ++ [(t, type)] } }
  return t

def createBlock : Build Label := do
  let label ← newLabel
  let f ← currentFunction
  modify fun b =>
    { b with function := some { f with blocks := f.blocks ++ [{ id := label }] }, block := some label }
  return label

def switchTo (label : Label) : Build Unit := do
  let f ← currentFunction
  if (f.block? label).isNone then throw (.unknownBlock label)
  modify fun b => { b with block := some label }

def emit (i : Instr) : Build Unit := do
  let f ← currentFunction
  match (← get).block with
  | none => throw .noBlock
  | some label =>
    if (f.block? label).isNone then throw .lostBlock
    modify fun b => { b with function := some (f.modifyBlock label (·.add i)) }

def define (i : Temp → Instr) : Build Temp := do
  let t ← newTemp
  emit (i t)
  return t

def defineCall (type : Ty) (i : Option Temp → Instr) : Build (Option Temp) := do
  if type = .void then
    emit (i none)
    return none
  else
    let t ← newTemp
    emit (i (some t))
    return some t

def binary (op : BinaryOp) (lhs rhs : Operand) (type : Ty) : Build Temp :=
  define fun r => .binary r op lhs rhs type

def load (address : Operand) (type : Ty) : Build Temp := define fun r => .load r address type

def store (value address : Operand) : Build Unit := emit (.store value address)

def alloca (type : Ty) : Build Temp := define fun r => .alloca r type none (.ptr type .threadLocal)

def element (base : Operand) (indices : List Operand) (type : Ty) : Build Temp :=
  define fun r => .element r base indices type

def call (callee : String) (args : List Operand) (type : Ty) : Build (Option Temp) :=
  defineCall type fun r => .call r (.function callee) args type

def dispatch (capability : String) (receiver : Operand) (args : List Operand) (type : Ty) :
    Build (Option Temp) :=
  defineCall type fun r => .dispatch r capability receiver args type

def spaceCast (address : Operand) (type : Ty) (target : Space) : Build Temp :=
  define fun r => .spaceCast r address target (type.inSpace target)

def spaceTest (address : Operand) (space : Space) : Build Temp := define fun r => .spaceTest r address space

def cast (value : Operand) (type : Ty) : Build Temp := define fun r => .cast r value type

def select (condition ifTrue ifFalse : Operand) (type : Ty) : Build Temp :=
  define fun r => .select r condition ifTrue ifFalse type

def phi (incoming : List (Operand × Label)) (type : Ty) : Build Temp := define fun r => .phi r incoming type

def ret (value : Option Operand) : Build Unit := emit (.ret value)

def branch (target : Label) : Build Unit := emit (.branch target)

def branchIf (condition : Operand) (ifTrue ifFalse : Label) : Build Unit :=
  emit (.branchIf condition ifTrue ifFalse)

def setLocation (place : Location) : Build Unit := emit (.location place)

def finish : Build (Option Function) := do
  let b ← get
  set { b with function := none, block := none }
  return b.function

def isTerminated (b : Builder) : Bool :=
  match b.function, b.block with
  | some f, some label => (f.block? label).any Block.hasTerminator
  | _, _ => false

end Builder

end DeviceLink.Ir
