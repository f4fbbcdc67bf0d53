import DeviceLink.Ir.Code
import DeviceLink.Linkage
import DeviceLink.Table

namespace DeviceLink.Ir

structure Function where
  name : String
  result : Ty
  params : List (Temp × Ty) := []
  blocks : List Block := []
  visibility : Visibility := .internal
  isKernel : Bool := false
  implements : List String := []
  place : Option Location := none
  deriving DecidableEq

namespace Function

def block? (f : Function) (id : Label) : Option Block := f.blocks.find? (·.id = id)

def modifyBlock (f : Function) (id : Label) (g : Block → Block) : Function :=
  { f with blocks := f.blocks.modify (f.blocks.findIdx (·.id = id)) g }

def entry? (f : Function) : Option Block := f.blocks.head?

def isDeclaration (f : Function) : Bool := f.blocks.isEmpty

def code (f : Function) : List Instr := f.blocks.flatMap (·.code)

def symbols (f : Function) : List String :=
  Ordered.ofList ((f.code.flatMap Instr.operands).filterMap Operand.symbol?)

def capabilities (f : Function) : List String := Ordered.ofList (f.code.filterMap Instr.capability?)

end Function

structure Global where
  name : String
  type : Ty
  space : Space := .generic
  isConstant : Bool := false
  initializer : Option Operand := none
  visibility : Visibility := .internal
  deriving DecidableEq

namespace Global

def symbol? (g : Global) : Option String := g.initializer.bind Operand.symbol?

end Global

structure Module where
  name : String
  functions : List Function := []
  globals : List Global := []
  used : List String := []
  dispatchTables : Table (List String) := .empty
  deriving DecidableEq

namespace Module

def function? (m : Module) (name : String) : Option Function := m.functions.find? (·.name = name)

def modifyFunction (m : Module) (name : String) (g : Function → Function) : Module :=
  { m with functions := m.functions.modify (m.functions.findIdx (·.name = name)) g }

def global? (m : Module) (name : String) : Option Global := m.globals.find? (·.name = name)

def kernels (m : Module) : List Function := m.functions.filter (·.isKernel)

def defines (m : Module) (name : String) : Bool := (m.function? name).isSome || (m.global? name).isSome

end Module

end DeviceLink.Ir
