import DeviceLink.Names
import DeviceLink.Options
import DeviceLink.Reach

/-!
The linked module: every definition that was reached, under names that are unique. External names stay;
an internal name gets the name of its module in front. A reference is renamed with what it means in
its own module.
-/

namespace DeviceLink

open Ir (Module Function Global Operand Block Instr)

structure Linked where
  code : Module
  kernels : List String
  abiSurface : List String
  hostGlobals : List String
  blockScoped : List String
  segments : SegmentMap

namespace Linked

def assignNames (g : Graph) (ids : List SymbolId) : List (SymbolId × String) :=
  let named := ids.filterMap fun id => g.symbols[id]?.map (id, ·)
  let external := (named.filter (·.2.isExternal)).map fun p => (p.1, p.2.name)
  (named.filter (!·.2.isExternal)).foldl
    (fun names p =>
      let base := Names.mangle (g.moduleName p.2.owner) ++ p.2.name
      names ++ [(p.1, Names.fresh (names.map (·.2)) base)])
    external

structure Naming where
  graph : Graph
  reached : Reached
  names : List (SymbolId × String)

namespace Naming

def outputName (n : Naming) (id : SymbolId) : Except Fault String :=
  match n.names.lookup id with
  | some name => .ok name
  | none => .error (.internal (.noOutputName (n.graph.qualifiedName id)))

def operand (n : Naming) (s : Symbol) (v : Operand) : Except Fault Operand :=
  match v.symbol? with
  | none => .ok v
  | some name =>
    match (n.graph.resolve? s.owner name).filter n.reached.isReached with
    | none => .error (.unresolved s.name name)
    | some target => do return v.withSymbol (← n.outputName target)

def block (n : Naming) (s : Symbol) (b : Block) : Except Fault Block := do
  return { b with code := ← b.code.mapM (Instr.mapOperandsM (n.operand s)) }

/-- Kernels and what a program unit exports stay visible; no variable does. -/
def linkage (n : Naming) (s : Symbol) : Visibility :=
  if s.kind = .function && n.graph.isRoot s then .external else .internal

def function (n : Naming) (s : Symbol) (name : String) (f : Function) : Except Fault Function := do
  return { f with name, visibility := n.linkage s, blocks := ← f.blocks.mapM (n.block s) }

def global (n : Naming) (s : Symbol) (name : String) (g : Global) : Except Fault Global := do
  return { g with name, visibility := n.linkage s, initializer := ← g.initializer.mapM (n.operand s) }

end Naming

inductive Definition where
  | function (f : Function)
  | global (g : Global)

def Definition.function? : Definition → Option Function
  | .function f => some f
  | .global _ => none

def Definition.global? : Definition → Option Global
  | .function _ => none
  | .global g => some g

def Naming.emit (n : Naming) (id : SymbolId) : Except Fault Definition := do
  let name ← n.outputName id
  match n.graph.symbols[id]?, n.reached.body? id with
  | some s, some (.function v) => return .function (← n.function s name v.function)
  | some s, some (.global g) => return .global (← n.global s name g)
  | _, _ => throw (.internal (.notLoaded (n.graph.qualifiedName id)))

def Naming.dispatchTable (n : Naming) (site : DispatchSite) : Except Fault (String × List String) := do
  return (site.capability, ← site.implementations.mapM n.outputName)

def fault? (m : Module) : Option Fault :=
  let defined := m.functions.map (·.name) ++ m.globals.map (·.name)
  let missing (referrer : String) (names : List String) : Option Fault :=
    (names.find? (· ∉ defined)).map (.unresolved referrer)
  (Names.repeated? [] defined).map (.internal <| .definedTwice ·) <|>
    m.functions.findSome? (fun f => missing f.name f.symbols) <|>
    m.globals.findSome? (fun g => missing g.name g.symbol?.toList) <|>
    m.dispatchTables.entries.findSome? fun t => missing t.1 t.2

def assemble (name : String) (definitions : List Definition) (tables : List (String × List String)) :
    Module :=
  let functions := definitions.filterMap Definition.function?
  { name
    functions
    globals := definitions.filterMap Definition.global?
    used := (functions.filter fun f => f.visibility = .external && !f.isKernel).map (·.name)
    dispatchTables := .ofList tables }

def ofModule (segments : SegmentMap) (m : Module) : Linked where
  code := m
  kernels := m.kernels.map (·.name)
  abiSurface := (m.functions.filter (·.visibility = .external)).map (·.name)
  hostGlobals := (m.globals.filter (·.space.hasHostStorage)).map (·.name)
  blockScoped := (m.globals.filter (!·.space.hasHostStorage)).map (·.name)
  segments

def checkExternals (g : Graph) : Except Fault Unit :=
  match g.duplicateExternals with
  | [] => .ok ()
  | (first, second) :: _ =>
    let owner id := g.moduleName ((g.symbols[id]?.map (·.owner)).getD 0)
    .error (.duplicateExternal ((g.symbols[first]?.map (·.name)).getD "") (owner first) (owner second))

def Naming.ofReached (g : Graph) (reached : Reached) : Naming :=
  { graph := g, reached, names := assignNames g (reached.marks.symbols g) }

def merge (g : Graph) (reached : Reached) (name : String) : Except Fault Module := do
  let naming := Naming.ofReached g reached
  let definitions ← (reached.marks.symbols g).mapM naming.emit
  let tables ← ((reached.marks.sites g).filterMap (g.sites[·]?)).mapM naming.dispatchTable
  return assemble name definitions tables

def link (g : Graph) (reached : Reached) (options : Options) : Except Fault Linked := do
  checkExternals g
  let code ← merge g reached options.outputName
  match fault? code with
  | some fault => throw fault
  | none => return ofModule options.segments code

end Linked

end DeviceLink
