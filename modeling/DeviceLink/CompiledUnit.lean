import DeviceLink.Ir.Module

namespace DeviceLink

structure SymbolEntry where
  name : String
  kind : SymbolKind
  space : Space := .generic
  visibility : Visibility := .internal
  isKernel : Bool := false
  implements : List String := []
  deriving DecidableEq

namespace SymbolEntry

def function (name : String) (visibility : Visibility) : SymbolEntry :=
  { name, kind := .function, visibility }

def kernel (name : String) : SymbolEntry :=
  { function name .external with isKernel := true }

def global (name : String) (space : Space) (visibility : Visibility) : SymbolEntry :=
  { name, kind := .data, space, visibility }

def implementing (e : SymbolEntry) (capability : String) : SymbolEntry :=
  { e with implements := e.implements ++ [capability] }

def isExternal (e : SymbolEntry) : Bool := e.isKernel || e.visibility = .external

def toJson (e : SymbolEntry) : Json :=
  .ofFields ([("name", .ofString e.name), ("kind", e.kind.toJson), ("space", e.space.toJson),
    ("visibility", e.visibility.toJson), ("is_kernel", .bool e.isKernel)] ++
    if e.implements.isEmpty then [] else [("implements", .ofStrings e.implements)])

def read : Json.Reader SymbolEntry := .record fun room => do
  let name ← .required "name" (Json.Reader.string room)
  let kind ← .required "kind" (SymbolKind.read room)
  let space ← .defaulted "space" .generic (Space.read room)
  let visibility ← .defaulted "visibility" .internal (Visibility.read room)
  let isKernel ← .defaulted "is_kernel" false (Json.Reader.bool room)
  let implements ← .defaulted "implements" [] (Json.Reader.list .string room)
  return { name, kind, space, visibility, isKernel, implements }

end SymbolEntry

inductive Target where
  | symbol (name : String)
  | dispatch (capability : String)
  deriving DecidableEq

namespace Target

def toJson : Target → Json
  | .symbol name => .tagged "symbol" (.ofString name)
  | .dispatch capability => .tagged "dispatch" (.ofString capability)

def read : Json.Reader Target := fun room j => do
  match ← Json.choice room j with
  | (.bare _, _) => none
  | (.tagged tag body, room) =>
    match tag with
    | "symbol" => (Json.Reader.string room body).map .symbol
    | "dispatch" => (Json.Reader.string room body).map .dispatch
    | _ => none

end Target

structure Reference where
  referrer : String
  target : Target
  deriving DecidableEq

namespace Reference

def toJson (r : Reference) : Json := .ofFields [("from", .ofString r.referrer), ("to", r.target.toJson)]

def read : Json.Reader Reference := .record fun room => do
  let referrer ← .required "from" (Json.Reader.string room)
  let target ← .required "to" (Target.read room)
  return { referrer, target }

end Reference

structure CompiledUnit where
  name : String
  kind : UnitKind := .program
  symbols : List SymbolEntry := []
  references : List Reference := []
  deriving DecidableEq

namespace CompiledUnit

def symbol? (u : CompiledUnit) (name : String) : Option SymbolEntry := u.symbols.find? (·.name = name)

def withSymbol (u : CompiledUnit) (e : SymbolEntry) : CompiledUnit := { u with symbols := u.symbols ++ [e] }

def withReference (u : CompiledUnit) (r : Reference) : CompiledUnit :=
  { u with references := u.references ++ [r] }

def fields (u : CompiledUnit) : List (String × Json) :=
  [("name", .ofString u.name), ("kind", u.kind.toJson), ("symbols", .ofList SymbolEntry.toJson u.symbols),
    ("manifest", .ofList Reference.toJson u.references)]

def toJson (u : CompiledUnit) : Json := .ofFields u.fields

def readFields (room : Nat) : Json.Fields CompiledUnit := do
  let name ← .required "name" (Json.Reader.string room)
  let kind ← .defaulted "kind" .program (UnitKind.read room)
  let symbols ← .defaulted "symbols" [] (Json.Reader.list SymbolEntry.read room)
  let references ← .defaulted "manifest" [] (Json.Reader.list Reference.read room)
  return { name, kind, symbols, references }

def read : Json.Reader CompiledUnit := .record readFields

open Ir in
def entryOfFunction (f : Function) : SymbolEntry where
  name := f.name
  kind := .function
  visibility := f.visibility
  isKernel := f.isKernel
  implements := f.implements

open Ir in
def referencesOfFunction (f : Function) : List Reference :=
  f.symbols.map (fun s => ⟨f.name, .symbol s⟩) ++ f.capabilities.map fun c => ⟨f.name, .dispatch c⟩

open Ir in
def referencesOfGlobal (g : Global) : List Reference := g.symbol?.toList.map fun s => ⟨g.name, .symbol s⟩

open Ir in
def describe (m : Module) (kind : UnitKind) : CompiledUnit :=
  let functions := m.functions.filter fun f => !f.isDeclaration
  { name := m.name
    kind
    symbols := functions.map entryOfFunction ++ m.globals.map fun g => .global g.name g.space g.visibility
    references := functions.flatMap referencesOfFunction ++ m.globals.flatMap referencesOfGlobal }

end CompiledUnit

end DeviceLink
