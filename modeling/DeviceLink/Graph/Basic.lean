import DeviceLink.CompiledUnit
import DeviceLink.Fault

/-!
The dependency graph. Its nodes are the symbols of all units and the capabilities that are dispatched
on; a symbol leads to what it refers to, and a capability to its implementations.
-/

namespace DeviceLink

abbrev ModuleId := Nat

abbrev SymbolId := Nat

abbrev SiteId := Nat

inductive Node where
  | symbol (id : SymbolId)
  | dispatch (id : SiteId)
  deriving DecidableEq

namespace Node

def lt : Node → Node → Bool
  | .symbol i, .symbol j => i < j
  | .symbol _, .dispatch _ => true
  | .dispatch _, .symbol _ => false
  | .dispatch i, .dispatch j => i < j

instance : LT Node := ⟨fun a b => lt a b⟩

instance : DecidableLT Node := fun a b => inferInstanceAs (Decidable (lt a b = true))

end Node

structure Symbol where
  name : String
  kind : SymbolKind
  space : Space
  visibility : Visibility
  owner : ModuleId
  isKernel : Bool
  deriving DecidableEq

def Symbol.isExternal (s : Symbol) : Bool := s.visibility = .external

structure DispatchSite where
  capability : String
  implementations : List SymbolId
  deriving DecidableEq

structure ModuleInfo where
  name : String
  kind : UnitKind
  symbols : List SymbolId
  deriving DecidableEq

structure Graph where
  modules : List ModuleInfo := []
  symbols : List Symbol := []
  -- the successors of each symbol and of each dispatch site
  edges : List (List Node) := []
  sites : List DispatchSite := []
  dispatchEdges : List (List Node) := []
  capabilities : Table SiteId := .empty
  -- the names that each module defines, and those that every module sees
  localNames : List (Table SymbolId) := []
  externalNames : Table SymbolId := .empty
  -- the external symbols whose name an earlier one has, each behind the first of that name
  duplicateExternals : List (SymbolId × SymbolId) := []
  deriving DecidableEq

namespace Graph

def moduleId? (g : Graph) (name : String) : Option ModuleId := g.modules.findIdx? (·.name = name)

def siteId? (g : Graph) (capability : String) : Option SiteId := g.capabilities.find? capability

def symbolIds (g : Graph) : List SymbolId := List.range g.symbols.length

def nodes (g : Graph) : List Node :=
  g.symbolIds.map .symbol ++ (List.range g.sites.length).map .dispatch

def successors (g : Graph) : Node → List Node
  | .symbol i => g.edges.getD i []
  | .dispatch i => g.dispatchEdges.getD i []

def edgeCount (g : Graph) : Nat := ((g.edges ++ g.dispatchEdges).map (·.length)).foldr (· + ·) 0

def external? (g : Graph) (name : String) : Option SymbolId := g.externalNames.find? name

def own? (g : Graph) (owner : ModuleId) (name : String) : Option SymbolId :=
  g.localNames[owner]?.bind (·.find? name)

def resolve? (g : Graph) (owner : ModuleId) (name : String) : Option SymbolId :=
  g.own? owner name <|> g.external? name

def moduleName (g : Graph) (id : ModuleId) : String := (g.modules[id]?.map (·.name)).getD ""

def capabilityName (g : Graph) (id : SiteId) : String := (g.sites[id]?.map (·.capability)).getD ""

def isProgram (g : Graph) (id : ModuleId) : Bool := g.modules[id]?.any (·.kind = .program)

def qualifiedName (g : Graph) (id : SymbolId) : String :=
  match g.symbols[id]? with
  | some s => s!"{g.moduleName s.owner}::{s.name}"
  | none => ""

def isRoot (g : Graph) (s : Symbol) : Bool := s.isKernel || (s.isExternal && g.isProgram s.owner)

def designated? (g : Graph) (name : String) : Option SymbolId :=
  g.external? name <|> g.symbols.findIdx? (·.name = name)

def designate (g : Graph) (name : String) : Except Fault SymbolId :=
  match g.designated? name with
  | some id => .ok id
  | none => .error (.unresolved "<driver>" name)

def roots (g : Graph) (extra : List String) : Except Fault (List SymbolId) := do
  let designated ← extra.mapM g.designate
  let own := g.symbolIds.filter fun id => g.symbols[id]?.any g.isRoot
  return Ordered.ofList (own ++ designated)

def label (g : Graph) : Node → String
  | .symbol id => g.qualifiedName id
  | .dispatch id => s!"<dyn {g.capabilityName id}>"

def renderEdges (g : Graph) (n : Node) : String :=
  String.join ((g.successors n).map fun next => s!"  -> {g.label next}\n")

def renderSymbol (g : Graph) (id : SymbolId) (s : Symbol) : String :=
  s!"{s.kind.name} {g.qualifiedName id} [{s.visibility.name}, {s.space.name}]" ++
    (if s.isKernel then " kernel" else "") ++ "\n" ++ g.renderEdges (.symbol id)

def render (g : Graph) : String :=
  String.join (g.symbols.zipIdx.map fun (s, id) => g.renderSymbol id s) ++
    String.join (g.sites.zipIdx.map fun (site, id) =>
      s!"dispatch <dyn {site.capability}>\n" ++ g.renderEdges (.dispatch id))

end Graph

end DeviceLink
