import DeviceLink.Graph.Basic

/-!
The graph of a list of units. Symbols are numbered in the order of the units and of their tables,
capabilities in the order of their names.
-/

namespace DeviceLink.Graph

/-- Kernels are external whatever their entry says. -/
def symbolOfEntry (owner : ModuleId) (e : SymbolEntry) : Symbol where
  name := e.name
  kind := e.kind
  space := e.space
  visibility := if e.isKernel then .external else e.visibility
  owner
  isKernel := e.isKernel

def dispatched (u : CompiledUnit) : List String :=
  u.references.filterMap fun r =>
    match r.target with
    | .dispatch c => some c
    | .symbol _ => none

def addSymbol (g : Graph) (s : Symbol) : Graph := { g with symbols := g.symbols ++ [s] }

def addExternal (g : Graph) (e : SymbolEntry) (id : SymbolId) : Graph :=
  if e.isExternal then
    match g.external? e.name with
    | some first => { g with duplicateExternals := g.duplicateExternals ++ [(first, id)] }
    | none => { g with externalNames := g.externalNames.insert e.name id }
  else g

def addModule (g : Graph) (m : ModuleInfo) (names : Table SymbolId) : Graph :=
  { g with modules := g.modules ++ [m], localNames := g.localNames ++ [names] }

def addSite (g : Graph) (id : SiteId) (site : DispatchSite) : Graph :=
  { g with
    sites := g.sites ++ [site]
    dispatchEdges := g.dispatchEdges ++ [site.implementations.map .symbol]
    capabilities := g.capabilities.insert site.capability id }

structure Draft where
  graph : Graph := {}
  -- the symbols that implement each capability
  implementers : Table (List SymbolId) := .empty
  -- what was read of the unit at hand
  names : Table SymbolId := .empty
  ids : List SymbolId := []

namespace Draft

def addEntry (u : CompiledUnit) (owner : ModuleId) (d : Draft) (e : SymbolEntry) : Except Fault Draft :=
  let id := d.graph.symbols.length
  if (d.names.find? e.name).isSome then .error (.internal (.symbolTwice e.name u.name))
  else .ok {
    graph := (d.graph.addExternal e id).addSymbol (symbolOfEntry owner e)
    implementers := d.implementers.extend e.implements [id]
    names := d.names.insert e.name id
    ids := d.ids ++ [id] }

/-- A capability that is dispatched on has a site even if nothing implements it. -/
def addUnit (d : Draft) (u : CompiledUnit) (owner : ModuleId) : Except Fault Draft :=
  if (d.graph.moduleId? u.name).isSome then .error (.internal (.unitTwice u.name))
  else do
    let d ← u.symbols.foldlM (addEntry u owner) d
    -- the next unit starts without names
    return {
      graph := d.graph.addModule ⟨u.name, u.kind, d.ids⟩ d.names
      implementers := d.implementers.extend (dispatched u) [] }

def addUnits (d : Draft) (units : List (CompiledUnit × ModuleId)) : Except Fault Draft :=
  units.foldlM (fun d u => d.addUnit u.1 u.2) d

def addSites (d : Draft) : Graph :=
  d.implementers.entries.zipIdx.foldl (fun g (b, id) => g.addSite id ⟨b.1, b.2⟩) d.graph

end Draft

def ofUnits (units : List CompiledUnit) : Except Fault Graph := Draft.addSites <$> ({} : Draft).addUnits units.zipIdx

def edgeOf (g : Graph) (u : CompiledUnit) (owner : ModuleId) (r : Reference) :
    Except Fault (SymbolId × Node) :=
  match g.own? owner r.referrer with
  | none => .error (.internal (.strangeReference u.name r.referrer))
  | some referrer =>
    match r.target with
    | .symbol name =>
      match g.resolve? owner name with
      | some id => .ok (referrer, .symbol id)
      | none => .error (.unresolved r.referrer name)
    | .dispatch capability =>
      match g.siteId? capability with
      | some id => .ok (referrer, .dispatch id)
      | none => .error (.internal (.noSite capability))

def edgesOf (g : Graph) (units : List CompiledUnit) : Except Fault (List (SymbolId × Node)) := do
  return (← units.zipIdx.mapM fun (u, owner) => u.references.mapM (g.edgeOf u owner)).flatten

def addEdge (lists : List (List Node)) (e : SymbolId × Node) : List (List Node) := lists.modify e.1 (· ++ [e.2])

def build (units : List CompiledUnit) : Except Fault Graph := do
  let g ← ofUnits units
  let edges ← g.edgesOf units
  let lists := edges.foldl addEdge (g.symbols.map fun _ => [])
  return { g with edges := lists.map Ordered.ofList }

end DeviceLink.Graph
