import DeviceLink.Linked
import DeviceLink.Workers

namespace DeviceLink

structure Stats where
  modulesTotal : Nat
  modulesLoaded : Nat
  symbolsTotal : Nat
  symbolsReachable : Nat
  runtimeChecks : Nat
  readsPerModule : Table Nat

def Stats.toJson (s : Stats) : Json :=
  .ofFields [("modules_total", .ofNat s.modulesTotal), ("modules_loaded", .ofNat s.modulesLoaded),
    ("symbols_total", .ofNat s.symbolsTotal), ("symbols_reachable", .ofNat s.symbolsReachable),
    ("runtime_checks", .ofNat s.runtimeChecks),
    ("reads_per_module", .ofFields (s.readsPerModule.entries.map fun e => (e.1, .ofNat e.2)))]

structure Analysis where
  graph : Graph
  loader : Loader
  reached : Reached

namespace Analysis

def stats (a : Analysis) : Stats where
  modulesTotal := a.graph.modules.length
  modulesLoaded := a.loader.loadedCount
  symbolsTotal := a.graph.symbols.length
  symbolsReachable := (a.reached.marks.symbols a.graph).length
  runtimeChecks := a.reached.runtimeChecks
  readsPerModule := .ofList (a.graph.modules.zipIdx.map fun (m, id) => (m.name, a.loader.reads id))

def rootNames (a : Analysis) : List String := a.reached.roots.map a.graph.qualifiedName

def idle (a : Analysis) : List String :=
  a.graph.modules.zipIdx.filterMap fun (m, id) =>
    if m.kind = .program && !m.symbols.isEmpty && !a.loader.isLoaded id then some m.name else none

def idleMessage (name : String) : String := s!"crate `{name}` has no reachable symbols"

end Analysis

structure Output where
  linked : Linked
  bitcode : Bytes
  stats : Stats

structure Session where
  units : List CompiledUnit := []
  source : Source
  options : Options := {}
  report : Report := {}

namespace Session

abbrev Action := ExceptT Fault (StateM Session)

def add (s : Session) (u : CompiledUnit) : Session := { s with units := s.units ++ [u] }

def addLibrary (s : Session) (u : CompiledUnit) : Session := s.add { u with kind := .library }

def record {α : Type} (r : Except Fault α) : Action α := do
  match r with
  | .ok a => return a
  | .error fault =>
    modify fun s => { s with report := s.report.fail fault }
    throw fault

/-- Every fault of a walk is reported, and the first of them ends the action. -/
def recordWalk {α : Type} (r : Except Walk.Failure α) : Action α := do
  match r with
  | .ok a => return a
  | .error failure =>
    modify fun s => { s with report := failure.faults.foldl Report.fail s.report }
    throw failure.first

def warn (message : String) : Action Unit :=
  modify fun s => { s with report := s.report.warn message .unknown }

def checkSegments (m : SegmentMap) : Except Fault Unit :=
  match m.fault? with
  | some error => .error (.internal (.placement error))
  | none => .ok ()

def buildGraph : Action Graph := do
  let s ← get
  record (checkSegments s.options.segments)
  record (Graph.build s.units)

def program (s : Session) (graph : Graph) : Program where
  graph
  source := s.source
  segments := s.options.segments
  strict := s.options.strict

def analyzeBy (strategy : Strategy) : Action Analysis := do
  let graph ← buildGraph
  let s ← get
  let roots ← record (graph.roots s.options.extraRoots)
  let (outcome, loader) := strategy.explore (s.program graph) roots
  let reached ← recordWalk outcome
  let analysis : Analysis := { graph, loader, reached }
  analysis.idle.forM fun name => warn (Analysis.idleMessage name)
  return analysis

def analyze : Action Analysis := analyzeBy .alone

def runBy (strategy : Strategy) : Action Output := do
  let analysis ← analyzeBy strategy
  let s ← get
  let linked ← record (Linked.link analysis.graph analysis.reached s.options)
  return { linked, bitcode := Container.encode .current linked.code, stats := analysis.stats }

def run : Action Output := runBy .alone

end Session

end DeviceLink
