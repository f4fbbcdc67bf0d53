import DeviceLink.Command.Arguments
import DeviceLink.Command.Host
import DeviceLink.Graph.Closure
import DeviceLink.Ir.Listing
import DeviceLink.Manifest

/-!
The commands. Each of them reads files, prints, and either ends well or says what went wrong; nothing
else of the machine is touched.
-/

namespace DeviceLink.Command

inductive Failure where
  | unreadable (path : String) (error : SystemError)
  | unwritable (path : String) (error : SystemError)
  | notBitcode (path : String) (error : Container.Error)
  | undecodable (path : String) (error : Container.Error)
  | nameless (path : String)
  | manifest (path : String) (fault : Fault)
  | session (report : Report) (fault : Fault)

namespace Failure

def message : Failure → String
  | .unreadable path error => s!"cannot read {path}: {error.message}"
  | .unwritable path error => s!"cannot write {path}: {error.message}"
  | .notBitcode path error => s!"{path} is not a bitcode file: {error.message}"
  | .undecodable path error => s!"cannot decode {path}: {error.message}"
  | .nameless path => s!"{path} holds a module without a name"
  | .manifest path fault => s!"cannot load session manifest {path}: {fault.message}"
  | .session report fault => s!"{report.summary}: {fault.message}"

def diagnostics : Failure → List Diagnostic
  | .session report _ => report.diagnostics
  | _ => []

end Failure

variable {m : Type → Type} [Monad m]

abbrev Task (m : Type → Type) := ExceptT Failure m

def print (host : Host m) (text : String) : Task m Unit := host.out (.ofString text)

def complain (host : Host m) (text : String) : m Unit := host.err (.ofString s!"{text}\n")

def readFile (host : Host m) (path : String) : Task m Bytes := do
  match ← host.read path with
  | .ok bytes => return bytes
  | .error error => throw (.unreadable path error)

def writeFile (host : Host m) (path : String) (bytes : Bytes) : Task m Unit := do
  match ← host.write path bytes with
  | .ok () => return ()
  | .error error => throw (.unwritable path error)

def parseManifest (path : String) (read : Except SystemError Bytes) : Except Fault Manifest := do
  match read with
  | .error error => throw (.system s!"{path}: {error.message}")
  | .ok bytes =>
    if bytes.toString?.isNone then throw (.system s!"{path}: stream did not contain valid UTF-8")
    return (← Manifest.parse bytes).located path

def readManifest (host : Host m) (path : String) : Task m Manifest := do
  match parseManifest path (← host.read path) with
  | .ok manifest => return manifest
  | .error fault => throw (.manifest path fault)

def needed (s : Session) : Except Fault (List String) := do
  let g ← Graph.build s.units
  let roots ← g.roots s.options.extraRoots
  return (g.neededModules roots).map g.moduleName

def openSession (host : Host m) (path : String) (flags : LinkFlags) : Task m Session := do
  let manifest ← readManifest host path
  let manifest := { manifest with options := some (flags.apply (manifest.options.getD {})) }
  let sketch := manifest.toSession {} fun _ => .error ""
  let paths := ((needed sketch).toOption.getD []).filterMap manifest.files.path?
  let files : List (String × Except SystemError Bytes) ← paths.mapM fun path => do
    return (path, ← host.read path)
  return manifest.toSession {} fun path =>
    match files.lookup path with
    | some (.ok bytes) => .ok bytes
    | some (.error error) => .error error.message
    | none => .error SystemError.notFound.message

def perform {α : Type} (s : Session) (action : Session.Action α) : Task m (α × Session) :=
  match action.run.run s with
  | (.ok a, s) => return (a, s)
  | (.error fault, s) => throw (.session s.report fault)

def abi (o : Output) : Json :=
  Json.sortKeys (.ofFields [("kernels", .ofStrings o.linked.kernels),
    ("abi_surface", .ofStrings o.linked.abiSurface), ("host_globals", .ofStrings o.linked.hostGlobals),
    ("block_scoped", .ofStrings o.linked.blockScoped), ("segments", o.linked.segments.toJson),
    ("stats", o.stats.toJson)])

def link (host : Host m) (manifest output : String) (listing abiFile : Option String) (flags : LinkFlags) :
    Task m Unit := do
  let session ← openSession host manifest flags
  let (result, session) ← perform session Session.run
  ExceptT.lift (session.report.diagnostics.forM fun d => complain host d.render)
  writeFile host output result.bitcode
  listing.forM fun path => writeFile host path (.ofString result.linked.code.render)
  abiFile.forM fun path => writeFile host path (abi result).pretty
  let stats := result.stats
  print host (s!"{output}: {result.linked.kernels.length} kernels, " ++
    s!"{stats.modulesLoaded}/{stats.modulesTotal} modules loaded, " ++
    s!"{stats.symbolsReachable}/{stats.symbolsTotal} symbols kept\n")

def inspect (host : Host m) (path : String) : Task m Unit := do
  let bytes ← readFile host path
  match Container.peek bytes, Container.decode bytes with
  | .error error, _ => throw (.notBitcode path error)
  | _, .error error => throw (.undecodable path error)
  | .ok version, .ok code => print host (s!"; {path} (IR {version.render})\n" ++ code.render)

def listing (a : Analysis) : String :=
  let stats := a.stats
  a.graph.render ++ "\nroots:\n" ++ String.join (a.rootNames.map fun name => s!"  {name}\n") ++
    "reachable:\n" ++
    String.join ((a.reached.marks.symbols a.graph).map fun id => s!"  {a.graph.qualifiedName id}\n") ++
    s!"{stats.modulesLoaded}/{stats.modulesTotal} modules loaded, {stats.runtimeChecks} runtime checks\n"

def graph (host : Host m) (manifest : String) (flags : LinkFlags) : Task m Unit := do
  let session ← openSession host manifest flags
  let (analysis, _) ← perform session Session.analyze
  print host (listing analysis)

def describe (host : Host m) (path : String) (library : Bool) : Task m Unit := do
  let bytes ← readFile host path
  match Container.decode bytes with
  | .error error => throw (.undecodable path error)
  | .ok code =>
    if code.name = "" then throw (.nameless path)
    let kind := if library then .library else .program
    host.out ((CompiledUnit.describe code kind).toJson.pretty ++ .ofString "\n")

def usage : String :=
  "NVVM Codegen link driver\n\nUsage: nvcg [OPTIONS] <COMMAND>\n\nCommands:\n" ++
    "  link      Link every unit of a session manifest into one bitcode file\n" ++
    "  inspect   Decode a bitcode file and print its IR\n" ++
    "  graph     Print the dependency graph of a session, its roots and what is reachable\n" ++
    "  describe  Print the symbol table and reference manifest of a bitcode file as JSON\n" ++
    "  help      Print this message or the help of the given subcommand(s)\n\nOptions:\n" ++
    "  -v, --verbose...  More log output (-v info, -vv debug)\n  -h, --help        Print help\n" ++
    "  -V, --version     Print version\n"

def task (host : Host m) : Request → Task m Unit
  | .link manifest output listing abiFile flags => link host manifest output listing abiFile flags
  | .inspect file => inspect host file
  | .graph manifest flags => graph host manifest flags
  | .describe file library => describe host file library
  | .version => print host "nvcg 0.1.0\n"
  | .help => print host usage

def run (host : Host m) (args : List String) : m UInt32 := do
  match parse args with
  | none =>
    complain host "error: the arguments are not understood"
    host.err (.ofString usage)
    return 2
  | some request =>
    match ← (task host request).run with
    | .ok () => return 0
    | .error failure =>
      failure.diagnostics.forM fun d => complain host d.render
      complain host s!"error: {failure.message}"
      return 1

end DeviceLink.Command
