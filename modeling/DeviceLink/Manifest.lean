import DeviceLink.Path
import DeviceLink.Session

namespace DeviceLink

namespace Json

mutual

def isSound : Json → Bool
  | .number n => n.isFinite
  | .string s => s.toString?.isSome
  | .array items => isSoundItems items
  | .object members => isSoundMembers members
  | _ => true

def isSoundItems : List Json → Bool
  | [] => true
  | x :: rest => x.isSound && isSoundItems rest

def isSoundMembers : List (Bytes × Json) → Bool
  | [] => true
  | (k, x) :: rest => k.toString?.isSome && x.isSound && isSoundMembers rest

end

mutual

def emptyToNull : Json → Json
  | .array items => .array (emptyToNullItems items)
  | .object [] => .null
  | .object members => .object (emptyToNullMembers members)
  | j => j

def emptyToNullItems : List Json → List Json
  | [] => []
  | x :: rest => x.emptyToNull :: emptyToNullItems rest

def emptyToNullMembers : List (Bytes × Json) → List (Bytes × Json)
  | [] => []
  | (k, x) :: rest => (k, x.emptyToNull) :: emptyToNullMembers rest

end

end Json

structure UnitEntry where
  unit : CompiledUnit
  bitcode : Option String := none
  deriving DecidableEq

namespace UnitEntry

def toJson (e : UnitEntry) : Json :=
  .ofFields (e.unit.fields ++ [("bitcode", .ofOption .ofString e.bitcode)])

/-- The fields of the unit stand beside the file. They are held back until the whole entry is read, so
even those that are skipped keep to the allowed nesting, and an empty object among them is as good as
null. -/
def read : Json.Reader UnitEntry
  | room + 1, .object members => do
    let named ← members.mapM fun m => do return (← m.1.toString?, m.2)
    let (bitcode, _) ← Json.Fields.defaulted "bitcode" none (Json.Reader.nullable .string room) (.named named)
    let others := named.filter (·.1 ≠ "bitcode")
    guard (others.all fun m => m.2.depth ≤ room && m.2.isSound)
    let (unit, _) ← CompiledUnit.readFields room (.named (others.map fun m => (m.1, m.2.emptyToNull)))
    return { unit, bitcode }
  | _, _ => none

def located (dir : String) (e : UnitEntry) : UnitEntry :=
  { e with bitcode := some (Path.join dir (e.bitcode.getD (e.unit.name ++ ".bc"))) }

end UnitEntry

structure FileIndex where
  dir : Option String := none
  paths : List (String × String) := []

namespace FileIndex

def add (f : FileIndex) (unit path : String) : FileIndex := { f with paths := (unit, path) :: f.paths }

def path? (f : FileIndex) (unit : String) : Option String :=
  f.paths.lookup unit <|> f.dir.map fun dir => Path.join dir (unit ++ ".bc")

def locate (f : FileIndex) (unit : String) : Except String String :=
  match f.path? unit with
  | some path => .ok path
  | none => .error s!"no bitcode path for `{unit}`"

def source (f : FileIndex) (read : String → Except String Bytes) : Source := fun unit => do
  let path ← f.locate unit
  match read path with
  | .ok bytes => return bytes
  | .error reason => throw s!"{path}: {reason}"

end FileIndex

structure Manifest where
  units : List UnitEntry
  kernels : List String := []
  options : Option Options := none
  deriving DecidableEq

namespace Manifest

def toJson (m : Manifest) : Json :=
  .ofFields [("units", .ofList UnitEntry.toJson m.units), ("kernels", .ofStrings m.kernels),
    ("options", .ofOption Options.toJson m.options)]

def read : Json.Reader Manifest := .record fun room => do
  let units ← .required "units" (Json.Reader.list UnitEntry.read room)
  let kernels ← .defaulted "kernels" [] (Json.Reader.list .string room)
  let options ← .defaulted "options" none (Json.Reader.nullable Options.read room)
  return { units, kernels, options }

def parse (text : Bytes) : Except Fault Manifest :=
  match (Json.parse text).bind (read Json.maxDepth) with
  | some m => .ok m
  | none => .error (.internal .manifest)

def located (path : String) (m : Manifest) : Manifest :=
  { m with units := m.units.map (.located ((Path.parent? path).getD ".")) }

/-- The options of the session: those of the manifest take the place of the given ones, and its
kernels are roots as well. -/
def sessionOptions (m : Manifest) (given : Options) : Options :=
  let options := m.options.getD given
  { options with extraRoots := options.extraRoots ++ m.kernels }

def files (m : Manifest) : FileIndex :=
  m.units.foldl
    (fun f e =>
      match e.bitcode with
      | some path => f.add e.unit.name path
      | none => f)
    {}

def toSession (m : Manifest) (given : Options) (read : String → Except String Bytes) : Session where
  units := m.units.map (·.unit)
  source := m.files.source read
  options := m.sessionOptions given

end Manifest

end DeviceLink
