import DeviceLink.Ir.Shape
import DeviceLink.Json.Parser
import DeviceLink.Json.Printer

/-!
The container of a compiled module: four letters, the version of the language in two little-endian
numbers of two bytes, and the module as JSON.
-/

namespace DeviceLink

structure Version where
  major : UInt16
  minor : UInt16
  deriving DecidableEq

namespace Version

def current : Version := ⟨2, 0⟩

def oldest : Version := ⟨1, 6⟩

instance : LT Version := ⟨fun v w => v.major < w.major ∨ (v.major = w.major ∧ v.minor < w.minor)⟩

instance : DecidableLT Version := fun v w =>
  inferInstanceAs (Decidable (v.major < w.major ∨ (v.major = w.major ∧ v.minor < w.minor)))

def render (v : Version) : String := s!"{v.major.toNat}.{v.minor.toNat}"

end Version

namespace Container

inductive Error where
  | badMagic
  | truncated (length : Nat)
  | tooOld (found : Version)
  | payload
  deriving DecidableEq

def Error.message : Error → String
  | .badMagic => "not a bitcode blob (bad magic)"
  | .truncated length => s!"truncated bitcode header ({length} bytes)"
  | .tooOld found => s!"IR version {found.render} is older than the minimum supported {Version.oldest.render}"
  | .payload => "malformed module payload: the text is not a module"

def magic : Bytes := .ofString "NVCB"

def littleEndian (n : UInt16) : Bytes := [(n.toNat % 256).toUInt8, (n.toNat / 256).toUInt8]

def ofLittleEndian (low high : UInt8) : UInt16 := UInt16.ofNat (low.toNat + 256 * high.toNat)

def header (v : Version) : Bytes := magic ++ littleEndian v.major ++ littleEndian v.minor

def wrap (v : Version) (payload : Bytes) : Bytes := header v ++ payload

def encode (v : Version) (m : Ir.Module) : Bytes := wrap v m.toJson.compact

def unwrap (b : Bytes) : Except Error (Version × Bytes) :=
  if b.length < 8 then
    if (b.take 4).isPrefixOf magic then .error (.truncated b.length) else .error .badMagic
  else if b.take 4 ≠ magic then .error .badMagic
  else
    match b.drop 4 with
    | p :: q :: r :: s :: payload => .ok (⟨ofLittleEndian p q, ofLittleEndian r s⟩, payload)
    | _ => .error (.truncated b.length)

def peek (b : Bytes) : Except Error Version := do return (← unwrap b).1

def readModule (payload : Bytes) : Option Ir.Module := do
  Ir.Module.read Json.maxDepth (← Json.parse payload)

def decode (b : Bytes) : Except Error Ir.Module := do
  let (version, payload) ← unwrap b
  if version < .oldest then throw (.tooOld version)
  match readModule payload with
  | some m => return m
  | none => throw .payload

end Container

end DeviceLink
