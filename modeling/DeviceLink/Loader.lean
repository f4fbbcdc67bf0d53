import DeviceLink.Fault

/-!
Reading modules on demand. A module is read at most once: its slot keeps what the first reading gave,
a failure as well as a module.
-/

namespace DeviceLink

open Ir (Module)

abbrev Source := String → Except String Bytes

namespace Source

def ofBlobs (blobs : List (String × Bytes)) : Source := fun name =>
  match blobs.reverse.lookup name with
  | some bytes => .ok bytes
  | none => .error s!"no bitcode registered for `{name}`"

def fetch (source : Source) (name : String) : Except LoadError Module :=
  match source name with
  | .error reason => .error (.unavailable reason)
  | .ok bytes =>
    match Container.decode bytes with
    | .error error => .error (.container error)
    | .ok m => if m.name = name then .ok m else .error (.misnamed m.name)

end Source

structure Slot where
  name : String
  outcome : Option (Except LoadError Module) := none
  reads : Nat := 0

def Slot.module? (s : Slot) : Option Module :=
  match s.outcome with
  | some (.ok m) => some m
  | _ => none

structure Loader where
  slots : List Slot := []

namespace Loader

def ofNames (names : List String) : Loader := ⟨names.map fun name => { name }⟩

def answer (name : String) : Except LoadError Module → Except Fault Module
  | .ok m => .ok m
  | .error error => .error (.load name error)

def load (l : Loader) (source : Source) (id : Nat) : Except Fault Module × Loader :=
  match l.slots[id]? with
  | none => (.error (.internal (.noSlot id)), l)
  | some s =>
    match s.outcome with
    | some outcome => (answer s.name outcome, l)
    | none =>
      let outcome := source.fetch s.name
      (answer s.name outcome, ⟨l.slots.set id { s with outcome := some outcome, reads := s.reads + 1 }⟩)

def get? (l : Loader) (id : Nat) : Option Module := l.slots[id]?.bind Slot.module?

def isLoaded (l : Loader) (id : Nat) : Bool := (l.get? id).isSome

def reads (l : Loader) (id : Nat) : Nat := (l.slots[id]?.map (·.reads)).getD 0

def name? (l : Loader) (id : Nat) : Option String := l.slots[id]?.map (·.name)

def loadedCount (l : Loader) : Nat := l.slots.countP fun s => s.module?.isSome

end Loader

end DeviceLink
