import DeviceLink.Json.Reader

namespace DeviceLink

inductive Space where
  | generic
  | global
  | shared
  | constant
  | threadLocal
  deriving DecidableEq, Inhabited

namespace Space

def specifics : List Space := [.global, .shared, .constant, .threadLocal]

def name : Space → String
  | .generic => "generic"
  | .global => "global"
  | .shared => "shared"
  | .constant => "constant"
  | .threadLocal => "local"

/-- The number of the space in `addrspace(N)`; 2 is no space. -/
def number : Space → Nat
  | .generic => 0
  | .global => 1
  | .shared => 3
  | .constant => 4
  | .threadLocal => 5

def all : List Space := .generic :: specifics

def ofNumber? (n : Nat) : Option Space := all.find? (·.number = n)

instance : LT Space := ⟨fun a b => a.number < b.number⟩

instance : DecidableLT Space := fun a b => inferInstanceAs (Decidable (a.number < b.number))

def isGeneric (s : Space) : Bool := s = .generic

def isSpecific (s : Space) : Bool := s ≠ .generic

/-- Shared memory belongs to a block and local memory to a thread, so the host sees neither. -/
def hasHostStorage (s : Space) : Bool := s ≠ .shared && s ≠ .threadLocal

def words : List (String × Space) := all.map fun s => (s.name, s)

def toJson (s : Space) : Json := .ofString s.name

def read : Json.Reader Space := .word words

theorem ofNumber?_number (s : Space) : ofNumber? s.number = some s := by cases s <;> rfl

end Space

end DeviceLink
