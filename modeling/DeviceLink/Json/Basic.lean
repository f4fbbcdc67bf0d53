import DeviceLink.Bytes
import DeviceLink.Json.Number

/-!
JSON values as they are written. Strings and keys are byte strings, members keep their order and
may repeat a key, and a number keeps the form in which it was given.
-/

namespace DeviceLink

inductive Json where
  | null
  | bool (b : Bool)
  | number (n : Number)
  | string (s : Bytes)
  | array (items : List Json)
  | object (members : List (Bytes × Json))

namespace Json

def ofString (s : String) : Json := .string (.ofString s)

def ofNat (n : Nat) : Json := .number (.int false n)

def ofInt (i : Int) : Json := .number (.int (i < 0) i.natAbs)

def ofStrings (names : List String) : Json := .array (names.map ofString)

def ofOption {α : Type} (write : α → Json) : Option α → Json
  | none => .null
  | some a => write a

def ofList {α : Type} (write : α → Json) (xs : List α) : Json := .array (xs.map write)

def ofFields (fields : List (String × Json)) : Json :=
  .object (fields.map fun f => (.ofString f.1, f.2))

def tagged (tag : String) (body : Json) : Json := ofFields [(tag, body)]

mutual

def depth : Json → Nat
  | .array items => depthItems items + 1
  | .object members => depthMembers members + 1
  | _ => 0

def depthItems : List Json → Nat
  | [] => 0
  | x :: rest => max x.depth (depthItems rest)

def depthMembers : List (Bytes × Json) → Nat
  | [] => 0
  | (_, x) :: rest => max x.depth (depthMembers rest)

end

end Json

end DeviceLink
