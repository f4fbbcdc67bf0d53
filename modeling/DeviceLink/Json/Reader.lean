import DeviceLink.Json.Basic
import DeviceLink.Table

/-!
Reading typed values out of JSON. A reader is told how many more brackets may be opened, and refuses
a value that opens more. A record is an object with the named fields in any order, or a list of the
fields in order; members with other names are skipped whatever they hold.
-/

namespace DeviceLink.Json

abbrev Reader (α : Type) := (room : Nat) → Json → Option α

def maxDepth : Nat := 127

def itemsOf {α : Type} (read : Json → Option α) : Json → Option (List α)
  | .array items => items.mapM read
  | _ => none

namespace Reader

variable {α β : Type}

def string : Reader String
  | _, .string s => s.toString?
  | _, _ => none

def bool : Reader Bool
  | _, .bool b => some b
  | _, _ => none

def nat (bound : Nat) : Reader Nat
  | _, .number (.int false n) => if n < bound then some n else none
  | _, _ => none

def uint16 : Reader UInt16 := fun room j => (nat UInt16.size room j).map UInt16.ofNat

def uint32 : Reader UInt32 := fun room j => (nat UInt32.size room j).map UInt32.ofNat

def uint64 : Reader UInt64 := fun room j => (nat UInt64.size room j).map UInt64.ofNat

def int64 : Reader Int64
  | _, .number (.int false n) => if n < 1 <<< 63 then some (Int64.ofInt n) else none
  | _, .number (.int true n) => if 0 < n ∧ n ≤ 1 <<< 63 then some (Int64.ofInt (-n)) else none
  | _, _ => none

def nullable (read : Reader α) : Reader (Option α)
  | _, .null => some none
  | room, j => (read room j).map some

def list (read : Reader α) : Reader (List α)
  | room + 1, j => itemsOf (read room) j
  | 0, _ => none

def pair (first : Reader α) (second : Reader β) : Reader (α × β)
  | room + 1, .array [a, b] => do return (← first room a, ← second room b)
  | _, _ => none

def table (read : Reader α) : Reader (Table α)
  | room + 1, .object members => do
    let bindings ← members.mapM fun m => do return (← m.1.toString?, ← read room m.2)
    return .ofList bindings
  | _, _ => none

/-- One of a list of words, bare or as the only key of an object that holds null. -/
def word (words : List (String × α)) : Reader α
  | _, .string s => do words.lookup (← s.toString?)
  | _ + 1, .object [(k, .null)] => do words.lookup (← k.toString?)
  | _, _ => none

end Reader

inductive Record where
  | named (members : List (String × Json))
  | listed (items : List Json)

inductive Field where
  | given (value : Json)
  | unnamed
  | unlisted

abbrev Fields := StateT Record Option

namespace Fields

variable {α : Type}

def next (name : String) : Fields Field
  | .named members =>
    match members.filter (·.1 = name) with
    | [] => some (.unnamed, .named members)
    | [(_, value)] => some (.given value, .named members)
    | _ => none
  | .listed [] => some (.unlisted, .listed [])
  | .listed (value :: rest) => some (.given value, .listed rest)

def required (name : String) (read : Json → Option α) : Fields α := do
  match ← next name with
  | .given value => read value
  | .unnamed => failure
  | .unlisted => failure

def defaulted (name : String) (absent : α) (read : Json → Option α) : Fields α := do
  match ← next name with
  | .given value => read value
  | .unnamed => return absent
  | .unlisted => return absent

/-- A field that may be null, and may be left out of an object though not out of a list. -/
def optional (name : String) (read : Json → Option α) : Fields (Option α) := do
  match ← next name with
  | .given .null => return none
  | .given value => some <$> read value
  | .unnamed => return none
  | .unlisted => failure

end Fields

def record {α : Type} (fields : Fields α) : Json → Option α
  | .object members => do
    let named ← members.mapM fun m => do return (← m.1.toString?, m.2)
    let (a, _) ← fields (.named named)
    return a
  | .array items => do
    match ← fields (.listed items) with
    | (a, .listed []) => return a
    | _ => none
  | _ => none

def Reader.record {α : Type} (fields : Nat → Fields α) : Reader α
  | room + 1, j => Json.record (fields room) j
  | 0, _ => none

inductive Choice where
  | bare (tag : String)
  | tagged (tag : String) (body : Json)

def choice : (room : Nat) → Json → Option (Choice × Nat)
  | room, .string s => s.toString?.map fun tag => (.bare tag, room)
  | room + 1, .object [(k, body)] => k.toString?.map fun tag => (.tagged tag body, room)
  | _, _ => none

end DeviceLink.Json
