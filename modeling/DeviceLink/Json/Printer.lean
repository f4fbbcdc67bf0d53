import DeviceLink.Json.Basic
import DeviceLink.Ordered

namespace DeviceLink

def Bytes.ofNat (n : Nat) : Bytes :=
  (Nat.toDigits 10 n).map Char.toUInt8

namespace Number

def sign (negative : Bool) : Bytes := if negative then .ofString "-" else []

def point (fraction : List (Fin 10)) : Bytes :=
  if fraction.isEmpty then [] else .ofString "." ++ fraction.flatMap (Bytes.ofNat ·.val)

def print : Number → Bytes
  | .int negative n => sign negative ++ .ofNat n
  | .real negative n fraction e =>
    sign negative ++ .ofNat n ++ point fraction ++ .ofString "e" ++ sign (e < 0) ++ .ofNat e.natAbs

end Number

namespace Json

def hexDigit (n : Nat) : UInt8 := (Nat.digitChar n).toUInt8

def escape (b : UInt8) : Bytes :=
  if b = 0x22 then .ofString "\\\""
  else if b = 0x5c then .ofString "\\\\"
  else if b = 0x08 then .ofString "\\b"
  else if b = 0x09 then .ofString "\\t"
  else if b = 0x0a then .ofString "\\n"
  else if b = 0x0c then .ofString "\\f"
  else if b = 0x0d then .ofString "\\r"
  else if b < 0x20 then .ofString "\\u00" ++ [hexDigit (b.toNat / 16), hexDigit (b.toNat % 16)]
  else [b]

def quoted (s : Bytes) : Bytes := 0x22 :: s.flatMap escape ++ [0x22]

def atom : Json → Bytes
  | .null => .ofString "null"
  | .bool true => .ofString "true"
  | .bool false => .ofString "false"
  | .number n => n.print
  | .string s => quoted s
  | .array _ => .ofString "[]"
  | .object _ => .ofString "\x7b\x7d"

mutual

def compact : Json → Bytes
  | .array (x :: rest) => 0x5b :: x.compact ++ compactItems rest
  | .object ((k, x) :: rest) => 0x7b :: quoted k ++ 0x3a :: x.compact ++ compactMembers rest
  | j => j.atom

def compactItems : List Json → Bytes
  | [] => [0x5d]
  | x :: rest => 0x2c :: x.compact ++ compactItems rest

def compactMembers : List (Bytes × Json) → Bytes
  | [] => [0x7d]
  | (k, x) :: rest => 0x2c :: quoted k ++ 0x3a :: x.compact ++ compactMembers rest

end

def newline (level : Nat) : Bytes := 0x0a :: List.replicate (2 * level) 0x20

mutual

def indented (level : Nat) : Json → Bytes
  | .array (x :: rest) =>
    0x5b :: newline (level + 1) ++ x.indented (level + 1) ++ indentedItems level rest
  | .object ((k, x) :: rest) =>
    0x7b :: newline (level + 1) ++ quoted k ++ .ofString ": " ++ x.indented (level + 1) ++
      indentedMembers level rest
  | j => j.atom

def indentedItems (level : Nat) : List Json → Bytes
  | [] => newline level ++ [0x5d]
  | x :: rest => 0x2c :: newline (level + 1) ++ x.indented (level + 1) ++ indentedItems level rest

def indentedMembers (level : Nat) : List (Bytes × Json) → Bytes
  | [] => newline level ++ [0x7d]
  | (k, x) :: rest =>
    0x2c :: newline (level + 1) ++ quoted k ++ .ofString ": " ++ x.indented (level + 1) ++
      indentedMembers level rest

end

def pretty (j : Json) : Bytes := j.indented 0

mutual

def sortKeys : Json → Json
  | .array items => .array (sortKeysItems items)
  | .object members => .object (Ordered.table (sortKeysMembers members))
  | j => j

def sortKeysItems : List Json → List Json
  | [] => []
  | x :: rest => x.sortKeys :: sortKeysItems rest

def sortKeysMembers : List (Bytes × Json) → List (Bytes × Json)
  | [] => []
  | (k, x) :: rest => (k, x.sortKeys) :: sortKeysMembers rest

end

end Json

end DeviceLink
