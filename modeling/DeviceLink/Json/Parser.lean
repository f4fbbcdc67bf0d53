import DeviceLink.Json.Basic

/-!
Reading JSON from bytes. The grammar is strict: no trailing commas, no leading zeros, no control
characters inside strings, and only blanks around the one value. A string is taken as it stands, so an
escaped half of a surrogate pair or a stray byte does not end the reading; it leaves a byte string
that holds no text.
-/

namespace DeviceLink.Json

def isBlank (b : UInt8) : Bool := b = 0x20 || b = 0x09 || b = 0x0a || b = 0x0d

def skipBlanks (s : Bytes) : Bytes := s.dropWhile isBlank

def isDigit (b : UInt8) : Bool := 0x30 ≤ b && b ≤ 0x39

def digitsValue (ds : Bytes) : Nat := Nat.ofDigitChars 10 (ds.map Char.ofUInt8) 0

def hexValue (b : UInt8) : Option Nat :=
  if isDigit b then some (b.toNat - 0x30)
  else if 0x61 ≤ b && b ≤ 0x66 then some (b.toNat - 0x61 + 10)
  else if 0x41 ≤ b && b ≤ 0x46 then some (b.toNat - 0x41 + 10)
  else none

def hexQuad (a b c d : UInt8) : Option Nat := do
  return (((← hexValue a) * 16 + (← hexValue b)) * 16 + (← hexValue c)) * 16 + (← hexValue d)

/-- The bytes of a code point. A surrogate gets the three bytes its number asks for, which no text has. -/
def codePoint (n : Nat) : Bytes :=
  if n < 0x80 then [n.toUInt8]
  else if n < 0x800 then [(0xc0 + n / 0x40).toUInt8, (0x80 + n % 0x40).toUInt8]
  else if n < 0x10000 then
    [(0xe0 + n / 0x1000).toUInt8, (0x80 + n / 0x40 % 0x40).toUInt8, (0x80 + n % 0x40).toUInt8]
  else
    [(0xf0 + n / 0x40000).toUInt8, (0x80 + n / 0x1000 % 0x40).toUInt8,
      (0x80 + n / 0x40 % 0x40).toUInt8, (0x80 + n % 0x40).toUInt8]

def isHighSurrogate (n : Nat) : Bool := 0xd800 ≤ n && n < 0xdc00

def isLowSurrogate (n : Nat) : Bool := 0xdc00 ≤ n && n < 0xe000

def simpleEscape (b : UInt8) : Option UInt8 :=
  if b = 0x22 then some 0x22
  else if b = 0x5c then some 0x5c
  else if b = 0x2f then some 0x2f
  else if b = 0x62 then some 0x08
  else if b = 0x66 then some 0x0c
  else if b = 0x6e then some 0x0a
  else if b = 0x72 then some 0x0d
  else if b = 0x74 then some 0x09
  else none

inductive Piece where
  | byte (b : UInt8)
  | unit (n : Nat)

def pieces : Bytes → Option (List Piece × Bytes)
  | [] => none
  | 0x22 :: rest => some ([], rest)
  | 0x5c :: 0x75 :: a :: b :: c :: d :: rest => do
    let n ← hexQuad a b c d
    let (ps, rest) ← pieces rest
    return (.unit n :: ps, rest)
  | 0x5c :: e :: rest => do
    let b ← simpleEscape e
    let (ps, rest) ← pieces rest
    return (.byte b :: ps, rest)
  | b :: rest =>
    if b < 0x20 || b = 0x5c then none
    else do
      let (ps, rest) ← pieces rest
      return (.byte b :: ps, rest)

def spell : List Piece → Bytes
  | [] => []
  | .byte b :: rest => b :: spell rest
  | .unit n :: .unit m :: rest =>
    if isHighSurrogate n && isLowSurrogate m then
      codePoint (0x10000 + (n - 0xd800) * 0x400 + (m - 0xdc00)) ++ spell rest
    else codePoint n ++ spell (.unit m :: rest)
  | .unit n :: rest => codePoint n ++ spell rest

def stringBody (s : Bytes) : Option (Bytes × Bytes) :=
  (pieces s).map fun p => (spell p.1, p.2)

def digits (s : Bytes) : Option (Bytes × Bytes) :=
  match s.span isDigit with
  | ([], _) => none
  | (ds, rest) => some (ds, rest)

def wholePart : Bytes → Option (Bytes × Bytes)
  | 0x30 :: rest => some ([0x30], rest)
  | s => digits s

def digit (b : UInt8) : Fin 10 := Fin.ofNat 10 (b.toNat - 0x30)

def fraction : Bytes → Option (List (Fin 10) × Bytes)
  | 0x2e :: rest => (digits rest).map fun p => (p.1.map digit, p.2)
  | s => some ([], s)

def exponentDigits : Bytes → Option (Int × Bytes)
  | 0x2b :: rest => (digits rest).map fun p => (digitsValue p.1, p.2)
  | 0x2d :: rest => (digits rest).map fun p => (-digitsValue p.1, p.2)
  | s => (digits s).map fun p => (digitsValue p.1, p.2)

def exponent : Bytes → Option (Option Int × Bytes)
  | 0x65 :: rest => (exponentDigits rest).map fun p => (some p.1, p.2)
  | 0x45 :: rest => (exponentDigits rest).map fun p => (some p.1, p.2)
  | s => some (none, s)

def magnitude (negative : Bool) (s : Bytes) : Option (Number × Bytes) := do
  let (whole, s) ← wholePart s
  let (frac, s) ← fraction s
  let (exp, s) ← exponent s
  match frac, exp with
  | [], none => some (.int negative (digitsValue whole), s)
  | _, _ => some (.real negative (digitsValue whole) frac (exp.getD 0), s)

def numeral : Bytes → Option (Number × Bytes)
  | 0x2d :: rest => magnitude true rest
  | s => magnitude false s

def literal (name : String) (s : Bytes) : Option Bytes :=
  let bytes := Bytes.ofString name
  if bytes.isPrefixOf s then some (s.drop bytes.length) else none

mutual

def value : (fuel : Nat) → Bytes → Option (Json × Bytes)
  | 0, _ => none
  | fuel + 1, s =>
    match skipBlanks s with
    | 0x22 :: rest => (stringBody rest).map fun p => (.string p.1, p.2)
    | 0x5b :: rest =>
      match skipBlanks rest with
      | 0x5d :: rest => some (.array [], rest)
      | rest => (items fuel rest).map fun p => (.array p.1, p.2)
    | 0x7b :: rest =>
      match skipBlanks rest with
      | 0x7d :: rest => some (.object [], rest)
      | rest => (members fuel rest).map fun p => (.object p.1, p.2)
    | 0x6e :: rest => (literal "ull" rest).map fun rest => (.null, rest)
    | 0x74 :: rest => (literal "rue" rest).map fun rest => (.bool true, rest)
    | 0x66 :: rest => (literal "alse" rest).map fun rest => (.bool false, rest)
    | rest => (numeral rest).map fun p => (.number p.1, p.2)

def items : (fuel : Nat) → Bytes → Option (List Json × Bytes)
  | 0, _ => none
  | fuel + 1, s => do
    let (x, rest) ← value fuel s
    match skipBlanks rest with
    | 0x2c :: rest => (items fuel rest).map fun p => (x :: p.1, p.2)
    | 0x5d :: rest => some ([x], rest)
    | _ => none

def members : (fuel : Nat) → Bytes → Option (List (Bytes × Json) × Bytes)
  | 0, _ => none
  | fuel + 1, s =>
    match skipBlanks s with
    | 0x22 :: rest => do
      let (k, rest) ← stringBody rest
      match skipBlanks rest with
      | 0x3a :: rest =>
        let (x, rest) ← value fuel rest
        match skipBlanks rest with
        | 0x2c :: rest => (members fuel rest).map fun p => ((k, x) :: p.1, p.2)
        | 0x7d :: rest => some ([(k, x)], rest)
        | _ => none
      | _ => none
    | _ => none

end

/-- The one value that the bytes hold. Two calls stand for each bracket or comma, so twice the length is
enough for all of them. -/
def parse (s : Bytes) : Option Json :=
  match value (2 * s.length + 2) s with
  | some (j, rest) => if skipBlanks rest = [] then some j else none
  | none => none

end DeviceLink.Json
