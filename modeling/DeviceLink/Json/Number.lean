/-!
Numbers as they are written, and which of them a double can hold.

A number is brought into a double in two steps. Its digits are gathered into a word of 64 bits, and what
is left is a power of ten; then the word and the power are each rounded to a double and multiplied. The
product may lie a little above the number, so the largest numbers that have a double near them are too
large all the same.
-/

namespace DeviceLink

inductive Number where
  | int (negative : Bool) (magnitude : Nat)
  | real (negative : Bool) (whole : Nat) (fraction : List (Fin 10)) (exponent : Int)
  deriving DecidableEq

namespace Number

def leading (n : Nat) : Nat × Nat :=
  if n < 1 <<< 64 then (n, 0)
  else
    let (word, behind) := leading (n / 10)
    (word, behind + 1)

def extend (word : Nat) : List (Fin 10) → Nat × Nat
  | [] => (word, 0)
  | d :: rest =>
    if word * 10 + d < 1 <<< 64 then
      let (word, taken) := extend (word * 10 + d) rest
      (word, taken + 1)
    else (word, 0)

def scientific : Number → Nat × Int
  | .int _ n =>
    let (word, behind) := leading n
    (word, behind)
  | .real _ whole fraction exponent =>
    let (word, behind) := leading whole
    let (word, taken) := extend word fraction
    (word, behind - taken + exponent)

/-- The nearest number of 53 significant bits; of two that are equally near, the even one. -/
def nearest (n : Nat) : Nat :=
  let unit := 1 <<< (n.log2 + 1 - 53)
  let (q, r) := (n / unit, n % unit)
  if unit < 2 * r || (unit = 2 * r && q % 2 = 1) then (q + 1) * unit else q * unit

/-- The least magnitude that is nearer to the double after the largest one: `2 ^ 1024 - 2 ^ 970`. -/
def doubleLimit : Nat := 1 <<< 1024 - 1 <<< 970

def maxPower : Nat := 308

def isFinite (n : Number) : Bool :=
  match n.scientific with
  | (_, .negSucc _) => true
  | (word, .ofNat e) =>
    word = 0 || (e ≤ maxPower && nearest word * nearest (Nat.pow 10 e) < doubleLimit)

end Number

end DeviceLink
