/-!
# Hexadecimal digits

Digits are written in lower case and read in either case.
-/

namespace Bindery.Hex

/-- The digit of a number modulo sixteen. -/
def digit (n : Nat) : Char := Nat.digitChar (n % 16)

/-- The value of a digit. -/
def value? (c : Char) : Option Nat :=
  if '0' ≤ c ∧ c ≤ '9' then some (c.toNat - '0'.toNat)
  else if 'a' ≤ c ∧ c ≤ 'f' then some (c.toNat - 'a'.toNat + 10)
  else if 'A' ≤ c ∧ c ≤ 'F' then some (c.toNat - 'A'.toNat + 10)
  else none

/-- The last `width` digits of a number. -/
def digits : Nat → Nat → List Char
  | 0, _ => []
  | width + 1, n => digits width (n / 16) ++ [digit n]

/-- The number that some digits spell. -/
def number? (cs : List Char) : Option Nat :=
  (cs.mapM value?).map fun ds => ds.foldl (fun n d => n * 16 + d) 0

end Bindery.Hex
