import Bindery.Binary.Format
import Bindery.IntType
/-!
# Double and single precision words

A word is kept as its bits. `numEq`, `numLe` and `numLt` are the numeric comparisons (a NaN differs
from itself, the two zeros agree); rounding goes through `FloatFormat.roundRatio`. A cast to an
integer type, `saturate`, cuts off the fraction and stops at the ends of the type; `cast?` takes
the words that lose nothing by it.
-/

namespace Bindery

-- Powers are those of the core library, whatever else is in scope.
attribute [local instance (5000)] instPowNat

/-- A double precision word. -/
structure Binary64 where
  bits : UInt64
  deriving DecidableEq

/-- A single precision word. -/
structure Binary32 where
  bits : UInt32
  deriving DecidableEq

namespace Binary64

/-- The format of double precision words. -/
abbrev format : FloatFormat := .binary64

/-- The sign bit. -/
def negative (x : Binary64) : Bool := format.signWeight ≤ x.bits.toNat

/-- The word without its sign bit. -/
def magnitude (x : Binary64) : Nat := x.bits.toNat % format.signWeight

/-- Neither an infinity nor a NaN. -/
def isFinite (x : Binary64) : Bool := x.magnitude < format.infinity

/-- Not a number. -/
def isNaN (x : Binary64) : Bool := format.infinity < x.magnitude

/-- An infinity. -/
def isInfinite (x : Binary64) : Bool := x.magnitude = format.infinity

/-- The word with this sign and magnitude. -/
def ofParts (negative : Bool) (magnitude : Nat) : Binary64 :=
  ⟨UInt64.ofNat (if negative then format.signWeight + magnitude else magnitude)⟩

/-- Positive zero. -/
def zero : Binary64 := ⟨0⟩

/-- A quiet NaN. -/
def nan : Binary64 := ⟨0x7ff8000000000000⟩

/-- The word nearest to `± num / den`. -/
def ofRatio (negative : Bool) (num den : Nat) : Binary64 :=
  ofParts negative (format.roundRatio num den)

/-- The word nearest to an integer. -/
def ofInt (i : Int) : Binary64 := ofRatio (i < 0) i.natAbs 1

/-- The word nearest to `± digits * 10 ^ exponent`. Exponents far outside the format's range are
settled by the number of digits alone. -/
def ofDecimal (negative : Bool) (digits : Nat) (exponent : Int) : Binary64 :=
  let point : Int := exponent + (Nat.toDigits 10 digits).length
  if digits = 0 ∨ point < -400 then ofParts negative 0
  else if 400 < point then ofParts negative format.infinity
  else ofRatio negative (digits * 10 ^ exponent.toNat) (10 ^ (-exponent).toNat)

/-- Numeric equality. -/
def numEq (x y : Binary64) : Bool :=
  !x.isNaN && !y.isNaN && (x == y || (x.magnitude == 0 && y.magnitude == 0))

/-- The place of a word in numeric order, which is that of the magnitudes with their signs. -/
def place (x : Binary64) : Int := if x.negative then -(x.magnitude : Int) else x.magnitude

/-- Numeric order. -/
def numLe (x y : Binary64) : Bool := !x.isNaN && !y.isNaN && x.place ≤ y.place

/-- Strict numeric order. -/
def numLt (x y : Binary64) : Bool := !x.isNaN && !y.isNaN && x.place < y.place

/-- The member of an integer type that a word is cast to: its whole part, or the end of the type
that it lies beyond. A NaN is cast to zero. -/
def saturate (t : IntType) (x : Binary64) : Int :=
  if x.isNaN then 0
  else if x.isInfinite then if x.negative then t.least else t.greatest
  else
    let (num, den) := format.ratio x.magnitude
    let whole : Int := (num / den : Nat)
    max t.least (min (if x.negative then -whole else whole) t.greatest)

/-- The member of an integer type of 64 bits that a word is equal to. The ends of the type hold
words that come back from the cast as others, so the range is looked at first; the cast undone
shows a fraction. -/
def cast? (t : IntType) (x : Binary64) : Option Int :=
  if (ofInt t.least).numLe x && x.numLt (ofInt (t.greatest + 1)) then
    let i := x.saturate t
    if (ofInt i).numEq x then some i else none
  else none

end Binary64

namespace Binary32

/-- The format of single precision words. -/
abbrev format : FloatFormat := .binary32

/-- The sign bit. -/
def negative (x : Binary32) : Bool := format.signWeight ≤ x.bits.toNat

/-- The word without its sign bit. -/
def magnitude (x : Binary32) : Nat := x.bits.toNat % format.signWeight

/-- Neither an infinity nor a NaN. -/
def isFinite (x : Binary32) : Bool := x.magnitude < format.infinity

/-- Not a number. -/
def isNaN (x : Binary32) : Bool := format.infinity < x.magnitude

/-- An infinity. -/
def isInfinite (x : Binary32) : Bool := x.magnitude = format.infinity

/-- The word with this sign and magnitude. -/
def ofParts (negative : Bool) (magnitude : Nat) : Binary32 :=
  ⟨UInt32.ofNat (if negative then format.signWeight + magnitude else magnitude)⟩

/-- A quiet NaN. -/
def nan : Binary32 := ⟨0x7fc00000⟩

/-- The single precision word nearest to a double precision one. -/
def narrow (x : Binary64) : Binary32 :=
  if x.isNaN then nan
  else if x.isInfinite then ofParts x.negative format.infinity
  else
    let (num, den) := Binary64.format.ratio x.magnitude
    ofParts x.negative (format.roundRatio num den)

/-- The double precision word of the same value. -/
def widen (x : Binary32) : Binary64 :=
  if x.isNaN then .nan
  else if x.isInfinite then .ofParts x.negative Binary64.format.infinity
  else
    let (num, den) := format.ratio x.magnitude
    .ofRatio x.negative num den

end Binary32
end Bindery
