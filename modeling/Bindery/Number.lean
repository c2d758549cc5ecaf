import Bindery.Decimal.Layout
import Bindery.IntType
/-!
# Numbers

A number of a document is a non-negative integer word, a negative integer word or a double.
`Number.narrow` fits it into an integer type, exactly: a double fits if it is an integer of the
type's range. `Number.numEq` compares numbers of one form only. How JSON text spells integers and
finite doubles is left to others, `Json.Numerals`.
-/

namespace Bindery

/-- The spellings of integers and of finite doubles in JSON text. -/
structure Json.Numerals where
  integer : Int → String
  double : Binary64 → String

/-- A number in its widest form. `negInt` holds a negative integer unless it is denormal. -/
inductive Number
  | posInt (v : UInt64)
  | negInt (v : Int64)
  | float (x : Binary64)
  deriving DecidableEq

namespace Number

/-- The normal form of an integer word: a non-negative one is `posInt`. -/
def ofInt64 (v : Int64) : Number :=
  if 0 ≤ v.toInt then .posInt (UInt64.ofNat v.toInt.toNat) else .negInt v

/-- The number of a member of some integer type. -/
def ofInt (i : Int) : Number :=
  if 0 ≤ i then .posInt (UInt64.ofNat i.toNat) else .negInt (Int64.ofInt i)

/-- Whether the number is written as an integer. -/
def isInteger : Number → Bool
  | posInt _ | negInt _ => true
  | float _ => false

/-- Whether the number is a double. -/
def isFloat (n : Number) : Bool := !n.isInteger

/-- The member of `i64` equal to this number. -/
def toI64? : Number → Option Int
  | posInt v => IntType.i64.check v.toNat
  | negInt v => some v.toInt
  | float x => x.cast? .i64

/-- The member of `u64` equal to this number; no `negInt` has one. -/
def toU64? : Number → Option Int
  | posInt v => some v.toNat
  | negInt _ => none
  | float x => x.cast? .u64

/-- The member of `t` equal to this number, by way of the widest type of its kind. -/
def narrow (t : IntType) (n : Number) : Option Int :=
  (if t.signed then n.toI64? else n.toU64?).bind t.check

/-- The nearest double. -/
def toBinary64 : Number → Binary64
  | posInt v => .ofInt v.toNat
  | negInt v => .ofInt v.toInt
  | float x => x

/-- The nearest single; a finite number beyond the singles has none. -/
def toBinary32? (n : Number) : Option Binary32 :=
  let wide := n.toBinary64
  let narrow := Binary32.narrow wide
  if wide.isFinite && narrow.isInfinite then none else some narrow

/-- Equality of two numbers of one form, doubles compared numerically. -/
def numEq : Number → Number → Bool
  | posInt a, posInt b => a == b
  | negInt a, negInt b => a == b
  | float x, float y => x.numEq y
  | _, _ => false

/-- The digits of an integer. -/
def intText (i : Int) : String := String.ofList (DecimalLayout.signedDigits i)

/-- The plain text of a number. -/
def display : Number → String
  | posInt v => intText v.toNat
  | negInt v => intText v.toInt
  | float x => x.display

/-- The JSON text of a number; infinities and NaNs have none. -/
def json? (numerals : Json.Numerals) : Number → Option String
  | posInt v => some (numerals.integer v.toNat)
  | negInt v => some (numerals.integer v.toInt)
  | float x => if x.isFinite then some (numerals.double x) else none

end Number
end Bindery
