import Bindery.Binary.Word
/-!
# Shortest decimal digits

`Decimal.shortest` gives the fewest digits that read back as a finite positive magnitude, and of
those the nearest to its value; of two that are equally near a rule takes one. A decimal reads
back when it lies in the interval of reals that round to the magnitude, ends included when the
significand is even. For 1, 2, … 17 digits the two neighbours of the value on that decimal grid
are tested in exact arithmetic; the first grid with a hit wins.
-/

namespace Bindery

-- Powers are those of the core library, whatever else is in scope.
attribute [local instance (5000)] instPowNat

/-- The decimal `0.d₁d₂… * 10 ^ point`. -/
structure Decimal where
  digits : List Char
  point : Int
  deriving DecidableEq

namespace Decimal

/-- Zero has the single digit `0` before its point. -/
def zero : Decimal := ⟨['0'], 1⟩

/-- The number of decimal digits of a natural. -/
def width (n : Nat) : Nat := (Nat.toDigits 10 n).length

/-- The least `p` with `num / den < 10 ^ p`, for positive `num` and `den`. -/
def pointOf (num den : Nat) : Int :=
  if den ≤ num then width (num / den) else 1 - (width ((den - 1) / num) : Int)

/-- The decimal `n * 10 ^ exponent` without trailing zeros. -/
def ofScaled (n : Nat) (exponent : Int) : Decimal :=
  let digits := Nat.toDigits 10 n
  ⟨(digits.reverse.dropWhile (· == '0')).reverse, exponent + digits.length⟩

/-- The reals that round to a magnitude, in quarters of its unit in the last place: the value
itself, the lower and the upper end, whether the ends belong to it, and the unit as a
quotient. Below a power of two the spacing halves, so the lower end is nearer there. -/
structure Interval where
  value : Nat
  lower : Nat
  upper : Nat
  closed : Bool
  unitNum : Nat
  unitDen : Nat

/-- The rounding interval of a finite positive magnitude. -/
def Interval.of (f : FloatFormat) (magnitude : Nat) : Interval :=
  let m := f.significand magnitude
  let quarter := f.exponent magnitude - 2
  let atPowerOfTwo := m = f.hidden ∧ 2 ≤ magnitude / f.hidden
  { value := 4 * m
    lower := if atPowerOfTwo then 4 * m - 1 else 4 * m - 2
    upper := 4 * m + 2
    closed := m % 2 = 0
    unitNum := 2 ^ quarter.toNat
    unitDen := 2 ^ (-quarter).toNat }

/-- Which of two neighbours is taken when both are equally near: the upper one, or the one that
ends in an even digit. -/
inductive TieRule
  | up
  | even
  deriving DecidableEq

/-- Whether a tie goes to the neighbour above `below`. -/
def TieRule.goesUp (tie : TieRule) (below : Nat) : Bool :=
  match tie with
  | up => true
  | even => below % 2 = 1

/-- The neighbour of the value on the grid of multiples of `10 ^ exponent` that lies in the
interval, the nearer one if both do. -/
def Interval.nearestOnGrid? (r : Interval) (tie : TieRule) (exponent : Int) : Option Nat :=
  let num := r.unitNum * 10 ^ (-exponent).toNat
  let den := r.unitDen * 10 ^ exponent.toNat
  let inside (d : Nat) : Bool :=
    if r.closed then r.lower * num ≤ d * den && d * den ≤ r.upper * num
    else r.lower * num < d * den && d * den < r.upper * num
  let below := r.value * num / den
  let fromBelow := r.value * num - below * den
  match inside below, inside (below + 1) with
  | true, true =>
    let up := if 2 * fromBelow = den then tie.goesUp below else den < 2 * fromBelow
    some (if up then below + 1 else below)
  | true, false => some below
  | false, true => some (below + 1)
  | false, false => none

/-- The shortest decimal that reads back as a finite positive magnitude. -/
def shortest (f : FloatFormat) (tie : TieRule) (magnitude : Nat) : Decimal :=
  let r := Interval.of f magnitude
  let point := pointOf (r.value * r.unitNum) r.unitDen
  let onGrid (n : Nat) : Option Decimal :=
    (r.nearestOnGrid? tie (point - n)).map (ofScaled · (point - n))
  ((List.range' 1 17).findSome? onGrid).getD zero

end Decimal
end Bindery
