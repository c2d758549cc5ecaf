/-!
# Binary floating-point formats

A format has `mantissaBits` stored bits of significand under `exponentBits` bits of exponent. A
finite non-negative word, its magnitude, stands for `significand * 2 ^ exponent`; all arithmetic
here is exact, on naturals. `FloatFormat.roundRatio` gives the magnitude nearest to a quotient,
a tie going to the even significand.
-/

namespace Bindery

-- Powers are those of the core library, whatever else is in scope.
attribute [local instance (5000)] instPowNat

/-- The widths of a binary interchange format. -/
structure FloatFormat where
  mantissaBits : Nat
  exponentBits : Nat
  deriving DecidableEq

namespace FloatFormat

/-- Single precision. -/
def binary32 : FloatFormat := ⟨23, 8⟩

/-- Double precision. -/
def binary64 : FloatFormat := ⟨52, 11⟩

variable (f : FloatFormat)

/-- The weight of the significand's leading bit, which normal words do not store. -/
def hidden : Nat := 2 ^ f.mantissaBits

/-- The weight of the sign bit. -/
def signWeight : Nat := 2 ^ (f.mantissaBits + f.exponentBits)

/-- The magnitude of the infinities; larger magnitudes are not numbers. -/
def infinity : Nat := (2 ^ f.exponentBits - 1) * f.hidden

/-- The exponent of the smallest positive word. -/
def leastExponent : Int := 2 - 2 ^ (f.exponentBits - 1) - f.mantissaBits

/-- The integer significand of a finite magnitude. -/
def significand (magnitude : Nat) : Nat :=
  if magnitude < f.hidden then magnitude else magnitude % f.hidden + f.hidden

/-- The power of two that scales the significand of a finite magnitude. -/
def exponent (magnitude : Nat) : Int :=
  f.leastExponent + ((magnitude / f.hidden - 1 : Nat) : Int)

/-- The exact value of a finite magnitude as a quotient. -/
def ratio (magnitude : Nat) : Nat × Nat :=
  (f.significand magnitude * 2 ^ (f.exponent magnitude).toNat,
    2 ^ (-(f.exponent magnitude)).toNat)

end FloatFormat

/-- The quotient `num / den` to the nearest natural; a tie goes to the even neighbour. -/
def roundHalfEven (num den : Nat) : Nat :=
  let below := num / den
  let twice := 2 * (num % den)
  if den < twice ∨ (den = twice ∧ below % 2 = 1) then below + 1 else below

/-- The largest `e` with `2 ^ e ≤ num / den`, for positive `num` and `den`. -/
def floorLog2 (num den : Nat) : Int :=
  let e : Int := (num.log2 : Int) - den.log2
  if den * 2 ^ e.toNat ≤ num * 2 ^ (-e).toNat then e else e - 1

/-- The magnitude nearest to `num / den`, a tie going to the even significand and everything
beyond the largest finite word to infinity. -/
def FloatFormat.roundRatio (f : FloatFormat) (num den : Nat) : Nat :=
  if num = 0 then 0 else
    let unit : Int := max (floorLog2 num den - f.mantissaBits) f.leastExponent
    let units := roundHalfEven (num * 2 ^ (-unit).toNat) (den * 2 ^ unit.toNat)
    min ((unit - f.leastExponent).toNat * f.hidden + units) f.infinity

end Bindery
