import Bindery.Decimal.Shortest
/-!
# Decimal layouts

A layout says when a decimal is written positionally and when with an exponent, whether a whole
number keeps its point, and which of two equally short and near decimals is written.
`DecimalLayout.plain` never uses an exponent; `DecimalLayout.json` is the layout of numbers in
JSON text.
-/

namespace Bindery

/-- How a decimal is written. It is positional when its point is above `above` and at most
`upTo`; an absent bound does not restrict. -/
structure DecimalLayout where
  above : Option Int
  upTo : Option Int
  keepsPoint : Bool
  tie : Decimal.TieRule
  deriving DecidableEq

namespace DecimalLayout

/-- Always positional, a whole number without a point. -/
def plain : DecimalLayout := ⟨none, none, false, .up⟩

/-- Positional from `0.00001` to below `1e16`, a whole number with `.0`. -/
def json : DecimalLayout := ⟨some (-5), some 16, true, .even⟩

/-- Whether a decimal with this point is written positionally. -/
def positional (l : DecimalLayout) (point : Int) : Bool :=
  l.above.all (· < point) && l.upTo.all (point ≤ ·)

/-- The digits of an integer, with a sign only if it is negative. -/
def signedDigits (i : Int) : List Char :=
  if i < 0 then '-' :: Nat.toDigits 10 i.natAbs else Nat.toDigits 10 i.natAbs

/-- The text of a decimal. -/
def write (l : DecimalLayout) (d : Decimal) : List Char :=
  if l.positional d.point then
    if d.point ≤ 0 then
      '0' :: '.' :: (List.replicate (-d.point).toNat '0' ++ d.digits)
    else
      let places := d.point.toNat
      let whole := d.digits.take places ++ List.replicate (places - d.digits.length) '0'
      match d.digits.drop places with
      | [] => if l.keepsPoint then whole ++ ['.', '0'] else whole
      | fraction => whole ++ '.' :: fraction
  else
    let exponent := 'e' :: signedDigits (d.point - 1)
    match d.digits with
    | [] => exponent
    | [c] => c :: exponent
    | c :: rest => c :: '.' :: (rest ++ exponent)

end DecimalLayout

namespace Binary64

/-- The text of a finite word: a minus for a set sign bit, then the shortest digits. -/
def finiteText (l : DecimalLayout) (x : Binary64) : String :=
  let digits :=
    if x.magnitude = 0 then Decimal.zero else Decimal.shortest format l.tie x.magnitude
  let text := l.write digits
  String.ofList (if x.negative then '-' :: text else text)

/-- The plain text of any word. -/
def display (x : Binary64) : String :=
  if x.isNaN then "NaN"
  else if x.isInfinite then (if x.negative then "-inf" else "inf")
  else x.finiteText .plain

end Binary64
end Bindery
