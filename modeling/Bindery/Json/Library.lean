import Bindery.Decimal.Layout
import Bindery.Json.Grammar
/-!
# Libraries for JSON text

JSON text is read by a library, which announces what a text holds or words what is wrong with it,
and numbers are spelled by libraries. `Json.Library.Lawful` is what is relied on for every text:
documents are read as the grammar says, and integers are spelled in decimal. A double comes back
if the library restores it, `Json.Library.Restores`.
-/

namespace Bindery.Json

/-- The spelling of numbers, and the reading of JSON text. -/
structure Library extends Numerals where
  read : String → Except String Visit

namespace Library

variable (L : Library) (double? : Numeral → Option Binary64)

/-- Integers are spelled in decimal and documents are read, literals that are no words as the
doubles that `double?` takes them for. -/
structure Lawful : Prop where
  integer : ∀ i, L.integer i = Number.intText i
  read : ∀ {text : String} {v : Visit}, Document double? text v → L.read text = .ok v

/-- The double is spelled as a literal with a fraction or an exponent, which is taken for it. -/
def Restores (x : Binary64) : Prop :=
  ∃ l : Numeral, l.WellFormed ∧ l.isInteger = false ∧ L.double x = String.ofList l.chars ∧
    double? l = some x

end Library
end Bindery.Json
