import Bindery.Json.Library
import Bindery.Json.Parser
/-!
# The standard library for JSON text

It spells integers in decimal and doubles by their shortest digits, and reads a literal as the
double nearest to it.
-/

namespace Bindery.Json

/-- Shortest digits, and the parser. -/
def standard : Library where
  integer := Number.intText
  double x := x.finiteText .json
  read text := (parse text).mapError Problem.text

end Bindery.Json
