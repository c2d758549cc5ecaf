import Bindery.Error
/-!
# JSON text, mark by mark

Every mark has one spelling, and a written text is the concatenation of the spellings. Only an
infinite or undefined number has none.
-/

namespace Bindery.Json

variable (numerals : Numerals)

/-- The spelling of a token. -/
def spellToken : Token → Except BindError String
  | .startObject => .ok "\x7b"
  | .endObject => .ok "\x7d"
  | .startArray => .ok "["
  | .endArray => .ok "]"
  | .name key => .ok (Quoted.write key ++ ":")
  | .string s => .ok (Quoted.write s)
  | .number (.posInt v) => .ok (numerals.integer v.toNat)
  | .number (.negInt v) => .ok (numerals.integer v.toInt)
  | .number (.float x) =>
    if x.isFinite then .ok (numerals.double x) else .error (.invalidValue "f64" (.noJsonForm x))
  | .bool b => .ok (if b then "true" else "false")
  | .null => .ok "null"

/-- The spelling of a mark. -/
def spell : Mark → Except BindError String
  | .token t => spellToken numerals t
  | .objectComma | .arrayComma => .ok ","

/-- Appends the spelling of a mark to a text. -/
def write (text : String) (m : Mark) : Except BindError Unit × String :=
  match spell numerals m with
  | .ok more => (.ok (), text ++ more)
  | .error e => (.error e, text)

end Bindery.Json
