import Bindery.Text.Hex
/-!
# Quoted text

A string between double quotes, as JSON spells it: quotes, backslashes and the control
characters below U+0020 are escaped, everything else stands for itself.
-/

namespace Bindery.Quoted

/-- The spelling of one character between quotes. -/
def escape (c : Char) : List Char :=
  match c with
  | '"' => ['\\', '"']
  | '\\' => ['\\', '\\']
  | '\n' => ['\\', 'n']
  | '\r' => ['\\', 'r']
  | '\t' => ['\\', 't']
  | '\x08' => ['\\', 'b']
  | '\x0c' => ['\\', 'f']
  | c =>
    if c.toNat < 0x20 then '\\' :: 'u' :: Hex.digits 4 c.toNat
    else [c]

/-- The characters of a string, escaped. -/
def body (s : String) : List Char := s.toList.flatMap escape

/-- The quoted string. -/
def write (s : String) : String := String.ofList ('"' :: (body s ++ ['"']))

end Bindery.Quoted
