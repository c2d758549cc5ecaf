import Bindery.Text.Unprintable
/-!
# Diagnostic text

Strings as diagnostics show them: between quotes, with quotes, backslashes, tabs and line ends
escaped, and unprintable characters given by their code points.
-/

namespace Bindery.Diagnostic

/-- A character between quotes. -/
def escape (c : Char) : List Char :=
  if c.toNat = 0 then ['\\', '0']
  else match c with
    | '\t' => ['\\', 't']
    | '\r' => ['\\', 'r']
    | '\n' => ['\\', 'n']
    | '"' => ['\\', '"']
    | '\\' => ['\\', '\\']
    | c =>
      if isUnprintable c then '\\' :: 'u' :: '\x7b' :: (Nat.toDigits 16 c.toNat ++ ['\x7d'])
      else [c]

/-- A string between quotes. -/
def quote (s : String) : String := String.ofList ('"' :: (s.toList.flatMap escape ++ ['"']))

/-- Some texts between brackets. -/
def list (texts : List String) : String := "[" ++ ", ".intercalate texts ++ "]"

/-- A named group of named parts. -/
def group (name : String) (parts : List (String × String)) : String :=
  name ++ " \x7b " ++ ", ".intercalate (parts.map fun p => p.1 ++ ": " ++ p.2) ++ " \x7d"

/-- The word for a boolean. -/
def bool (b : Bool) : String := if b then "true" else "false"

end Bindery.Diagnostic
