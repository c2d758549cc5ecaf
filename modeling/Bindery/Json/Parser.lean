import Bindery.Json.Grammar
import Bindery.Json.Problem
/-!
# Reading JSON text

`Json.parse` reads one document and announces what it holds. Literals that are no words stand for
the nearest double. At most `maxDepth` containers may be open at once.

Each reader takes characters and returns what it read with the characters that are left. Lists
and strings are bounded by the number of characters, nesting by the containers still allowed.
-/

namespace Bindery.Json

/-- A reader of characters. -/
abbrev Parse (α : Type) := List Char → Except Problem (α × List Char)

/-- Drops leading blanks. -/
def skipSpace (cs : List Char) : List Char := cs.dropWhile isSpace

/-! ## Words -/

/-- The rest of a word whose first letter has been read. -/
def ident : List Char → List Char → Except Problem (List Char)
  | [], cs => .ok cs
  | _ :: _, [] => .error .endInValue
  | w :: ws, c :: cs => if c = w then ident ws cs else .error .expectedIdent

/-! ## Strings -/

/-- Four hexadecimal digits. Fewer than four bytes are a string that ends too early. -/
def hex4 (cs : List Char) : Except Problem (Nat × List Char) :=
  let front := cs.take 4
  if (String.ofList front).utf8ByteSize < 4 then .error .endInString
  else
    match Hex.number? front with
    | some n => .ok (n, cs.drop 4)
    | none => .error .invalidEscape

/-- Reads the second half of a surrogate pair after the first. -/
def trailingSurrogate (high : Nat) : Parse Char
  | [] => .error .endInString
  | '\\' :: [] => .error .endInString
  | '\\' :: 'u' :: cs => do
    let (low, cs) ← hex4 cs
    if 0xDC00 ≤ low ∧ low ≤ 0xDFFF then
      return (Char.ofNat ((high - 0xD800) * 0x400 + (low - 0xDC00) + 0x10000), cs)
    else .error .loneSurrogate
  | _ => .error .unfinishedSurrogate

/-- The character of an escape, after its backslash. -/
def escaped : Parse Char
  | [] => .error .endInString
  | '"' :: cs => .ok ('"', cs)
  | '\\' :: cs => .ok ('\\', cs)
  | '/' :: cs => .ok ('/', cs)
  | 'b' :: cs => .ok ('\x08', cs)
  | 'f' :: cs => .ok ('\x0c', cs)
  | 'n' :: cs => .ok ('\n', cs)
  | 'r' :: cs => .ok ('\r', cs)
  | 't' :: cs => .ok ('\t', cs)
  | 'u' :: cs => do
    let (n, cs) ← hex4 cs
    if 0xDC00 ≤ n ∧ n ≤ 0xDFFF then .error .loneSurrogate
    else if 0xD800 ≤ n ∧ n ≤ 0xDBFF then trailingSurrogate n cs
    else return (Char.ofNat n, cs)
  | _ => .error .invalidEscape

/-- The characters of a string up to its closing quote. -/
def stringChars : Nat → Parse (List Char)
  | 0, _ => .error .endInString
  | _, [] => .error .endInString
  | budget + 1, c :: cs =>
    if c = '"' then .ok ([], cs)
    else if c = '\\' then do
      let (e, cs) ← escaped cs
      let (more, cs) ← stringChars budget cs
      return (e :: more, cs)
    else if c.toNat < 0x20 then .error .controlCharacter
    else do
      let (more, cs) ← stringChars budget cs
      return (c :: more, cs)

/-- A string after its opening quote. -/
def string : Parse String := fun cs => do
  let (chars, cs) ← stringChars (cs.length + 1) cs
  return (String.ofList chars, cs)

/-! ## Numbers -/

/-- The digits at the front, and what follows them. -/
def digits (cs : List Char) : List Char × List Char :=
  (cs.takeWhile Char.isDigit, cs.dropWhile Char.isDigit)

/-- A number's integer part: a single zero, or digits that do not begin with one. -/
def wholePart : Parse (List Char)
  | [] => .error .endInValue
  | '0' :: cs =>
    match cs with
    | c :: _ => if c.isDigit then .error .invalidNumber else .ok (['0'], cs)
    | [] => .ok (['0'], [])
  | c :: cs => if c.isDigit then .ok (digits (c :: cs)) else .error .invalidNumber

/-- A number's fraction, none if there is no point. -/
def fractionPart : Parse (Option (List Char))
  | '.' :: cs =>
    match digits cs with
    | ([], []) => .error .endInValue
    | ([], _ :: _) => .error .invalidNumber
    | (ds, cs) => .ok (some ds, cs)
  | cs => .ok (none, cs)

/-- The digits of an exponent after its mark. -/
def exponentDigits (mark : List Char) : Parse (Option (List Char × List Char)) := fun cs =>
  match digits cs with
  | ([], []) => .error .endInValue
  | ([], _ :: _) => .error .invalidNumber
  | (ds, cs) => .ok (some (mark, ds), cs)

/-- A number's exponent, none if there is none. -/
def exponentPart : Parse (Option (List Char × List Char))
  | c :: cs =>
    if c = 'e' ∨ c = 'E' then
      match cs with
      | '+' :: cs => exponentDigits [c, '+'] cs
      | '-' :: cs => exponentDigits [c, '-'] cs
      | cs => exponentDigits [c] cs
    else .ok (none, c :: cs)
  | [] => .ok (none, [])

/-- The exponent of a literal as a number. -/
def Numeral.scale (l : Numeral) : Int :=
  match l.exponent with
  | none => 0
  | some (mark, ds) =>
    let n : Int := Nat.ofDigitChars 10 ds 0
    if mark.contains '-' then -n else n

/-- The double nearest to a literal, unless it is infinite. -/
def Numeral.nearest? (l : Numeral) : Option Binary64 :=
  let places := l.fraction.getD []
  let x := Binary64.ofDecimal l.negative (Nat.ofDigitChars 10 (l.whole ++ places) 0)
    (l.scale - places.length)
  if x.isFinite then some x else none

/-- A number after its sign. -/
def number (negative : Bool) : Parse Visit := fun cs => do
  let (whole, cs) ← wholePart cs
  let (fraction, cs) ← fractionPart cs
  let (exponent, cs) ← exponentPart cs
  match Numeral.announce? Numeral.nearest? { negative, whole, fraction, exponent } with
  | some v => return (v, cs)
  | none => .error .numberOutOfRange

/-! ## Containers -/

/-- The items of an array after its first bracket and the blanks behind it. -/
def items (item : Parse Visit) : Nat → Parse (List Visit)
  | 0, _ => .error .endInList
  | budget + 1, cs => do
    let (x, cs) ← item cs
    match skipSpace cs with
    | [] => .error .endInList
    | ']' :: cs => return ([x], cs)
    | ',' :: cs =>
      match skipSpace cs with
      | [] => .error .endInValue
      | ']' :: _ => .error .trailingComma
      | cs =>
        let (xs, cs) ← items item budget cs
        return (x :: xs, cs)
    | _ => .error .expectedListEnd

/-- A member after the quote that opens its key. -/
def member (item : Parse Visit) : Parse (String × Visit) := fun cs => do
  let (key, cs) ← string cs
  match skipSpace cs with
  | [] => .error .endInObject
  | ':' :: cs =>
    let (x, cs) ← item cs
    return ((key, x), cs)
  | _ => .error .expectedColon

/-- The members of an object after the quote that opens the first key. -/
def members (item : Parse Visit) : Nat → Parse (List (String × Visit))
  | 0, _ => .error .endInObject
  | budget + 1, cs => do
    let (x, cs) ← member item cs
    match skipSpace cs with
    | [] => .error .endInObject
    | '}' :: cs => return ([x], cs)
    | ',' :: cs =>
      match skipSpace cs with
      | [] => .error .endInValue
      | '"' :: cs =>
        let (xs, cs) ← members item budget cs
        return (x :: xs, cs)
      | '}' :: _ => .error .trailingComma
      | _ => .error .keyNotString
    | _ => .error .expectedObjectEnd

/-- An array after its first bracket. -/
def array (item : Parse Visit) : Parse Visit := fun cs =>
  match skipSpace cs with
  | [] => .error .endInList
  | ']' :: cs => .ok (.sequence [], cs)
  | cs => do
    let (xs, cs) ← items item (cs.length + 1) cs
    return (.sequence xs, cs)

/-- An object after its first brace. -/
def object (item : Parse Visit) : Parse Visit := fun cs =>
  match skipSpace cs with
  | [] => .error .endInObject
  | '}' :: cs => .ok (.entries [], cs)
  | '"' :: cs => do
    let (xs, cs) ← members item (cs.length + 1) cs
    return (.entries xs, cs)
  | _ => .error .keyNotString

/-- A value that may open at most `depth` containers inside each other. -/
def value (depth : Nat) : Parse Visit := fun cs =>
  match skipSpace cs with
  | [] => .error .endInValue
  | 'n' :: cs => do return (.unit, ← ident ['u', 'l', 'l'] cs)
  | 't' :: cs => do return (.bool true, ← ident ['r', 'u', 'e'] cs)
  | 'f' :: cs => do return (.bool false, ← ident ['a', 'l', 's', 'e'] cs)
  | '"' :: cs => do
    let (s, cs) ← string cs
    return (.text s, cs)
  | '-' :: cs => number true cs
  | '[' :: cs =>
    match depth with
    | 0 => .error .tooDeep
    | depth + 1 => array (value depth) cs
  | '{' :: cs =>
    match depth with
    | 0 => .error .tooDeep
    | depth + 1 => object (value depth) cs
  | c :: cs =>
    if c.isDigit then number false (c :: cs) else .error .expectedValue

/-- Reads the document at the front of a text. -/
def document : Parse Visit := value maxDepth

/-- Checks that only blanks are left. -/
def ending (cs : List Char) : Except Problem Unit :=
  if (skipSpace cs).isEmpty then .ok () else .error .trailingCharacters

/-- Reads a text that holds one document and blanks around it. -/
def parse (text : String) : Except Problem Visit := do
  let (v, cs) ← document text.toList
  ending cs
  return v

end Bindery.Json
