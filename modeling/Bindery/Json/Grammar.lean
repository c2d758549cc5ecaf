import Bindery.Node.Visit
import Bindery.Text.Hex
/-!
# The grammar of JSON text

`Json.Document` relates a text to what a reader announces of it: the values that it spells one
inside the other, every entry of an object, also of a repeated key, in the order of the text. An
integer that a word holds is announced as one, except for `-0`; which double any other literal
stands for is left open, `double?`.

A relation on characters stands for each part of the text. Items and members are related from
behind a bracket or a comma on, up to their closing bracket.
-/

namespace Bindery.Json

/-! ## Blanks -/

/-- The blanks between tokens. -/
def isSpace (c : Char) : Bool := c == ' ' || c == '\n' || c == '\t' || c == '\r'

/-- Nothing but blanks. -/
def Blank (cs : List Char) : Prop := ∀ c ∈ cs, isSpace c

theorem Blank.nil : Blank [] := nofun

/-! ## Numbers -/

/-- A number literal: digits before and behind its point, and its exponent, which is a letter
with or without a sign, and digits. -/
structure Numeral where
  negative : Bool
  whole : List Char
  fraction : Option (List Char) := none
  exponent : Option (List Char × List Char) := none

/-- One digit or more. -/
def Digits (ds : List Char) : Prop := ds ≠ [] ∧ ∀ c ∈ ds, c.isDigit

/-- What an exponent begins with. -/
def exponentMarks : List (List Char) :=
  [['e'], ['E'], ['e', '+'], ['E', '+'], ['e', '-'], ['E', '-']]

namespace Numeral

/-- The characters of a literal. -/
def chars (l : Numeral) : List Char :=
  (if l.negative then ['-'] else []) ++ l.whole ++ (l.fraction.map ('.' :: ·)).getD []
    ++ (l.exponent.map fun e => e.1 ++ e.2).getD []

/-- A literal of JSON: its whole part is a zero or does not begin with one. -/
structure WellFormed (l : Numeral) : Prop where
  whole : Digits l.whole
  leading : ∀ ds, l.whole = '0' :: ds → ds = []
  fraction : ∀ ds, l.fraction = some ds → Digits ds
  exponent : ∀ e, l.exponent = some e → e.1 ∈ exponentMarks ∧ Digits e.2

/-- Whether there is neither a fraction nor an exponent. -/
def isInteger (l : Numeral) : Bool := l.fraction.isNone && l.exponent.isNone

/-- What is announced of a literal; nothing if it is no word and stands for no double. -/
def announce? (double? : Numeral → Option Binary64) (l : Numeral) : Option Visit :=
  let n := Nat.ofDigitChars 10 l.whole 0
  if l.isInteger ∧ !l.negative ∧ n < UInt64.size then some (.unsigned (UInt64.ofNat n))
  else if l.isInteger ∧ l.negative ∧ 0 < n ∧ IntType.i64.least ≤ -n then
    some (.signed (Int64.ofInt (-n)))
  else (double? l).map .double

end Numeral

/-! ## Strings -/

/-- The letters that stand for a character behind a backslash. -/
def shortEscapes : List (Char × Char) :=
  [('"', '"'), ('\\', '\\'), ('/', '/'), ('b', '\x08'), ('f', '\x0c'), ('n', '\n'), ('r', '\r'),
    ('t', '\t')]

/-- Four hexadecimal digits of a number. -/
def Hex4 (ds : List Char) (n : Nat) : Prop := ds.length = 4 ∧ Hex.number? ds = some n

/-- The spellings of a character: the character itself, or an escape. One beyond U+FFFF is
escaped as a pair of surrogates. -/
inductive CharText : List Char → Char → Prop
  | plain {c : Char} (hquote : c ≠ '"') (hbackslash : c ≠ '\\') (hcontrol : 0x20 ≤ c.toNat) :
    CharText [c] c
  | short {letter c : Char} (h : (letter, c) ∈ shortEscapes) : CharText ['\\', letter] c
  | unicode {ds : List Char} {c : Char} (h : Hex4 ds c.toNat) : CharText ('\\' :: 'u' :: ds) c
  | pair {ds es : List Char} {high low : Nat} {c : Char} (hhigh : Hex4 ds high)
    (hlow : Hex4 es low) (hleading : 0xD800 ≤ high ∧ high ≤ 0xDBFF)
    (htrailing : 0xDC00 ≤ low ∧ low ≤ 0xDFFF)
    (hc : c.toNat = (high - 0xD800) * 0x400 + (low - 0xDC00) + 0x10000) :
    CharText ('\\' :: 'u' :: (ds ++ '\\' :: 'u' :: es)) c

/-- The characters of a string up to its closing quote. -/
inductive CharsText : List Char → List Char → Prop
  | close : CharsText ['"'] []
  | char {t ts : List Char} {c : Char} {cs : List Char} (h : CharText t c) (hs : CharsText ts cs) :
    CharsText (t ++ ts) (c :: cs)

/-- A string with its quotes. -/
inductive StringText : List Char → String → Prop
  | quoted {t : List Char} {s : String} (h : CharsText t s.toList) : StringText ('"' :: t) s

/-! ## Containers -/

section Containers
variable (Value : List Char → Visit → Prop)

/-- The items of an array. -/
inductive ItemsText : List Char → List Visit → Prop
  | last {before t behind : List Char} {v : Visit} (hbefore : Blank before) (h : Value t v)
    (hbehind : Blank behind) : ItemsText (before ++ t ++ behind ++ [']']) [v]
  | more {before t behind ts : List Char} {v : Visit} {vs : List Visit} (hbefore : Blank before)
    (h : Value t v) (hbehind : Blank behind) (hs : ItemsText ts vs) :
    ItemsText (before ++ t ++ behind ++ ',' :: ts) (v :: vs)

/-- A member of an object. -/
inductive MemberText : List Char → String × Visit → Prop
  | keyed {k colon before t : List Char} {key : String} {v : Visit} (hkey : StringText k key)
    (hcolon : Blank colon) (hbefore : Blank before) (h : Value t v) :
    MemberText (k ++ colon ++ ':' :: (before ++ t)) (key, v)

/-- The members of an object. -/
inductive MembersText : List Char → List (String × Visit) → Prop
  | last {before t behind : List Char} {m : String × Visit} (hbefore : Blank before)
    (h : MemberText Value t m) (hbehind : Blank behind) :
    MembersText (before ++ t ++ behind ++ ['}']) [m]
  | more {before t behind ts : List Char} {m : String × Visit} {ms : List (String × Visit)}
    (hbefore : Blank before) (h : MemberText Value t m) (hbehind : Blank behind)
    (hs : MembersText ts ms) : MembersText (before ++ t ++ behind ++ ',' :: ts) (m :: ms)

/-- An array or an object. -/
inductive ContainerText : List Char → Visit → Prop
  | emptyArray {inside : List Char} (h : Blank inside) :
    ContainerText ('[' :: (inside ++ [']'])) (.sequence [])
  | array {t : List Char} {vs : List Visit} (h : ItemsText Value t vs) :
    ContainerText ('[' :: t) (.sequence vs)
  | emptyObject {inside : List Char} (h : Blank inside) :
    ContainerText ('{' :: (inside ++ ['}'])) (.entries [])
  | object {t : List Char} {ms : List (String × Visit)} (h : MembersText Value t ms) :
    ContainerText ('{' :: t) (.entries ms)

end Containers

/-! ## Documents -/

variable (double? : Numeral → Option Binary64)

/-- A value that is no container. -/
inductive ScalarText : List Char → Visit → Prop
  | null : ScalarText ['n', 'u', 'l', 'l'] .unit
  | true : ScalarText ['t', 'r', 'u', 'e'] (.bool true)
  | false : ScalarText ['f', 'a', 'l', 's', 'e'] (.bool false)
  | number {l : Numeral} {v : Visit} (h : l.WellFormed) (hv : l.announce? double? = some v) :
    ScalarText l.chars v
  | string {t : List Char} {s : String} (h : StringText t s) : ScalarText t (.text s)

/-- A value in which at most `depth` containers are open at once. -/
def ValueText : (depth : Nat) → List Char → Visit → Prop
  | 0, t, v => ScalarText double? t v
  | depth + 1, t, v => ScalarText double? t v ∨ ContainerText (ValueText depth) t v

/-- The containers that may be open at once. -/
def maxDepth : Nat := 127

/-- A text that holds one value, and blanks around it. -/
inductive Document : String → Visit → Prop
  | value {text : String} {before t behind : List Char} {v : Visit} (hbefore : Blank before)
    (h : ValueText double? maxDepth t v) (hbehind : Blank behind)
    (htext : text.toList = before ++ t ++ behind) : Document text v

end Bindery.Json
