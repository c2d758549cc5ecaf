import Bindery.Codec
/-!
# Durations

A duration is a whole number of seconds below 2^64 and a number of nanoseconds. Its text is
`PT[nH][nM][n[.f]S]` without the parts that are zero; reading also accepts days and letters of
either case. Units come in descending order, each at most once; only seconds have a fraction, of
at most nine digits; a total of 2^64 seconds or more is refused.
-/

namespace Bindery

-- Powers are those of the core library, whatever else is in scope.
attribute [local instance (5000)] instPowNat

/-- A span of time. -/
structure Duration where
  secs : UInt64
  nanos : Nat
  nanos_lt : nanos < 1000000000 := by omega
  deriving DecidableEq

namespace Duration

/-- The full name of the type of durations. -/
def path : String := "core::time::Duration"

/-- The type of durations. -/
def type : Ty := .foreign path

/-- No time at all. -/
def zero : Duration := ⟨0, 0, by omega⟩

/-- The duration with these parts, if they are in range. -/
def ofParts? (secs nanos : Nat) : Option Duration :=
  if h : nanos < 1000000000 then
    if secs < UInt64.size then some ⟨UInt64.ofNat secs, nanos, h⟩ else none
  else none

/-- A duration as a value. -/
def toValue (d : Duration) : Value :=
  .foreign path [.int .u64 d.secs.toNat, .int .u32 d.nanos]

/-- The duration in a value. -/
def ofValue? : Value → Option Duration
  | .foreign name [.int _ secs, .int _ nanos] =>
    if name = path then ofParts? secs.toNat nanos.toNat else none
  | _ => none

/-! ## Text -/

/-- A part and its unit, unless it is zero. -/
def part (n : Nat) (unit : Char) : List Char := if n = 0 then [] else Nat.toDigits 10 n ++ [unit]

/-- The digits of a fraction of a second, without trailing zeros. -/
def fraction (nanos : Nat) : List Char :=
  let digits := Nat.toDigits 10 nanos
  ((List.replicate (9 - digits.length) '0' ++ digits).reverse.dropWhile (· == '0')).reverse

/-- The seconds of a minute with their fraction; zero seconds are written only in zero time. -/
def seconds (total : Nat) (nanos : Nat) : List Char :=
  if total % 60 = 0 ∧ nanos = 0 ∧ total ≠ 0 then []
  else if nanos = 0 then Nat.toDigits 10 (total % 60) ++ ['S']
  else Nat.toDigits 10 (total % 60) ++ '.' :: (fraction nanos ++ ['S'])

/-- The characters of the text of a duration. -/
def chars (d : Duration) : List Char :=
  let total := d.secs.toNat
  'P' :: 'T' :: (part (total / 3600) 'H' ++ part (total % 3600 / 60) 'M' ++ seconds total d.nanos)

/-- The text of a duration. -/
def text (d : Duration) : String := String.ofList d.chars

/-! ## Reading text -/

/-- The word of one or more decimal digits. -/
def number? (digits : List Char) : Option Nat :=
  if digits.isEmpty || !digits.all Char.isDigit then none
  else
    let n := Nat.ofDigitChars 10 digits 0
    if n < UInt64.size then some n else none

/-- The nanoseconds of a fraction of at most nine digits. -/
def nanos? (digits : List Char) : Option Nat :=
  if digits.length ≤ 9 && digits.all Char.isDigit then
    some (Nat.ofDigitChars 10 digits 0 * 10 ^ (9 - digits.length))
  else none

/-- A number of seconds below 2^64. -/
def checked (secs : Nat) : Option Nat := if secs < UInt64.size then some secs else none

/-- The parts of a text before and after the first character with a property. -/
def cut (p : Char → Bool) (cs : List Char) : Option (List Char × Char × List Char) :=
  match cs.span (fun c => !p c) with
  | (front, c :: back) => some (front, c, back)
  | (_, []) => none

/-- The rank of a time unit and its length in seconds. -/
def unit? : Char → Option (Nat × Nat)
  | 'H' => some (1, 3600)
  | 'M' => some (2, 60)
  | 'S' => some (3, 1)
  | _ => none

/-- Reads time parts, each of a higher rank than the last, onto seconds; a fraction replaces the
nanoseconds. `budget` bounds the number of parts. -/
def timeParts? : Nat → List Char → (rank secs nanos : Nat) → Option (Nat × Nat)
  | _, [], _, secs, nanos => some (secs, nanos)
  | 0, _ :: _, _, _, _ => none
  | budget + 1, cs, last, secs, nanos => do
    let (value, letter, rest) ← cut Char.isAlpha cs
    let (rank, scale) ← unit? letter.toUpper
    if rank ≤ last then none
    else if letter.toUpper = 'S' then
      let (whole, frac) :=
        match cut (· == '.') value with
        | some (whole, _, frac) => (whole, frac)
        | none => (value, [])
      let secs ← checked (secs + (← number? whole))
      timeParts? budget rest rank secs (← nanos? frac)
    else
      let amount ← checked ((← number? value) * scale)
      let secs ← checked (secs + amount)
      timeParts? budget rest rank secs nanos

/-- The seconds of the days before the time part. -/
def days? (cs : List Char) : Option Nat :=
  match cs.reverse with
  | [] => some 0
  | letter :: front =>
    if letter.toUpper = 'D' then do checked ((← number? front.reverse) * 86400) else none

/-- The duration a text spells. -/
def parse? (text : String) : Option Duration :=
  match text.toList with
  | [] => none
  | p :: rest => do
    if p.toUpper ≠ 'P' then none
    match cut (fun c => c.toUpper == 'T') rest with
    | none => if rest.isEmpty then none else ofParts? (← days? rest) 0
    | some (days, _, time) =>
      let secs ← days? days
      if time.isEmpty then none
      let (secs, nanos) ← timeParts? time.length time 0 secs 0
      ofParts? secs nanos

/-! ## The codec -/

/-- Durations as text. -/
def codec : Codec where
  type := type
  wire := .string
  write v :=
    match ofValue? v with
    | some d => .ok (.string d.text)
    | none => .error (.typeError path .foreignCodecValue)
  read
    | .string text =>
      match parse? text with
      | some d => .ok d.toValue
      | none => .error (.invalidValue path (.notADuration text))
    | other => .error (.tokenMismatch TokenKind.string.text other.kind)

end Duration
end Bindery
