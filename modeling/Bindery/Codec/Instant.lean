import Bindery.Codec.Duration
/-!
# Instants

An instant is a number of whole seconds, possibly negative, and nanoseconds after the epoch. On
the wire it is a whole number of milliseconds, rounded toward the past; reading also accepts the
decimal text of such a number.
-/

namespace Bindery

/-- A point in time. -/
structure Instant where
  secs : Int64
  nanos : Nat
  nanos_lt : nanos < 1000000000 := by omega

namespace Instant

/-- The full name of the type of instants. -/
def path : String := "std::time::SystemTime"

/-- The type of instants. -/
def type : Ty := .foreign path

/-- The epoch. -/
def epoch : Instant := ⟨0, 0, Duration.zero.nanos_lt⟩

/-- The instant with these parts, if they are in range. -/
def ofParts? (secs : Int) (nanos : Nat) : Option Instant :=
  if h : nanos < 1000000000 then
    (IntType.i64.check secs).map fun secs => ⟨Int64.ofInt secs, nanos, h⟩
  else none

/-- The instant a number of nanoseconds after the epoch. -/
def ofNanos? (n : Int) : Option Instant :=
  ofParts? (n.fdiv 1000000000) (n.fmod 1000000000).toNat

/-- The nanoseconds from the epoch to an instant. -/
def toNanos (t : Instant) : Int := t.secs.toInt * 1000000000 + t.nanos

/-- Whether an instant comes before the epoch, and how far it is from it in whole seconds and
nanoseconds. -/
def offset (t : Instant) : Bool × Nat × Nat :=
  let n := t.toNanos
  (n < 0, n.natAbs / 1000000000, n.natAbs % 1000000000)

/-- The instant some seconds and nanoseconds before or after the epoch. -/
def ofOffset? (before : Bool) (secs nanos : Nat) : Option Instant :=
  let n : Int := secs * 1000000000 + nanos
  ofNanos? (if before then -n else n)

/-- An instant as a value. -/
def toValue (t : Instant) : Value :=
  .foreign path [.int .i64 t.secs.toInt, .int .u32 t.nanos]

/-- The instant in a value. -/
def ofValue? : Value → Option Instant
  | .foreign name [.int _ secs, .int _ nanos] =>
    if name = path then ofParts? secs nanos.toNat else none
  | _ => none

/-- The whole milliseconds of a time span. -/
def wholeMillis (secs nanos : Nat) : Nat := secs * 1000 + nanos / 1000000

/-- The instant a number of milliseconds before or after the epoch. -/
def ofMillis? (m : Int) : Option Instant :=
  ofOffset? (m < 0) (m.natAbs / 1000) (m.natAbs % 1000 * 1000000)

/-- The number for an instant: the whole milliseconds behind the epoch, if they are a word, or
before it, where a begun millisecond counts as a whole one. -/
def wire? (t : Instant) : Option Number :=
  match t.offset with
  | (false, secs, nanos) =>
    let after := wholeMillis secs nanos
    if after < UInt64.size then some (.posInt (UInt64.ofNat after)) else none
  | (true, secs, nanos) =>
    let begun := if nanos % 1000000 = 0 then 0 else 1
    (IntType.i64.check (wholeMillis secs nanos + begun : Nat)).map fun before =>
      .ofInt64 (Int64.ofInt (-before))

/-- A signed decimal number of 64 bits. -/
def decimal? (text : String) : Option Int :=
  let digits (negative : Bool) (cs : List Char) : Option Int :=
    if cs.isEmpty || !cs.all Char.isDigit then none
    else
      let n : Int := Nat.ofDigitChars 10 cs 0
      IntType.i64.check (if negative then -n else n)
  match text.toList with
  | '-' :: cs => digits true cs
  | '+' :: cs => digits false cs
  | cs => digits false cs

/-- Instants as milliseconds. -/
def codec : Codec where
  type := type
  write v :=
    match ofValue? v with
    | none => .error (.typeError path .foreignCodecValue)
    | some t =>
      match t.wire? with
      | some n => .ok (.number n)
      | none => .error (.invalidValue path .beyondMillis)
  read wire :=
    let millis : Except BindError (Option Int) :=
      match wire with
      | .number n => .ok (n.narrow .i64)
      | .string text => .ok (decimal? text)
      | other => .error (.tokenMismatch TokenKind.number.text other.kind)
    do
      match ← millis with
      | none => throw (.invalidValue path (.notEpochMillis wire))
      | some m =>
        match ofMillis? m with
        | some t => return t.toValue
        | none => throw (.invalidValue path .beyondTime)

end Instant
end Bindery
