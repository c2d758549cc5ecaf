import Bindery.Codec
/-!
# Internet addresses

The text of an IPv4 address is four decimal numbers; that of an IPv6 address eight hexadecimal
groups, the longest run of two or more zero groups (the first of equals) written `::`, and an
address that maps an IPv4 address written with it. Reading accepts one `::`, groups of up to four
digits, and an IPv4 address in the place of the last two groups.
-/

namespace Bindery

/-- An address of either version. -/
inductive Address
  | v4 (octets : List UInt8)
  | v6 (groups : List UInt16)
  deriving DecidableEq

namespace Address

/-- The full name of the type of addresses. -/
def path : String := "core::net::ip_addr::IpAddr"

/-- The type of addresses. -/
def type : Ty := .foreign path

/-- The address `0.0.0.0`. -/
def unspecified : Address := .v4 [0, 0, 0, 0]

/-- An address as a value: octets or groups. -/
def toValue : Address → Value
  | v4 octets => .foreign path (octets.map fun b => .int .u8 b.toNat)
  | v6 groups => .foreign path (groups.map fun g => .int .u16 g.toNat)

/-- The address in a value. -/
def ofValue? : Value → Option Address
  | .foreign name parts =>
    if name ≠ path then none
    else
      let ints := parts.filterMap fun
        | .int _ i => some i.toNat
        | _ => none
      if ints.length = 4 then some (.v4 (ints.map UInt8.ofNat))
      else if ints.length = 8 then some (.v6 (ints.map UInt16.ofNat))
      else none
  | _ => none

/-! ## Order -/

/-- The order of addresses: IPv4 before IPv6, each number by number. -/
def compare : Address → Address → Ordering
  | v4 as, v4 bs => List.compareLex Ord.compare as bs
  | v4 _, v6 _ => .lt
  | v6 _, v4 _ => .gt
  | v6 as, v6 bs => List.compareLex Ord.compare as bs

/-- The order of the addresses in values. -/
def order (v w : Value) : Ordering :=
  match ofValue? v, ofValue? w with
  | some a, some b => compare a b
  | _, _ => .eq

/-! ## Text -/

/-- The text of an IPv4 address. -/
def text4 (octets : List Nat) : List Char :=
  ['.'].intercalate (octets.map (Nat.toDigits 10))

/-- The length of the run of zeros at the front. -/
def zeroRun (groups : List Nat) : Nat := (groups.takeWhile (· == 0)).length

/-- The start and the length of the longest run of zeros, the first of equals. -/
def longestZeros (groups : List Nat) : Nat × Nat :=
  (List.range groups.length).foldl
    (fun best i =>
      let run := zeroRun (groups.drop i)
      if best.2 < run then (i, run) else best) (0, 0)

/-- Groups separated by colons. -/
def groupsText (groups : List Nat) : List Char :=
  [':'].intercalate (groups.map (Nat.toDigits 16))

/-- The text of an IPv6 address. -/
def text6 (groups : List Nat) : List Char :=
  match groups with
  | [0, 0, 0, 0, 0, 0xffff, a, b] =>
    ':' :: ':' :: 'f' :: 'f' :: 'f' :: 'f' :: ':' :: text4 [a / 256, a % 256, b / 256, b % 256]
  | groups =>
    let (start, run) := longestZeros groups
    if 1 < run then
      groupsText (groups.take start) ++ ':' :: ':' :: groupsText (groups.drop (start + run))
    else groupsText groups

/-- The text of an address. -/
def text : Address → String
  | v4 octets => String.ofList (text4 (octets.map UInt8.toNat))
  | v6 groups => String.ofList (text6 (groups.map UInt16.toNat))

/-! ## Reading text -/

/-- The value of a digit below a radix of at most sixteen. -/
def digitValue? (radix : Nat) (c : Char) : Option Nat :=
  let v :=
    if c.isDigit then some (c.toNat - '0'.toNat)
    else if 'a' ≤ c ∧ c ≤ 'f' then some (c.toNat - 'a'.toNat + 10)
    else if 'A' ≤ c ∧ c ≤ 'F' then some (c.toNat - 'A'.toNat + 10)
    else none
  v.filter (· < radix)

/-- The digits at the front, as values. -/
def digitValues (radix : Nat) (cs : List Char) : List Nat :=
  (cs.takeWhile fun c => (digitValue? radix c).isSome).filterMap (digitValue? radix)

/-- A number of at least one and at most `most` digits. -/
def number? (radix most : Nat) (cs : List Char) : Option (Nat × List Char) :=
  let ds := digitValues radix cs
  if ds.isEmpty || most < ds.length then none
  else some (ds.foldl (fun n d => n * radix + d) 0, cs.drop ds.length)

/-- A decimal octet, which begins with a zero only if it is zero. -/
def octet? (cs : List Char) : Option (Nat × List Char) := do
  let (n, rest) ← number? 10 3 cs
  if cs.head? = some '0' ∧ rest.length + 1 < cs.length then none
  if n < 256 then return (n, rest) else none

/-- One given character. -/
def given? (c : Char) : List Char → Option (List Char)
  | d :: rest => if d = c then some rest else none
  | [] => none

/-- Four octets between points. -/
def read4? (cs : List Char) : Option (List Nat × List Char) := do
  let (a, cs) ← octet? cs
  let (b, cs) ← octet? (← given? '.' cs)
  let (c, cs) ← octet? (← given? '.' cs)
  let (d, cs) ← octet? (← given? '.' cs)
  return ([a, b, c, d], cs)

/-- Up to `room` groups between colons, and whether they end in an IPv4 address; `first` says
that no colon comes before the next group. -/
def groups : (room : Nat) → (first : Bool) → List Char → List Nat × Bool × List Char
  | 0, _, cs => ([], false, cs)
  | room + 1, first, cs =>
    let start := if first then some cs else given? ':' cs
    let embedded := if 0 < room then start.bind read4? else none
    match embedded with
    | some ([a, b, c, d], rest) => ([a * 256 + b, c * 256 + d], true, rest)
    | _ =>
      match start.bind (number? 16 4) with
      | none => ([], false, cs)
      | some (g, rest) =>
        let (more, ends4, rest) := groups room false rest
        (g :: more, ends4, rest)

/-- Eight groups, some of them possibly left out at one `::`. -/
def read6? (cs : List Char) : Option (List Nat × List Char) := do
  let (head, ends4, cs) := groups 8 true cs
  if head.length = 8 then return (head, cs)
  if ends4 then none
  let cs ← given? ':' (← given? ':' cs)
  let (tail, _, cs) := groups (7 - head.length) true cs
  return (head ++ List.replicate (8 - head.length - tail.length) 0 ++ tail, cs)

/-- The address a text spells. -/
def parse? (text : String) : Option Address :=
  let cs := text.toList
  match read4? cs with
  | some (octets, rest) => if rest.isEmpty then some (.v4 (octets.map UInt8.ofNat)) else none
  | none =>
    match read6? cs with
    | some (gs, rest) => if rest.isEmpty then some (.v6 (gs.map UInt16.ofNat)) else none
    | none => none

/-- Addresses as text. -/
def codec : Codec where
  type := type
  wire := .string
  write v :=
    match ofValue? v with
    | some a => .ok (.string a.text)
    | none => .error (.typeError path .foreignCodecValue)
  read
    | .string text =>
      match parse? text with
      | some a => .ok a.toValue
      | none => .error (.invalidValue path (.notAnAddress text))
    | other => .error (.tokenMismatch TokenKind.string.text other.kind)

end Address
end Bindery
