import Bindery.Catalogue.Model
/-!
# A catalogue of codecs

Codecs over every wire shape and for every kind of type, besides the standard ones.
-/

namespace Bindery.Catalogue

/-- A refusal of a codec. -/
def refuse {α : Type} (type reason : String) : Except BindError α :=
  .error (.invalidValue type (.other reason))

/-- The error of a codec that is handed a value of another shape. -/
def foreignValue {α : Type} (type : Ty) : Except BindError α :=
  .error (.typeError type.path .foreignCodecValue)

/-- The member of an integer type in a node. -/
def narrowNode (t : IntType) (n : Node) : Option Int := n.number?.bind (Number.narrow t)

/-- Temperatures as numbers; what is no number is zero degrees. -/
def celsius : Codec where
  type := foreignTy "Celsius"
  wire := .number
  write
    | .foreign _ [.f64 x] => .ok (.number (.float x))
    | _ => foreignValue (foreignTy "Celsius")
  read n :=
    .ok (.foreign (full "Celsius") [.f64 ((n.number?.map Number.toBinary64).getD .zero)])

/-- Temperatures that are never written. -/
def celsiusFail : Codec where
  type := foreignTy "Celsius"
  wire := .number
  write _ := refuse "Celsius" "refuses to encode"
  read _ := .ok (.foreign (full "Celsius") [.f64 (.ofRatio false 3 2)])

/-- Flags as booleans. -/
def flag : Codec where
  type := foreignTy "Flag"
  wire := .bool
  write
    | .foreign _ [.bool b] => .ok (.bool b)
    | _ => foreignValue (foreignTy "Flag")
  read
    | .bool b => .ok (.foreign (full "Flag") [.bool b])
    | _ => refuse "Flag" "not a bool"

/-- Pairs as arrays of two integers. -/
def pair : Codec where
  type := foreignTy "Pair"
  wire := .array
  write
    | .foreign _ [.int _ a, .int _ b] => .ok (.array [.number (.ofInt a), .number (.ofInt b)])
    | _ => foreignValue (foreignTy "Pair")
  read
    | .array [a, b] =>
      match narrowNode .i64 a, narrowNode .i64 b with
      | some a, some b => .ok (.foreign (full "Pair") [.int .i64 a, .int .i64 b])
      | _, _ => refuse "Pair" "needs two integers"
    | _ => refuse "Pair" "needs two integers"

/-- Amounts of money as objects; the currency has a default. -/
def money : Codec where
  type := foreignTy "Money"
  wire := .object
  write
    | .foreign _ [.int _ amount, .string cur] =>
      .ok (.object [("amount", .number (.ofInt amount)), ("cur", .string cur)])
    | _ => foreignValue (foreignTy "Money")
  read n :=
    match (n.get? "amount").bind (narrowNode .i64) with
    | some amount =>
      let cur := ((n.get? "cur").bind Node.string?).getD "USD"
      .ok (.foreign (full "Money") [.int .i64 amount, .string cur])
    | none => refuse "Money" "no amount"

/-- Any node, wrapped in an object; a null is read as a word of its own. -/
def blob : Codec where
  type := foreignTy "Blob"
  write
    | .foreign _ [.node n] => .ok (.object [("blob", n)])
    | _ => foreignValue (foreignTy "Blob")
  read n := .ok (.foreign (full "Blob") [.node n])
  readNull := .ok (.foreign (full "Blob") [.node (.string "nil")])

/-- An unsigned decimal number, a plus allowed before it. -/
def unsigned? (t : IntType) (cs : List Char) : Option Int :=
  let ds := match cs with
    | '+' :: ds => ds
    | ds => ds
  if ds.isEmpty || !ds.all Char.isDigit then none else t.check (Nat.ofDigitChars 10 ds 0)

/-- The characters before and after the last `c`. -/
def splitLast? (c : Char) (cs : List Char) : Option (List Char × List Char) :=
  match cs.reverse.span (· != c) with
  | (back, _ :: front) => some (front.reverse, back.reverse)
  | (_, []) => none

/-- People as `name:age`. -/
def personText : Codec where
  type := recordTy "Person"
  wire := .string
  write
    | .record _ [.string name, .int _ age, _] _ =>
      .ok (.string (name ++ ":" ++ Number.intText age))
    | _ => foreignValue (recordTy "Person")
  read n :=
    let parts := do
      let (name, age) ← splitLast? ':' (← n.string?).toList
      return (String.ofList name, ← unsigned? .u32 age)
    match parts with
    | some (name, age) =>
      .ok (personOf (.string name) (.int .u32 age) (.some (.string "codec")))
    | none => refuse "Person" "not name:age"
  readNull := .ok (personOf (.string "nobody") (.int .u32 0) (.none .string))

/-- Bytes as `0x` and two hexadecimal digits. -/
def u8Hex : Codec where
  type := u8
  wire := .string
  write
    | .int _ i => .ok (.string (String.ofList ('0' :: 'x' :: Hex.digits 2 i.toNat)))
    | _ => foreignValue u8
  read n :=
    match n.string?.map String.toList with
    | some ['0', 'x', a, b] =>
      match Hex.number? [a, b] with
      | some b => .ok (.int .u8 b)
      | none => refuse "u8" "not two hex digits"
    | _ => refuse "u8" "not two hex digits"

/-- Optional bytes as numbers, `-1` for none. -/
def optU8 : Codec where
  type := .option u8
  wire := .number
  write
    | .none _ => .ok (.number (.negInt (-1)))
    | .some (.int _ i) => .ok (.number (.ofInt i))
    | _ => foreignValue (.option u8)
  read n :=
    match narrowNode .i64 n with
    | some i =>
      if i = -1 then .ok (.none u8)
      else if 0 ≤ i ∧ i ≤ 255 then .ok (.some (.int .u8 i))
      else refuse "Option<u8>" "not -1..=255"
    | none => refuse "Option<u8>" "not -1..=255"
  readNull := .ok (.some (.int .u8 0))

/-- Levels as their positions. -/
def levelNumber : Codec where
  type := levelTy
  wire := .number
  write
    | .variant _ names name => .ok (.number (.ofInt (names.idxOf name)))
    | _ => foreignValue levelTy
  read n :=
    match narrowNode .u64 n with
    | some 0 => .ok (level "LOW")
    | some 1 => .ok (level "HIGH")
    | _ => refuse "Level" "not 0 or 1"

/-- Durations as whole milliseconds, counted modulo 2^64. -/
def durationMillis : Codec where
  type := Duration.type
  wire := .number
  write v :=
    match Duration.ofValue? v with
    | some d =>
      .ok (.number (.posInt (UInt64.ofNat (d.secs.toNat * 1000 + d.nanos / 1000000))))
    | none => foreignValue Duration.type
  read n :=
    let d := do
      let m := (← narrowNode .u64 n).toNat
      Duration.ofParts? (m / 1000) (m % 1000 * 1000000)
    match d with
    | some d => .ok d.toValue
    | none => refuse Duration.path "not milliseconds"

/-- A codec for a dynamic type, which nothing consults. -/
def nodeWord : Codec where
  type := .dynamic .any
  write _ := .ok (.string "codec")
  read _ := .ok (.node (.string "codec"))

/-- Byte sequences, written as hexadecimal digits and read as the bytes of a text. -/
def bytesText : Codec where
  type := vec u8
  wire := .string
  write
    | .seq _ _ items =>
      .ok (.string (String.ofList (items.flatMap fun v => Hex.digits 2 (intOf v).toNat)))
    | _ => foreignValue (vec u8)
  read n :=
    let bytes := (n.string?.map fun s => s.toUTF8.toList).getD []
    .ok (.seq .vec u8 (bytes.map fun b => .int .u8 b.toNat))

/-- All codecs under their names. -/
def codecs : List (String × Codec) :=
  [("PathBufCodec", FilePath.codec), ("IpAddrCodec", Address.codec),
    ("DurationCodec", Duration.codec), ("SystemTimeCodec", Instant.codec),
    ("CelsiusCodec", celsius), ("CelsiusFail", celsiusFail), ("FlagCodec", flag),
    ("PairCodec", pair), ("MoneyCodec", money), ("BlobCodec", blob),
    ("PersonCodec", personText), ("U8Hex", u8Hex), ("OptU8Codec", optU8),
    ("LevelCodec", levelNumber), ("DurationMillis", durationMillis), ("NodeCodec", nodeWord),
    ("VecU8Codec", bytesText)]

/-- The codec of a name. -/
def codec? (name : String) : Option Codec := codecs.lookup name

end Bindery.Catalogue
