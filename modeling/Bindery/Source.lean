import Bindery.Event
/-!
# Token sources

A token stream shows the token at its front and moves past it. `Reading` is a computation on the
state of a source that fails with a `BindError`; every reading operation looks at the front
first and leaves the source alone when the front does not fit. The narrowing extractors alone
have consumed their number when they refuse it.

`skipByDepth` discards a value token by token and counts depth only, whatever the brackets are;
a source can put a quicker skip in its place. What a reading does is told to its source on the way.
-/

namespace Bindery

/-- What stands at the front of a stream. -/
inductive Front
  | token (t : Token)
  | unknown
  | done

namespace Front

/-- The kind a reader reports. -/
def kind : Front → TokenKind
  | token t => t.kind
  | unknown => .unknown
  | done => .endOfStream

end Front

/-- A stream of tokens. `length` bounds the number of tokens still to come. -/
class TokenStream (σ : Type) where
  front : σ → Front
  advance : σ → σ
  length : σ → Nat

/-- Reads from a source of type `σ`. -/
abbrev Reading (σ α : Type) := EStateM BindError σ α

/-- A stream with a way to discard its next value. -/
class TokenSource (σ : Type) extends TokenStream σ where
  skip : Reading σ Unit

namespace Reading

variable {σ α : Type}

/-- The number of containers open after a token is discarded, if a token of its kind can be discarded
at all. -/
def depthAfter : TokenKind → Nat → Option Nat
  | .startObject, depth | .startArray, depth => some (depth + 1)
  | .endObject, depth + 1 | .endArray, depth + 1 => some depth
  | .name, depth + 1 => some (depth + 1)
  | kind, depth => if kind.isScalar then some depth else none

/-- Tells the source what happens. -/
def tell [Listener σ] (e : Event σ) : Reading σ Unit := modify (Listener.hear e)

section Stream
variable [TokenStream σ]

/-- The kind of the token at the front; nothing is consumed. -/
def peek : Reading σ TokenKind := fun s => .ok (TokenStream.front s).kind s

/-- Consumes the token at the front if `pick` has an answer for it. -/
def take (expected : String) (pick : Token → Option α) : Reading σ α := fun s =>
  match TokenStream.front s with
  | .token t =>
    match pick t with
    | some a => .ok a (TokenStream.advance s)
    | none => .error (.tokenMismatch expected t.kind) s
  | other => .error (.tokenMismatch expected other.kind) s

/-- Consumes exactly this token, which carries nothing. -/
def expect (t : Token) : Reading σ Unit :=
  take t.kind.text fun u => if u = t then some () else none

/-- Consumes the start of an object. -/
def startObject : Reading σ Unit := expect .startObject

/-- Consumes the end of an object. -/
def endObject : Reading σ Unit := expect .endObject

/-- Consumes the start of an array. -/
def startArray : Reading σ Unit := expect .startArray

/-- Consumes the end of an array. -/
def endArray : Reading σ Unit := expect .endArray

/-- Consumes a null. -/
def null : Reading σ Unit := expect .null

/-- Consumes a member name. -/
def name : Reading σ String :=
  take TokenKind.name.text fun
    | .name k => some k
    | _ => none

/-- Consumes a string. -/
def string : Reading σ String :=
  take TokenKind.string.text fun
    | .string s => some s
    | _ => none

/-- Consumes a number. -/
def number : Reading σ Number :=
  take TokenKind.number.text fun
    | .number n => some n
    | _ => none

/-- Consumes a boolean. -/
def bool : Reading σ Bool :=
  take TokenKind.boolean.text fun
    | .bool b => some b
    | _ => none

/-- Whether the container being read has more members. -/
def hasNext : Reading σ Bool := do return !(← peek).closes

/-- Consumes a number and fits it into a type. -/
def narrowed (type : String) (fit : Number → Option α) : Reading σ α := do
  let n ← number
  match fit n with
  | some a => return a
  | none => throw (.invalidValue type (.doesNotFit n type))

/-- Consumes a number that is a member of an integer type. -/
def int (t : IntType) : Reading σ Int := narrowed t.name (Number.narrow t)

/-- Consumes a number with a nearest single. -/
def single : Reading σ Binary32 := narrowed "f32" Number.toBinary32?

/-- Consumes a number as a double. -/
def double : Reading σ Binary64 := narrowed "f64" fun n => some n.toBinary64

/-- The message for a front that begins no value. -/
def noValue : Reading σ α := do throw (.tokenMismatch "a value" (← peek))

variable [Listener σ]

/-- Ends where a bound is used up. -/
def spent : Reading σ α := do
  tell .exhausted
  noValue

/-- Discards the token at the front, which is of a kind, while `depth` containers are open. -/
def drop (kind : TokenKind) (depth : Nat) : Reading σ Unit := do
  let before ← get
  modify TokenStream.advance
  tell (.drop kind depth before (← get))

/-- Discards tokens until as many containers were closed as opened, `depth` of them being open;
`budget` bounds the number of tokens. -/
def skipByDepth : (budget depth : Nat) → Reading σ Unit
  | 0, _ => spent
  | budget + 1, depth => do
    let kind ← peek
    match depthAfter kind depth with
    | some after =>
      drop kind depth
      if after = 0 then return () else skipByDepth budget after
    | none => noValue

/-- Discards the next value token by token. -/
def skipTokens : Reading σ Unit := fun s => skipByDepth (TokenStream.length s + 1) 0 s

/-- Runs `body` on an accumulator once for each member of the container being read; `budget`
bounds the number of members. -/
def forMembers (body : α → Reading σ α) : Nat → α → Reading σ α
  | 0, acc => do
    tell .exhausted
    return acc
  | budget + 1, acc => do
    if ← hasNext then
      let before ← get
      let acc ← body acc
      tell (.turn before (← get))
      forMembers body budget acc
    else return acc

end Stream

/-- A reading that another one asks for. -/
def asked [Listener σ] (whole : Ty) (start : σ) (part : Ty) (r : Reading σ α) : Reading σ α := do
  tell (.ask whole start part (← get))
  r

/-- The outcome with the errors of a reading given a place. -/
def atPlace (place : Place) (r : Reading σ α) : Reading σ α := fun s =>
  match r s with
  | .ok a s => .ok a s
  | .error e s => .error (e.at? place) s

/-- Reads from a source: the outcome, and the source as the reading leaves it. -/
def run (r : Reading σ α) (s : σ) : Except BindError α × σ :=
  match r s with
  | .ok a s => (.ok a, s)
  | .error e s => (.error e, s)

/-- An outcome that needs no reading. -/
def lift : Except BindError α → Reading σ α
  | .ok a => pure a
  | .error e => throw e

/-- What is made of what was read. -/
def perform [Listener σ] (x : Making α) : Reading σ α := do
  x.deeds.forM fun d => tell (.deed d)
  lift x.outcome

end Reading

/-- Discards the next value. -/
def Reading.skip {σ : Type} [TokenSource σ] : Reading σ Unit := TokenSource.skip

end Bindery
