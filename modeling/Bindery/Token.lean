import Bindery.Node
/-!
# Tokens

A document as a flat sequence: brackets, member names and scalars. `Node.tokens` writes a node
as its tokens. A tape is a recorded sequence; besides tokens it can hold the separators a writer
was asked for, which readers pass over, and entries that no token fits.
-/

namespace Bindery

/-- One token with what it carries. -/
inductive Token
  | startObject
  | endObject
  | startArray
  | endArray
  | name (key : String)
  | string (s : String)
  | number (n : Number)
  | bool (b : Bool)
  | null
  deriving DecidableEq

/-- What kind of token comes next, as readers and messages see it. -/
inductive TokenKind
  | startObject | endObject | startArray | endArray | name
  | string | number | boolean | null
  | endOfStream | unknown
  deriving DecidableEq

namespace TokenKind

/-- The word for a kind in messages. -/
def text : TokenKind → String
  | startObject => "START_OBJECT"
  | endObject => "END_OBJECT"
  | startArray => "START_ARRAY"
  | endArray => "END_ARRAY"
  | name => "NAME"
  | string => "STRING"
  | number => "NUMBER"
  | boolean => "BOOLEAN"
  | null => "NULL"
  | endOfStream => "END_OF_STREAM"
  | unknown => "UNKNOWN"

/-- Kinds of scalar tokens. -/
def isScalar : TokenKind → Bool
  | string | number | boolean | null => true
  | _ => false

/-- Kinds that begin a value. -/
def isValue : TokenKind → Bool
  | startObject | startArray => true
  | k => k.isScalar

/-- Kinds that end a container, or the stream. -/
def closes : TokenKind → Bool
  | endObject | endArray | endOfStream => true
  | _ => false

/-- All kinds, in order. -/
def all : List TokenKind :=
  [startObject, endObject, startArray, endArray, name, string, number, boolean, null,
    endOfStream, unknown]

end TokenKind

namespace Token

/-- The kind of a token. -/
def kind : Token → TokenKind
  | startObject => .startObject
  | endObject => .endObject
  | startArray => .startArray
  | endArray => .endArray
  | name _ => .name
  | string _ => .string
  | number _ => .number
  | bool _ => .boolean
  | null => .null

/-- Equality, numbers compared by `Number.numEq`. -/
def tokenEq : Token → Token → Bool
  | number a, number b => a.numEq b
  | a, b => a == b

end Token

namespace Node

/-- The kind of a node's first token. -/
def kind : Node → TokenKind
  | null => .null
  | bool _ => .boolean
  | number _ => .number
  | string _ => .string
  | array _ => .startArray
  | object _ => .startObject

mutual

/-- The tokens of a node. -/
def tokens : Node → List Token
  | .null => [.null]
  | .bool b => [.bool b]
  | .number n => [.number n]
  | .string s => [.string s]
  | .array items => .startArray :: (itemTokens items ++ [.endArray])
  | .object entries => .startObject :: (entryTokens entries ++ [.endObject])

/-- The tokens of nodes, one after the other. -/
def itemTokens : List Node → List Token
  | [] => []
  | n :: rest => tokens n ++ itemTokens rest

/-- The tokens of entries, each a name and a value. -/
def entryTokens : List (String × Node) → List Token
  | [] => []
  | (k, n) :: rest => .name k :: (tokens n ++ entryTokens rest)

end

end Node

/-- What a writer is asked to put down: a token or a separator. -/
inductive Mark
  | token (t : Token)
  | objectComma
  | arrayComma
  deriving DecidableEq

/-- One entry of a tape. -/
inductive TapeEntry
  | mark (m : Mark)
  | unknown
  deriving DecidableEq

namespace TapeEntry

/-- Whether readers pass over the entry. -/
def isSeparator : TapeEntry → Bool
  | mark .objectComma | mark .arrayComma => true
  | _ => false

/-- The kind of an entry; separators have none. -/
def kind? : TapeEntry → Option TokenKind
  | mark (.token t) => some t.kind
  | unknown => some .unknown
  | _ => none

/-- Equality, numbers compared by `Number.numEq`. -/
def entryEq : TapeEntry → TapeEntry → Bool
  | mark (.token a), mark (.token b) => a.tokenEq b
  | a, b => a == b

end TapeEntry

/-- A recorded sequence. Nothing checks that it is well formed. -/
abbrev Tape := List TapeEntry

namespace Tape

/-- The tape without its separators. -/
def plain (tape : List TapeEntry) : List TapeEntry := tape.filter fun e => !e.isSeparator

/-- The tape of some tokens. -/
def ofTokens (tokens : List Token) : List TapeEntry := tokens.map fun t => .mark (.token t)

/-- The tape of a node. -/
def ofNode (n : Node) : List TapeEntry := ofTokens n.tokens

/-- Equality entry by entry. -/
def tapeEq : List TapeEntry → List TapeEntry → Bool
  | [], [] => true
  | a :: as, b :: bs => a.entryEq b && tapeEq as bs
  | _, _ => false

end Tape
end Bindery
