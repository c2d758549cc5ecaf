import Bindery.Classification
import Bindery.Path
import Bindery.Token
/-!
# Errors

An error is a cause, and at most one place around it: `BindError.at?` adds the place where the
cause arose, unless there is one already. `BindError.message?` is the only function that words
errors; it has no answer for a cause that quotes a node without JSON text.
-/

namespace Bindery

/-- Why a type cannot be bound, or does not fit. -/
inductive TypeProblem
  | nullNotAccepted
  | noConstructor
  | noUsableConstructor
  | noAccessibleFields
  | unrecognizedRecord
  | unrecognizedType
  | noCodec
  | missingArgument (name : String)
  | received (type : String)
  | foreignField
  | foreignSideObject
  | foreignCodecValue
  | otherKind (expected found : String)
  | notARecord (classified : Classification)
  | other (text : String)
  deriving DecidableEq

/-- The wording of a type problem. -/
def TypeProblem.text : TypeProblem → String
  | nullNotAccepted => "null is not accepted"
  | noConstructor => "no constructor"
  | noUsableConstructor => "no usable constructor"
  | noAccessibleFields => "no accessible fields"
  | unrecognizedRecord => "unrecognized pojo"
  | unrecognizedType => "unrecognized type"
  | noCodec => "no value codec registered"
  | missingArgument name => "missing constructor argument `" ++ name ++ "`"
  | received type => "received a value of type `" ++ type ++ "`"
  | foreignField => "field owner has another type"
  | foreignSideObject => "side map owner has another type"
  | foreignCodecValue => "codec received a value of another type"
  | otherKind expected found => "expected " ++ expected ++ ", found " ++ found
  | notARecord classified => "classified as " ++ classified.text ++ ", not as a pojo"
  | other text => text

/-- Why a value is not one of its type. -/
inductive ValueProblem
  | doesNotFit (n : Number) (type : String)
  | noCharacter
  | wrongLength (expected found : Nat)
  | noJsonForm (x : Binary64)
  | pathNotUtf8
  | notAnAddress (text : String)
  | notADuration (text : String)
  | notEpochMillis (wire : Node)
  | beyondMillis
  | beyondTime
  | other (text : String)

/-- The wording of a value problem; none if it quotes a node without JSON text. -/
def ValueProblem.text? (numerals : Json.Numerals) : ValueProblem → Option String
  | doesNotFit n type => some (n.display ++ " does not fit in `" ++ type ++ "`")
  | noCharacter => some "an empty string has no character"
  | wrongLength expected found =>
    some ("expected " ++ Number.intText expected ++ " elements, found " ++ Number.intText found)
  | noJsonForm x => some (x.display ++ " has no JSON form")
  | pathNotUtf8 => some "path is not valid UTF-8"
  | notAnAddress text => some ("`" ++ text ++ "`: invalid IP address syntax")
  | notADuration text => some ("`" ++ text ++ "` is not an ISO-8601 duration")
  | notEpochMillis wire => (wire.display? numerals).map fun t => "`" ++ t ++ "` is not epoch milliseconds"
  | beyondMillis => some "out of the millisecond range"
  | beyondTime => some "out of the platform time range"
  | other text => some text

/-- Why a sequence of tokens, or a text, is no document. -/
inductive StreamProblem
  | unclosed
  | noValue
  | secondRoot
  | unnamedValue
  | strayEndObject
  | strayEndArray
  | strayName
  | json (text : String)
  | other (text : String)
  deriving DecidableEq

/-- The wording of a stream problem. -/
def StreamProblem.text : StreamProblem → String
  | unclosed => "unclosed container"
  | noValue => "no value was written"
  | secondRoot => "more than one root value"
  | unnamedValue => "object value without a name"
  | strayEndObject => "unbalanced end of object"
  | strayEndArray => "unbalanced end of array"
  | strayName => "name outside of an object"
  | json text => text
  | other text => text

/-- Why a value could not be read or written. -/
inductive BindError
  | tokenMismatch (expected : String) (found : TokenKind)
  | typeError (type : String) (problem : TypeProblem)
  | enumMismatch (type value : String)
  | unsupportedType (type : String)
  | unknownKey (type key : String)
  | invalidValue (type : String) (problem : ValueProblem)
  | malformed (problem : StreamProblem)
  | located (path : String) (cause : BindError)

namespace BindError

/-- The full message; none if the cause quotes a node without JSON text. -/
def message? (numerals : Json.Numerals) : BindError → Option String
  | tokenMismatch expected found => some ("expected " ++ expected ++ ", found " ++ found.text)
  | typeError type problem => some ("cannot bind `" ++ type ++ "`: " ++ problem.text)
  | enumMismatch type value => some ("`" ++ value ++ "` is not a variant of `" ++ type ++ "`")
  | unsupportedType type => some ("no encoding available for `" ++ type ++ "`")
  | unknownKey type key => some ("unknown key `" ++ key ++ "` for `" ++ type ++ "`")
  | invalidValue type problem =>
    (problem.text? numerals).map fun t => "invalid value for `" ++ type ++ "`: " ++ t
  | malformed problem => some ("malformed token stream: " ++ problem.text)
  | located path cause => (cause.message? numerals).map fun t => "binding failed at " ++ path ++ ": " ++ t

/-- The name of the kind of an error. -/
def kindName : BindError → String
  | tokenMismatch _ _ => "TokenMismatch"
  | typeError _ _ => "TypeError"
  | enumMismatch _ _ => "EnumMismatch"
  | unsupportedType _ => "UnsupportedType"
  | unknownKey _ _ => "UnknownKey"
  | invalidValue _ _ => "InvalidValue"
  | malformed _ => "Syntax"
  | located _ _ => "BindingFailure"

/-- The innermost cause. -/
def rootCause : BindError → BindError
  | located _ cause => cause.rootCause
  | e => e

/-- Where the error arose, if that is known. -/
def path? : BindError → Option String
  | located path _ => some path
  | _ => none

/-- The error directly inside. -/
def source? : BindError → Option BindError
  | located _ cause => some cause
  | _ => none

/-- Whether the error says where it arose. -/
def isLocated : BindError → Bool
  | located _ _ => true
  | _ => false

/-- Adds a place, if there is one to add and the error has none. -/
def at? (place : Place) (e : BindError) : BindError :=
  if e.isLocated then e
  else match place with
    | some path => located (Path.render path) e
    | none => e

end BindError
end Bindery
