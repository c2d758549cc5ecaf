import Bindery.Source
/-!
# Reading a tape

A tape reader keeps what is left of its tape and how many entries it has consumed. Separators at
the front are passed over, whatever is asked.
-/

namespace Bindery

/-- A place on a tape. -/
structure TapeReader where
  rest : List TapeEntry
  consumed : Nat := 0

namespace TapeReader

/-- At the start of a tape. -/
def ofTape (tape : List TapeEntry) : TapeReader := { rest := tape }

/-- The number of entries before the front, separators included. -/
def position (r : TapeReader) : Nat := r.consumed + (r.rest.takeWhile (·.isSeparator)).length

/-- What is left of the tape from the first entry that is no separator. -/
def current (r : TapeReader) : List TapeEntry := r.rest.dropWhile (·.isSeparator)

instance : TokenStream TapeReader where
  front r :=
    match r.current with
    | .mark (.token t) :: _ => .token t
    | [] => .done
    | _ => .unknown
  advance r :=
    match r.current with
    | [] => { rest := [], consumed := r.position }
    | _ :: rest => { rest, consumed := r.position + 1 }
  length r := r.rest.length

instance : TokenSource TapeReader where
  skip := Reading.skipTokens

end TapeReader
end Bindery
