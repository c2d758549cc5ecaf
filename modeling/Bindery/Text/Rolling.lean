import Bindery.IntType
/-!
# Rolling hash

A hash of 64 bits that takes a whole word as it is, and bytes by rolling: the last byte first,
each added after turning the state by eight bits.
-/

namespace Bindery

/-- The state of a rolling hash. -/
structure RollingHash where
  state : UInt64 := 0
  deriving DecidableEq

namespace RollingHash

/-- The state turned left by eight bits. -/
def turn (h : UInt64) : UInt64 := (h <<< 8) ||| (h >>> 56)

/-- Takes bytes, the last one first. -/
def writeBytes (h : RollingHash) (bytes : List UInt8) : RollingHash :=
  ⟨bytes.foldr (fun b s => turn s + b.toUInt64) h.state⟩

/-- Takes a word in place of all that came before. -/
def writeWord (_ : RollingHash) (word : UInt64) : RollingHash := ⟨word⟩

/-- The `count` lowest bytes of a word, the lowest first. -/
def bytesOf (count : Nat) (word : UInt64) : List UInt8 :=
  (List.range count).map fun i => (word >>> UInt64.ofNat (8 * i)).toUInt8

/-- Takes a member of an integer type: one of `u64` or `i64` as a word, any other as bytes. -/
def writeInt (h : RollingHash) (t : IntType) (i : Int) : RollingHash :=
  let word := UInt64.ofInt i
  match t with
  | .u64 | .i64 => h.writeWord word
  | t => h.writeBytes (bytesOf (t.width / 8) word)

end RollingHash
end Bindery
