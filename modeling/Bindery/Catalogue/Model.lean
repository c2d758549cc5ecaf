import Bindery.Standard
/-!
# A catalogue of records

A schema of records that between them use every way to declare one: constructors with and without
arguments, both, or neither; aliases, clashing and repeated names; read-only fields; side
objects; fields and side objects that belong to another record; constructors that check, setters
that count; recursion.
-/

namespace Bindery.Catalogue

/-- The full name of a type of the catalogue. -/
def full (name : String) : String := "oracle_driver::model::" ++ name

/-! ## Types -/

/-- A record of the catalogue. -/
def recordTy (name : String) : Ty := .record (full name)

/-- A type of the catalogue that only a codec can spell. -/
def foreignTy (name : String) : Ty := .foreign (full name)

/-- The names of the levels, the default first. -/
def levels : List String := ["LOW", "HIGH"]

/-- The enumeration of levels. -/
def levelTy : Ty := .enum (full "Level") levels

/-- A value of the enumeration of levels. -/
def level (name : String) : Value := .variant (full "Level") levels name

/-- Single-precision values of zero. -/
def zeroF32 : Value := .f32 ⟨0⟩

/-- A sequence that grows. -/
def vec (item : Ty) : Ty := .seq .vec item

/-- A sorted set. -/
def sortedSet (item : Ty) : Ty := .set .sorted item

/-- A sorted map. -/
def sortedMap (value : Ty) : Ty := .map .sorted value

/-- The empty sequence that grows. -/
def emptyVec (item : Ty) : Value := .seq .vec item []

/-- The empty sorted set. -/
def emptySet (item : Ty) : Value := .set .sorted item []

/-- The empty sorted map. -/
def emptyMap (value : Ty) : Value := .map .sorted value []

/-- Eight unsigned bits. -/
def u8 : Ty := .int .u8

/-- Thirty-two unsigned bits. -/
def u32 : Ty := .int .u32

/-- Sixty-four unsigned bits. -/
def u64 : Ty := .int .u64

/-- Thirty-two signed bits. -/
def i32 : Ty := .int .i32

/-- Sixty-four signed bits. -/
def i64 : Ty := .int .i64

/-! ## Parts of records -/

/-- A field that can be read and assigned. -/
def settable (owner : String) (cell : Nat) (name : String) (type : Ty)
    (aliases : List String := []) : Field :=
  { name, aliases, type, owner := full owner, cell, store := some fun i v => i.setCell cell v }

/-- A field that can only be read. -/
def readOnly (owner : String) (cell : Nat) (name : String) (type : Ty)
    (aliases : List String := []) : Field :=
  { name, aliases, type, owner := full owner, cell, store := none }

/-- An argument. -/
def arg (name : String) (type : Ty) (aliases : List String := []) : Arg := { name, aliases, type }

/-- An instance of a record, without a side object. -/
def make (name : String) (cells : List Value) : Value := .record (full name) cells []

/-- A record whose instances start from given cells. -/
def defaulted (name : String) (cells : List Value) (fields : List Field)
    (hybrid : Option Hybrid := none) : Record :=
  { name := full name, fields, hybrid
    creator := some { owner := recordTy name, noArgs := some (make name cells) } }

/-- A record whose instances are made from arguments. -/
def constructed (name : String) (args : List Arg) (withArgs : ArgSlots → Except BindError Value)
    (fields : List Field) (hybrid : Option Hybrid := none) : Record :=
  { name := full name, fields, hybrid
    creator := some { owner := recordTy name, args, withArgs := some withArgs } }

/-- A side object that replaces the one before. -/
def plainHybrid (owner : String) : Hybrid :=
  { owner := full owner, store := fun i side => { i with side } }

/-- The integer in a value, zero if there is none. -/
def intOf : Value → Int
  | .int _ i => i
  | _ => 0

/-- The number of bytes of the text in a value. -/
def byteLength : Value → Nat
  | .string s => s.utf8ByteSize
  | _ => 0

/-! ## Records -/

/-- People have a name of many aliases. -/
def personNames : List String := ["user_name", "userName", "login"]

/-- A person. -/
def personOf (name age nick : Value) : Value := make "Person" [name, age, nick]

/-- Two required arguments and a field of its own. -/
def person : Record :=
  constructed "Person" [arg "name" .string personNames, arg "age" u32]
    (fun a => do
      let name ← a.require 0 .string
      let age ← a.require 1 u32
      return personOf name age (.none .string))
    [readOnly "Person" 0 "name" .string personNames, readOnly "Person" 1 "age" u32,
      settable "Person" 2 "nick" (.option .string)]

/-- Two optional arguments. -/
def point : Record :=
  constructed "Point" [arg "x" i32, arg "y" i32]
    (fun a => do
      let x ← a.takeOr 0 i32 (.int .i32 0)
      let y ← a.takeOr 1 i32 (.int .i32 0)
      return make "Point" [x, y])
    [readOnly "Point" 0 "x" i32, readOnly "Point" 1 "y" i32]

/-- A default instance and plain fields. -/
def baby : Record :=
  defaulted "Baby" [.string "", .int .u32 0, level "LOW"]
    [settable "Baby" 0 "name" .string, settable "Baby" 1 "age" u32,
      settable "Baby" 2 "level" levelTy]

/-- A default instance and containers. -/
def family : Record :=
  defaulted "Family" [.string "", emptyVec (recordTy "Baby"), emptySet .string, emptyMap u32]
    [settable "Family" 0 "surname" .string, settable "Family" 1 "babies" (vec (recordTy "Baby")),
      settable "Family" 2 "tags" (sortedSet .string),
      settable "Family" 3 "scores" (sortedMap u32)]

/-- A default instance and a side object. -/
def tagged : Record :=
  defaulted "Tagged" [.string ""] [settable "Tagged" 0 "name" .string]
    (some (plainHybrid "Tagged"))

/-- Both ways to make an instance. -/
def both : Record :=
  { name := full "Both"
    fields := [settable "Both" 0 "a" i32, settable "Both" 1 "b" .string]
    creator := some
      { owner := recordTy "Both"
        args := [arg "a" i32, arg "b" .string]
        withArgs := some fun a => do
          let x ← a.require 0 i32
          let y ← a.require 1 .string
          return make "Both" [x, y]
        noArgs := some (make "Both" [.int .i32 (-1), .string "init"]) } }

/-- A constructor with no arguments to wait for. -/
def zeroArg : Record :=
  constructed "ZeroArg" [] (fun _ => return make "ZeroArg" [.int .u8 9])
    [settable "ZeroArg" 0 "v" u8]

/-- Arguments and no fields. -/
def argsOnly : Record :=
  constructed "ArgsOnly" [arg "x" u8, arg "y" .string]
    (fun a => do
      let x ← a.require 0 u8
      let y ← a.require 1 .string
      return make "ArgsOnly" [x, y]) []

/-- Aliases that are names and aliases of other fields. -/
def clash : Record :=
  defaulted "Clash" [.int .i32 0, .int .i32 0, .int .i32 0]
    [settable "Clash" 0 "a" i32 ["b", "x"], settable "Clash" 1 "b" i32 ["x", "y"],
      settable "Clash" 2 "c" i32 ["a", "y"]]

/-- Two arguments and two fields of one name. -/
def dup : Record :=
  constructed "Dup" [arg "k" i32, arg "k" i32]
    (fun a => do
      let first ← a.takeOr 0 i32 (.int .i32 0)
      let second ← a.takeOr 1 i32 (.int .i32 0)
      return make "Dup" [first, second])
    [settable "Dup" 0 "k" i32, settable "Dup" 1 "k" i32]

/-- A field that only the default instance sets. -/
def readOnlyRecord : Record :=
  defaulted "ReadOnly" [.int .u32 7, .string ""]
    [readOnly "ReadOnly" 0 "id" u32, settable "ReadOnly" 1 "note" .string]

/-- A required and an optional argument, and a side object. -/
def doc : Record :=
  constructed "Doc" [arg "id" u32, arg "title" .string ["heading"]]
    (fun a => do
      let id ← a.require 0 u32
      let title ← a.takeOr 1 .string (.string "")
      return make "Doc" [id, title, .int .u64 0])
    [readOnly "Doc" 0 "id" u32, readOnly "Doc" 1 "title" .string, settable "Doc" 2 "views" u64]
    (some (plainHybrid "Doc"))

/-- A side object that brings entries of its own. -/
def shadow : Record :=
  defaulted "Shadow" [.string ""] [settable "Shadow" 0 "name" .string ["nm"]]
    (some
      { owner := full "Shadow"
        store := fun i side =>
          let own : List (String × Node) :=
            [("name", .string "shadowed"), ("keep", .number (.posInt 1)),
              ("nm", .string "shadowed too")]
          { i with side := Entries.insertAll (Entries.insertAll i.side own) side } })

/-- A constructor that checks its arguments. -/
def range : Record :=
  constructed "Range" [arg "lo" i32 ["from", "min"], arg "hi" i32 ["to", "max"]]
    (fun a => do
      let lo ← a.require 0 i32
      let hi ← a.require 1 i32
      if intOf hi < intOf lo then
        throw (.invalidValue "Range" (.other ("lo " ++ Number.intText (intOf lo)
          ++ " exceeds hi " ++ Number.intText (intOf hi))))
      else return make "Range" [lo, hi, .string "none"])
    [readOnly "Range" 0 "lo" i32, readOnly "Range" 1 "hi" i32, settable "Range" 2 "label" .string]

/-- A constructor that asks for another type than its argument has. -/
def mistyped : Record :=
  constructed "Mistyped" [arg "v" u32]
    (fun a => do return make "Mistyped" [← a.require 0 .string])
    [readOnly "Mistyped" 0 "v" .string]

/-- A field of another record. -/
def alien : Record :=
  defaulted "Alien" [.int .u8 0] [settable "Alien" 0 "n" u8, settable "Point" 0 "x" i32]

/-- The side object of another record. -/
def alienHybrid : Record :=
  defaulted "AlienHybrid" [.int .u8 0] [settable "AlienHybrid" 0 "n" u8]
    (some (plainHybrid "Tagged"))

/-- A record inside itself. -/
def tree : Record :=
  defaulted "Tree" [.int .i64 0, emptyVec (recordTy "Tree"), emptyMap (recordTy "Tree")]
    [settable "Tree" 0 "value" i64, settable "Tree" 1 "children" (vec (recordTy "Tree")) ["kids"],
      settable "Tree" 2 "links" (sortedMap (recordTy "Tree"))]

/-- Every scalar type. -/
def scalars : Record :=
  let types : List (String × Ty × Value) :=
    [("b", .scalar .bool, .bool false), ("c", .scalar .char, .char (Char.ofNat 0))]
      ++ IntType.all.map (fun t => (t.name, Ty.int t, Value.int t 0))
      ++ [("f32", .scalar .f32, zeroF32), ("f64", .scalar .f64, .f64 .zero),
        ("s", .string, .string ""), ("unit", .scalar .unit, .unit)]
  defaulted "Scalars" (types.map (·.2.2))
    (types.zipIdx.map fun p => settable "Scalars" p.2 p.1.1 p.1.2.1)

/-- Every container type. -/
def bag : Record :=
  let parts : List (String × Value) :=
    [("opt", .some (.int .u8 1)),
      ("opt2", .some (.some (.int .u8 2))),
      ("list", .seq .vec .string [.string "d"]),
      ("deque", .seq .deque i32 [.int .i32 5]),
      ("slice", .seq .boxed u8 [.int .u8 6]),
      ("arr", .seq (.fixed 2) u8 [.int .u8 7, .int .u8 8]),
      ("set", .set .sorted i64 [.int .i64 9]),
      ("map", .map .sorted (vec i32) [("k", .seq .vec i32 [.int .i32 10])]),
      ("any", .node (.string "any")),
      ("obj", .object []),
      ("nodes", .array []),
      ("num", .number (.posInt 3)),
      ("level", level "HIGH")]
  defaulted "Bag" (parts.map (·.2))
    (parts.zipIdx.map fun p => settable "Bag" p.2 p.1.1 p.1.2.ty)

/-- The types of the standard codecs. -/
def times : Record :=
  let parts : List (String × Value) :=
    [("dur", Duration.zero.toValue),
      ("path", (FilePath.text "/").toValue),
      ("ip", Address.unspecified.toValue),
      ("at", Instant.epoch.toValue),
      ("maybe", .none Duration.type),
      ("durs", emptyVec Duration.type)]
  defaulted "Times" (parts.map (·.2))
    (parts.zipIdx.map fun p => settable "Times" p.2 p.1.1 p.1.2.ty)

/-- A field and no constructor. -/
def noCtor : Record := { name := full "NoCtor", fields := [settable "NoCtor" 0 "v" u8] }

/-- Nothing at all. -/
def nothing : Record := defaulted "Empty" [] []

/-- A side object and no fields. -/
def hybridOnly : Record := defaulted "HybridOnly" [] [] (some (plainHybrid "HybridOnly"))

/-- Names that paths have to quote. -/
def odd : Record :=
  let names : List (String × List String) :=
    [("naïve", ["é", "😀"]), ("日本", []), ("", []), ("a.b", []), ("it's", [])]
  defaulted "Odd" (names.map fun _ => .int .u8 0)
    (names.zipIdx.map fun p => settable "Odd" p.2 p.1.1 u8 p.1.2)

/-- An argument and a field of one name and different types. -/
def argField : Record :=
  constructed "ArgField" [arg "v" .string, arg "n" u8 ["w"]]
    (fun a => do
      let v ← a.require 0 .string
      let n ← a.require 1 u8
      return make "ArgField" [.int .u32 (byteLength v), n])
    [settable "ArgField" 0 "v" u32 ["w"], readOnly "ArgField" 1 "n" u8]

/-- A setter that also keeps a trace of what it was given. -/
def storeStep (i : Instance) (v : Value) : Instance :=
  let trace := (i.cells[3]?.map intOf).getD 0
  (i.setCell 2 v).setCell 3 (.int .i64 ((trace * 10 + intOf v).bmod UInt64.size))

/-- Setters whose calls can be told from the result. -/
def replay : Record :=
  constructed "Replay" [arg "p" i32, arg "q" i32]
    (fun a => do
      let p ← a.require 0 i32
      let q ← a.require 1 i32
      return make "Replay" [p, q, .int .i32 0, .int .i64 0])
    [readOnly "Replay" 0 "p" i32, settable "Replay" 1 "q" i32,
      { settable "Replay" 2 "step" i32 ["s1", "s2", "s3", "s4", "s5", "s6", "s7", "s8", "s9"] with
        store := some storeStep },
      readOnly "Replay" 3 "trace" i64]

/-- Records inside a record. -/
def team : Record :=
  let personTy := recordTy "Person"
  constructed "Team" [arg "lead" personTy]
    (fun a => do
      let lead ← a.require 0 personTy
      return make "Team"
        [lead, emptyVec personTy, emptyMap personTy, .none levelTy, make "Tagged" [.string ""]])
    [readOnly "Team" 0 "lead" personTy, settable "Team" 1 "members" (vec personTy),
      settable "Team" 2 "by_name" (sortedMap personTy),
      settable "Team" 3 "level" (.option levelTy), settable "Team" 4 "tagged" (recordTy "Tagged")]

/-- A field that cannot be written. -/
def secret : Record :=
  let opaqueTy := foreignTy "Opaque"
  defaulted "Secret" [.int .u8 1, .seq .vec opaqueTy [.foreign (full "Opaque") []]]
    [settable "Secret" 0 "id" u8, settable "Secret" 1 "o" (vec opaqueTy)]

/-- All records of the catalogue. -/
def records : List Record :=
  [person, point, baby, family, tagged, both, zeroArg, argsOnly, clash, dup, readOnlyRecord, doc,
    shadow, range, mistyped, alien, alienHybrid, tree, scalars, bag, times, noCtor, nothing,
    hybridOnly, odd, argField, replay, team, secret]

/-- The schema of the catalogue. -/
def schema : Schema := { records, order := Value.standardOrder }

end Bindery.Catalogue
