import Bindery.Error
import Bindery.Ty
/-!
# Values

A value carries enough to know its type, `Value.ty`. A record instance is a list of cells, which
its fields show, and a side object; a foreign value is a list of parts that its codec knows. Sets
keep their elements by an order of the values of one type, which is a parameter here: every type
can have one of its own. `Value.compare` is the order of the types that have none.
-/

namespace Bindery

/-- A value of some type. -/
inductive Value
  | unit
  | bool (b : Bool)
  | char (c : Char)
  | int (t : IntType) (i : Int)
  | f32 (x : Binary32)
  | f64 (x : Binary64)
  | string (s : String)
  | number (n : Number)
  | variant (enum : String) (variants : List String) (name : String)
  | none (payload : Ty)
  | some (v : Value)
  | seq (kind : SeqKind) (item : Ty) (items : List Value)
  | set (keeping : Keeping) (item : Ty) (items : List Value)
  | map (keeping : Keeping) (value : Ty) (entries : List (String × Value))
  | node (n : Node)
  | object (entries : List (String × Node))
  | array (items : List Node)
  | record (name : String) (cells : List Value) (side : List (String × Node))
  | foreign (name : String) (parts : List Value)
  deriving Inhabited

namespace Value

/-- The type of a value. -/
def ty : Value → Ty
  | unit => .scalar .unit
  | bool _ => .scalar .bool
  | char _ => .scalar .char
  | int t _ => .scalar (.int t)
  | f32 _ => .scalar .f32
  | f64 _ => .scalar .f64
  | string _ => .scalar .string
  | number _ => .scalar .number
  | variant enum variants _ => .enum enum variants
  | none payload => .option payload
  | some v => .option v.ty
  | seq kind item _ => .seq kind item
  | set keeping item _ => .set keeping item
  | map keeping value _ => .map keeping value
  | node _ => .dynamic .any
  | object _ => .dynamic .object
  | array _ => .dynamic .array
  | record name _ _ => .record name
  | foreign name _ => .foreign name

/-- The value itself if it is of type `t`. -/
def ofType (t : Ty) (v : Value) : Except BindError Value :=
  if v.ty = t then .ok v else .error (.typeError t.path (.received v.ty.path))

/-- The form of a value, in one word. -/
def formName : Value → String
  | unit => "null"
  | bool _ => "bool"
  | char _ => "char"
  | int _ _ | f32 _ | f64 _ | number _ => "number"
  | string _ => "string"
  | variant _ _ _ => "enum"
  | none _ | some _ => "optional"
  | seq _ _ _ => "list"
  | set _ _ _ => "set"
  | map _ _ _ => "map"
  | node _ => "node"
  | object _ => "object"
  | array _ => "array"
  | record _ _ _ => "pojo"
  | foreign _ _ => "opaque"

/-! ## Order -/

/-- The place of a value's form among the forms. -/
def rank : Value → Nat
  | unit => 0
  | bool _ => 1
  | char _ => 2
  | int _ _ => 3
  | f32 _ => 4
  | f64 _ => 5
  | string _ => 6
  | number _ => 7
  | variant _ _ _ => 8
  | none _ => 9
  | some _ => 10
  | seq _ _ _ => 11
  | set _ _ _ => 12
  | map _ _ _ => 13
  | node _ => 14
  | object _ => 15
  | array _ => 16
  | record _ _ _ => 17
  | foreign _ _ => 18

section Order

-- The orders that named types have of their own.
variable (own : String → Option (Value → Value → Ordering))

mutual

/-- The order of values of one type. Text and characters go by code point, nothing before
something, variants as declared, containers item by item and records by their cells; the named
types that have an order of their own go by it. -/
def compare : Value → Value → Ordering
  | bool a, bool b => Ord.compare a b
  | char a, char b => Ord.compare a.toNat b.toNat
  | int _ a, int _ b => Ord.compare a b
  | f32 a, f32 b => Ord.compare a.bits.toNat b.bits.toNat
  | f64 a, f64 b => Ord.compare a.bits.toNat b.bits.toNat
  | string a, string b => Ord.compare a b
  | variant enum names a, variant _ names' b =>
    match own enum with
    | Option.some order => order (variant enum names a) (variant enum names' b)
    | Option.none => Ord.compare (names.idxOf a) (names.idxOf b)
  | some a, some b => compare a b
  | seq _ _ as, seq _ _ bs => compareItems as bs
  | set _ _ as, set _ _ bs => compareItems as bs
  | map _ _ as, map _ _ bs => compareEntries as bs
  | record name as side, record _ bs side' =>
    match own name with
    | Option.some order => order (record name as side) (record name bs side')
    | Option.none => compareItems as bs
  | foreign name as, foreign _ bs =>
    match own name with
    | Option.some order => order (foreign name as) (foreign name bs)
    | Option.none => compareItems as bs
  | a, b => Ord.compare a.rank b.rank

/-- The order of lists of values: the first difference decides, then the length. -/
def compareItems : List Value → List Value → Ordering
  | [], [] => .eq
  | [], _ :: _ => .lt
  | _ :: _, [] => .gt
  | a :: as, b :: bs => (compare a b).then (compareItems as bs)

/-- The order of lists of entries, each by key and value. -/
def compareEntries : List (String × Value) → List (String × Value) → Ordering
  | [], [] => .eq
  | [], _ :: _ => .lt
  | _ :: _, [] => .gt
  | (j, a) :: as, (k, b) :: bs =>
    (Ord.compare j k).then ((compare a b).then (compareEntries as bs))

end

end Order

/-! ## Containers -/

section Elements
variable (order : Value → Value → Ordering)

/-- Puts an element into a sorted list without duplicates; an equal element stays. -/
def insertSorted (v : Value) : List Value → List Value
  | [] => [v]
  | w :: rest =>
    match order v w with
    | .lt => v :: w :: rest
    | .eq => w :: rest
    | .gt => w :: insertSorted v rest

/-- Puts an element behind a list unless an equal one is there. -/
def insertNew (items : List Value) (v : Value) : List Value :=
  if items.any fun w => order v w == .eq then items else items ++ [v]

/-- The elements a set keeps: a sorted set those that came last of equal ones, in ascending order.
Hashed sets show no order of their own; they keep the order of arrival. -/
def keepItems : Keeping → List Value → List Value
  | .sorted, items => items.foldr (insertSorted order) []
  | _, items => items.foldl (insertNew order) []

end Elements

/-- Puts an entry into a list sorted by key; an entry of the same key stays. -/
def insertSortedEntry (e : String × Value) : List (String × Value) → List (String × Value)
  | [] => [e]
  | f :: rest =>
    match Ord.compare e.1 f.1 with
    | .lt => e :: f :: rest
    | .eq => f :: rest
    | .gt => f :: insertSortedEntry e rest

/-- The entries a map keeps, the last value of a key. -/
def keepEntries : Keeping → List (String × Value) → List (String × Value)
  | .sorted, entries => entries.foldr insertSortedEntry []
  | _, entries => Entries.ofList entries

/-- The values that are of type `t`, or the first that is not. -/
def allOfType (t : Ty) (items : List Value) : Except BindError (List Value) :=
  items.mapM (ofType t)

/-- Something of a payload type. -/
def wrapSome (payload : Ty) (v : Value) : Except BindError Value := do
  return .some (← ofType payload v)

/-- The sequence of some items; a fixed one checks their number. -/
def buildSeq (kind : SeqKind) (item : Ty) (items : List Value) : Except BindError Value := do
  let items ← allOfType item items
  match kind with
  | .fixed n =>
    if items.length = n then return .seq kind item items
    else throw (.invalidValue (Ty.seq kind item).path (.wrongLength n items.length))
  | _ => return .seq kind item items

/-- The set of some items. -/
def buildSet (order : Value → Value → Ordering) (keeping : Keeping) (item : Ty)
    (items : List Value) : Except BindError Value := do
  return .set keeping item (keepItems order keeping (← allOfType item items))

/-- The map of some entries. -/
def buildMap (keeping : Keeping) (value : Ty) (entries : List (String × Value)) :
    Except BindError Value := do
  let entries ← entries.mapM fun e => do return (e.1, ← ofType value e.2)
  return .map keeping value (keepEntries keeping entries)

/-- The container of a type that holds some items, each with a key that only maps look at. An
option holds the last item. Other types are not containers. -/
def build? (order : Value → Value → Ordering) (t : Ty) (items : List (String × Value)) :
    Option (Except BindError Value) :=
  let values := items.map (·.2)
  match t with
  | .option payload =>
    Option.some <|
      match values.getLast? with
      | Option.some v => wrapSome payload v
      | Option.none => .ok (.none payload)
  | .seq kind item => Option.some (buildSeq kind item values)
  | .set keeping item => Option.some (buildSet order keeping item values)
  | .map keeping value => Option.some (buildMap keeping value items)
  | _ => Option.none

end Value
end Bindery
