import Bindery.Binder
/-!
# Reading a tree

`Tree.value c n t place` is what reading the node `n` as a value of type `t` gives, told by recursion
on the node: there is no source and no budget. `Bindery.Proofs.Reads` shows that reading from any
source that walks the tokens of the node gives exactly this.
-/

namespace Bindery

/-! ## Nodes as they are read -/

namespace Node

/-- The first token of a node. -/
def head : Node → Token
  | .null => .null
  | .bool b => .bool b
  | .number n => .number n
  | .string s => .string s
  | .array _ => .startArray
  | .object _ => .startObject

@[simp] theorem head_kind (n : Node) : n.head.kind = n.kind := by cases n <;> rfl

theorem head_opens (n : Node) : ¬ n.head.kind.closes := by cases n <;> exact Bool.false_ne_true

theorem tokens_eq (n : Node) : ∃ ts, n.tokens = n.head :: ts := by
  cases n <;> exact ⟨_, rfl⟩

theorem tokens_length_pos (n : Node) : 0 < n.tokens.length := by
  obtain ⟨ts, hts⟩ := n.tokens_eq
  exact hts ▸ Nat.succ_pos _

theorem itemTokens_eq (ns : List Node) : itemTokens ns = ns.flatMap tokens := by
  induction ns with
  | nil => rfl
  | cons n ns ih => rw [itemTokens, ih, List.flatMap_cons]

theorem entryTokens_eq (es : List (String × Node)) :
    entryTokens es = es.flatMap fun e => .name e.1 :: e.2.tokens := by
  induction es with
  | nil => rfl
  | cons e es ih => rw [entryTokens, ih, List.flatMap_cons]; rfl

theorem array_tokens (ns : List Node) :
    (array ns).tokens = .startArray :: (ns.flatMap tokens ++ [.endArray]) := by
  rw [tokens, itemTokens_eq]

theorem object_tokens (es : List (String × Node)) :
    (object es).tokens =
      .startObject :: (es.flatMap (fun e => .name e.1 :: e.2.tokens) ++ [.endObject]) := by
  rw [tokens, entryTokens_eq]

/-- Members are no more than their tokens. -/
theorem length_le_length_flatMap {μ : Type} (tokens : μ → List Token) (ms : List μ)
    (h : ∀ m ∈ ms, 0 < (tokens m).length) : ms.length ≤ (ms.flatMap tokens).length := by
  induction ms with
  | nil => exact Nat.le_refl _
  | cons m ms ih =>
    have := h m (by simp)
    have := ih fun m' hm' => h m' (by simp [hm'])
    rw [List.flatMap_cons, List.length_append, List.length_cons]
    omega

mutual

/-- The node that reading gives: a repeated key keeps its first place and its last value. -/
def collapse : Node → Node
  | .array ns => .array (collapseItems ns)
  | .object es => .object (Entries.ofList (collapseEntries es))
  | n => n

/-- The items of an array as they are read. -/
def collapseItems : List Node → List Node
  | [] => []
  | n :: ns => collapse n :: collapseItems ns

/-- The entries of an object as they are read, each by itself. -/
def collapseEntries : List (String × Node) → List (String × Node)
  | [] => []
  | (k, n) :: es => (k, collapse n) :: collapseEntries es

end

theorem collapseItems_eq (ns : List Node) : collapseItems ns = ns.map collapse := by
  induction ns with
  | nil => rfl
  | cons n ns ih => rw [collapseItems, ih, List.map_cons]

theorem collapseEntries_eq (es : List (String × Node)) :
    collapseEntries es = es.map fun e => (e.1, e.2.collapse) := by
  induction es with
  | nil => rfl
  | cons e es ih => rw [collapseEntries, ih, List.map_cons]

end Node

namespace Tree

variable (c : Context)

/-- What reading a part of a document gives, as a type at a place. -/
abbrev Part := Ty → Place → Except BindError Value

/-- The refusal of a node where another kind of token was expected. -/
def mismatch {α : Type} (expected : TokenKind) (n : Node) : Except BindError α :=
  .error (.tokenMismatch expected.text n.kind)

/-- What an extractor answers before a node: the content that it looks for, or a refusal. -/
def extract {α : Type} (expected : TokenKind) (n : Node) : Option α → Except BindError α
  | some a => .ok a
  | none => mismatch expected n

/-- What a narrowing extractor answers before a node. -/
def narrowed {α : Type} (type : String) (fit : Number → Option α) (n : Node) : Except BindError α := do
  let x ← extract .number n n.number?
  match fit x with
  | some a => return a
  | none => throw (.invalidValue type (.doesNotFit x type))

/-- Reads a scalar. -/
def scalar (s : ScalarType) (n : Node) : Except BindError Value :=
  match s with
  | .unit => do
    extract .null n (if n.isNull then some () else none)
    return .unit
  | .bool => return .bool (← extract .boolean n n.bool?)
  | .int t => return .int t (← narrowed t.name (Number.narrow t) n)
  | .f32 => return .f32 (← narrowed "f32" Number.toBinary32? n)
  | .f64 => return .f64 (← narrowed "f64" (fun x => some x.toBinary64) n)
  | .char => do
    match (← extract .string n n.string?).toList with
    | ch :: _ => return .char ch
    | [] => throw (.invalidValue ScalarType.char.path .noCharacter)
  | .string => return .string (← extract .string n n.string?)
  | .number => return .number (← extract .number n n.number?)

/-- Reads a variant by its name. -/
def variant (enum : String) (variants : List String) (n : Node) : Except BindError Value := do
  let name ← extract .string n n.string?
  if variants.contains name then return .variant enum variants name
  else throw (.enumMismatch enum name)

/-- Reads a document of a dynamic type. -/
def dynamic : DynamicKind → Node → Except BindError Value
  | .any, n => .ok (.node n.collapse)
  | .object, .object es => .ok (.object (Entries.ofList (Node.collapseEntries es)))
  | .object, n => mismatch .startObject n
  | .array, .array ns => .ok (.array (Node.collapseItems ns))
  | .array, n => mismatch .startArray n

/-- Reads the node of a codec. -/
def wire (codec : Codec) (n : Node) : Except BindError Value :=
  if n.kind = .null then codec.decodeNull
  else if codec.wire.accepts n.kind then codec.decode n.collapse
  else .error (.tokenMismatch codec.wire.expected n.kind)

/-- Reads a null as a value of a type. -/
def nullOf : Ty → Except BindError Value
  | .option payload => .ok (.none payload)
  | .scalar .unit => .ok .unit
  | t => .error (.typeError t.path .nullNotAccepted)

/-- Reads the items of an array, each by its part. -/
def items (n : Node) (parts : List Part) (item : Ty) (owner : String) (place : Place) :
    Except BindError (List Value) :=
  match n with
  | .array _ => do
    let vs ← parts.foldlM (fun (vs : Array Value) part =>
      return vs.push (← part item (place.item owner vs.size))) #[]
    return vs.toList
  | n => mismatch .startArray n

/-- Reads the entries of an object, each by its part. -/
def entries (n : Node) (parts : List (String × Node × Part)) (value : Ty) (owner : String)
    (place : Place) : Except BindError (List (String × Value)) :=
  match n with
  | .object _ => do
    let es ← parts.foldlM (fun (es : Array (String × Value)) e =>
      return es.push (e.1, ← e.2.2 value (place.member owner e.1))) #[]
    return es.toList
  | n => mismatch .startObject n

/-- Whether a node stands for an absent member of type `t`. -/
def absent (t : Ty) (n : Node) : Bool :=
  !(n.kind ≠ .null ∨ t.acceptsNull ∨ c.classify t = .valueCodec)

/-- Reads one member of a record into what has been read of it so far. -/
def member (r : Record) (creator : Creator) (place : Place) (state : Assembly × List (String × Node))
    (e : String × Node × Part) : Except BindError (Assembly × List (String × Node)) :=
  let (key, n, part) := e
  let child := place.member r.name key
  match state.1.route r creator key with
  | .argument i arg =>
    if absent c arg.type n then .ok state
    else do
      let v ← part arg.type child
      return (← (state.1.putArgument r creator i v).outcome.mapError (·.at? child), state.2)
  | .field i f =>
    if absent c f.type n then .ok state
    else do
      let v ← part f.type child
      return (← (state.1.putField r i v).outcome.mapError (·.at? child), state.2)
  | .elsewhere =>
    if r.hybrid.isSome then .ok (state.1, Entries.insert state.2 key n.collapse)
    else
      match c.config.unknownKeys with
      | .skip => .ok state
      | .reject => .error ((BindError.unknownKey r.name key).at? child)

/-- What is done with a record whose members were all read. -/
def finish (r : Record) (creator : Creator) (state : Assembly × List (String × Node)) :
    Except BindError Value := do
  let v ← (state.1.finish r creator).outcome
  match r.hybrid with
  | some h => h.install v state.2
  | none => return v

/-- Reads a record. -/
def record (r : Record) (n : Node) (parts : List (String × Node × Part)) (place : Place) :
    Except BindError Value :=
  match r.creator with
  | none => .error (.typeError r.name .noConstructor)
  | some creator => do
    let assembly ← (Assembly.opening r creator).outcome
    match n with
    | .object _ => do
      let state ← parts.foldlM (member c r creator place) (assembly, [])
      finish r creator state
    | n => mismatch .startObject n

/-- Reads a node as the strategy of a type asks for. -/
def byStrategy (n : Node) (t : Ty) (form : Except BindError Value) : Except BindError Value :=
  match c.strategy t with
  | .dynamic kind => dynamic kind n
  | .codec codec => wire codec n
  | .refuse e => .error e
  | .byStructure => if n.kind = .null then nullOf t else form

/-- Reads a node whose items and entries have the given parts. -/
def level (n : Node) (itemParts : List Part) (entryParts : List (String × Node × Part)) (place : Place)
    (t : Ty) : Except BindError Value :=
  byStrategy c n t <|
    match t with
    | .scalar s => scalar s n
    | .enum name variants => variant name variants n
    | .option payload => do
      Value.wrapSome payload (← level n itemParts entryParts place payload)
    | .seq kind item => do
      Value.buildSeq kind item (← items n itemParts item (Ty.seq kind item).path place)
    | .set keeping item => do
      Value.buildSet c.schema.order keeping item (← items n itemParts item (Ty.set keeping item).path place)
    | .map keeping val => do
      Value.buildMap keeping val (← entries n entryParts val (Ty.map keeping val).path place)
    | .dynamic kind => dynamic kind n
    | .record name => record c (c.schema.record name) n entryParts place
    | .foreign name => .error (c.refusal (.foreign name))

mutual

/-- What reading a node as a type at a place gives. -/
def value : Node → Part
  | .array ns => fun t place =>
    (level c (.array ns) (itemParts ns) [] place t).mapError (·.at? place)
  | .object es => fun t place =>
    (level c (.object es) [] (entryParts es) place t).mapError (·.at? place)
  | n => fun t place => (level c n [] [] place t).mapError (·.at? place)

/-- The parts of the items of an array. -/
def itemParts : List Node → List Part
  | [] => []
  | n :: ns => value n :: itemParts ns

/-- The parts of the entries of an object. -/
def entryParts : List (String × Node) → List (String × Node × Part)
  | [] => []
  | (k, n) :: es => (k, n, value n) :: entryParts es

end

theorem itemParts_eq (ns : List Node) : itemParts c ns = ns.map (value c) := by
  induction ns with
  | nil => rfl
  | cons n ns ih => rw [itemParts, ih, List.map_cons]

theorem entryParts_eq (es : List (String × Node)) :
    entryParts c es = es.map fun e => (e.1, e.2, value c e.2) := by
  induction es with
  | nil => rfl
  | cons e es ih => rw [entryParts, ih, List.map_cons]

theorem value_eq (n : Node) (t : Ty) (place : Place) :
    value c n t place =
      (level c n ((n.items?.getD []).map (value c))
        ((n.entries?.getD []).map fun e => (e.1, e.2, value c e.2)) place t).mapError
          (·.at? place) := by
  rw [← itemParts_eq, ← entryParts_eq]
  cases n <;> rfl

end Tree
end Bindery
