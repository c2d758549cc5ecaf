import Bindery.Proofs.Tree
import Bindery.Proofs.Walk
/-!
# Reading from a walk

`Reads r ts x` says that the reading `r` of a source that walks the tokens `ts` ends as `x`, and
that it leaves the source behind those tokens unless it fails. The rules follow the ways in which
readings are put together, so that each reading function is one short derivation.

`value_reads`: from the tokens of a node, `Decode.value` reads what `Tree.value` gives of the node,
errors and their places included, whatever the source and with any budget that covers the tokens.
-/

namespace Bindery

open TokenStream (front advance)

variable {σ α β : Type}

/-- From any source that walks `ts`, the reading ends as `x`, behind the tokens unless it fails. -/
def Reads [TokenStream σ] (r : Reading σ α) (ts : List Token) (x : Except BindError α) : Prop :=
  ∀ s s', Walks s ts s' →
    (∃ a, x = .ok a ∧ r s = .ok a s') ∨ ∃ e s'', x = .error e ∧ r s = .error e s''

namespace Reads

section Rules
variable [TokenStream σ]

theorem pure (a : α) : Reads (pure a : Reading σ α) [] (.ok a) := by
  intro s s' h
  cases h
  exact .inl ⟨a, rfl, rfl⟩

theorem throw (e : BindError) (ts : List Token) : Reads (throw e : Reading σ α) ts (.error e) :=
  fun s _ _ => .inr ⟨e, s, rfl, rfl⟩

theorem lift (x : Except BindError α) : Reads (Reading.lift x : Reading σ α) [] x := by
  cases x with
  | ok a => exact .pure a
  | error e => exact .throw e []

theorem bind {r : Reading σ α} {k : α → Reading σ β} {ts us : List Token} {x : Except BindError α}
    {y : α → Except BindError β} (h : Reads r ts x) (hk : ∀ a, Reads (k a) us (y a)) :
    Reads (r >>= k) (ts ++ us) (x >>= y) := by
  intro s s'' hw
  obtain ⟨s', hs, hs'⟩ := walks_append.1 hw
  rcases h s s' hs with ⟨a, rfl, hr⟩ | ⟨e, s₁, rfl, hr⟩
  · rw [Reading.bind_ok hr]
    exact hk a s' s'' hs'
  · exact .inr ⟨e, s₁, rfl, Reading.bind_error hr⟩

theorem then_error {r : Reading σ α} {k : α → Reading σ β} {ts : List Token} {e : BindError}
    (h : Reads r ts (.error e)) : Reads (r >>= k) ts (.error e) := by
  intro s s' hw
  obtain ⟨a, ha, -⟩ | ⟨e', s'', he, hr⟩ := h s s' hw
  · cases ha
  · cases he
    exact .inr ⟨e, s'', rfl, Reading.bind_error hr⟩

/-- A reading that consumes nothing, then another. -/
theorem bind_nil {r : Reading σ α} {k : α → Reading σ β} {us : List Token} {x : Except BindError α}
    {y : α → Except BindError β} (h : Reads r [] x) (hk : ∀ a, Reads (k a) us (y a)) :
    Reads (r >>= k) us (x >>= y) := h.bind hk

/-- A reading, then one that consumes nothing. -/
theorem then_nil {r : Reading σ α} {k : α → Reading σ β} {ts : List Token} {x : Except BindError α}
    {y : α → Except BindError β} (h : Reads r ts x) (hk : ∀ a, Reads (k a) [] (y a)) :
    Reads (r >>= k) ts (x >>= y) := by
  have := h.bind hk
  rwa [List.append_nil] at this

theorem map {r : Reading σ α} {ts : List Token} {x : Except BindError α} (f : α → β)
    (h : Reads r ts x) : Reads (do return f (← r)) ts (do return f (← x)) :=
  h.then_nil fun a => .pure (f a)

theorem peek {t : Token} {ts : List Token} {k : TokenKind → Reading σ α} {x : Except BindError α}
    (h : Reads (k t.kind) (t :: ts) x) : Reads (Reading.peek >>= k) (t :: ts) x := by
  intro s s' hw
  have : Reading.peek s = .ok t.kind s := by simp only [Reading.peek, hw.1, Front.kind]
  rw [Reading.bind_ok this]
  exact h s s' hw

theorem take {t : Token} {pick : Token → Option α} {a : α} (expected : String) (h : pick t = some a) :
    Reads (Reading.take expected pick : Reading σ α) [t] (.ok a) := by
  intro s s' hw
  obtain ⟨hf, rfl⟩ := walks_one.1 hw
  exact .inl ⟨a, rfl, by simp only [Reading.take, hf, h]⟩

theorem take_none {t : Token} {pick : Token → Option α} (expected : String) (ts : List Token)
    (h : pick t = none) :
    Reads (Reading.take expected pick : Reading σ α) (t :: ts) (.error (.tokenMismatch expected t.kind)) := by
  intro s s' hw
  exact .inr ⟨_, s, rfl, by simp only [Reading.take, hw.1, h]⟩

theorem atPlace {r : Reading σ α} {ts : List Token} {x : Except BindError α} (place : Place)
    (h : Reads r ts x) : Reads (Reading.atPlace place r) ts (x.mapError (·.at? place)) := by
  intro s s' hw
  rcases h s s' hw with ⟨a, rfl, hr⟩ | ⟨e, s₁, rfl, hr⟩
  · exact .inl ⟨a, rfl, by simp only [Reading.atPlace, hr]⟩
  · exact .inr ⟨_, s₁, rfl, by simp only [Reading.atPlace, hr]⟩

theorem forMembers_bind (body : α → Reading σ α) (budget : Nat) (acc : α) (k : α → Reading σ β) :
    Reading.forMembers body (budget + 1) acc >>= k =
      Reading.peek >>= fun kind =>
        if !kind.closes then body acc >>= fun a => Reading.forMembers body budget a >>= k
        else k acc := by
  simp only [Reading.forMembers_succ, Reading.hasNext, bind_assoc, pure_bind]
  congr 1
  funext kind
  cases kind.closes <;> simp

/-- The members of a container up to its closing bracket: each by its own tokens, of which the
first closes nothing. -/
theorem members {μ : Type} {body : α → Reading σ α} {step : α → μ → Except BindError α}
    {tokens : μ → List Token} {close : Token} {us : List Token} {k : α → Reading σ β}
    {y : α → Except BindError β} (hclose : close.kind.closes) (hk : ∀ a, Reads (k a) (close :: us) (y a))
    {ms : List μ} (hopen : ∀ m ∈ ms, ∃ t ts, tokens m = t :: ts ∧ ¬ t.kind.closes)
    (hbody : ∀ m ∈ ms, ∀ acc, Reads (body acc) (tokens m) (step acc m)) :
    ∀ {budget : Nat} {acc : α}, ms.length ≤ budget →
      Reads (Reading.forMembers body budget acc >>= k) (ms.flatMap tokens ++ close :: us)
        (ms.foldlM step acc >>= y) := by
  induction ms with
  | nil =>
    intro budget acc _
    rw [List.flatMap_nil, List.nil_append, List.foldlM_nil, pure_bind]
    cases budget with
    | zero => simpa only [Reading.forMembers_zero, pure_bind] using hk acc
    | succ budget =>
      rw [forMembers_bind]
      refine peek ?_
      rw [if_neg (by simpa using hclose)]
      exact hk acc
  | cons m ms ih =>
    intro budget acc hbudget
    obtain ⟨budget, rfl⟩ := Nat.exists_eq_succ_of_ne_zero (Nat.ne_zero_of_lt hbudget)
    obtain ⟨t, ts, hm, ht⟩ := hopen m (by simp)
    have hfirst := hbody m (by simp) acc
    have hrest : ∀ a, Reads (Reading.forMembers body budget a >>= k) (ms.flatMap tokens ++ close :: us)
        (ms.foldlM step a >>= y) := fun a =>
      ih (fun m' hm' => hopen m' (by simp [hm'])) (fun m' hm' => hbody m' (by simp [hm']))
        (Nat.le_of_succ_le_succ hbudget)
    rw [List.flatMap_cons, List.append_assoc, List.foldlM_cons, bind_assoc, forMembers_bind, hm] at *
    -- The loop looks at the first token of a member and goes on, since it closes nothing.
    refine peek ?_
    rw [if_pos (by simpa using ht)]
    exact hfirst.bind hrest

end Rules

/-! ## Nodes -/

section Nodes
variable [TokenStream σ]

theorem of_eq {r : Reading σ α} {ts : List Token} {x y : Except BindError α} (h : Reads r ts x)
    (hxy : x = y) : Reads r ts y := hxy ▸ h

theorem refuse {r : Reading σ α} {n : Node} {e : BindError} (h : ∀ ts, Reads r (n.head :: ts) (.error e)) :
    Reads r n.tokens (.error e) := by
  obtain ⟨ts, hts⟩ := n.tokens_eq
  rw [hts]
  exact h ts

/-- An extractor that takes no bracket. -/
theorem extract {pick : Token → Option α} (expected : TokenKind) (n : Node) (a? : Option α)
    (h : pick n.head = a?) (ha : pick .startArray = none) (ho : pick .startObject = none) :
    Reads (Reading.take expected.text pick : Reading σ α) n.tokens (Tree.extract expected n a?) := by
  subst h
  cases hp : pick n.head with
  | none =>
    rw [Tree.extract, Tree.mismatch, ← n.head_kind]
    exact refuse fun ts => take_none _ ts hp
  | some a =>
    cases n with
    | null | bool | number | string => exact take _ hp
    | array => rw [Node.head, ha] at hp; cases hp
    | object => rw [Node.head, ho] at hp; cases hp

theorem peek_node {n : Node} {k : TokenKind → Reading σ α} {x : Except BindError α}
    (h : Reads (k n.kind) n.tokens x) : Reads (Reading.peek >>= k) n.tokens x := by
  obtain ⟨ts, hts⟩ := n.tokens_eq
  rw [hts] at h ⊢
  exact peek (n.head_kind ▸ h)

theorem null (n : Node) : Reads (Reading.null : Reading σ Unit) n.tokens
    (Tree.extract .null n (if n.isNull then some () else none)) :=
  extract .null n _ (by cases n <;> rfl) rfl rfl

theorem null_bind {k : Unit → Reading σ α} {x : Except BindError α} (h : Reads (k ()) [] x) :
    Reads (Reading.null >>= k) Node.null.tokens x :=
  then_nil (null .null) fun _ => h

theorem bool (n : Node) :
    Reads (Reading.bool : Reading σ Bool) n.tokens (Tree.extract .boolean n n.bool?) :=
  extract .boolean n _ (by cases n <;> rfl) rfl rfl

theorem string (n : Node) :
    Reads (Reading.string : Reading σ String) n.tokens (Tree.extract .string n n.string?) :=
  extract .string n _ (by cases n <;> rfl) rfl rfl

theorem number (n : Node) :
    Reads (Reading.number : Reading σ Number) n.tokens (Tree.extract .number n n.number?) :=
  extract .number n _ (by cases n <;> rfl) rfl rfl

/-- The name of a member, then its value. -/
theorem name_bind {key : String} {ts : List Token} {k : String → Reading σ α} {x : Except BindError α}
    (h : Reads (k key) ts x) : Reads (Reading.name >>= k) (.name key :: ts) x := by
  intro s s' ⟨hf, hw⟩
  have : Reading.name s = .ok key (advance s) := by simp only [Reading.name, Reading.take, hf]
  rw [Reading.bind_ok this]
  exact h _ _ hw

theorem narrowed (type : String) (fit : Number → Option α) (n : Node) :
    Reads (Reading.narrowed type fit : Reading σ α) n.tokens (Tree.narrowed type fit n) := by
  refine (number n).then_nil fun x => ?_
  cases fit x with
  | some a => exact .pure a
  | none => exact .throw _ _

theorem scalar (s : ScalarType) (n : Node) :
    Reads (Decode.scalar s : Reading σ Value) n.tokens (Tree.scalar s n) := by
  cases s with
  | unit => exact (null n).then_nil fun _ => .pure _
  | bool => exact (bool n).map _
  | int t => exact (narrowed _ _ n).map _
  | f32 | f64 => exact (narrowed _ _ n).map _
  | char =>
    refine (string n).then_nil fun s => ?_
    cases s.toList with
    | nil => exact .throw _ _
    | cons ch _ => exact .pure _
  | string => exact (string n).map _
  | number => exact (number n).map _

theorem variant (enum : String) (variants : List String) (n : Node) :
    Reads (Decode.variant enum variants : Reading σ Value) n.tokens (Tree.variant enum variants n) := by
  refine (string n).then_nil fun name => ?_
  split
  · exact .pure _
  · exact .throw _ _

end Nodes

/-! ## Containers -/

section Containers
variable [TokenStream σ]

/-- The refusal of a node that does not begin with the bracket of a container. -/
theorem expect_mismatch {opening : Token} {n : Node} (h : n.head ≠ opening) (k : Unit → Reading σ α) :
    Reads (Reading.expect opening >>= k) n.tokens (Tree.mismatch opening.kind n) := by
  rw [Tree.mismatch, ← n.head_kind]
  refine refuse fun ts => ?_
  exact (take_none _ ts (if_neg h)).then_error

theorem array_mismatch {n : Node} (h : n.items? = none) {budget : Nat} {item : Place → Reading σ α} {owner : String}
    {place : Place} : Reads (Decode.array budget item owner place) n.tokens (Tree.mismatch .startArray n) := by
  refine expect_mismatch (fun hhead => ?_) _
  cases n <;> simp [Node.head, Node.items?] at h hhead

theorem object_mismatch {n : Node} (h : n.entries? = none) {budget : Nat} {member : α → Reading σ α} {start : α} :
    Reads (Decode.object budget member start) n.tokens (Tree.mismatch .startObject n) := by
  refine expect_mismatch (fun hhead => ?_) _
  cases n <;> simp [Node.head, Node.entries?] at h hhead

/-- A container between its brackets. -/
theorem container {μ : Type} {body : α → Reading σ α} {step : α → μ → Except BindError α}
    {tokens : μ → List Token} {opening closing : Token} {k : α → Reading σ β}
    {y : α → Except BindError β} {ms : List μ} {budget : Nat} {acc : α}
    (hclose : closing.kind.closes) (hk : ∀ a, Reads (k a) [] (y a))
    (hopen : ∀ m ∈ ms, ∃ t ts, tokens m = t :: ts ∧ ¬ t.kind.closes)
    (hbody : ∀ m ∈ ms, ∀ acc, Reads (body acc) (tokens m) (step acc m)) (hbudget : ms.length ≤ budget) :
    Reads (Reading.expect opening >>= fun _ => Reading.forMembers body budget acc >>= fun acc =>
        Reading.expect closing >>= fun _ => k acc)
      (opening :: (ms.flatMap tokens ++ [closing])) (ms.foldlM step acc >>= y) := by
  have hend : ∀ a, Reads (Reading.expect closing >>= fun _ => k a) [closing] (y a) := fun a =>
    (take _ (if_pos rfl)).bind fun _ => hk a
  exact (take (a := ()) _ (if_pos rfl)).bind fun _ => members hclose hend hopen hbody hbudget

/-- An array, item by item. -/
theorem array {item : Place → Reading σ α} {x : Node → Place → Except BindError α} {ns : List Node} {budget : Nat}
    (owner : String) (place : Place) (hsize : (Node.array ns).tokens.length ≤ budget + 1)
    (hitem : ∀ n ∈ ns, n.tokens.length ≤ budget → ∀ place, Reads (item place) n.tokens (x n place)) :
    Reads (Decode.array budget item owner place) (Node.array ns).tokens (do
      let items ← ns.foldlM (fun (items : Array α) n => do
        return items.push (← x n (place.item owner items.size))) #[]
      return items.toList) := by
  rw [Node.array_tokens] at hsize ⊢
  simp only [List.length_cons, List.length_append, List.length_nil] at hsize
  have hcount := Node.length_le_length_flatMap Node.tokens ns fun n _ => n.tokens_length_pos
  refine container rfl (fun items => .pure items.toList) (fun n _ => ?_) (fun n hn items => ?_) (by omega)
  · obtain ⟨ts, hts⟩ := n.tokens_eq
    exact ⟨_, ts, hts, n.head_opens⟩
  · have := (List.sublist_flatten_of_mem (List.mem_map_of_mem (f := Node.tokens) hn)).length_le
    rw [← List.flatMap_def] at this
    exact (hitem n hn (by omega) _).map _

/-- An object, entry by entry. -/
theorem object {member : α → Reading σ α} {step : α → String × Node → Except BindError α} {es : List (String × Node)}
    {budget : Nat} {start : α} (hsize : (Node.object es).tokens.length ≤ budget + 1)
    (hmember : ∀ e ∈ es, e.2.tokens.length ≤ budget → ∀ state,
      Reads (member state) (.name e.1 :: e.2.tokens) (step state e)) :
    Reads (Decode.object budget member start) (Node.object es).tokens (es.foldlM step start) := by
  rw [Node.object_tokens] at hsize ⊢
  simp only [List.length_cons, List.length_append, List.length_nil] at hsize
  have hcount := Node.length_le_length_flatMap (fun e => .name e.1 :: e.2.tokens) es
    fun e _ => Nat.succ_pos _
  rw [← bind_pure (es.foldlM step start)]
  refine container rfl .pure (fun e _ => ⟨_, _, rfl, Bool.false_ne_true⟩) (fun e he => hmember e he ?_) (by omega)
  have := (List.sublist_flatten_of_mem
    (List.mem_map_of_mem (f := fun e : String × Node => Token.name e.1 :: e.2.tokens) he)).length_le
  rw [← List.flatMap_def, List.length_cons] at this
  omega

end Containers
/-! ## Documents -/

section Documents
variable [TokenStream σ]

theorem nodeArray {budget : Nat} {item : Place → Reading σ Node} {ns : List Node} (place : Place)
    (hsize : (Node.array ns).tokens.length ≤ budget + 1)
    (hitem : ∀ n ∈ ns, n.tokens.length ≤ budget → ∀ place, Reads (item place) n.tokens (.ok n.collapse)) :
    Reads (Decode.nodeArray budget item place) (Node.array ns).tokens
      (.ok (Node.collapseItems ns)) := by
  refine .of_eq (array _ place hsize fun n hn hb place => (hitem n hn hb place).atPlace place) ?_
  have hitems : ns.foldlM (fun (items : Array Node) n => (Pure.pure (items.push n.collapse) : Except BindError _)) #[]
      = .ok (Node.collapseItems ns).toArray := by
    rw [Node.collapseItems_eq, List.foldlM_pure]
    exact congrArg Except.ok (by simp)
  exact congrArg (· >>= fun items : Array Node => Except.ok items.toList) hitems

theorem nodeObject {budget : Nat} {value : Place → Reading σ Node} {es : List (String × Node)}
    (place : Place) (hsize : (Node.object es).tokens.length ≤ budget + 1)
    (hvalue : ∀ e ∈ es, e.2.tokens.length ≤ budget → ∀ place,
      Reads (value place) e.2.tokens (.ok e.2.collapse)) :
    Reads (Decode.nodeObject budget value place) (Node.object es).tokens
      (.ok (Entries.ofList (Node.collapseEntries es))) := by
  let step (fs : List (String × Node)) (e : String × Node) : Except BindError (List (String × Node)) :=
    Pure.pure (Entries.insert fs e.1 e.2.collapse)
  have hobject : Reads (Decode.nodeObject budget value place) (Node.object es).tokens (es.foldlM step []) :=
    object hsize fun e he hb fs => name_bind (((hvalue e he hb _).atPlace _).map _)
  refine .of_eq hobject ?_
  rw [Node.collapseEntries_eq, List.foldlM_pure]
  exact congrArg Except.ok (by simp [Entries.ofList, Entries.insertAll, List.foldl_map])

/-- A node is read as it is, but for repeated keys. -/
theorem node {budget : Nat} : ∀ {n : Node} (place : Place), n.tokens.length ≤ budget →
    Reads (Decode.node budget place : Reading σ Node) n.tokens (.ok n.collapse) := by
  induction budget with
  | zero => exact fun {n} _ h => absurd h (Nat.not_le_of_gt n.tokens_length_pos)
  | succ budget ih =>
    intro n place hsize
    simp only [Decode.node, Reading.asked_deaf, Reading.get_bind_const]
    refine peek_node ?_
    cases n with
    | null => exact (null _).map fun _ => Node.null
    | bool b => exact (bool _).map Node.bool
    | number x => exact (number _).map Node.number
    | string s => exact (string _).map Node.string
    | array ns => exact (nodeArray place hsize fun n _ hb place => ih place hb).map Node.array
    | object es => exact (nodeObject place hsize fun e _ hb place => ih place hb).map Node.object

theorem dynamic {budget : Nat} (kind : DynamicKind) {n : Node} (place : Place)
    (hsize : n.tokens.length ≤ budget + 1) :
    Reads (Decode.dynamic budget kind place : Reading σ Value) n.tokens (Tree.dynamic kind n) := by
  simp only [Decode.dynamic, Reading.asked_deaf, Reading.get_bind_const]
  cases kind with
  | any => exact (node place hsize).map Value.node
  | object =>
    cases n with
    | object es => exact (nodeObject place hsize fun e _ hb place => node place hb).map Value.object
    | null | bool | number | string | array => exact (object_mismatch rfl).then_error
  | array =>
    cases n with
    | array ns => exact (nodeArray place hsize fun n _ hb place => node place hb).map Value.array
    | null | bool | number | string | object => exact (array_mismatch rfl).then_error

theorem wire {budget : Nat} (codec : Codec) {n : Node} (place : Place) (hsize : n.tokens.length ≤ budget) :
    Reads (Decode.wire budget codec place : Reading σ Value) n.tokens (Tree.wire codec n) := by
  refine peek_node ?_
  rw [Tree.wire]
  split
  · next h =>
    cases n with
    | null => exact null_bind (.lift _)
    | _ => cases h
  · split
    · exact (node place hsize).then_nil fun _ => .lift _
    · exact .throw _ _

theorem nullOf (t : Ty) :
    Reads (Decode.nullOf t : Reading σ Value) Node.null.tokens (Tree.nullOf t) := by
  cases t with
  | option payload => exact null_bind (.pure _)
  | scalar s =>
    cases s with
    | unit => exact null_bind (.pure _)
    | _ => exact .throw _ _
  | _ => exact .throw _ _

end Documents

/-! ## Values -/

section Values
variable [TokenSource σ] {c : Context} {budget : Nat}

theorem items {item : Place → Reading σ Value} {n : Node} {t : Ty} (owner : String) (place : Place)
    (hsize : n.tokens.length ≤ budget + 1)
    (hitem : ∀ m ∈ n.items?.getD [], m.tokens.length ≤ budget → ∀ place,
      Reads (item place) m.tokens (Tree.value c m t place)) :
    Reads (Decode.array budget item owner place) n.tokens
      (Tree.items n ((n.items?.getD []).map (Tree.value c)) t owner place) := by
  cases n with
  | array ns =>
    rw [Tree.items, Node.items?, Option.getD_some, List.foldlM_map]
    exact array owner place hsize hitem
  | null | bool | number | string | object => exact array_mismatch rfl

theorem entries {value : Place → Reading σ Value} {n : Node} {t : Ty} (owner : String) (place : Place)
    (hsize : n.tokens.length ≤ budget + 1)
    (hvalue : ∀ e ∈ n.entries?.getD [], e.2.tokens.length ≤ budget → ∀ place,
      Reads (value place) e.2.tokens (Tree.value c e.2 t place)) :
    Reads (Decode.entries budget value owner place) n.tokens
      (Tree.entries n ((n.entries?.getD []).map fun e => (e.1, e.2, Tree.value c e.2)) t owner place) := by
  cases n with
  | object es =>
    rw [Tree.entries, Node.entries?, Option.getD_some, List.foldlM_map]
    exact (object hsize fun e he hb vs => name_bind ((hvalue e he hb _).map _)).then_nil fun _ => .pure _
  | null | bool | number | string | array => exact (object_mismatch rfl).then_error

/-- A null that stands for an absent member is consumed, and nothing of any other node. -/
theorem absent_bind {t : Ty} {n : Node} {k : Bool → Reading σ α} {x y : Except BindError α}
    (hthere : Reads (k false) n.tokens x) (habsent : Reads (k true) [] y) :
    Reads (Decode.absent c t >>= k) n.tokens (if Tree.absent c t n then y else x) := by
  rw [Decode.absent, bind_assoc]
  refine peek_node ?_
  by_cases h : n.kind ≠ .null ∨ t.acceptsNull ∨ c.classify t = .valueCodec
  · rw [if_pos h, if_neg (by simp [Tree.absent, h]), pure_bind]
    exact hthere
  · rw [if_neg h, if_pos (by simp [Tree.absent, h])]
    cases n with
    | null =>
      rw [bind_assoc]
      refine null_bind ?_
      rw [pure_bind]
      exact habsent
    | _ => exact absurd (.inl nofun) h

/-- What is made of what was read. -/
theorem perform (x : Making α) : Reads (Reading.perform x : Reading σ α) [] x.outcome := by
  rw [Reading.perform_deaf]
  exact .lift x.outcome

/-- A member that goes to an argument or to a field, unless it is absent. -/
theorem stored {part : Ty → Place → Reading σ Value} {t : Ty} {n : Node} {child : Place}
    (put : Value → Making Assembly) (state : Assembly × List (String × Node))
    (hpart : Reads (part t child) n.tokens (Tree.value c n t child)) :
    Reads (Decode.absent c t >>= fun absent =>
        if absent then Pure.pure state
        else do
          let v ← part t child
          return (← Reading.atPlace child (Reading.perform (put v)), state.2)) n.tokens
      (if Tree.absent c t n then .ok state
      else do
        let v ← Tree.value c n t child
        return (← (put v).outcome.mapError (·.at? child), state.2)) := by
  refine absent_bind ?_ (.pure state)
  rw [if_neg Bool.false_ne_true]
  exact hpart.then_nil fun v => ((perform (put v)).atPlace child).map fun a => (a, state.2)

/-- A member that its record has no place for is passed over, or refused. -/
theorem unknown [LawfulSource σ] (type key : String) (child : Place) (n : Node) :
    Reads (Decode.unknown c type key child : Reading σ Unit) n.tokens
      (match c.config.unknownKeys with
      | .skip => .ok ()
      | .reject => .error ((BindError.unknownKey type key).at? child)) := by
  unfold Decode.unknown
  cases c.config.unknownKeys with
  | skip => exact fun s s' h => .inl ⟨(), rfl, LawfulSource.skip_walks h⟩
  | reject => exact (Reads.throw _ _).atPlace _

theorem recordMember [LawfulSource σ] {capture : Place → Reading σ Node} {part : Ty → Place → Reading σ Value}
    {r : Record} {creator : Creator} (place : Place) (state : Assembly × List (String × Node)) {e : String × Node}
    (hcapture : ∀ place, Reads (capture place) e.2.tokens (.ok e.2.collapse))
    (hpart : ∀ t place, Reads (part t place) e.2.tokens (Tree.value c e.2 t place)) :
    Reads (Decode.recordMember c r creator capture part place state) (.name e.1 :: e.2.tokens)
      (Tree.member c r creator place state (e.1, e.2, Tree.value c e.2)) := by
  obtain ⟨key, n⟩ := e
  refine name_bind ?_
  simp only [Tree.member, Reading.tell_deaf, pure_bind, Reading.get_bind_const]
  cases Assembly.route r creator state.1 key with
  | argument i arg => exact stored (state.1.putArgument r creator i) state (hpart _ _)
  | field i f => exact stored (state.1.putField r i) state (hpart _ _)
  | elsewhere =>
    dsimp only
    split
    · exact ((hcapture _).atPlace _).map fun n => (state.1, Entries.insert state.2 key n)
    · refine .of_eq ((unknown (c := c) _ _ _ n).then_nil fun _ => .pure state) ?_
      cases c.config.unknownKeys <;> rfl

/-- What is made of a record when its members are read. -/
theorem finish (r : Record) (creator : Creator) (state : Assembly × List (String × Node)) :
    Reads (Reading.perform (state.1.finish r creator) >>= fun v =>
        match r.hybrid with
        | some h => Reading.lift (h.install v state.2)
        | none => Pure.pure v : Reading σ Value) [] (Tree.finish r creator state) := by
  refine (perform _).bind_nil fun v => ?_
  cases r.hybrid with
  | none => exact .pure v
  | some h => exact .lift _

theorem record [LawfulSource σ] {capture : Place → Reading σ Node} {part : Ty → Place → Reading σ Value} {r : Record}
    {n : Node} (place : Place) (hsize : n.tokens.length ≤ budget + 1)
    (hcapture : ∀ e ∈ n.entries?.getD [], e.2.tokens.length ≤ budget → ∀ place,
      Reads (capture place) e.2.tokens (.ok e.2.collapse))
    (hpart : ∀ e ∈ n.entries?.getD [], e.2.tokens.length ≤ budget → ∀ t place,
      Reads (part t place) e.2.tokens (Tree.value c e.2 t place)) :
    Reads (Decode.record c r budget capture part place) n.tokens
      (Tree.record c r n ((n.entries?.getD []).map fun e => (e.1, e.2, Tree.value c e.2)) place) := by
  rw [Decode.record, Tree.record]
  cases r.creator with
  | none => exact .throw _ _
  | some creator =>
    refine (perform _).bind_nil fun assembly => ?_
    cases n with
    | object es =>
      dsimp only [Node.entries?, Option.getD_some]
      rw [List.foldlM_map]
      exact (object hsize fun e he hb state => recordMember place state (hcapture e he hb) (hpart e he hb)).then_nil
        (finish r creator)
    | null | bool | number | string | array => exact (object_mismatch rfl).then_error

/-- What is not null is read by its form, if it has one. -/
theorem byStrategy {n : Node} (place : Place) (hsize : n.tokens.length ≤ budget + 1) (t : Ty) {form : Reading σ Value}
    {x : Except BindError Value} (h : Reads form n.tokens x) :
    Reads (Decode.byStrategy c budget place t form) n.tokens (Tree.byStrategy c n t x) := by
  unfold Decode.byStrategy Tree.byStrategy
  cases c.strategy t with
  | dynamic kind => exact dynamic kind place hsize
  | codec codec => exact wire codec place hsize
  | refuse e => exact .throw _ _
  | byStructure =>
    refine peek_node ?_
    split
    · next hnull =>
      cases n with
      | null => exact nullOf t
      | bool | number | string | array | object => cases hnull
    · exact h

theorem level [LawfulSource σ] {part : Ty → Place → Reading σ Value} {n : Node} (place : Place)
    (hsize : n.tokens.length ≤ budget + 1)
    (hitem : ∀ m ∈ n.items?.getD [], m.tokens.length ≤ budget → ∀ t place,
      Reads (part t place) m.tokens (Tree.value c m t place))
    (hentry : ∀ e ∈ n.entries?.getD [], e.2.tokens.length ≤ budget → ∀ t place,
      Reads (part t place) e.2.tokens (Tree.value c e.2 t place)) (t : Ty) :
    Reads (Decode.level c budget part place t) n.tokens
      (Tree.level c n ((n.items?.getD []).map (Tree.value c))
        ((n.entries?.getD []).map fun e => (e.1, e.2, Tree.value c e.2)) place t) := by
  induction t with
  | option payload ih =>
    rw [Decode.level.eq_def, Tree.level.eq_def]
    exact byStrategy place hsize _ (ih.then_nil fun _ => .lift _)
  | scalar s =>
    rw [Decode.level.eq_def, Tree.level.eq_def]
    exact byStrategy place hsize _ (scalar s n)
  | enum name variants =>
    rw [Decode.level.eq_def, Tree.level.eq_def]
    exact byStrategy place hsize _ (variant name variants n)
  | seq kind item =>
    rw [Decode.level.eq_def, Tree.level.eq_def]
    exact byStrategy place hsize _ <| (items _ place hsize fun m hm hb => hitem m hm hb item).then_nil fun _ => .lift _
  | set keeping item =>
    rw [Decode.level.eq_def, Tree.level.eq_def]
    exact byStrategy place hsize _ <| (items _ place hsize fun m hm hb => hitem m hm hb item).then_nil fun _ => .lift _
  | map keeping val =>
    rw [Decode.level.eq_def, Tree.level.eq_def]
    exact byStrategy place hsize _ <|
      (entries _ place hsize fun e he hb => hentry e he hb val).then_nil fun _ => .lift _
  | dynamic kind =>
    rw [Decode.level.eq_def, Tree.level.eq_def]
    exact byStrategy place hsize _ (dynamic kind place hsize)
  | record name =>
    rw [Decode.level.eq_def, Tree.level.eq_def]
    exact byStrategy place hsize _ <| record place hsize (fun e _ hb place => node place hb) hentry
  | foreign name =>
    rw [Decode.level.eq_def, Tree.level.eq_def]
    exact byStrategy place hsize _ (.throw _ _)

/-- From the tokens of a node a value is read as from the node itself. -/
theorem value [LawfulSource σ] {n : Node} (t : Ty) (place : Place) (hsize : n.tokens.length ≤ budget) :
    Reads (Decode.value c budget t place : Reading σ Value) n.tokens (Tree.value c n t place) := by
  induction budget generalizing n t place with
  | zero => exact absurd hsize (Nat.not_le_of_gt n.tokens_length_pos)
  | succ budget ih =>
    rw [Tree.value_eq]
    exact (level place hsize (fun m _ hb t place => ih t place hb)
      (fun e _ hb t place => ih t place hb) t).atPlace place

end Values

end Reads

/-! ## From the root -/

/-- What reading a node from the root of a document as a value of a type gives. -/
def Tree.root (c : Context) (n : Node) (t : Ty) : Except BindError Value := do
  Value.ofType t (← Tree.value c n t (Place.root c.config.tracking))

theorem Reads.root [TokenSource σ] [LawfulSource σ] {c : Context} {s s' : σ} {n : Node} (t : Ty)
    (h : Walks s n.tokens s') (hlength : n.tokens.length ≤ TokenStream.length s + 1) :
    (∃ v, Tree.root c n t = .ok v ∧ Decode.root c t s = .ok v s') ∨
      ∃ e s'', Tree.root c n t = .error e ∧ Decode.root c t s = .error e s'' := by
  have hvalue : Reads (Decode.value c (TokenStream.length s + 1) t (Place.root c.config.tracking)
      >>= fun v => (Reading.lift (Value.ofType t v) : Reading σ Value)) n.tokens (Tree.root c n t) :=
    (Reads.value t _ hlength).then_nil fun v => .lift _
  exact hvalue s s' h

namespace Binder

variable (b : Binder) (t : Ty)

/-- A node is read by a cursor as by recursion on the node. -/
theorem readNode_eq (n : Node) : b.readNode t n = Tree.root b.toContext n t := by
  have hlength : n.tokens.length ≤ NodeCursor.length (NodeCursor.ofNode n) + 1 :=
    Nat.le_succ_of_le (NodeCursor.tokens_length_le n [])
  simp only [readNode, read, Reading.run]
  rcases Reads.root t (NodeCursor.walks_value n []) hlength with ⟨v, hv, hr⟩ | ⟨e, s, he, hr⟩
  · rw [hv]; simp only [NodeCursor.ofNode, hr]
  · rw [he]; simp only [NodeCursor.ofNode, hr]

theorem fromNode_register (n : Node) : (b.fromNode t n).2 = b.register t := rfl

theorem fromNode_eq (n : Node) : (b.fromNode t n).1 = Tree.root (b.register t).toContext n t :=
  (b.register t).readNode_eq t n

/-- A tape of the tokens of a node is read as the node, wherever separators stand. -/
theorem read_tape (n : Node) {tape : List TapeEntry} (h : Tape.plain tape = Tape.ofNode n) :
    (b.read t (TapeReader.ofTape tape)).1 = Tree.root b.toContext n t := by
  obtain ⟨s', hw, -⟩ := TapeReader.walks (r := TapeReader.ofTape tape) (h.trans (List.append_nil _).symm)
  have hlength : n.tokens.length ≤ TokenStream.length (TapeReader.ofTape tape) + 1 := by
    have := congrArg List.length h
    have := List.length_filter_le (fun e : TapeEntry => !e.isSeparator) tape
    simp only [Tape.ofNode, Tape.ofTokens, List.length_map, Tape.plain] at *
    show n.tokens.length ≤ tape.length + 1
    omega
  simp only [read, Reading.run]
  rcases Reads.root t hw hlength with ⟨v, hv, hr⟩ | ⟨e, s, he, hr⟩
  · rw [hv, hr]
  · rw [he, hr]

end Binder

end Bindery
