import Bindery.Proofs.Accord
import Bindery.Proofs.Assembling
/-!
# Sources abreast

Values are read from two sources side by side. `Abreast` says where the two can stand, before a value, inside a
container or behind a value, what a step of both does to that, and what may become of errors; it speaks of single
tokens and single events only. Whatever holds of the steps holds of the readings: each function that reads a value is
in accord with itself for all such pairs of sources (`Abreast.value`). What is shown of readings is one of these
pairs each time, also where it is about a single source, which then stands beside itself.

What besides the sources goes into a reading, the codecs and constructors of its context, is asked for in `Grounds`.
-/

namespace Bindery

open TokenStream (front advance)
open Listener (hear)

variable {σ τ α β : Type}

/-! ## Where sources stand -/

/-- The containers. -/
inductive Bracket
  | array
  | object

namespace Bracket

/-- The bracket at the front of a container. -/
def opening : Bracket → Token
  | array => .startArray
  | object => .startObject

/-- The bracket at its end. -/
def closing : Bracket → Token
  | array => .endArray
  | object => .endObject

end Bracket

/-- How much of a value has been read. -/
inductive Phase
  | before
  /-- Some parts of a container are behind, and the bounds of the two readings allow so many more. -/
  | inside (bracket : Bracket) (parts n m : Nat)
  | behind

/-- The bounds of both readings allow as much. -/
def Phase.Level : Phase → Prop
  | .inside _ _ n m => n = m
  | .before | .behind => True

/-- The place one step further down. -/
def Place.below (place : Place) (owner : String) (step : Step) : Place := place.map (· ++ [⟨owner, step⟩])

/-- Two sources from which values are read side by side. -/
structure Abreast (σ τ : Type) [TokenSource σ] [Listener σ] [TokenSource τ] [Listener τ] where
  /-- Where a value can stand. -/
  Pos : Type
  /-- One position is a step below another, in a container of some name. -/
  Part : Pos → String → Step → Pos → Prop
  /-- The places that the two readings have for a position. -/
  Placed : Pos → Place → Place → Prop
  /-- Bounds that the two readings of a value at a position can have. -/
  Bounds : Pos → Nat → Nat → Prop
  /-- The sources stand there. -/
  On : Phase → Pos → σ → Side τ → Prop
  /-- The readings of a value at the position can fail so, their errors having a place already or not. -/
  Fails : (placed : Bool) → Pos → BindError → σ → BindError → τ → Prop
  /-- What the second reading can have stopped with before the first one fails. -/
  Gone : σ → BindError → τ → Prop
  placed_part : ∀ {i owner step j place place'}, Part i owner step j → Placed i place place' →
    Placed j (place.below owner step) (place'.below owner step)
  bounds_zero : ∀ {i n m}, Bounds i n m → (n = 0 ↔ m = 0)
  bounds_part : ∀ {i owner step j n m}, Part i owner step j → Bounds i (n + 1) (m + 1) → Bounds j n m
  inside_zero : ∀ {bracket parts n m i s y}, On (.inside bracket parts n m) i s y → (n = 0 ↔ m = 0)
  front_before : ∀ {i s t}, On .before i s (.reading t) → front t = front s
  front_inside : ∀ {bracket parts n m i s t}, On (.inside bracket parts n m) i s (.reading t) → front t = front s
  scalar_step : ∀ {i s y u}, On .before i s y → front s = .token u → u.kind.isScalar →
    On .behind i (advance s) (y.step advance)
  enter : ∀ {bracket i n m s y}, Bounds i (n + 1) (m + 1) → On .before i s y → front s = .token bracket.opening →
    On (.inside bracket 0 n m) i (advance s) (y.step advance)
  item : ∀ {parts n m i s y} owner, On (.inside .array parts (n + 1) (m + 1)) i s y → (front s).kind.closes = false →
    ∃ j, Part i owner (.index parts) j ∧ On .before j s y ∧ ∀ s' y', On .behind j s' y' →
      On (.inside .array (parts + 1) n m) i (hear (.turn s s') s') (y'.step fun t => hear (.turn y.state t) t)
  member : ∀ {parts n m i s y key} owner, On (.inside .object parts (n + 1) (m + 1)) i s y →
    front s = .token (.name key) →
    ∃ j, Part i owner (.key key) j ∧ On .before j (advance s) (y.step advance) ∧ ∀ s' y', On .behind j s' y' →
      On (.inside .object (parts + 1) n m) i (hear (.turn s s') s') (y'.step fun t => hear (.turn y.state t) t)
  leave : ∀ {bracket parts n m i s y}, On (.inside bracket parts n m) i s y → front s = .token bracket.closing →
    On .behind i (advance s) (y.step advance)
  skip_part : ∀ {i owner step j}, Part i owner step j →
    Accords Gone (On .before j) (Fails false i) (fun _ => On .behind j) Reading.skip Reading.skip
  hear_deed : ∀ {phase i s y} d, On phase i s y → On phase i (hear (.deed d) s) (y.step (hear (.deed d)))
  hear_part : ∀ {i owner step j s₀ y₀ s y} whole part, Part i owner step j → On .before i s₀ y₀ → On .before j s y →
    On .before j (hear (.ask whole s₀ part s) s) (y.step fun t => hear (.ask whole y₀.state part t) t)
  hear_payload : ∀ {i s₀ y₀ s y} payload, On .before i s₀ y₀ → On .before i s y →
    On .before i (hear (.ask (.option payload) s₀ payload s) s)
      (y.step fun t => hear (.ask (.option payload) y₀.state payload t) t)
  hear_exhausted : ∀ {i s y}, Bounds i 0 0 → On .before i s y →
    On .before i (hear .exhausted s) (y.step (hear .exhausted))
  hear_spent : ∀ {bracket parts i s y}, On (.inside bracket parts 0 0) i s y →
    On (.inside bracket parts 0 0) i (hear .exhausted s) (y.step (hear .exhausted))
  fails_before : ∀ {i s t} expected, On .before i s (.reading t) →
    Fails false i (.tokenMismatch expected (front s).kind) s (.tokenMismatch expected (front s).kind) t
  fails_name : ∀ {parts n m i s t} expected, On (.inside .object parts (n + 1) (m + 1)) i s (.reading t) →
    (front s).kind.closes = false → (∀ key, front s ≠ .token (.name key)) →
    Fails false i (.tokenMismatch expected (front s).kind) s (.tokenMismatch expected (front s).kind) t
  fails_leave : ∀ {bracket parts n m i s t} expected, On (.inside bracket parts n m) i s (.reading t) →
    n = 0 ∨ (front s).kind.closes → front s ≠ .token bracket.closing →
    Fails false i (.tokenMismatch expected (front s).kind) s (.tokenMismatch expected (front s).kind) t
  fails_variant : ∀ {i s t name} enum, On .before i s (.reading t) → front s = .token (.string name) →
    Fails false i (.enumMismatch enum name) (advance s) (.enumMismatch enum name) (advance t)
  fails_plain : ∀ {phase i s t} {e : BindError}, e.IsPlain → On phase i s (.reading t) → Fails false i e s e t
  fails_at : ∀ {i place place' e s e' t}, Placed i place place' → Fails false i e s e' t →
    Fails true i (e.at? place) s (e'.at? place') t
  fails_spent : ∀ {i e s e' t}, Bounds i 0 0 → Fails false i e s e' t → Fails true i e s e' t
  fails_part : ∀ {i owner step j e s e' t}, Part i owner step j → Fails true j e s e' t → Fails false i e s e' t
  gone : ∀ {phase i s e t}, On phase i s (.stopped e t) → Gone s e t
  gone_at : ∀ {i place place' s e t}, Placed i place place' → Gone s e t → Gone s (e.at? place') t
  stopped_at : ∀ {phase i place place' s e t}, Placed i place place' → On phase i s (.stopped e t) →
    On phase i s (.stopped (e.at? place') t)

theorem Front.eq_null {f : Front} (h : f.kind = .null) : f = .token .null := by
  cases f with
  | unknown | done => cases h
  | token t =>
    cases t <;> cases h
    rfl

namespace Abreast

variable [TokenSource σ] [Listener σ] [TokenSource τ] [Listener τ] (L : Abreast σ τ)

/-- The two readings lead from one phase of reading the value at a position to another, and `p` holds of the answer. -/
abbrev Goes (φ ψ : Phase) (placed : Bool) (i : L.Pos) (p : α → Prop) (r : Reading σ α) (r' : Reading τ α) : Prop :=
  Accords L.Gone (L.On φ i) (L.Fails placed i) (fun a s y => p a ∧ L.On ψ i s y) r r'

/-- The two readings read the value at a position. -/
abbrev Whole (placed : Bool) (i : L.Pos) (p : α → Prop) (r : Reading σ α) (r' : Reading τ α) : Prop :=
  L.Goes .before .behind placed i p r r'

/-- Both readings read what is one step below a position, wherever they place it. -/
abbrev Parts (placed : Bool) (i : L.Pos) (p : α → Prop) (part : Place → Reading σ α) (part' : Place → Reading τ α) :
    Prop :=
  ∀ ⦃owner step j⦄, L.Part i owner step j → ∀ ⦃place place'⦄, L.Placed j place place' →
    L.Whole placed j p (part place) (part' place')

/-- Both readings can fail so wherever they are. -/
def Anywhere (e : BindError) : Prop := ∀ ⦃phase i s t⦄, L.On phase i s (.reading t) → L.Fails false i e s e t

variable {L} {φ ψ χ : Phase} {placed : Bool} {i : L.Pos} {p : α → Prop} {q : β → Prop} {r : Reading σ α}
  {r' : Reading τ α} {n m : Nat} {place place' : Place}

theorem anywhere_plain {e : BindError} (h : e.IsPlain) : L.Anywhere e := fun _ _ _ _ => L.fails_plain h

/-! ## Readings in turn -/

namespace Goes

theorem pure {a : α} (h : p a) : L.Goes φ φ placed i p (Pure.pure a) (Pure.pure a) :=
  Accords.pure fun _ _ hon => ⟨h, hon⟩

theorem throw {e : BindError} (h : L.Anywhere e) : L.Goes φ ψ false i p (throw e) (throw e) :=
  Accords.throw (fun _ _ hon => h hon) fun _ _ _ => L.gone

theorem bind {k : α → Reading σ β} {k' : α → Reading τ β} (h : L.Goes φ ψ placed i p r r')
    (hk : ∀ a, p a → L.Goes ψ χ placed i q (k a) (k' a)) : L.Goes φ χ placed i q (r >>= k) (r' >>= k') :=
  Accords.bind h fun a => .of_and (hk a)

theorem map (f : α → β) (h : L.Goes φ ψ placed i p r r') (hq : ∀ a, p a → q (f a)) :
    L.Goes φ ψ placed i q (do return f (← r)) (do return f (← r')) :=
  h.bind fun a ha => pure (hq a ha)

theorem mono {p' : α → Prop} (h : L.Goes φ ψ placed i p r r') (hp : ∀ a, p a → p' a) :
    L.Goes φ ψ placed i p' r r' :=
  h.mono_post fun a _ _ ha => ⟨hp a ha.1, ha.2⟩

theorem lift {x : Except BindError α} (h : Ends p L.Anywhere x) :
    L.Goes φ φ false i p (Reading.lift x) (Reading.lift x) :=
  Accords.lift (p := p) (h.mono (fun _ h => h) fun _ he _ _ hon => he hon) (fun _ ha _ _ hon => ⟨ha, hon⟩)
    fun _ _ _ => L.gone

theorem perform {x : Making α} (h : Ends p L.Anywhere x.outcome) :
    L.Goes φ φ false i p (Reading.perform x) (Reading.perform x) :=
  Accords.perform (p := p) (fun d _ _ => L.hear_deed d) (h.mono (fun _ h => h) fun _ he _ _ hon => he hon)
    (fun _ ha _ _ hon => ⟨ha, hon⟩) fun _ _ _ => L.gone

theorem atPlace (hplaced : L.Placed i place place') (h : L.Goes φ ψ false i p r r') :
    L.Goes φ ψ true i p (Reading.atPlace place r) (Reading.atPlace place' r') :=
  Accords.atPlace place place' h (fun _ _ _ _ => L.fails_at hplaced)
    (fun _ _ _ _ ha => ⟨ha.1, L.stopped_at hplaced ha.2⟩) fun _ _ _ => L.gone_at hplaced

/-- Looking where the sources are. -/
theorem here {k : σ → Reading σ α} {k' : τ → Reading τ α}
    (h : ∀ s₀ y₀, L.On φ i s₀ y₀ → L.Goes φ ψ placed i p (k s₀) (k' y₀.state)) :
    L.Goes φ ψ placed i p (get >>= k) (get >>= k') := by
  refine .of_each fun s₀ y₀ hon => Accords.here fun s₁ t₁ => ?_
  refine .of_each ?_
  rintro s y ⟨⟨rfl, rfl⟩, rfl, rfl⟩
  refine Accords.mono (h s y hon) ?_ (fun _ _ _ _ hf => hf) fun _ _ _ ha => ha
  rintro _ _ ⟨rfl, rfl⟩
  exact hon

/-- A reading that is asked for, if it is heard of without harm. -/
theorem asked {whole part : Ty} {s₀ : σ} {t₀ : τ}
    (hhear : ∀ s y, L.On φ i s y → L.On φ i (hear (.ask whole s₀ part s) s)
      (y.step fun t => hear (.ask whole t₀ part t) t))
    (h : L.Goes φ ψ placed i p r r') :
    L.Goes φ ψ placed i p (Reading.asked whole s₀ part r) (Reading.asked whole t₀ part r') := by
  refine Accords.here fun s₁ t₁ => Accords.bind (Q := fun _ => L.On φ i) (.tell ?_) fun _ => h
  rintro s y ⟨hon, rfl, rfl⟩
  have := hhear s y hon
  cases y <;> exact this

end Goes

/-- What is asked for one step below. -/
theorem Parts.asked {part : Place → Reading σ α} {part' : Place → Reading τ α} (h : L.Parts placed i p part part')
    {s₀ : σ} {y₀ : Side τ} (hon : L.On .before i s₀ y₀) (whole u : Ty) :
    L.Parts placed i p (fun place => Reading.asked whole s₀ u (part place))
      (fun place => Reading.asked whole y₀.state u (part' place)) :=
  fun _ _ _ hpart _ _ hplaced => .asked (fun _ _ => L.hear_part whole u hpart hon) (h hpart hplaced)

/-! ## Single tokens -/

/-- Looking at the front. -/
theorem peek {k : TokenKind → Reading σ α} {k' : TokenKind → Reading τ α}
    (h : ∀ kind, Accords L.Gone (fun s y => L.On .before i s y ∧ (front s).kind = kind) (L.Fails placed i)
      (fun a s y => p a ∧ L.On ψ i s y) (k kind) (k' kind)) :
    L.Goes .before ψ placed i p (Reading.peek >>= k) (Reading.peek >>= k') :=
  Accords.peek (fun _ _ => L.front_before) h

/-- What is read whatever stands at the front. -/
theorem Goes.any {kind : TokenKind} (h : L.Goes .before ψ placed i p r r') :
    Accords L.Gone (fun s y => L.On .before i s y ∧ (front s).kind = kind) (L.Fails placed i)
      (fun a s y => p a ∧ L.On ψ i s y) r r' :=
  Accords.mono h (fun _ _ => And.left) (fun _ _ _ _ hf => hf) fun _ _ _ ha => ha

theorem mismatch (expected : String) (kind : TokenKind) :
    Accords L.Gone (fun s y => L.On .before i s y ∧ (front s).kind = kind) (L.Fails false i)
      (fun a s y => p a ∧ L.On ψ i s y) (throw (.tokenMismatch expected kind))
      (throw (.tokenMismatch expected kind)) := by
  refine .throw ?_ fun s e t h => L.gone h.1
  rintro s t ⟨hon, rfl⟩
  exact L.fails_before expected hon

theorem noValue : L.Goes .before ψ false i p Reading.noValue Reading.noValue := peek fun kind => mismatch _ kind

/-- A scalar is taken, or refused. -/
theorem take {expected : String} {pick : Token → Option α} (hpick : ∀ u a, pick u = some a → u.kind.isScalar) :
    L.Whole false i (fun _ => True) (Reading.take expected pick) (Reading.take expected pick) :=
  Accords.take (fun _ _ => L.front_before)
    (fun _ _ u a hon hf hu => ⟨trivial, L.scalar_step hon hf (hpick u a hu)⟩)
    (fun _ _ hon _ => L.fails_before expected hon) fun _ _ _ => L.gone

theorem null : L.Whole false i (fun _ => True) Reading.null Reading.null := by
  refine take fun u a hu => ?_
  split at hu
  · next h =>
    subst h
    rfl
  · cases hu

theorem bool : L.Whole false i (fun _ => True) Reading.bool Reading.bool := by
  refine take fun u a hu => ?_
  cases u <;> cases hu
  rfl

theorem string : L.Whole false i (fun _ => True) Reading.string Reading.string := by
  refine take fun u a hu => ?_
  cases u <;> cases hu
  rfl

theorem number : L.Whole false i (fun _ => True) Reading.number Reading.number := by
  refine take fun u a hu => ?_
  cases u <;> cases hu
  rfl

/-- A null that stands there is consumed. -/
theorem null_there {F : BindError → σ → BindError → τ → Prop} :
    Accords L.Gone (fun s y => L.On .before i s y ∧ (front s).kind = .null) F
      (fun _ s y => ∃ s₀ y₀, L.On .before i s₀ y₀ ∧ (front s₀).kind = .null ∧ s = advance s₀ ∧ y = y₀.step advance)
      Reading.null Reading.null := by
  refine .take (fun _ _ h => L.front_before h.1) ?_ ?_ fun _ _ _ h => L.gone h.1
  · rintro s y u a ⟨hon, hnull⟩ - -
    exact ⟨s, y, hon, hnull, rfl, rfl⟩
  · rintro s t ⟨-, hnull⟩ hnone
    have := hnone _ (Front.eq_null hnull)
    simp at this

theorem null_step {s : σ} {y : Side τ} (hon : L.On .before i s y) (hnull : (front s).kind = .null) :
    L.On .behind i (advance s) (y.step advance) :=
  L.scalar_step hon (Front.eq_null hnull) rfl

/-! ## Scalars -/

theorem narrowed (type : String) (fit : Number → Option α) :
    L.Whole false i (fun _ => True) (Reading.narrowed type fit) (Reading.narrowed type fit) := by
  refine number.bind fun n _ => ?_
  cases fit n with
  | some a => exact .pure trivial
  | none => exact .throw (anywhere_plain ⟨by trivial, fun _ => rfl⟩)

theorem scalar (s : ScalarType) :
    L.Whole false i (fun v => v.ty = .scalar s) (Decode.scalar s) (Decode.scalar s) := by
  cases s with
  | unit => exact null.map _ fun _ _ => rfl
  | bool => exact bool.map _ fun _ _ => rfl
  | int t => exact (narrowed _ _).map _ fun _ _ => rfl
  | f32 => exact (narrowed _ _).map _ fun _ _ => rfl
  | f64 => exact (narrowed _ _).map _ fun _ _ => rfl
  | char =>
    refine string.bind fun text _ => ?_
    cases text.toList with
    | nil => exact .throw (anywhere_plain ⟨by trivial, fun _ => rfl⟩)
    | cons ch _ => exact .pure rfl
  | string => exact string.map _ fun _ _ => rfl
  | number => exact number.map _ fun _ _ => rfl

theorem variant (enum : String) (variants : List String) :
    L.Whole false i (fun v => v.ty = .enum enum variants) (Decode.variant enum variants)
      (Decode.variant enum variants) := by
  refine Accords.bind (Q := fun name s y => ∃ s₀ y₀, L.On .before i s₀ y₀ ∧ front s₀ = .token (.string name) ∧
    s = advance s₀ ∧ y = y₀.step advance) ?_ fun name => ?_
  · refine .take (fun _ _ => L.front_before) ?_ (fun _ _ hon _ => L.fails_before _ hon) fun _ _ _ => L.gone
    intro s y u a hon hf hu
    cases u <;> cases hu
    exact ⟨s, y, hon, hf, rfl, rfl⟩
  · split
    · refine .pure ?_
      rintro _ _ ⟨s, y, hon, hf, rfl, rfl⟩
      exact ⟨rfl, L.scalar_step hon hf rfl⟩
    · refine .throw ?_ ?_
      · rintro _ _ ⟨s, y, hon, hf, rfl, hy⟩
        cases y <;> cases hy
        exact L.fails_variant enum hon hf
      · rintro _ _ _ ⟨s, y, hon, hf, rfl, hy⟩
        have hbehind := L.scalar_step hon hf rfl
        rw [← hy] at hbehind
        exact L.gone hbehind

theorem nullOf (t : Ty) : L.Whole false i (fun v => v.ty = t) (Decode.nullOf t) (Decode.nullOf t) := by
  have hrefused : L.Whole false i (fun v : Value => v.ty = t) (throw (.typeError t.path .nullNotAccepted))
      (throw (.typeError t.path .nullNotAccepted)) := .throw (anywhere_plain ⟨by trivial, fun _ => rfl⟩)
  cases t with
  | option payload => exact null.map _ fun _ _ => rfl
  | scalar s =>
    cases s with
    | unit => exact null.map _ fun _ _ => rfl
    | bool | int | f32 | f64 | char | string | number => exact hrefused
  | enum | seq | set | map | dynamic | record | foreign => exact hrefused

/-! ## Containers -/

/-- Behind a part of a container, a turn of its loop is heard, and the loop goes on. -/
def Turned (L : Abreast σ τ) (i : L.Pos) (bracket : Bracket) (parts n m : Nat) (s₀ : σ) (y₀ : Side τ) (s : σ)
    (y : Side τ) : Prop :=
  L.On (.inside bracket (parts + 1) n m) i (hear (.turn s₀ s) s) (y.step fun t => hear (.turn y₀.state t) t)

/-- The bracket at the front of a container. -/
theorem opened {bracket : Bracket} (hb : L.Bounds i (n + 1) (m + 1)) :
    Accords L.Gone (L.On .before i) (L.Fails false i) (fun _ => L.On (.inside bracket 0 n m) i)
      (Reading.expect bracket.opening) (Reading.expect bracket.opening) := by
  refine .take (fun _ _ => L.front_before) ?_ (fun _ _ hon _ => L.fails_before _ hon) fun _ _ _ => L.gone
  intro s y u a hon hf hu
  split at hu
  · next h =>
    subst h
    exact L.enter hb hon hf
  · cases hu

/-- A loop over the parts of a container, of which some are behind, and the bracket at its end. -/
theorem closed {bracket : Bracket} {body : α → Reading σ α} {body' : α → Reading τ α} {I : Nat → α → Prop}
    (hbody : ∀ {parts n m acc s₀ y₀}, I parts acc → L.On (.inside bracket parts (n + 1) (m + 1)) i s₀ y₀ →
      (front s₀).kind.closes = false → Accords L.Gone (fun s y => s = s₀ ∧ y = y₀) (L.Fails false i)
        (fun acc s y => I (parts + 1) acc ∧ L.Turned i bracket parts n m s₀ y₀ s y) (body acc) (body' acc))
    {parts : Nat} {acc : α} (hacc : I parts acc) :
    L.Goes (.inside bracket parts n m) .behind false i (fun acc => ∃ parts, I parts acc)
      (Reading.forMembers body n acc >>= fun acc => Reading.expect bracket.closing >>= fun _ => pure acc)
      (Reading.forMembers body' m acc >>= fun acc => Reading.expect bracket.closing >>= fun _ => pure acc) := by
  have hloop := Accords.forMembers (G := L.Gone) (F := L.Fails false i)
    (I := fun parts n m acc s y => I parts acc ∧ L.On (.inside bracket parts n m) i s y)
    (fun _ _ _ _ _ _ h => L.front_inside h.2) (fun h => L.inside_zero h.2)
    (fun h => ⟨h.1, L.hear_spent h.2⟩) (fun h => hbody h.1 h.2) n m parts acc
  refine (hloop.mono (fun s y hon => ⟨hacc, hon⟩) (fun _ _ _ _ hf => hf) fun _ _ _ ha => ha).bind fun acc => ?_
  refine Accords.bind (Q := fun _ s y => (∃ parts, I parts acc) ∧ L.On .behind i s y) ?_
    fun _ => .pure fun _ _ ha => ha
  refine .take ?_ ?_ ?_ ?_
  · rintro s t ⟨parts, n, m, ⟨-, hon⟩, -⟩
    exact L.front_inside hon
  · rintro s y u a ⟨parts, n, m, ⟨hI, hon⟩, -⟩ hf hu
    split at hu
    · next h =>
      subst h
      exact ⟨⟨parts, hI⟩, L.leave hon hf⟩
    · cases hu
  · rintro s t ⟨parts, n, m, ⟨-, hon⟩, hend⟩ hnone
    refine L.fails_leave _ hon hend fun hf => ?_
    have := hnone _ hf
    simp at this
  · rintro s e t ⟨parts, n, m, ⟨-, hon⟩, -⟩
    exact L.gone hon

/-- The brackets of a container around a loop. -/
theorem bracketed (bracket : Bracket) {body : α → Reading σ α} {body' : α → Reading τ α} {I : Nat → α → Prop}
    {start : α} (hb : L.Bounds i (n + 1) (m + 1)) (hstart : I 0 start)
    (hbody : ∀ {parts n m acc s₀ y₀}, I parts acc → L.On (.inside bracket parts (n + 1) (m + 1)) i s₀ y₀ →
      (front s₀).kind.closes = false → Accords L.Gone (fun s y => s = s₀ ∧ y = y₀) (L.Fails false i)
        (fun acc s y => I (parts + 1) acc ∧ L.Turned i bracket parts n m s₀ y₀ s y) (body acc) (body' acc)) :
    L.Whole false i (fun acc => ∃ parts, I parts acc)
      (Reading.expect bracket.opening >>= fun _ => Reading.forMembers body n start >>= fun acc =>
        Reading.expect bracket.closing >>= fun _ => pure acc)
      (Reading.expect bracket.opening >>= fun _ => Reading.forMembers body' m start >>= fun acc =>
        Reading.expect bracket.closing >>= fun _ => pure acc) :=
  (opened hb).bind fun _ => closed hbody hstart

/-- What is read one step below. -/
theorem Goes.below {j : L.Pos} {owner : String} {step : Step} {s₀ : σ} {y₀ : Side τ} (h : L.Whole true j p r r')
    (hpart : L.Part i owner step j) (hon : L.On .before j s₀ y₀) :
    Accords L.Gone (fun s y => s = s₀ ∧ y = y₀) (L.Fails false i) (fun a s y => p a ∧ L.On .behind j s y) r r' := by
  refine Accords.mono h ?_ (fun _ _ _ _ => L.fails_part hpart) fun _ _ _ ha => ha
  rintro _ _ ⟨rfl, rfl⟩
  exact hon

theorem array {item : Place → Reading σ α} {item' : Place → Reading τ α} {owner : String}
    (hb : L.Bounds i (n + 1) (m + 1)) (hplaced : L.Placed i place place') (hitem : L.Parts true i p item item') :
    L.Whole false i (fun _ => True) (Decode.array n item owner place) (Decode.array m item' owner place') := by
  let push (items : Array α) : Reading σ (Array α) := do return items.push (← item (place.item owner items.size))
  let push' (items : Array α) : Reading τ (Array α) := do return items.push (← item' (place'.item owner items.size))
  have hstart : (#[] : Array α).size = 0 := rfl
  have hitems : L.Whole false i (fun items => ∃ parts, items.size = parts)
      (Reading.expect .startArray >>= fun _ => Reading.forMembers push n #[] >>= fun items =>
        Reading.expect .endArray >>= fun _ => pure items)
      (Reading.expect .startArray >>= fun _ => Reading.forMembers push' m #[] >>= fun items =>
        Reading.expect .endArray >>= fun _ => pure items) := by
    refine bracketed .array (I := fun parts (items : Array α) => items.size = parts) hb hstart ?_
    rintro _ n m items s₀ y₀ rfl hon hcloses
    obtain ⟨j, hpart, hbefore, hturn⟩ := L.item owner hon hcloses
    refine (Goes.below (hitem hpart (L.placed_part hpart hplaced)) hpart hbefore).map _ fun v s y hv => ?_
    exact ⟨Array.size_push v, hturn s y hv.2⟩
  have harray : L.Whole false i (fun _ => True) _ _ := hitems.map Array.toList fun _ _ => trivial
  simp only [bind_assoc, pure_bind] at harray
  exact harray

theorem object {member : α → Reading σ α} {member' : α → Reading τ α} {I : α → Prop} {start : α}
    (hb : L.Bounds i (n + 1) (m + 1)) (hstart : I start)
    (hmember : ∀ {parts n m acc s₀ y₀}, I acc → L.On (.inside .object parts (n + 1) (m + 1)) i s₀ y₀ →
      (front s₀).kind.closes = false → Accords L.Gone (fun s y => s = s₀ ∧ y = y₀) (L.Fails false i)
        (fun acc s y => I acc ∧ L.Turned i .object parts n m s₀ y₀ s y) (member acc) (member' acc)) :
    L.Whole false i I (Decode.object n member start) (Decode.object m member' start) :=
  (bracketed .object (I := fun _ => I) hb hstart hmember).mono fun _ ⟨_, h⟩ => h

/-- A member is a name and what stands behind it. -/
theorem named (owner : String) {parts : Nat} {s₀ : σ} {y₀ : Side τ} {k : String → Reading σ α}
    {k' : String → Reading τ α} (hon : L.On (.inside .object parts (n + 1) (m + 1)) i s₀ y₀)
    (hcloses : (front s₀).kind.closes = false)
    (hk : ∀ {key j}, front s₀ = .token (.name key) → L.Part i owner (.key key) j →
      L.On .before j (advance s₀) (y₀.step advance) →
      Accords L.Gone (fun s y => s = advance s₀ ∧ y = y₀.step advance) (L.Fails false i)
        (fun a s y => p a ∧ L.On .behind j s y) (k key) (k' key)) :
    Accords L.Gone (fun s y => s = s₀ ∧ y = y₀) (L.Fails false i)
      (fun a s y => p a ∧ L.Turned i .object parts n m s₀ y₀ s y) (Reading.name >>= k) (Reading.name >>= k') := by
  refine Accords.bind (Q := fun key s y => front s₀ = .token (.name key) ∧ s = advance s₀ ∧ y = y₀.step advance)
    (.take ?_ ?_ ?_ ?_) fun key => .of_and fun hf => ?_
  · rintro s t ⟨rfl, rfl⟩
    exact L.front_inside hon
  · rintro s y u key ⟨rfl, rfl⟩ hf hu
    cases u <;> cases hu
    exact ⟨hf, rfl, rfl⟩
  · rintro s t ⟨rfl, rfl⟩ hnone
    refine L.fails_name _ hon hcloses fun key hf => ?_
    cases hnone _ hf
  · rintro s e t ⟨rfl, rfl⟩
    exact L.gone hon
  · obtain ⟨j, hpart, hbefore, hturn⟩ := L.member owner hon hf
    exact (hk hf hpart hbefore).mono_post fun a s y ha => ⟨ha.1, hturn s y ha.2⟩

theorem entries {value : Place → Reading σ Value} {value' : Place → Reading τ Value} {owner : String}
    {p : Value → Prop} (hb : L.Bounds i (n + 1) (m + 1)) (hplaced : L.Placed i place place')
    (hvalue : L.Parts true i p value value') :
    L.Whole false i (fun _ => True) (Decode.entries n value owner place) (Decode.entries m value' owner place') := by
  refine (object (I := fun _ => True) hb trivial fun _ hon hcloses => ?_).map _ fun _ _ => trivial
  refine named owner hon hcloses fun _ hpart hbefore => ?_
  refine (Goes.below (hvalue hpart ?_) hpart hbefore).map _ fun v s y hv => ⟨trivial, hv.2⟩
  exact L.placed_part hpart hplaced

/-! ## Documents -/

theorem nodeArray {part : Place → Reading σ Node} {part' : Place → Reading τ Node} {p : Node → Prop}
    (hb : L.Bounds i (n + 1) (m + 1)) (hplaced : L.Placed i place place') (hpart : L.Parts false i p part part') :
    L.Whole false i (fun _ => True) (Decode.nodeArray n part place) (Decode.nodeArray m part' place') :=
  array hb hplaced fun _ _ _ hj _ _ hplaced => (hpart hj hplaced).atPlace hplaced

theorem nodeObject {part : Place → Reading σ Node} {part' : Place → Reading τ Node} {p : Node → Prop}
    (hb : L.Bounds i (n + 1) (m + 1)) (hplaced : L.Placed i place place') (hpart : L.Parts false i p part part') :
    L.Whole false i (fun _ => True) (Decode.nodeObject n part place) (Decode.nodeObject m part' place') := by
  refine object (I := fun _ => True) hb trivial fun _ hon hcloses => ?_
  refine named DynamicKind.object.path hon hcloses fun _ hj hbefore => ?_
  have hchild := L.placed_part hj hplaced
  refine (Goes.below ((hpart hj hchild).atPlace hchild) hj hbefore).map _ fun v s y hv => ⟨trivial, hv.2⟩

theorem spent (hb : L.Bounds i 0 0) : L.Goes .before ψ false i p Reading.spent Reading.spent :=
  Accords.bind (Q := fun _ => L.On .before i) (.tell fun _ _ => L.hear_exhausted hb) fun _ => noValue

theorem node (n : Nat) : ∀ {m i place place'}, L.Bounds i n m → L.Placed i place place' →
    L.Whole false i (fun _ => True) (Decode.node n place) (Decode.node m place') := by
  induction n with
  | zero =>
    intro m i place place' hb _
    obtain rfl := (L.bounds_zero hb).1 rfl
    exact spent hb
  | succ n ih =>
    intro m i place place' hb hplaced
    obtain ⟨m, rfl⟩ := Nat.exists_eq_succ_of_ne_zero fun hm => absurd ((L.bounds_zero hb).2 hm) (Nat.succ_ne_zero n)
    refine .here fun s₀ y₀ hon => ?_
    have hpart : L.Parts false i (fun _ => True) (Decode.node n) (Decode.node m) :=
      fun _ _ _ hj _ _ hplaced => ih (L.bounds_part hj hb) hplaced
    have hpart := hpart.asked hon (.dynamic .any) (.dynamic .any)
    refine peek fun kind => ?_
    cases kind with
    | startObject => exact ((nodeObject hb hplaced hpart).map _ fun _ _ => trivial).any
    | startArray => exact ((nodeArray hb hplaced hpart).map _ fun _ _ => trivial).any
    | string => exact (string.map _ fun _ _ => trivial).any
    | number => exact (number.map _ fun _ _ => trivial).any
    | boolean => exact (bool.map _ fun _ _ => trivial).any
    | null => exact (null.map _ fun _ _ => trivial).any
    | endObject | endArray | name | endOfStream | unknown => exact mismatch _ _

theorem dynamic (hb : L.Bounds i (n + 1) (m + 1)) (hplaced : L.Placed i place place') (kind : DynamicKind) :
    L.Whole false i (fun v => v.ty = .dynamic kind) (Decode.dynamic n kind place) (Decode.dynamic m kind place') := by
  refine .here fun s₀ y₀ hon => ?_
  have hpart : L.Parts false i (fun _ => True) (Decode.node n) (Decode.node m) :=
    fun _ _ _ hj _ _ hplaced => node n (L.bounds_part hj hb) hplaced
  have hpart := hpart.asked hon (.dynamic kind) (.dynamic .any)
  cases kind with
  | any => exact (node (n + 1) hb hplaced).map _ fun _ _ => rfl
  | object => exact (nodeObject hb hplaced hpart).map _ fun _ _ => rfl
  | array => exact (nodeArray hb hplaced hpart).map _ fun _ _ => rfl

/-! ## Contexts -/

/-- Both sources have come to a member of a record and stand before its name. -/
structure Arriving (L : Abreast σ τ) (r : Record) (key : String) (i j : L.Pos) (place place' : Place) (s : σ)
    (y : Side τ) : Prop where
  inside : ∃ parts n m, L.On (.inside .object parts (n + 1) (m + 1)) i s y
  named : front s = .token (.name key)
  part : L.Part i r.name (.key key) j
  placed : L.Placed i place place'
  before : L.On .before j (advance s) (y.step advance)

/-- What holds of the assembly of a record whenever a member comes, the first reading having the configuration `g` and
the second one `g'`: each value that is put in place keeps it, and the sources can stand where the member is heard
of, and behind it where it has no place. -/
structure Members (L : Abreast σ τ) (c : Context) (g g' : Config) (r : Record) (creator : Creator)
    (Q : Assembly → Prop) : Prop where
  argument : ∀ {a}, Q a → ∀ i v, Ends Q L.Anywhere (a.putArgument r creator i v).outcome
  field : ∀ {a key i f}, Q a → a.route r creator key = .field i f → ∀ v, Ends Q L.Anywhere (a.putField r i v).outcome
  arrive : ∀ {a key i j place place' s y}, Q a → L.Arriving r key i j place place' s y →
    a.route r creator key ≠ .elsewhere ∨ r.hybrid.isSome →
    L.On .before j (hear (.arrival ⟨r, creator, a, key, place, advance s⟩) (advance s))
      ((y.step advance).step fun t => hear (.arrival ⟨r, creator, a, key, place', t⟩) t)
  unknown : ∀ {a key i j place place' s y}, Q a → L.Arriving r key i j place place' s y →
    a.route r creator key = .elsewhere → r.hybrid.isSome = false →
    Accords L.Gone (fun s' y' => s' = advance s ∧ y' = y.step advance) (L.Fails false i)
      (fun _ => L.On .behind j)
      (do
        Reading.tell (.arrival ⟨r, creator, a, key, place, ← get⟩)
        Decode.unknown { c with config := g } r.name key (place.member r.name key))
      (do
        Reading.tell (.arrival ⟨r, creator, a, key, place', ← get⟩)
        Decode.unknown { c with config := g' } r.name key (place'.member r.name key))

/-- What a context does to readings from the sources: codecs and constructors give values of types that come for the
types asked for, and fail as the readings can fail, and members of records are read while their assemblies are in
order. -/
structure Grounds (L : Abreast σ τ) (c : Context) (g g' : Config) (Typed : Ty → Ty → Prop) : Prop where
  typed : ∀ t, Typed t t
  codec_typed : ∀ {t codec}, c.registry.codec? t = some codec → ∀ {n v}, codec.decode n = .ok v → Typed t v.ty
  codec_fails : ∀ {t codec}, c.registry.codec? t = some codec → ∀ {i m place s₀ t₀ n s t e},
    L.On .before i s₀ (.reading t₀) → Decode.node m place t₀ = .ok n t → L.On .behind i s (.reading t) →
    codec.decode n = .error e → L.Fails false i e s e t
  null_typed : ∀ {t codec}, c.registry.codec? t = some codec → ∀ {v}, codec.decodeNull = .ok v → Typed t v.ty
  null_fails : ∀ {t codec}, c.registry.codec? t = some codec → ∀ {i s t e}, L.On .before i s (.reading t) →
    (front s).kind = .null → codec.decodeNull = .error e → L.Fails false i e (advance s) e (advance t)
  makes : ∀ {name creator}, (c.schema.record name).creator = some creator →
    creator.Makes (Typed (.record name)) L.Anywhere
  arrive : ∀ {r creator a key i j place place' s y}, a.InOrder r creator → L.Arriving r key i j place place' s y →
    a.route r creator key ≠ .elsewhere ∨ r.hybrid.isSome →
    L.On .before j (hear (.arrival ⟨r, creator, a, key, place, advance s⟩) (advance s))
      ((y.step advance).step fun t => hear (.arrival ⟨r, creator, a, key, place', t⟩) t)
  unknown : ∀ {r creator a key i j place place' s y}, a.InOrder r creator → L.Arriving r key i j place place' s y →
    a.route r creator key = .elsewhere → r.hybrid.isSome = false →
    Accords L.Gone (fun s' y' => s' = advance s ∧ y' = y.step advance) (L.Fails false i)
      (fun _ => L.On .behind j)
      (do
        Reading.tell (.arrival ⟨r, creator, a, key, place, ← get⟩)
        Decode.unknown { c with config := g } r.name key (place.member r.name key))
      (do
        Reading.tell (.arrival ⟨r, creator, a, key, place', ← get⟩)
        Decode.unknown { c with config := g' } r.name key (place'.member r.name key))
  finish : ∀ {r creator a i s y}, a.InOrder r creator → L.On .behind i s y →
    L.On .behind i (hear (.finish r creator a) s) (y.step (hear (.finish r creator a)))

/-- Where both readings treat unknown keys alike, a member without a place is skipped or refused by both. -/
theorem Arriving.unknown {r : Record} {key : String} {j : L.Pos} {s₀ : σ} {y₀ : Side τ}
    (h : L.Arriving r key i j place place' s₀ y₀) {c c' : Context}
    (hsame : c'.config.unknownKeys = c.config.unknownKeys)
    (hheard : L.On .before j (hear (.arrival ⟨r, creator, a, key, place, advance s₀⟩) (advance s₀))
      ((y₀.step advance).step fun t => hear (.arrival ⟨r, creator, a, key, place', t⟩) t))
    (hrefused : ∀ {s t}, L.On .before j s (.reading t) →
      L.Fails false i ((BindError.unknownKey r.name key).at? (place.member r.name key)) s
        ((BindError.unknownKey r.name key).at? (place'.member r.name key)) t) :
    Accords L.Gone (fun s y => s = advance s₀ ∧ y = y₀.step advance) (L.Fails false i) (fun _ => L.On .behind j)
      (do
        Reading.tell (.arrival ⟨r, creator, a, key, place, ← get⟩)
        Decode.unknown c r.name key (place.member r.name key))
      (do
        Reading.tell (.arrival ⟨r, creator, a, key, place', ← get⟩)
        Decode.unknown c' r.name key (place'.member r.name key)) := by
  refine Accords.here fun s₁ t₁ => Accords.bind (Q := fun _ => L.On .before j) (.tell ?_) fun _ => ?_
  · rintro _ y ⟨⟨rfl, rfl⟩, rfl, rfl⟩
    cases y₀ <;> exact hheard
  · unfold Decode.unknown
    rw [hsame]
    cases c.config.unknownKeys with
    | skip => exact L.skip_part h.part
    | reject =>
      change Accords L.Gone _ (L.Fails false i) _
        (throw ((BindError.unknownKey r.name key).at? (place.member r.name key)))
        (throw ((BindError.unknownKey r.name key).at? (place'.member r.name key)))
      exact .throw (fun _ _ => hrefused) fun _ _ _ => L.gone

section Values
variable {c : Context} {g g' : Config} {Typed : Ty → Ty → Prop} (hg : L.Grounds c g g' Typed)
include hg

/-- The members of a record come while its assembly is in order. -/
theorem Grounds.members {r : Record} {creator : Creator} {T : Ty → Prop} (hmakes : creator.Makes T L.Anywhere) :
    L.Members c g g' r creator (Assembly.Sound T r creator) where
  argument ha i v := Assembly.putArgument_ends (fun _ => anywhere_plain) hmakes ha i v
  field ha hroute v := Assembly.putField_ends (fun _ => anywhere_plain) ha (Assembly.field_lt hroute) v
  arrive ha := hg.arrive ha.inOrder
  unknown ha := hg.unknown ha.inOrder

theorem Grounds.lift_made {t : Ty} {x : Except BindError Value} (h : Ends (fun v => v.ty = t) L.Anywhere x) :
    L.Goes φ φ false i (fun v => Typed t v.ty) (Reading.lift x) (Reading.lift x) :=
  Goes.lift (h.mono (fun _ hv => hv ▸ hg.typed t) fun _ he => he)

theorem wire {t : Ty} {codec : Codec} (hcodec : c.registry.codec? t = some codec) (hb : L.Bounds i n m)
    (hplaced : L.Placed i place place') :
    L.Whole false i (fun v => Typed t v.ty) (Decode.wire n codec place) (Decode.wire m codec place') := by
  refine peek fun found => ?_
  split
  · next hnull =>
    subst hnull
    refine null_there.bind fun _ => ?_
    cases hx : codec.decodeNull with
    | ok v =>
      refine .pure ?_
      rintro _ _ ⟨s, y, hon, hnull, rfl, rfl⟩
      exact ⟨hg.null_typed hcodec hx, null_step hon hnull⟩
    | error e =>
      refine .throw ?_ ?_
      · rintro _ _ ⟨s, y, hon, hnull, rfl, hy⟩
        cases y <;> cases hy
        exact hg.null_fails hcodec hon hnull hx
      · rintro _ _ _ ⟨s, y, hon, hnull, rfl, hy⟩
        have hbehind := null_step hon hnull
        rw [← hy] at hbehind
        exact L.gone hbehind
  · split
    · refine Goes.any ((node n hb hplaced).remember.bind fun doc => ?_)
      cases hx : codec.decode doc with
      | ok v => exact .pure fun _ _ h => ⟨hg.codec_typed hcodec hx, h.1.2⟩
      | error e =>
        refine .throw ?_ fun _ _ _ h => L.gone h.1.2
        rintro s t ⟨⟨-, hon⟩, hread⟩
        obtain ⟨s₀, t₀, hon₀, hnode⟩ := hread t rfl
        exact hg.codec_fails hcodec hon₀ hnode hon hx
    · exact mismatch _ found

/-! ## Records -/

omit hg in
/-- Whether a member is absent; if it is, its null is consumed. -/
theorem absent (c : Context) (t : Ty) :
    Accords L.Gone (L.On .before i) (L.Fails placed i)
      (fun gone s y => L.On (if gone then .behind else .before) i s y) (Decode.absent c t) (Decode.absent c t) := by
  refine Accords.peek (fun _ _ => L.front_before) fun kind => ?_
  split
  · exact .pure fun _ _ h => h.1
  · next hnull =>
    obtain rfl : kind = .null := Classical.byContradiction fun h => hnull (.inl h)
    refine null_there.bind fun _ => .pure ?_
    rintro _ _ ⟨s, y, hon, hnull, rfl, rfl⟩
    exact null_step hon hnull

omit hg in
/-- The value of a member is read and put in place, unless it is absent. -/
theorem stored {part : Place → Reading σ Value} {part' : Place → Reading τ Value} {p : Value → Prop} {t : Ty}
    {put : Value → Making Assembly} {a : Assembly} {Q : Assembly → Prop} (ha : Q a)
    (hput : ∀ v, Ends Q L.Anywhere (put v).outcome) (hplaced : L.Placed i place place')
    (hpart : L.Whole true i p (part place) (part' place')) (side : List (String × Node)) :
    L.Whole true i (fun state : Assembly × List (String × Node) => Q state.1)
      (do
        if ← Decode.absent { c with config := g } t then return (a, side)
        let v ← part place
        return (← Reading.atPlace place (Reading.perform (put v)), side))
      (do
        if ← Decode.absent { c with config := g' } t then return (a, side)
        let v ← part' place'
        return (← Reading.atPlace place' (Reading.perform (put v)), side)) := by
  refine (absent c t).bind fun gone => ?_
  cases gone with
  | true => exact .pure fun _ _ hon => ⟨ha, hon⟩
  | false =>
    refine hpart.bind fun v _ => ?_
    exact ((Goes.perform (hput v)).atPlace hplaced).map _ fun _ h => h

omit hg in
/-- A member is heard of, and then it is read. -/
theorem Goes.arrived {r : Record} {creator : Creator} {a : Assembly} {key : String} {j : L.Pos} {s₀ : σ} {y₀ : Side τ}
    {x : Reading σ α} {x' : Reading τ α} (h : L.Whole true j p x x')
    (harriving : L.Arriving r key i j place place' s₀ y₀)
    (hheard : L.On .before j (hear (.arrival ⟨r, creator, a, key, place, advance s₀⟩) (advance s₀))
      ((y₀.step advance).step fun t => hear (.arrival ⟨r, creator, a, key, place', t⟩) t)) :
    Accords L.Gone (fun s y => s = advance s₀ ∧ y = y₀.step advance) (L.Fails false i)
      (fun v s y => p v ∧ L.On .behind j s y)
      (do
        Reading.tell (.arrival ⟨r, creator, a, key, place, ← get⟩)
        x)
      (do
        Reading.tell (.arrival ⟨r, creator, a, key, place', ← get⟩)
        x') := by
  refine Accords.here fun s₁ t₁ => Accords.bind (Q := fun _ => L.On .before j) (.tell ?_) fun _ => ?_
  · rintro _ y ⟨⟨rfl, rfl⟩, rfl, rfl⟩
    cases y₀ <;> exact hheard
  · exact h.mono_fails fun _ _ _ _ => L.fails_part harriving.part

omit hg in
theorem recordMember {r : Record} {creator : Creator} {Q : Assembly → Prop} (hm : L.Members c g g' r creator Q)
    {capture : Place → Reading σ Node} {capture' : Place → Reading τ Node}
    {part : Ty → Place → Reading σ Value} {part' : Ty → Place → Reading τ Value} {d : Node → Prop}
    {p : Ty → Value → Prop} (hcapture : L.Parts false i d capture capture')
    (hpart : ∀ t, L.Parts true i (p t) (part t) (part' t)) (hplaced : L.Placed i place place')
    (state : Assembly × List (String × Node)) (hstate : Q state.1) {parts : Nat}
    {s₀ : σ} {y₀ : Side τ} (hon : L.On (.inside .object parts (n + 1) (m + 1)) i s₀ y₀)
    (hcloses : (front s₀).kind.closes = false) :
    Accords L.Gone (fun s y => s = s₀ ∧ y = y₀) (L.Fails false i)
      (fun state s y => Q state.1 ∧ L.Turned i .object parts n m s₀ y₀ s y)
      (Decode.recordMember { c with config := g } r creator capture part place state)
      (Decode.recordMember { c with config := g' } r creator capture' part' place' state) := by
  obtain ⟨a, side⟩ := state
  refine named r.name hon hcloses fun {key j} hf hj hbefore => ?_
  have harriving : L.Arriving r key i j place place' s₀ y₀ := ⟨⟨_, _, _, hon⟩, hf, hj, hplaced, hbefore⟩
  have hchild : L.Placed j (place.member r.name key) (place'.member r.name key) := L.placed_part hj hplaced
  cases hroute : a.route r creator key with
  | argument position arg =>
    refine Goes.arrived ?_ harriving (hm.arrive hstate harriving (.inl (by simp [hroute])))
    exact stored hstate (hm.argument hstate position) hchild (hpart arg.type hj hchild) side
  | field position f =>
    refine Goes.arrived ?_ harriving (hm.arrive hstate harriving (.inl (by simp [hroute])))
    exact stored hstate (hm.field hstate hroute) hchild (hpart f.type hj hchild) side
  | elsewhere =>
    cases hhybrid : r.hybrid.isSome with
    | true =>
      refine Goes.arrived ?_ harriving (hm.arrive hstate harriving (.inr hhybrid))
      rw [if_pos rfl, if_pos rfl]
      exact ((hcapture hj hchild).atPlace hchild).map _ fun _ _ => hstate
    | false =>
      have hstay : Accords L.Gone (L.On .behind j) (L.Fails false i) (fun state s y => Q state.1 ∧ L.On .behind j s y)
        (pure (a, side)) (pure (a, side)) := .pure fun _ _ h => ⟨hstate, h⟩
      have hunknown := (hm.unknown hstate harriving hroute hhybrid).bind fun _ => hstay
      rw [bind_assoc, bind_assoc] at hunknown
      exact hunknown

omit hg in
/-- What is made of a record behind its members. -/
theorem finished {r : Record} {creator : Creator} {T : Ty → Prop} (hmakes : creator.Makes T L.Anywhere)
    {state : Assembly × List (String × Node)} {e : Event σ} {e' : Event τ}
    (hheard : ∀ s y, L.On .behind i s y → L.On .behind i (hear e s) (y.step (hear e'))) (hmade : state.1.Made T) :
    L.Goes .behind .behind false i (fun v => T v.ty)
      (do
        Reading.tell e
        let v ← Reading.perform (state.1.finish r creator)
        match r.hybrid with
        | some h => Reading.lift (h.install v state.2)
        | none => return v)
      (do
        Reading.tell e'
        let v ← Reading.perform (state.1.finish r creator)
        match r.hybrid with
        | some h => Reading.lift (h.install v state.2)
        | none => return v) := by
  refine Accords.bind (Q := fun _ => L.On .behind i) (.tell hheard) fun _ => ?_
  refine (Goes.perform (Assembly.finish_ends (r := r) (fun _ => anywhere_plain) hmakes hmade)).bind fun v hv => ?_
  cases r.hybrid with
  | none => exact .pure hv
  | some h =>
    refine Goes.lift ((Hybrid.install_ends (fun _ => anywhere_plain) h v state.2).mono (fun w hw => ?_) fun _ he => he)
    rw [hw]
    exact hv

omit hg in
theorem record {r : Record} {T : Ty → Prop}
    (hmakes : ∀ {creator}, r.creator = some creator → creator.Makes T L.Anywhere)
    (hmembers : ∀ {creator}, r.creator = some creator → L.Members c g g' r creator (Assembly.Sound T r creator))
    (hfinish : ∀ {creator a s y}, a.InOrder r creator → L.On .behind i s y →
      L.On .behind i (hear (.finish r creator a) s) (y.step (hear (.finish r creator a))))
    {capture : Place → Reading σ Node} {capture' : Place → Reading τ Node} {part : Ty → Place → Reading σ Value}
    {part' : Ty → Place → Reading τ Value} {d : Node → Prop} {p : Ty → Value → Prop}
    (hb : L.Bounds i (n + 1) (m + 1)) (hplaced : L.Placed i place place')
    (hcapture : L.Parts false i d capture capture') (hpart : ∀ t, L.Parts true i (p t) (part t) (part' t)) :
    L.Whole false i (fun v => T v.ty) (Decode.record { c with config := g } r n capture part place)
      (Decode.record { c with config := g' } r m capture' part' place') := by
  unfold Decode.record
  cases hcreator : r.creator with
  | none => exact .throw (anywhere_plain ⟨by trivial, fun _ => rfl⟩)
  | some creator =>
    have hmakes := hmakes hcreator
    refine (Goes.perform (Assembly.opening_ends (r := r) (fun _ => anywhere_plain) hmakes)).bind
      fun assembly hassembly => ?_
    refine (object (I := fun state => state.1.Sound T r creator) hb hassembly fun hstate hon hcloses =>
      recordMember (hmembers hcreator) hcapture hpart hplaced _ hstate hon hcloses).bind fun state hstate => ?_
    exact finished hmakes (fun _ _ => hfinish hstate.inOrder) hstate.made

/-! ## Values -/

/-- What is not null is read by its form, if it has one. -/
theorem byStrategy (hb : L.Bounds i (n + 1) (m + 1)) (hplaced : L.Placed i place place') (t : Ty) {r : Reading σ Value}
    {r' : Reading τ Value} (h : L.Whole false i (fun v => Typed t v.ty) r r') :
    L.Whole false i (fun v => Typed t v.ty) (Decode.byStrategy { c with config := g } n place t r)
      (Decode.byStrategy { c with config := g' } m place' t r') := by
  have hstrategy : ∀ config, { c with config }.strategy t = c.strategy t := fun _ => rfl
  unfold Decode.byStrategy
  rw [hstrategy g, hstrategy g']
  cases hs : c.strategy t with
  | dynamic kind =>
    rw [Context.strategy_document hs]
    exact (dynamic hb hplaced kind).mono fun v hv => hv ▸ hg.typed _
  | codec codec => exact wire hg (Context.strategy_registered hs) hb hplaced
  | refuse e => exact .throw (anywhere_plain (Context.strategy_refuse hs))
  | byStructure =>
    refine peek fun kind => ?_
    split
    · exact ((nullOf t).mono fun v hv => hv ▸ hg.typed t).any
    · exact h.any

theorem level {part : Ty → Place → Reading σ Value} {part' : Ty → Place → Reading τ Value} {p : Ty → Value → Prop}
    (hb : L.Bounds i (n + 1) (m + 1)) (hplaced : L.Placed i place place')
    (hpart : ∀ t, L.Parts true i (p t) (part t) (part' t)) (t : Ty) :
    L.Whole false i (fun v => Typed t v.ty) (Decode.level { c with config := g } n part place t)
      (Decode.level { c with config := g' } m part' place' t) := by
  have hE : ∀ e : BindError, e.IsPlain → L.Anywhere e := fun _ => anywhere_plain
  have hnode : L.Parts false i (fun _ => True) (Decode.node n) (Decode.node m) :=
    fun _ _ _ hj _ _ hplaced => node n (L.bounds_part hj hb) hplaced
  induction t with
  | option payload ih =>
    rw [Decode.level.eq_def, Decode.level.eq_def]
    refine .here fun s₀ y₀ hon => byStrategy hg hb hplaced _ ?_
    refine (Goes.asked (fun s y => L.hear_payload payload hon) ih).bind fun v _ => ?_
    exact hg.lift_made (Value.wrapSome_ends hE payload v)
  | scalar s =>
    rw [Decode.level.eq_def, Decode.level.eq_def]
    refine .here fun s₀ y₀ hon => byStrategy hg hb hplaced _ ?_
    exact (scalar s).mono fun v hv => hv ▸ hg.typed _
  | enum name variants =>
    rw [Decode.level.eq_def, Decode.level.eq_def]
    refine .here fun s₀ y₀ hon => byStrategy hg hb hplaced _ ?_
    exact (variant name variants).mono fun v hv => hv ▸ hg.typed _
  | seq kind item =>
    rw [Decode.level.eq_def, Decode.level.eq_def]
    refine .here fun s₀ y₀ hon => byStrategy hg hb hplaced _ ?_
    refine (array hb hplaced ((hpart item).asked hon _ _)).bind fun vs _ => ?_
    exact hg.lift_made (Value.buildSeq_ends hE kind item vs)
  | set keeping item =>
    rw [Decode.level.eq_def, Decode.level.eq_def]
    refine .here fun s₀ y₀ hon => byStrategy hg hb hplaced _ ?_
    refine (array hb hplaced ((hpart item).asked hon _ _)).bind fun vs _ => ?_
    exact hg.lift_made (Value.buildSet_ends hE _ keeping item vs)
  | map keeping val =>
    rw [Decode.level.eq_def, Decode.level.eq_def]
    refine .here fun s₀ y₀ hon => byStrategy hg hb hplaced _ ?_
    refine (entries hb hplaced ((hpart val).asked hon _ _)).bind fun es _ => ?_
    exact hg.lift_made (Value.buildMap_ends hE keeping val es)
  | dynamic kind =>
    rw [Decode.level.eq_def, Decode.level.eq_def]
    refine .here fun s₀ y₀ hon => byStrategy hg hb hplaced _ ?_
    exact (dynamic hb hplaced kind).mono fun v hv => hv ▸ hg.typed _
  | record name =>
    rw [Decode.level.eq_def, Decode.level.eq_def]
    refine .here fun s₀ y₀ hon => byStrategy hg hb hplaced _ ?_
    exact record hg.makes (fun hcreator => hg.members (hg.makes hcreator)) hg.finish hb hplaced (hnode.asked hon _ _)
      fun u => (hpart u).asked hon _ _
  | foreign name =>
    rw [Decode.level.eq_def, Decode.level.eq_def]
    refine .here fun s₀ y₀ hon => byStrategy hg hb hplaced _ ?_
    exact .throw (anywhere_plain ⟨by trivial, fun _ => rfl⟩)

/-- A value of a type is read from both sources. -/
theorem value (n : Nat) : ∀ {m i place place'}, L.Bounds i n m → L.Placed i place place' → ∀ t : Ty,
    L.Whole true i (fun v => Typed t v.ty) (Decode.value { c with config := g } n t place)
      (Decode.value { c with config := g' } m t place') := by
  induction n with
  | zero =>
    intro m i place place' hb hplaced t
    obtain rfl := (L.bounds_zero hb).1 rfl
    exact (spent hb).mono_fails fun _ _ _ _ => L.fails_spent hb
  | succ n ih =>
    intro m i place place' hb hplaced t
    obtain ⟨m, rfl⟩ := Nat.exists_eq_succ_of_ne_zero fun hm => absurd ((L.bounds_zero hb).2 hm) (Nat.succ_ne_zero n)
    exact (level hg hb hplaced (fun u _ _ _ hj _ _ hplaced => ih (L.bounds_part hj hb) hplaced u) t).atPlace hplaced

/-- A value of a type is read from the roots of both sources. -/
theorem rootWithin {F : BindError → σ → BindError → τ → Prop} (hb : L.Bounds i n m)
    (hplaced : L.Placed i (Place.root g.tracking) (Place.root g'.tracking)) (t : Ty)
    (hF : ∀ placed e s e' t, L.Fails placed i e s e' t → F e s e' t) :
    Accords L.Gone (L.On .before i) F (fun v s y => v.ty = t ∧ L.On .behind i s y)
      (Decode.rootWithin { c with config := g } n t) (Decode.rootWithin { c with config := g' } m t) := by
  have hvalue := (value hg n hb hplaced t).mono_fails fun e s e' t' => hF true e s e' t'
  refine Accords.bind hvalue fun v => .of_and fun _ => ?_
  have hcheck : L.Goes .behind .behind false i (fun w : Value => w.ty = t) _ _ :=
    Goes.lift (Value.ofType_ends (fun _ => anywhere_plain) t v)
  exact hcheck.mono_fails fun e s e' t' => hF false e s e' t'

end Values
end Abreast

/-- What a reading does that looks at its source first. -/
theorem Reading.run_get (k : σ → Reading σ α) (s : σ) : (do k (← get)).run s = (k s).run s := by
  rfl

theorem Decode.root_run [TokenSource σ] [Listener σ] (c : Context) (t : Ty) (s : σ) :
    (Decode.root c t).run s = (Decode.rootWithin c (TokenStream.length s + 1) t).run s :=
  Reading.run_get _ s

/-! ## One source -/

/-- One source that hears nothing, from which values are read twice, errors being placed in two ways. The bounds are
the same both times. -/
structure Along (σ : Type) [TokenSource σ] where
  /-- Where a value can stand. -/
  Pos : Type
  Part : Pos → String → Step → Pos → Prop
  Placed : Pos → Place → Place → Prop
  Bounds : Pos → Nat → Prop
  /-- The source stands there. -/
  At : Phase → Pos → σ → Prop
  Fails : (placed : Bool) → Pos → BindError → BindError → Prop
  placed_part : ∀ {i owner step j place place'}, Part i owner step j → Placed i place place' →
    Placed j (place.below owner step) (place'.below owner step)
  bounds_part : ∀ {i owner step j n}, Part i owner step j → Bounds i (n + 1) → Bounds j n
  scalar_step : ∀ {i s u}, At .before i s → front s = .token u → u.kind.isScalar → At .behind i (advance s)
  enter : ∀ {bracket i n s}, Bounds i (n + 1) → At .before i s → front s = .token bracket.opening →
    At (.inside bracket 0 n n) i (advance s)
  item : ∀ {parts n i s} owner, At (.inside .array parts (n + 1) (n + 1)) i s → (front s).kind.closes = false →
    ∃ j, Part i owner (.index parts) j ∧ At .before j s ∧
      ∀ s', At .behind j s' → At (.inside .array (parts + 1) n n) i s'
  member : ∀ {parts n i s key} owner, At (.inside .object parts (n + 1) (n + 1)) i s → front s = .token (.name key) →
    ∃ j, Part i owner (.key key) j ∧ At .before j (advance s) ∧
      ∀ s', At .behind j s' → At (.inside .object (parts + 1) n n) i s'
  leave : ∀ {bracket parts n i s}, At (.inside bracket parts n n) i s → front s = .token bracket.closing →
    At .behind i (advance s)
  skip_ok : ∀ {i owner step j s s'}, Part i owner step j → At .before j s → Reading.skip s = .ok () s' →
    At .behind j s'
  skip_fails : ∀ {i owner step j s e s'}, Part i owner step j → At .before j s → Reading.skip s = .error e s' →
    Fails false i e e
  fails_before : ∀ {i s} expected, At .before i s →
    Fails false i (.tokenMismatch expected (front s).kind) (.tokenMismatch expected (front s).kind)
  fails_name : ∀ {parts n i s} expected, At (.inside .object parts (n + 1) (n + 1)) i s →
    (front s).kind.closes = false → (∀ key, front s ≠ .token (.name key)) →
    Fails false i (.tokenMismatch expected (front s).kind) (.tokenMismatch expected (front s).kind)
  fails_leave : ∀ {bracket parts n i s} expected, At (.inside bracket parts n n) i s →
    n = 0 ∨ (front s).kind.closes → front s ≠ .token bracket.closing →
    Fails false i (.tokenMismatch expected (front s).kind) (.tokenMismatch expected (front s).kind)
  fails_variant : ∀ {i s name} enum, At .before i s → front s = .token (.string name) →
    Fails false i (.enumMismatch enum name) (.enumMismatch enum name)
  fails_plain : ∀ {i} {e : BindError}, e.IsPlain → Fails false i e e
  fails_at : ∀ {i place place' e e'}, Placed i place place' → Fails false i e e' →
    Fails true i (e.at? place) (e'.at? place')
  fails_spent : ∀ {i e e'}, Bounds i 0 → Fails false i e e' → Fails true i e e'
  fails_part : ∀ {i owner step j e e'}, Part i owner step j → Fails true j e e' → Fails false i e e'

namespace Along

variable [TokenSource σ]

/-- The source beside itself. -/
def abreast (A : Along σ) : Abreast σ σ where
  Pos := A.Pos
  Part := A.Part
  Placed := A.Placed
  Bounds i n m := n = m ∧ A.Bounds i n
  On phase i s y := y = .reading s ∧ phase.Level ∧ A.At phase i s
  Fails placed i e s e' t := s = t ∧ A.Fails placed i e e'
  Gone _ _ _ := False
  placed_part := A.placed_part
  bounds_zero := by
    rintro i n m ⟨rfl, -⟩
    rfl
  bounds_part := by
    rintro i owner step j n m hpart ⟨hnm, hb⟩
    exact ⟨Nat.succ.inj hnm, A.bounds_part hpart hb⟩
  inside_zero := by
    rintro bracket parts n m i s y ⟨-, rfl, -⟩
    rfl
  front_before := by
    rintro i s t ⟨h, -⟩
    cases h
    rfl
  front_inside := by
    rintro bracket parts n m i s t ⟨h, -⟩
    cases h
    rfl
  scalar_step := by
    rintro i s y u ⟨rfl, -, h⟩ hf hu
    exact ⟨rfl, trivial, A.scalar_step h hf hu⟩
  enter := by
    rintro bracket i n m s y ⟨hnm, hb⟩ ⟨rfl, -, h⟩ hf
    obtain rfl := Nat.succ.inj hnm
    exact ⟨rfl, rfl, A.enter hb h hf⟩
  item := by
    rintro parts n m i s y owner ⟨rfl, hnm, h⟩ hcloses
    obtain rfl := Nat.succ.inj hnm
    obtain ⟨j, hpart, hbefore, hturn⟩ := A.item owner h hcloses
    refine ⟨j, hpart, ⟨rfl, trivial, hbefore⟩, ?_⟩
    rintro s' y' ⟨rfl, -, h⟩
    exact ⟨rfl, rfl, hturn s' h⟩
  member := by
    rintro parts n m i s y key owner ⟨rfl, hnm, h⟩ hf
    obtain rfl := Nat.succ.inj hnm
    obtain ⟨j, hpart, hbefore, hturn⟩ := A.member owner h hf
    refine ⟨j, hpart, ⟨rfl, trivial, hbefore⟩, ?_⟩
    rintro s' y' ⟨rfl, -, h⟩
    exact ⟨rfl, rfl, hturn s' h⟩
  leave := by
    rintro bracket parts n m i s y ⟨rfl, hnm, h⟩ hf
    obtain rfl : n = m := hnm
    exact ⟨rfl, trivial, A.leave h hf⟩
  skip_part := by
    intro i owner step j hpart
    constructor
    · rintro s t ⟨h, -, hbefore⟩
      cases h
      cases hr : (Reading.skip : Reading σ Unit) s with
      | ok _ s' => exact .both ⟨rfl, trivial, A.skip_ok hpart hbefore hr⟩
      | error e s' => exact .failed ⟨rfl, A.skip_fails hpart hbefore hr⟩
    · rintro s e t ⟨h, -⟩
      cases h
  hear_deed := by
    rintro phase i s y d ⟨rfl, h⟩
    exact ⟨rfl, h⟩
  hear_part := by
    rintro i owner step j s₀ y₀ s y whole part - - ⟨rfl, h⟩
    exact ⟨rfl, h⟩
  hear_payload := by
    rintro i s₀ y₀ s y payload - ⟨rfl, h⟩
    exact ⟨rfl, h⟩
  hear_exhausted := by
    rintro i s y - ⟨rfl, h⟩
    exact ⟨rfl, h⟩
  hear_spent := by
    rintro bracket parts i s y ⟨rfl, h⟩
    exact ⟨rfl, h⟩
  fails_before := by
    rintro i s t expected ⟨h, -, hbefore⟩
    cases h
    exact ⟨rfl, A.fails_before expected hbefore⟩
  fails_name := by
    rintro parts n m i s t expected ⟨h, hnm, hinside⟩ hcloses hname
    obtain rfl := Nat.succ.inj hnm
    cases h
    exact ⟨rfl, A.fails_name expected hinside hcloses hname⟩
  fails_leave := by
    rintro bracket parts n m i s t expected ⟨h, hnm, hinside⟩ hend hname
    obtain rfl : n = m := hnm
    cases h
    exact ⟨rfl, A.fails_leave expected hinside hend hname⟩
  fails_variant := by
    rintro i s t name enum ⟨h, -, hbefore⟩ hf
    cases h
    exact ⟨rfl, A.fails_variant enum hbefore hf⟩
  fails_plain := by
    rintro phase i s t e he ⟨h, -⟩
    cases h
    exact ⟨rfl, A.fails_plain he⟩
  fails_at := by
    rintro i place place' e s e' t hplaced ⟨hst, h⟩
    exact ⟨hst, A.fails_at hplaced h⟩
  fails_spent := by
    rintro i e s e' t ⟨-, hb⟩ ⟨hst, h⟩
    exact ⟨hst, A.fails_spent hb h⟩
  fails_part := by
    rintro i owner step j e s e' t hpart ⟨hst, h⟩
    exact ⟨hst, A.fails_part hpart h⟩
  gone := by
    rintro phase i s e t ⟨h, -⟩
    cases h
  gone_at := fun _ h => h
  stopped_at := by
    rintro phase i place place' s e t - ⟨h, -⟩
    cases h

theorem on_step_id (A : Along σ) {phase : Phase} {i : A.Pos} {s : σ} {y : Side σ} (h : A.abreast.On phase i s y) :
    A.abreast.On phase i s (y.step id) := by
  cases y <;> exact h

/-- A member without a place, in one source. -/
theorem unknown (A : Along σ) {r : Record} {creator : Creator} {a : Assembly} {key : String} {i j : A.Pos}
    {place place' : Place} {s : σ} {y : Side σ} {c c' : Context} (h : A.abreast.Arriving r key i j place place' s y)
    (hsame : c'.config.unknownKeys = c.config.unknownKeys)
    (hrefused : A.At .before j (advance s) → A.Fails false i
      ((BindError.unknownKey r.name key).at? (place.member r.name key))
      ((BindError.unknownKey r.name key).at? (place'.member r.name key))) :
    Accords A.abreast.Gone (fun s' y' => s' = advance s ∧ y' = y.step advance) (A.abreast.Fails false i)
      (fun _ => A.abreast.On .behind j)
      (do
        Reading.tell (.arrival ⟨r, creator, a, key, place, ← get⟩)
        Decode.unknown c r.name key (place.member r.name key))
      (do
        Reading.tell (.arrival ⟨r, creator, a, key, place', ← get⟩)
        Decode.unknown c' r.name key (place'.member r.name key)) := by
  refine h.unknown hsame (A.on_step_id h.before) ?_
  rintro s t ⟨hst, -, hbefore⟩
  cases hst
  exact ⟨rfl, hrefused h.before.2.2⟩

/-- A context for one source: what its codecs and its constructors make, and what they fail with. -/
theorem grounds (A : Along σ) {c : Context} {g g' : Config} {Typed : Ty → Ty → Prop}
    (hsame : g'.unknownKeys = g.unknownKeys) (htyped : ∀ t, Typed t t)
    (hread : ∀ {t codec}, c.registry.codec? t = some codec → ∀ n, Ends (fun v => Typed t v.ty)
      (fun e => ∀ {i m place s s'}, A.At .before i s → Decode.node m place s = .ok n s' → A.At .behind i s' →
        A.Fails false i e e) (codec.decode n))
    (hnull : ∀ {t codec}, c.registry.codec? t = some codec → Ends (fun v => Typed t v.ty)
      (fun e => ∀ {i s}, A.At .before i s → (front s).kind = .null → A.Fails false i e e) codec.decodeNull)
    (hmakes : ∀ {name creator}, (c.schema.record name).creator = some creator →
      creator.Makes (Typed (.record name)) fun e => ∀ i, A.Fails false i e e)
    (hunknown : ∀ {i owner key j s place place'}, A.Part i owner (.key key) j → A.At .before j s →
      A.Placed i place place' → A.Fails false i ((BindError.unknownKey owner key).at? (place.member owner key))
        ((BindError.unknownKey owner key).at? (place'.member owner key))) :
    A.abreast.Grounds c g g' Typed where
  typed := htyped
  codec_typed hcodec n v hv := by
    have h := hread hcodec n
    rwa [hv] at h
  codec_fails := by
    rintro t codec hcodec i m place s₀ t₀ n s t e ⟨h₀, -, hbefore⟩ hnode ⟨h, -, hbehind⟩ he
    cases h₀
    cases h
    exact ⟨rfl, (hread hcodec n).failure he hbefore hnode hbehind⟩
  null_typed hcodec v hv := by
    have h := hnull hcodec
    rwa [hv] at h
  null_fails := by
    rintro t codec hcodec i s t e ⟨h, -, hbefore⟩ hkind he
    cases h
    exact ⟨rfl, (hnull hcodec).failure he hbefore hkind⟩
  makes hcreator := by
    have hfails : ∀ e, (∀ i, A.Fails false i e e) → A.abreast.Anywhere e := by
      rintro e he phase i s t ⟨h, -⟩
      cases h
      exact ⟨rfl, he i⟩
    have h := hmakes hcreator
    exact ⟨fun hf slots => (h.withArgs hf slots).mono (fun _ hv => hv) hfails, h.noArgs⟩
  arrive _ h _ := A.on_step_id h.before
  unknown _ h _ _ := A.unknown h (by exact hsame) fun hbefore => hunknown h.part hbefore h.placed
  finish _ hon := A.on_step_id hon

end Along
end Bindery
