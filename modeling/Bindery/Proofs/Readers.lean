import Bindery.Proofs.Walk
/-!
# Readers cannot be told apart

`Call` lists what can be asked of a source and `answers` is what a sequence of calls is answered,
refusals included. Two sources in a simulation answer every sequence alike (`answers_eq`). Tapes
that differ in their separators only are in one, and so are a tape of a node's tokens and a cursor
before the node, as long as what the cursor has still to walk is what is left of the tape
(`Faces`). `readers_indistinguishable` puts the two together.
-/

namespace Bindery

open TokenStream (front advance)

variable {σ τ : Type}

/-- What can be asked of a source. -/
inductive Call
  | peek | hasNext
  | startObject | endObject | startArray | endArray | null
  | name | string | number | bool
  | int (t : IntType) | single | double
  | skip

/-- What a call answers when it is not refused. -/
inductive Answer
  | done
  | kind (k : TokenKind)
  | flag (b : Bool)
  | text (s : String)
  | number (n : Number)
  | int (i : Int)
  | single (x : Binary32)
  | double (x : Binary64)

/-- The reading that a call makes. -/
def Call.reading [TokenSource σ] : Call → Reading σ Answer
  | .peek => .kind <$> Reading.peek
  | .hasNext => .flag <$> Reading.hasNext
  | .startObject => (fun _ => .done) <$> Reading.startObject
  | .endObject => (fun _ => .done) <$> Reading.endObject
  | .startArray => (fun _ => .done) <$> Reading.startArray
  | .endArray => (fun _ => .done) <$> Reading.endArray
  | .null => (fun _ => .done) <$> Reading.null
  | .name => .text <$> Reading.name
  | .string => .text <$> Reading.string
  | .number => .number <$> Reading.number
  | .bool => .flag <$> Reading.bool
  | .int t => .int <$> Reading.int t
  | .single => .single <$> Reading.single
  | .double => .double <$> Reading.double
  | .skip => (fun _ => .done) <$> Reading.skip

/-- The answers to a sequence of calls, each made of the source that the one before it left. -/
def answers [TokenSource σ] : List Call → σ → List (Except BindError Answer)
  | [], _ => []
  | call :: calls, s => (call.reading.run s).1 :: answers calls (call.reading.run s).2

/-! ## Agreement -/

/-- From related sources the readings end alike and leave related sources. -/
def Agree {α : Type} (R : σ → τ → Prop) (r : Reading σ α) (r' : Reading τ α) : Prop :=
  ∀ s t, R s t → (r.run s).1 = (r'.run t).1 ∧ R (r.run s).2 (r'.run t).2

namespace Agree

variable {α β : Type} {R : σ → τ → Prop}

theorem pure (a : α) : Agree R (pure a) (pure a) := fun _ _ h => ⟨rfl, h⟩

theorem throw (e : BindError) : Agree R (throw e : Reading σ α) (throw e) := fun _ _ h => ⟨rfl, h⟩

theorem bind {r : Reading σ α} {r' : Reading τ α} {k : α → Reading σ β} {k' : α → Reading τ β}
    (h : Agree R r r') (hk : ∀ a, Agree R (k a) (k' a)) : Agree R (r >>= k) (r' >>= k') := by
  intro s t hst
  have hr := h s t hst
  simp only [Reading.run, Bind.bind, EStateM.bind] at hr ⊢
  cases hs : r s with
  | ok a s' =>
    cases ht : r' t with
    | ok b t' =>
      rw [hs, ht] at hr
      obtain ⟨hab, hst'⟩ := hr
      cases hab
      exact hk a s' t' hst'
    | error e t' => rw [hs, ht] at hr; cases hr.1
  -- Both are refused alike, and neither goes on.
  | error e s' =>
    cases ht : r' t with
    | ok b t' => rw [hs, ht] at hr; cases hr.1
    | error e' t' =>
      rw [hs, ht] at hr
      obtain ⟨hee, hst'⟩ := hr
      cases hee
      exact ⟨rfl, hst'⟩

theorem map {r : Reading σ α} {r' : Reading τ α} (f : α → β) (h : Agree R r r') :
    Agree R (f <$> r) (f <$> r') := by
  rw [map_eq_pure_bind, map_eq_pure_bind]
  exact h.bind fun a => .pure (f a)

end Agree

/-- Related sources show the same front, and moving past it keeps them related. -/
structure Simulation [TokenStream σ] [TokenStream τ] (R : σ → τ → Prop) : Prop where
  front : ∀ {s t}, R s t → front s = front t
  advance : ∀ {s t}, R s t → R (advance s) (advance t)

namespace Simulation

variable {α : Type} {R : σ → τ → Prop}

section Streams
variable [TokenStream σ] [TokenStream τ] (h : Simulation R)
include h

theorem peek : Agree R Reading.peek Reading.peek := by
  intro s t hst
  exact ⟨by simp only [Reading.run, Reading.peek, h.front hst], hst⟩

theorem take (expected : String) (pick : Token → Option α) :
    Agree R (Reading.take expected pick) (Reading.take expected pick) := by
  intro s t hst
  simp only [Reading.run, Reading.take, h.front hst]
  cases TokenStream.front t with
  | token u =>
    cases hp : pick u with
    | some a => simp only [hp]; exact ⟨trivial, h.advance hst⟩
    | none => simp only [hp]; exact ⟨trivial, hst⟩
  | unknown | done => exact ⟨rfl, hst⟩

theorem narrowed (type : String) (fit : Number → Option α) :
    Agree R (Reading.narrowed type fit) (Reading.narrowed type fit) := by
  refine (h.take _ _).bind fun n => ?_
  cases fit n with
  | some a => exact .pure a
  | none => exact .throw _

theorem noValue : Agree R (Reading.noValue : Reading σ α) Reading.noValue :=
  h.peek.bind fun _ => .throw _

theorem skipByDepth (budget depth : Nat) :
    Agree R (Reading.skipByDepth budget depth) (Reading.skipByDepth budget depth) := by
  induction budget generalizing depth with
  | zero => exact h.noValue
  | succ budget ih =>
    intro s t hst
    simp only [Reading.run, Reading.skipByDepth_succ, h.front hst]
    cases Reading.depthAfter (TokenStream.front t).kind depth with
    | none => exact h.noValue s t hst
    | some d =>
      cases d with
      | zero => exact ⟨rfl, h.advance hst⟩
      | succ d => exact ih (d + 1) _ _ (h.advance hst)

end Streams

/-- Sources in a simulation whose skips agree answer every call alike. -/
theorem reading [TokenSource σ] [TokenSource τ] (h : Simulation R)
    (hskip : Agree R (Reading.skip : Reading σ Unit) Reading.skip) (call : Call) :
    Agree R (call.reading : Reading σ Answer) call.reading := by
  cases call with
  | peek => exact h.peek.map _
  | hasNext => exact (h.peek.bind fun _ => .pure _).map _
  | startObject | endObject | startArray | endArray | null | name | string | number | bool =>
    exact (h.take _ _).map _
  | int t => exact (h.narrowed _ _).map _
  | single | double => exact (h.narrowed _ _).map _
  | skip => exact hskip.map _

theorem answers_eq [TokenSource σ] [TokenSource τ] (h : Simulation R)
    (hskip : Agree R (Reading.skip : Reading σ Unit) Reading.skip) (calls : List Call) {s : σ} {t : τ}
    (hst : R s t) : answers calls s = answers calls t := by
  induction calls generalizing s t with
  | nil => rfl
  | cons call calls ih =>
    obtain ⟨he, hst'⟩ := h.reading hskip call s t hst
    simp only [answers, he, ih hst']

end Simulation

/-! ## Two tapes -/

namespace TapeReader

/-- The readers have the same entries left, separators aside. -/
def SamePlain (r r' : TapeReader) : Prop := r.plain = r'.plain

theorem samePlain_simulation : Simulation SamePlain where
  front h := by rw [front_eq, front_eq, h]
  advance h := by rw [SamePlain, plain_advance, plain_advance, h]

/-- Skipping token by token needs no more budget than there are entries that are no separators. -/
theorem skip_eq (r : TapeReader) {budget : Nat} (h : r.plain.length < budget) :
    Reading.skip r = Reading.skipByDepth budget 0 r :=
  Reading.skipByDepth_budget (fun r => r.plain.length) advance_shorter
    (Nat.lt_succ_of_le r.plain_length_le) h

theorem samePlain_skip : Agree SamePlain (Reading.skip : Reading TapeReader Unit) Reading.skip := by
  intro r r' h
  have hr : r.plain.length < r.plain.length + 1 := Nat.lt_succ_self _
  have hr' : r'.plain.length < r.plain.length + 1 := by rw [h]; exact Nat.lt_succ_self _
  simp only [Reading.run]
  rw [skip_eq r hr, skip_eq r' hr']
  exact samePlain_simulation.skipByDepth _ _ r r' h

end TapeReader

/-! ## A tape and a cursor -/

namespace NodeCursor

/-- The tokens an open container still holds, its end included. -/
def frameTokens : CursorFrame → List Token
  | .object rest => Node.entryTokens rest ++ [.endObject]
  | .array rest => Node.itemTokens rest ++ [.endArray]

/-- The tokens still to come before an open container goes on. -/
def placeTokens : CursorPlace → List Token
  | .value n => n.tokens
  | .member k n => .name k :: n.tokens
  | .endObject | .endArray | .done => []

/-- The tokens still to come. -/
def tokens (c : NodeCursor) : List Token := placeTokens c.place ++ c.stack.flatMap frameTokens

/-- A cursor at the end of a container has that container innermost, and one at the end of the
document has none open. -/
def WellPlaced (c : NodeCursor) : Prop :=
  match c.place with
  | .value _ | .member _ _ => True
  | .endObject => ∃ stack, c.stack = .object [] :: stack
  | .endArray => ∃ stack, c.stack = .array [] :: stack
  | .done => c.stack = []

theorem wellPlaced_next (stack : List CursorFrame) : (next stack).WellPlaced := by
  match stack with
  | [] => rfl
  | .object [] :: stack => exact ⟨stack, rfl⟩
  | .object (_ :: _) :: _ => trivial
  | .array [] :: stack => exact ⟨stack, rfl⟩
  | .array (_ :: _) :: _ => trivial

theorem tokens_next (stack : List CursorFrame) : (next stack).tokens = stack.flatMap frameTokens := by
  match stack with
  | [] => rfl
  | .object [] :: stack => rfl
  | .object ((k, n) :: rest) :: stack =>
    simp [next, tokens, placeTokens, frameTokens, Node.entryTokens]
  | .array [] :: stack => rfl
  | .array (n :: rest) :: stack => simp [next, tokens, placeTokens, frameTokens, Node.itemTokens]

theorem front_eq {c : NodeCursor} (h : c.WellPlaced) : c.front = Tape.front (Tape.ofTokens c.tokens) := by
  obtain ⟨place, stack⟩ := c
  cases place with
  | value n => cases n <;> rfl
  | member k n => rfl
  | endObject | endArray => obtain ⟨stack, rfl⟩ := h; rfl
  | done => cases h; rfl

theorem wellPlaced_advance {c : NodeCursor} (h : c.WellPlaced) : c.advance.WellPlaced := by
  obtain ⟨place, stack⟩ := c
  cases place with
  | value n => cases n <;> exact wellPlaced_next _
  | member k n => trivial
  | endObject | endArray => exact wellPlaced_next _
  | done => exact h

theorem tokens_advance {c : NodeCursor} (h : c.WellPlaced) : c.advance.tokens = c.tokens.tail := by
  obtain ⟨place, stack⟩ := c
  cases place with
  | value n =>
    cases n <;> exact (tokens_next _).trans (by simp [tokens, placeTokens, Node.tokens, frameTokens])
  | member k n => rfl
  | endObject | endArray => obtain ⟨stack, rfl⟩ := h; exact tokens_next stack
  | done => cases h; rfl

theorem length_eq (c : NodeCursor) : c.length = c.tokens.length := by
  obtain ⟨place, stack⟩ := c
  have hstack : ∀ here, stack.foldr (fun frame n => frameLength frame + n) here
      = here + (stack.flatMap frameTokens).length := by
    intro here
    induction stack with
    | nil => rfl
    | cons f stack ih =>
      have hf : frameLength f = (frameTokens f).length := by
        cases f <;> simp [frameLength, frameTokens]
      simp only [List.foldr_cons, List.flatMap_cons, List.length_append, ih, hf]
      omega
  rw [length, hstack, tokens, List.length_append]
  cases place <;> rfl

/-- What is left of the tape is what the cursor has still to walk. -/
def Faces (r : TapeReader) (c : NodeCursor) : Prop :=
  c.WellPlaced ∧ r.plain = Tape.ofTokens c.tokens

theorem faces_simulation : Simulation Faces where
  front h := by rw [TapeReader.front_eq, h.2]; exact (front_eq h.1).symm
  advance h := by
    refine ⟨wellPlaced_advance h.1, ?_⟩
    rw [TapeReader.plain_advance, h.2]
    show _ = Tape.ofTokens (NodeCursor.advance _).tokens
    rw [tokens_advance h.1, Tape.ofTokens, Tape.ofTokens, List.map_tail]

theorem faces_skip : Agree Faces (Reading.skip : Reading TapeReader Unit) (Reading.skip : Reading NodeCursor Unit) := by
  intro r c h
  have hc : (Reading.skip : Reading NodeCursor Unit) c = Reading.skipByDepth (c.length + 1) 0 c :=
    congrFun skip_eq_skipTokens c
  have hlt : r.plain.length < c.length + 1 := by
    rw [h.2, length_eq c, Tape.ofTokens, List.length_map]
    exact Nat.lt_succ_self _
  simp only [Reading.run]
  rw [hc, TapeReader.skip_eq r hlt]
  exact faces_simulation.skipByDepth _ _ r c h

end NodeCursor

/-- Whatever is asked, and whatever is refused: the answers from a tape depend only on its entries
that are no separators, and a tape of the tokens of a node answers as a cursor before the node does.
The cursor's skip leaves it exactly where skipping token by token would. -/
theorem readers_indistinguishable :
    (∀ tape tape' : List TapeEntry, Tape.plain tape = Tape.plain tape' → ∀ calls,
      answers calls (TapeReader.ofTape tape) = answers calls (TapeReader.ofTape tape')) ∧
    (∀ (n : Node) (tape : List TapeEntry), Tape.plain tape = Tape.ofNode n → ∀ calls,
      answers calls (TapeReader.ofTape tape) = answers calls (NodeCursor.ofNode n)) ∧
    (NodeCursor.skip : Reading NodeCursor Unit) = Reading.skipTokens := by
  refine ⟨fun tape tape' h calls => ?_, fun n tape h calls => ?_, NodeCursor.skip_eq_skipTokens⟩
  · exact TapeReader.samePlain_simulation.answers_eq TapeReader.samePlain_skip calls h
  · refine NodeCursor.faces_simulation.answers_eq NodeCursor.faces_skip calls ⟨trivial, ?_⟩
    rw [NodeCursor.ofNode, NodeCursor.tokens, NodeCursor.placeTokens, List.flatMap_nil, List.append_nil]
    exact h

/-- Separators at odd places, a skipped array, and calls that are refused. -/
theorem readers_indistinguishable_nested :
    Tape.plain [.mark .arrayComma, .mark (.token .startObject), .mark (.token (.name "a")),
        .mark .objectComma, .mark (.token .startArray), .mark (.token .null), .mark .arrayComma,
        .mark (.token .endArray), .mark .objectComma, .mark (.token .endObject)]
      = Tape.ofNode (.object [("a", .array [.null])]) ∧
    answers [.startArray, .startObject, .skip, .name, .skip, .endArray, .endObject, .peek]
      (TapeReader.ofTape [.mark .arrayComma, .mark (.token .startObject), .mark (.token (.name "a")),
        .mark .objectComma, .mark (.token .startArray), .mark (.token .null), .mark .arrayComma,
        .mark (.token .endArray), .mark .objectComma, .mark (.token .endObject)])
      = answers [.startArray, .startObject, .skip, .name, .skip, .endArray, .endObject, .peek]
        (NodeCursor.ofNode (.object [("a", .array [.null])])) :=
  ⟨rfl, readers_indistinguishable.2.1 _ _ rfl _⟩

end Bindery
