import Bindery.Binder
/-!
# Walks

`Walks s ts s'` says that the tokens `ts` come off the source `s` one by one, and that `s'` is what
they leave. A tape walks its tokens wherever separators stand, and a cursor before a node walks the
tokens of the node.

Skipping token by token steps over the tokens of one node exactly, with any budget that covers
them. A cursor's one-step skip does the same from every place (`NodeCursor.skip_eq_skipTokens`).
-/

namespace Bindery

open TokenStream (front advance)

variable {σ : Type}

section Walks
variable [TokenStream σ]

/-- The tokens come off the source in turn and leave the other source. -/
def Walks : σ → List Token → σ → Prop
  | s, [], s' => s = s'
  | s, t :: ts, s' => front s = .token t ∧ Walks (advance s) ts s'

theorem walks_append {s s'' : σ} {ts us : List Token} :
    Walks s (ts ++ us) s'' ↔ ∃ s', Walks s ts s' ∧ Walks s' us s'' := by
  induction ts generalizing s with
  | nil => simp [Walks]
  | cons t ts ih => simp [Walks, ih, and_assoc]

theorem Walks.trans {s s' s'' : σ} {ts us : List Token} (h : Walks s ts s') (h' : Walks s' us s'') :
    Walks s (ts ++ us) s'' :=
  walks_append.2 ⟨s', h, h'⟩

theorem walks_one {s s' : σ} {t : Token} : Walks s [t] s' ↔ front s = .token t ∧ advance s = s' := .rfl

end Walks

/-! ## Readings -/

namespace Reading

variable {α β : Type}

theorem bind_ok {r : Reading σ α} {k : α → Reading σ β} {s s' : σ} {a : α} (h : r s = .ok a s') :
    (r >>= k) s = k a s' := by
  simp only [Bind.bind, EStateM.bind, h]

theorem bind_error {r : Reading σ α} {k : α → Reading σ β} {s s' : σ} {e : BindError}
    (h : r s = .error e s') : (r >>= k) s = .error e s' := by
  simp only [Bind.bind, EStateM.bind, h]

theorem atPlace_ok {r : Reading σ α} {s s' : σ} {a : α} (place : Place) (h : r s = .ok a s') :
    atPlace place r s = .ok a s' := by
  simp only [atPlace, h]

theorem atPlace_error {r : Reading σ α} {s s' : σ} {e : BindError} (place : Place) (h : r s = .error e s') :
    atPlace place r s = .error (e.at? place) s' := by
  simp only [atPlace, h]

section Tokens
variable [TokenStream σ] {expected : String} {pick : Token → Option α} {s : σ}

theorem take_ok {u : Token} {a : α} (hf : front s = .token u) (hu : pick u = some a) :
    take expected pick s = .ok a (advance s) := by
  unfold take
  rw [hf]
  simp only [hu]

theorem take_error (h : ∀ u, front s = .token u → pick u = none) :
    take expected pick s = .error (.tokenMismatch expected (front s).kind) s := by
  unfold take
  cases hf : front s with
  | unknown | done => rfl
  | token u => simp only [h u hf, Front.kind]

end Tokens
end Reading

/-! ## Sources that hear nothing -/

namespace Reading

section Deaf
variable {α : Type}

/-- Nothing is told where nothing is heard. -/
theorem tell_deaf (e : Event σ) : (tell e : Reading σ Unit) = pure () := rfl

theorem asked_deaf (whole : Ty) (start : σ) (part : Ty) (r : Reading σ α) : asked whole start part r = r := rfl

theorem perform_deaf (x : Making α) : (perform x : Reading σ α) = lift x.outcome := by
  have htold : ∀ deeds : List Deed, (deeds.forM fun d => tell (.deed d) : Reading σ Unit) = pure () := by
    intro deeds
    induction deeds with
    | nil => rfl
    | cons d deeds ih => exact ih
  unfold perform
  rw [htold]
  rfl

/-- Looking where the source is, for nothing. -/
theorem get_bind_const (r : Reading σ α) : (get >>= fun _ => r) = r := rfl

variable [TokenStream σ]

theorem forMembers_zero (body : α → Reading σ α) (acc : α) : forMembers body 0 acc = pure acc := rfl

theorem forMembers_succ (body : α → Reading σ α) (budget : Nat) (acc : α) :
    forMembers body (budget + 1) acc =
      hasNext >>= fun more => if more then body acc >>= forMembers body budget else pure acc := rfl

end Deaf

/-! ## Skipping -/

section Skip
variable [TokenStream σ]

@[simp] theorem peek_bind {α : Type} (k : TokenKind → Reading σ α) (s : σ) :
    (peek >>= k) s = k (front s).kind s := rfl

theorem depthAfter_scalar {kind : TokenKind} (h : kind.isScalar) (depth : Nat) :
    depthAfter kind depth = some depth := by
  cases kind <;> cases depth <;> first | rfl | cases h

theorem skipByDepth_step [Listener σ] (budget depth : Nat) :
    (skipByDepth (budget + 1) depth : Reading σ Unit) = peek >>= fun kind =>
      match depthAfter kind depth with
      | some after => drop kind depth >>= fun _ => if after = 0 then pure () else skipByDepth budget after
      | none => noValue := rfl

/-- One step of skipping: it ends after a token that leaves no container open. -/
theorem skipByDepth_succ (budget depth : Nat) (s : σ) :
    skipByDepth (budget + 1) depth s =
      match depthAfter (front s).kind depth with
      | some 0 => .ok () (advance s)
      | some (d + 1) => skipByDepth budget (d + 1) (advance s)
      | none => noValue s := by
  rw [skipByDepth_step, peek_bind]
  cases depthAfter (front s).kind depth with
  | none => rfl
  | some d => cases d <;> rfl

/-- Budgets beyond the number of tokens left make no difference. -/
theorem skipByDepth_budget (left : σ → Nat)
    (hleft : ∀ s t, front s = .token t → left (advance s) < left s) {budget budget' : Nat} :
    ∀ {depth : Nat} {s : σ}, left s < budget → left s < budget' →
      skipByDepth budget depth s = skipByDepth budget' depth s := by
  induction budget generalizing budget' with
  | zero => intro _ _ h; omega
  | succ budget ih =>
    intro depth s h h'
    obtain ⟨budget', rfl⟩ := Nat.exists_eq_add_of_lt (Nat.zero_lt_of_lt h')
    rw [Nat.zero_add, skipByDepth_succ, skipByDepth_succ]
    cases hf : front s with
    | token t =>
      have := hleft s t hf
      cases depthAfter (Front.token t).kind depth with
      | none => rfl
      | some d =>
        cases d with
        | zero => rfl
        | succ d => exact ih (by omega) (by omega)
    | unknown | done => cases depth <;> rfl

theorem skipByDepth_token {budget depth depth' : Nat} {s : σ} {t : Token} (h : front s = .token t)
    (hd : depthAfter t.kind depth = some depth') :
    skipByDepth (budget + 1) depth s =
      (if depth' = 0 then pure () else skipByDepth budget depth') (advance s) := by
  rw [skipByDepth_succ, h, Front.kind, hd]
  cases depth' <;> rfl

mutual

/-- Skipping by depth steps over the tokens of a node: it ends there at depth zero, and goes on
there inside a container. -/
theorem skipByDepth_node (budget depth : Nat) : ∀ (n : Node) {s s' : σ}, Walks s n.tokens s' →
    skipByDepth (n.tokens.length + budget) depth s =
      (if depth = 0 then pure () else skipByDepth budget depth) s'
  | .null, _, _, h | .bool _, _, _, h | .number _, _, _, h | .string _, _, _, h => by
    obtain ⟨hf, rfl⟩ := walks_one.1 h
    rw [← skipByDepth_token hf (depthAfter_scalar rfl depth), Node.tokens, Nat.add_comm]; rfl
  | .array items, s, s', h => by
    obtain ⟨hf, h⟩ := h
    obtain ⟨s₁, hi, hc, rfl⟩ := walks_append.1 h
    -- The brackets take a step each, and the items leave the depth as it was.
    have hlen : (Node.array items).tokens.length + budget
        = (Node.itemTokens items).length + (budget + 1) + 1 := by
      simp [Node.tokens]; omega
    rw [hlen, skipByDepth_token hf rfl, if_neg (Nat.succ_ne_zero depth),
      skipByDepth_items _ _ items hi, skipByDepth_token hc rfl]
  | .object entries, s, s', h => by
    obtain ⟨hf, h⟩ := h
    obtain ⟨s₁, he, hc, rfl⟩ := walks_append.1 h
    have hlen : (Node.object entries).tokens.length + budget
        = (Node.entryTokens entries).length + (budget + 1) + 1 := by
      simp [Node.tokens]; omega
    rw [hlen, skipByDepth_token hf rfl, if_neg (Nat.succ_ne_zero depth),
      skipByDepth_entries _ _ entries he, skipByDepth_token hc rfl]

theorem skipByDepth_items (budget depth : Nat) : ∀ (ns : List Node) {s s' : σ},
    Walks s (Node.itemTokens ns) s' →
    skipByDepth ((Node.itemTokens ns).length + budget) (depth + 1) s = skipByDepth budget (depth + 1) s'
  | [], _, _, h => by cases h; simp [Node.itemTokens]
  | n :: ns, s, s', h => by
    obtain ⟨s₁, hn, hns⟩ := walks_append.1 h
    rw [Node.itemTokens, List.length_append, Nat.add_assoc, skipByDepth_node _ _ n hn,
      if_neg (Nat.succ_ne_zero depth), skipByDepth_items _ _ ns hns]

theorem skipByDepth_entries (budget depth : Nat) : ∀ (es : List (String × Node)) {s s' : σ},
    Walks s (Node.entryTokens es) s' →
    skipByDepth ((Node.entryTokens es).length + budget) (depth + 1) s = skipByDepth budget (depth + 1) s'
  | [], _, _, h => by cases h; simp [Node.entryTokens]
  | (k, n) :: es, s, s', h => by
    obtain ⟨hk, h⟩ := h
    obtain ⟨s₁, hn, hes⟩ := walks_append.1 h
    have hlen : (Node.entryTokens ((k, n) :: es)).length + budget
        = n.tokens.length + ((Node.entryTokens es).length + budget) + 1 := by
      simp [Node.entryTokens]; omega
    rw [hlen, skipByDepth_token hk rfl, if_neg (Nat.succ_ne_zero depth),
      skipByDepth_node _ _ n hn, if_neg (Nat.succ_ne_zero depth), skipByDepth_entries _ _ es hes]

end

/-- Any budget that covers the tokens of a node skips it. -/
theorem skipByDepth_of_walks {s s' : σ} {n : Node} {budget : Nat}
    (h : Walks s n.tokens s') (hb : n.tokens.length ≤ budget) :
    skipByDepth budget 0 s = .ok () s' := by
  have := skipByDepth_node (budget - n.tokens.length) 0 n h
  rwa [Nat.add_sub_cancel' hb] at this

end Skip
end Reading

/-! ## Tapes -/

namespace Tape

theorem plain_cons_of_sep {e : TapeEntry} (h : e.isSeparator) (l : List TapeEntry) :
    plain (e :: l) = plain l := by
  simp [plain, h]

theorem plain_cons_of_not_sep {e : TapeEntry} (h : ¬ e.isSeparator) (l : List TapeEntry) :
    plain (e :: l) = e :: plain l := by
  simp [plain, h]

/-- The plain entries begin with the first entry that is no separator. -/
theorem plain_eq (l : List TapeEntry) :
    plain l = match l.dropWhile (·.isSeparator) with
      | [] => []
      | e :: rest => e :: plain rest := by
  induction l with
  | nil => rfl
  | cons e l ih =>
    by_cases h : e.isSeparator
    · rw [plain_cons_of_sep h, ih, List.dropWhile_cons_of_pos h]
    · rw [plain_cons_of_not_sep h, List.dropWhile_cons_of_neg (by simpa using h)]

/-- What a reader sees before plain entries. -/
def front : List TapeEntry → Front
  | [] => .done
  | .mark (.token t) :: _ => .token t
  | _ => .unknown

end Tape

namespace TapeReader

/-- What is left of the tape, without separators. -/
def plain (r : TapeReader) : List TapeEntry := Tape.plain r.rest

theorem plain_eq_current (r : TapeReader) :
    r.plain = match r.current with
      | [] => []
      | e :: rest => e :: Tape.plain rest :=
  Tape.plain_eq r.rest

theorem front_eq (r : TapeReader) : front r = Tape.front r.plain := by
  rw [plain_eq_current]
  simp only [front]
  cases r.current with
  | nil => rfl
  | cons e _ =>
    cases e with
    | mark m => cases m <;> rfl
    | unknown => rfl

theorem plain_advance (r : TapeReader) : (advance r).plain = r.plain.tail := by
  rw [r.plain_eq_current]
  simp only [advance, plain]
  cases r.current <;> rfl

/-- A tape walks the tokens it holds, wherever separators stand. -/
theorem walks {ts : List Token} {after : List TapeEntry} : ∀ {r : TapeReader},
    r.plain = Tape.ofTokens ts ++ after → ∃ r', Walks r ts r' ∧ r'.plain = after := by
  induction ts with
  | nil => exact fun h => ⟨_, rfl, h⟩
  | cons t ts ih =>
    intro r h
    obtain ⟨r', hw, hr'⟩ := ih (r := advance r) (by rw [plain_advance, h]; rfl)
    exact ⟨r', ⟨by rw [front_eq, h]; rfl, hw⟩, hr'⟩

theorem plain_of_walks {ts : List Token} : ∀ {r r' : TapeReader}, Walks r ts r' →
    r.plain = Tape.ofTokens ts ++ r'.plain := by
  induction ts with
  | nil => intro r r' h; cases h; rfl
  | cons t ts ih =>
    intro r r' ⟨hf, hw⟩
    have h := ih hw
    rw [front_eq] at hf
    rw [plain_advance] at h
    match hp : r.plain, hf with
    | .mark (.token _) :: _, rfl => rw [hp] at h; simp [Tape.ofTokens] at h ⊢; exact h

theorem plain_length_le (r : TapeReader) : r.plain.length ≤ TokenStream.length r :=
  List.length_filter_le ..

theorem advance_shorter (r : TapeReader) (t : Token) (h : front r = .token t) :
    (advance r).plain.length < r.plain.length := by
  rw [front_eq] at h
  match hp : r.plain, h with
  | _ :: rest, _ => rw [plain_advance, hp]; exact Nat.lt_succ_self rest.length

end TapeReader

/-! ## Cursors -/

namespace NodeCursor

mutual

/-- A cursor before a node walks its tokens and then stands before whatever follows it. -/
theorem walks_value : ∀ (n : Node) (stack : List CursorFrame),
    Walks (⟨.value n, stack⟩ : NodeCursor) n.tokens (next stack)
  | .null, _ | .bool _, _ | .number _, _ | .string _, _ => ⟨rfl, rfl⟩
  | .array items, stack =>
    ⟨rfl, walks_append.2 ⟨_, walks_items items stack, rfl, rfl⟩⟩
  | .object entries, stack =>
    ⟨rfl, walks_append.2 ⟨_, walks_entries entries stack, rfl, rfl⟩⟩

theorem walks_items : ∀ (ns : List Node) (stack : List CursorFrame),
    Walks (next (.array ns :: stack)) (Node.itemTokens ns) (next (.array [] :: stack))
  | [], _ => rfl
  | n :: ns, stack => (walks_value n (.array ns :: stack)).trans (walks_items ns stack)

theorem walks_entries : ∀ (es : List (String × Node)) (stack : List CursorFrame),
    Walks (next (.object es :: stack)) (Node.entryTokens es) (next (.object [] :: stack))
  | [], _ => rfl
  | (_, n) :: es, stack => ⟨rfl, (walks_value n (.object es :: stack)).trans (walks_entries es stack)⟩

end

/-- From a value on, skipping by depth does one step of the cursor. -/
theorem skipByDepth_value {n : Node} {stack : List CursorFrame} {budget : Nat} (h : n.tokens.length ≤ budget) :
    Reading.skipByDepth budget 0 (⟨.value n, stack⟩ : NodeCursor) = .ok () (next stack) :=
  Reading.skipByDepth_of_walks (walks_value n stack) h

theorem tokens_length_le (n : Node) (stack : List CursorFrame) :
    n.tokens.length ≤ length ⟨.value n, stack⟩ := by
  simp only [length]
  induction stack with
  | nil => exact Nat.le_refl _
  | cons f stack ih => exact Nat.le_trans ih (Nat.le_add_left ..)

/-- Skipping in one step is skipping token by token, from every place, also where both refuse. -/
theorem skip_eq_skipTokens : NodeCursor.skip = Reading.skipTokens := by
  funext c
  obtain ⟨place, stack⟩ := c
  simp only [Reading.skipTokens]
  cases place with
  | value n => exact (skipByDepth_value (Nat.le_succ_of_le (tokens_length_le n stack))).symm
  | member | endObject | endArray | done => rw [Reading.skipByDepth_succ]; rfl

end NodeCursor

/-! ## Sources whose skip steps over one node -/

/-- A source that skips the tokens of a node in one go. -/
class LawfulSource (σ : Type) [TokenSource σ] : Prop where
  skip_walks : ∀ {s s' : σ} {n : Node}, Walks s n.tokens s' → Reading.skip s = .ok () s'

instance : LawfulSource TapeReader where
  skip_walks {s s' n} h := by
    refine Reading.skipByDepth_of_walks h (Nat.le_succ_of_le ?_)
    refine Nat.le_trans ?_ (TapeReader.plain_length_le s)
    rw [TapeReader.plain_of_walks h]
    simp [Tape.ofTokens]

instance : LawfulSource NodeCursor where
  skip_walks {s s' n} h := by
    obtain ⟨place, stack⟩ := s
    -- The node that is walked has the tokens of the one the cursor stands before.
    cases place with
    | value m =>
      have hn := Reading.skipByDepth_of_walks h (Nat.le_max_left n.tokens.length m.tokens.length)
      have hm : Reading.skipByDepth _ 0 (⟨.value m, stack⟩ : NodeCursor) = _ :=
        NodeCursor.skipByDepth_value (Nat.le_max_right n.tokens.length m.tokens.length)
      rw [hm] at hn
      exact hn
    | member | endObject | endArray | done =>
      have hn := Reading.skipByDepth_of_walks h (Nat.le_succ _)
      rw [Reading.skipByDepth_succ] at hn
      cases hn

end Bindery
