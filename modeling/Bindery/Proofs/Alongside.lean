import Bindery.Proofs.Readers
import Bindery.Proofs.Skipping
/-!
# Readings from two sources

A reading looks at the front and never back, and the reading of a value looks no further than the value. So
from two sources that show the same tokens as long as the containers of the value are open it ends alike, with
the same value or the same error, whatever follows (`Alongside.abreast`). The bounds of the two readings may differ
too, as long as both exceed the tokens.

There are two ways to be alongside: off both sources come the tokens of one run that skipping would discard, after
which they may part (`Beside.alongside`), or both are tapes with the same left, well formed or not
(`TapeReader.alongside`).
-/

namespace Bindery

open TokenStream (front advance)
open Reading (depthAfter)

variable {σ τ α β : Type}

/-! ## Ending alike -/

/-- Both sources are read, and `P` holds of them. -/
def Both (P : σ → τ → Prop) (s : σ) (y : Side τ) : Prop := ∃ t, y = .reading t ∧ P s t

/-- From sources in `P` both readings end with the same error, or with the same result and sources in `Q`. -/
abbrev Alike (P Q : σ → τ → Prop) (r : Reading σ α) (r' : Reading τ α) : Prop :=
  Accords (fun _ _ _ => False) (Both P) (fun e _ e' _ => e' = e) (fun _ => Both Q) r r'

namespace Alike

variable {P Q : σ → τ → Prop} {r : Reading σ α} {r' : Reading τ α}

theorem of_run (h : ∀ s t, P s t → (∃ a s' t', r s = .ok a s' ∧ r' t = .ok a t' ∧ Q s' t') ∨
    ∃ e s' t', r s = .error e s' ∧ r' t = .error e t') : Alike P Q r r' := by
  constructor
  · rintro s t ⟨_, ⟨⟩, hst⟩
    rcases h s t hst with ⟨a, s', t', hs, ht, hst'⟩ | ⟨e, s', t', hs, ht⟩
    · rw [hs, ht]
      exact .both ⟨t', rfl, hst'⟩
    · rw [hs, ht]
      exact .failed rfl
  · rintro s e t ⟨_, ⟨⟩, -⟩

theorem run (h : Alike P Q r r') {s : σ} {t : τ} (hst : P s t) :
    (∃ a s' t', r s = .ok a s' ∧ r' t = .ok a t' ∧ Q s' t') ∨ ∃ e s' t', r s = .error e s' ∧ r' t = .error e t' := by
  have hends := h.both ⟨t, rfl, hst⟩
  generalize r s = x at hends ⊢
  generalize r' t = x' at hends ⊢
  cases hends with
  | both hq =>
    obtain ⟨_, ⟨⟩, hq⟩ := hq
    exact .inl ⟨_, _, _, rfl, rfl, hq⟩
  | parted hq => obtain ⟨_, ⟨⟩, -⟩ := hq
  | failed he =>
    cases he
    exact .inr ⟨_, _, _, rfl, rfl⟩
  | gone hg => exact hg.elim

theorem atPlace (place : Place) (h : Alike P Q r r') :
    Alike P Q (Reading.atPlace place r) (Reading.atPlace place r') := by
  refine Accords.atPlace place place h ?_ ?_ fun _ _ _ h => h
  · rintro e s _ t rfl
    rfl
  · rintro a s e t ⟨_, ⟨⟩, -⟩

theorem lift {R : σ → τ → Prop} (x : Except BindError α) (h : ∀ s t, P s t → R s t) :
    Alike P R (Reading.lift x) (Reading.lift x) :=
  of_run fun s t hst => by
    cases x with
    | ok a => exact .inl ⟨a, s, t, rfl, rfl, h s t hst⟩
    | error e => exact .inr ⟨e, s, t, rfl, rfl⟩

/-- What is made of what was read, and what comes after it. -/
theorem perform_bind {x : Making α} {k : α → Reading σ β} {k' : α → Reading τ β}
    (h : ∀ a, x.outcome = .ok a → Alike P Q (k a) (k' a)) :
    Alike P Q (Reading.perform x >>= k) (Reading.perform x >>= k') := by
  rw [Reading.perform_deaf, Reading.perform_deaf]
  cases hx : x.outcome with
  | ok a => exact h a hx
  | error e => exact of_run fun s t _ => .inr ⟨e, s, t, rfl, rfl⟩

end Alike

/-! ## Alongside -/

/-- What holds of two sources with so many containers of a value open, or none once the value is over. -/
def After (Level : Nat → Nat → σ → τ → Prop) (Over : σ → τ → Prop) (left : Nat) : Nat → σ → τ → Prop
  | 0 => Over
  | depth + 1 => Level left (depth + 1)

/-- The same, once tokens have come off both sources. -/
def Past (Level : Nat → Nat → σ → τ → Prop) (Over : σ → τ → Prop) (left depth : Nat) (s : σ) (t : τ) : Prop :=
  ∃ less, less < left ∧ After Level Over less depth s t

/-- `Level left depth` holds of sources that show the same, before a value or inside it with `depth` of its containers
open. At most `left` tokens of the value are to come. When it ends, `Over` holds. -/
structure Alongside [TokenSource σ] [TokenSource τ] (Level : Nat → Nat → σ → τ → Prop) (Over : σ → τ → Prop) :
    Prop where
  front : ∀ {left depth s t}, Level left depth s t → front t = front s
  advance : ∀ {left depth depth' s t u}, Level left depth s t → TokenStream.front s = .token u →
    depthAfter u.kind depth = some depth' → Past Level Over left depth' (advance s) (advance t)
  skip : ∀ left depth,
    Alike (Level left depth) (Past Level Over left depth) (Reading.skip : Reading σ Unit) Reading.skip

theorem depthAfter_open {kind : TokenKind} (h : depthAfter kind 0 = some 1) (depth : Nat) :
    depthAfter kind depth = some (depth + 1) := by
  have := depthAfter_add h depth
  rwa [Nat.zero_add, Nat.add_comm] at this

theorem depthAfter_close {kind : TokenKind} (h : depthAfter kind 1 = some 0) (depth : Nat) :
    depthAfter kind (depth + 1) = some depth := by
  have := depthAfter_add h depth
  rwa [Nat.zero_add, Nat.add_comm] at this

namespace Alongside

variable {Level : Nat → Nat → σ → τ → Prop} {Over : σ → τ → Prop} {left depth : Nat}

theorem past_mono {less : Nat} (hless : less ≤ left) (s : σ) (t : τ) (hst : Past Level Over less depth s t) :
    Past Level Over left depth s t := by
  obtain ⟨fewer, hfewer, hst⟩ := hst
  exact ⟨fewer, Nat.lt_of_lt_of_le hfewer hless, hst⟩

/-- Inside a container of a value, the bounds exceeding the tokens to come. -/
def Within (Level : Nat → Nat → σ → τ → Prop) (left depth n m : Nat) (s : σ) (t : τ) : Prop :=
  ∃ less, less < left ∧ less < n ∧ less < m ∧ Level less (depth + 1) s t

/-- Where both sources stand, a position being how many tokens are to come and how many containers are open around. -/
def Stand (Level : Nat → Nat → σ → τ → Prop) (Over : σ → τ → Prop) : Phase → Nat × Nat → σ → τ → Prop
  | .before, (left, depth) => Level left depth
  | .inside _ _ n m, (left, depth) => Within Level left depth n m
  | .behind, (left, depth) => Past Level Over left depth

variable [TokenSource σ] [TokenSource τ]

def abreast (h : Alongside Level Over) : Abreast σ τ where
  Pos := Nat × Nat
  Part i _ _ j := j.1 < i.1 ∧ j.2 = i.2 + 1
  Placed _ place place' := place' = place
  Bounds i n m := i.1 < n ∧ i.1 < m
  On phase i := Both (Stand Level Over phase i)
  Fails _ _ e _ e' _ := e' = e
  Gone _ _ _ := False
  placed_part := by
    rintro _ _ _ _ _ _ - rfl
    rfl
  bounds_zero := by
    rintro i n m ⟨hn, hm⟩
    omega
  bounds_part := by
    rintro i _ _ j n m ⟨hlt, -⟩ ⟨hn, hm⟩
    omega
  inside_zero := by
    rintro _ _ n m i s y ⟨t, -, less, -, hn, hm, -⟩
    omega
  front_before := by
    rintro i s t ⟨_, ⟨⟩, hst⟩
    exact h.front hst
  front_inside := by
    rintro _ _ _ _ i s t ⟨_, ⟨⟩, _, -, -, -, hst⟩
    exact h.front hst
  scalar_step := by
    rintro i s _ u ⟨t, rfl, hst⟩ hf hu
    exact ⟨_, rfl, h.advance hst hf (Reading.depthAfter_scalar hu _)⟩
  enter := by
    rintro bracket i n m s _ ⟨hn, hm⟩ ⟨t, rfl, hst⟩ hf
    have hopen : depthAfter bracket.opening.kind 0 = some 1 := by cases bracket <;> rfl
    obtain ⟨less, hless, hst'⟩ := h.advance hst hf (depthAfter_open hopen _)
    exact ⟨_, rfl, less, hless, by omega, by omega, hst'⟩
  item := by
    rintro parts n m i s _ _ ⟨t, rfl, less, hless, hn, hm, hst⟩ -
    refine ⟨(less, i.2 + 1), ⟨hless, rfl⟩, ⟨t, rfl, hst⟩, ?_⟩
    rintro s' _ ⟨t', rfl, fewer, hfewer, hst'⟩
    exact ⟨t', rfl, fewer, by omega, by omega, by omega, hst'⟩
  member := by
    rintro parts n m i s _ key _ ⟨t, rfl, less, hless, hn, hm, hst⟩ hf
    have hname : depthAfter (Token.name key).kind (i.2 + 1) = some (i.2 + 1) := rfl
    obtain ⟨fewer, hfewer, hst'⟩ := h.advance hst hf hname
    refine ⟨(fewer, i.2 + 1), ⟨by omega, rfl⟩, ⟨_, rfl, hst'⟩, ?_⟩
    rintro s' _ ⟨t', rfl, fewest, hfewest, hst''⟩
    exact ⟨t', rfl, fewest, by omega, by omega, by omega, hst''⟩
  leave := by
    rintro bracket parts n m i s _ ⟨t, rfl, less, hless, -, -, hst⟩ hf
    have hclose : depthAfter bracket.closing.kind 1 = some 0 := by cases bracket <;> rfl
    exact ⟨_, rfl, past_mono (Nat.le_of_lt hless) _ _ (h.advance hst hf (depthAfter_close hclose _))⟩
  skip_part := by
    intro i _ _ j _
    exact h.skip j.1 j.2
  hear_deed := by
    rintro phase i s _ d ⟨t, rfl, hst⟩
    exact ⟨t, rfl, hst⟩
  hear_part := by
    rintro i _ _ j s₀ y₀ s _ whole part - - ⟨t, rfl, hst⟩
    exact ⟨t, rfl, hst⟩
  hear_payload := by
    rintro i s₀ y₀ s _ payload - ⟨t, rfl, hst⟩
    exact ⟨t, rfl, hst⟩
  hear_exhausted := by
    rintro i s y ⟨hn, -⟩
    exact absurd hn (Nat.not_lt_zero _)
  hear_spent := by
    rintro _ _ i s y ⟨t, -, less, -, hn, -⟩
    exact absurd hn (Nat.not_lt_zero _)
  fails_before _ _ := rfl
  fails_name _ _ _ _ := rfl
  fails_leave _ _ _ _ := rfl
  fails_variant _ _ _ := rfl
  fails_plain _ _ := rfl
  fails_at := by
    rintro i place _ e s _ t rfl rfl
    rfl
  fails_spent _ h := h
  fails_part _ h := h
  gone := by
    rintro phase i s e t ⟨_, ⟨⟩, -⟩
  gone_at _ h := h
  stopped_at := by
    rintro phase i place place' s e t - ⟨_, ⟨⟩, -⟩

variable (h : Alongside Level Over) {c : Context} {n m : Nat}
include h

theorem anywhere (e : BindError) : h.abreast.Anywhere e := fun _ _ _ _ _ => rfl

/-- The name of a member comes off both sources. -/
theorem arrive {r : Record} {creator : Creator} {a : Assembly} {key : String} {i j : h.abreast.Pos}
    {place place' : Place} {s : σ} {y : Side τ} (hm : h.abreast.Arriving r key i j place place' s y) :
    h.abreast.On .before j (Listener.hear (.arrival ⟨r, creator, a, key, place, TokenStream.advance s⟩)
      (TokenStream.advance s))
      ((y.step TokenStream.advance).step fun t => Listener.hear (.arrival ⟨r, creator, a, key, place', t⟩) t) := by
  have hbefore := hm.before
  cases y <;> exact hbefore

/-- Whatever codecs and constructors do, they do it twice. -/
theorem members (r : Record) (creator : Creator) : h.abreast.Members c c.config c.config r creator fun _ => True where
  argument _ _ _ := .of_forall _ h.anywhere
  field _ _ _ := .of_forall _ h.anywhere
  arrive _ hm _ := h.arrive hm
  unknown _ hm _ _ := by
    refine hm.unknown rfl (h.arrive hm) fun _ => ?_
    rw [hm.placed]
    rfl

theorem grounds : h.abreast.Grounds c c.config c.config fun _ _ => True where
  typed _ := trivial
  codec_typed _ _ _ _ := trivial
  codec_fails _ _ _ _ _ _ _ _ _ _ _ _ _ _ := rfl
  null_typed _ _ _ := trivial
  null_fails _ _ _ _ _ _ _ _ := rfl
  makes _ := ⟨fun _ _ => .of_forall _ h.anywhere, fun _ => trivial⟩
  arrive _ hm _ := h.arrive hm
  unknown _ hm := (h.members _ _).unknown trivial hm
  finish _ hon := by
    obtain ⟨t, rfl, hst⟩ := hon
    exact ⟨t, rfl, hst⟩

/-- A value of a type, with bounds that exceed its tokens. -/
theorem value (hn : left < n) (hm : left < m) (t : Ty) (place : Place) :
    Alike (Level left depth) (Past Level Over left depth) (Decode.value c n t place) (Decode.value c m t place) := by
  have hplaced : h.abreast.Placed (left, depth) place place := rfl
  have hvalue := Abreast.value (h.grounds (c := c)) n ⟨hn, hm⟩ hplaced t
  exact hvalue.mono_post fun _ _ _ hv => hv.2

/-- A document, with bounds that exceed its tokens. -/
theorem node (hn : left < n) (hm : left < m) (place : Place) :
    Alike (Level left depth) (Past Level Over left depth) (Decode.node n place) (Decode.node m place) := by
  have hplaced : h.abreast.Placed (left, depth) place place := rfl
  have hbounds : h.abreast.Bounds (left, depth) n m := ⟨hn, hm⟩
  have hnode := Abreast.node n hbounds hplaced
  exact hnode.mono_post fun _ _ _ hv => hv.2

/-- The members of a record that are left, up to its end, with bounds that exceed their tokens. -/
theorem members_left {budget budget' : Nat} (hn : left < n) (hm : left < m) (hb : left < budget) (hb' : left < budget')
    (r : Record) (creator : Creator) (place : Place) (state : Assembly × List (String × Node)) :
    Alike (Level left 1) Over
      (Reading.forMembers (Decode.recordMember c r creator (Decode.node budget) (Decode.value c budget) place) n state
        >>= fun state => Reading.expect .endObject >>= fun _ => pure state)
      (Reading.forMembers (Decode.recordMember c r creator (Decode.node budget') (Decode.value c budget') place) m state
        >>= fun state => Reading.expect .endObject >>= fun _ => pure state) := by
  let i : h.abreast.Pos := (left + 1, 0)
  have hplaced : h.abreast.Placed i place place := rfl
  have hbounds : ∀ {owner step j}, h.abreast.Part i owner step j → h.abreast.Bounds j budget budget' := by
    rintro owner step j ⟨hlt, -⟩
    have hlt : j.1 < left + 1 := hlt
    exact ⟨by omega, by omega⟩
  have hcapture : h.abreast.Parts false i (fun _ => True) (Decode.node budget) (Decode.node budget') :=
    fun _ _ _ hj _ _ hplaced => Abreast.node budget (hbounds hj) hplaced
  have hpart : ∀ t, h.abreast.Parts true i (fun _ => True) (Decode.value c budget t) (Decode.value c budget' t) :=
    fun t _ _ _ hj _ _ hplaced => Abreast.value h.grounds budget (hbounds hj) hplaced t
  have hmembers : h.abreast.Members c c.config c.config r creator fun _ => True := h.members r creator
  refine Accords.mono (P := h.abreast.On (.inside .object 0 n m) i)
    (Q := fun _ s y => (∃ _ : Nat, True) ∧ h.abreast.On .behind i s y) ?loop ?start (fun _ _ _ _ he => he) ?stop
  case loop =>
    exact Abreast.closed (I := fun _ _ => True) (fun {_ _ _ state _ _} _ hon hcloses =>
      Abreast.recordMember hmembers hcapture hpart hplaced state trivial hon hcloses) trivial
  case start =>
    rintro s _ ⟨t, rfl, hst⟩
    exact ⟨t, rfl, left, Nat.lt_succ_self left, hn, hm, hst⟩
  case stop =>
    rintro _ s _ ⟨-, t, rfl, _, -, hst⟩
    exact ⟨t, rfl, hst⟩

end Alongside

/-! ## The same run -/

/-- What can be skipped inside a container changes the depth of the containers above it alike. -/
theorem depthAfter_of_add {kind : TokenKind} {depth more depth' : Nat}
    (h : depthAfter kind (depth + 1 + more) = some depth') :
    ∃ less, depthAfter kind (depth + 1) = some less ∧ depth' = less + more := by
  cases hd : depthAfter kind (depth + 1) with
  | some less =>
    rw [depthAfter_add hd more] at h
    exact ⟨less, rfl, (Option.some.inj h).symm⟩
  | none =>
    -- What cannot be skipped inside a container cannot be skipped at all.
    rw [Nat.add_right_comm] at h
    cases kind <;> simp [depthAfter, TokenKind.isScalar] at hd h

/-- Tokens that leave several containers leave the inner ones first. -/
theorem Discards.split {inner outer : Nat} : ∀ {ts : List Token}, Discards (inner + 1 + (outer + 1)) ts →
    ∃ us vs, ts = us ++ vs ∧ Discards (inner + 1) us ∧ Discards (outer + 1) vs := by
  intro ts
  induction ts generalizing inner with
  | nil => intro h; cases h
  | cons t ts ih =>
    intro h
    cases h with
    | last h =>
      obtain ⟨less, -, hless⟩ := depthAfter_of_add h
      omega
    | more h hrest =>
      obtain ⟨less, hd, hless⟩ := depthAfter_of_add h
      cases less with
      | zero =>
        refine ⟨[t], ts, rfl, .last hd, ?_⟩
        rwa [hless, Nat.zero_add] at hrest
      | succ less =>
        rw [hless] at hrest
        obtain ⟨us, vs, rfl, hus, hvs⟩ := ih hrest
        exact ⟨t :: us, vs, rfl, .more hd hus, hvs⟩

/-- Inside a container a value comes that can be skipped, or a token that begins none. -/
theorem Discards.value_or {depth : Nat} {ts : List Token} (h : Discards (depth + 1) ts) :
    (∃ us vs, ts = us ++ vs ∧ Discards 0 us ∧ Discards (depth + 1) vs) ∨
      ∃ t rest, ts = t :: rest ∧ depthAfter t.kind 0 = none := by
  obtain ⟨t, rest, rfl⟩ := List.exists_cons_of_ne_nil h.ne_nil
  cases ht : depthAfter t.kind 0 with
  | none => exact .inr ⟨t, rest, rfl, ht⟩
  | some opened =>
    left
    have hd := depthAfter_add ht (depth + 1)
    rw [Nat.zero_add] at hd
    cases h with
    | last h =>
      rw [hd] at h
      cases h
    | @more _ _ _ depth' h hrest =>
      rw [hd, Option.some.injEq] at h
      cases opened with
      | zero =>
        obtain rfl : depth' = depth := by omega
        exact ⟨[t], rest, rfl, .last ht, hrest⟩
      | succ opened =>
        obtain rfl : depth' = opened + 1 + depth := by omega
        have hrest : Discards (opened + 1 + (depth + 1)) rest := hrest
        obtain ⟨us, vs, rfl, hus, hvs⟩ := hrest.split
        exact ⟨t :: us, vs, rfl, .more ht hus, hvs⟩

/-- A source that skips what skipping by depth would discard and nothing else, and refuses a token that begins no
value. -/
class SkipsRuns (σ : Type) [TokenSource σ] : Prop where
  skip_consumes : ConsumesValue (Reading.skip : Reading σ Unit)
  skip_run : ∀ {s s' : σ} {ts : List Token}, Discards 0 ts → Walks s ts s' → Reading.skip s = .ok () s'
  skip_refused : ∀ {s : σ} {t : Token}, front s = .token t → depthAfter t.kind 0 = none →
    Reading.skip s = .error (.tokenMismatch "a value" t.kind) s

instance : SkipsRuns TapeReader where
  skip_consumes := TapeReader.consumesValue_skip
  skip_run hts hw := TapeReader.skip_of_walks hts hw
  skip_refused {s t} hf ht := by
    have hskip : (Reading.skip : Reading TapeReader Unit) s = Reading.skipByDepth (TokenStream.length s + 1) 0 s := rfl
    rw [hskip, Reading.skipByDepth_succ, hf]
    simp only [Front.kind, ht]
    unfold Reading.noValue
    rw [Reading.peek_bind, hf]
    rfl

instance : SkipsRuns NodeCursor where
  skip_consumes := .skip NodeCursor.skip_eq_skipTokens
  skip_run {s s' ts} hts hw := by
    obtain ⟨place, stack⟩ := s
    -- The run is as long as the node that the cursor stands before.
    cases place with
    | value m =>
      have hn := hts.skipByDepth hw (Nat.le_max_left ts.length m.tokens.length)
      have hm : Reading.skipByDepth _ 0 (⟨.value m, stack⟩ : NodeCursor) = _ :=
        NodeCursor.skipByDepth_value (Nat.le_max_right ts.length m.tokens.length)
      rw [hm] at hn
      exact hn
    | member | endObject | endArray | done =>
      have hn := hts.skipByDepth hw (Nat.le_succ _)
      rw [Reading.skipByDepth_succ] at hn
      cases hn
  skip_refused {s t} hf ht := by
    obtain ⟨place, stack⟩ := s
    cases place with
    | value m =>
      cases m <;> cases hf <;> cases ht
    | member | endObject | endArray => cases hf; rfl
    | done => cases hf

/-- Off both sources the rest of one run comes, and leaves these two. -/
def Beside [TokenStream σ] [TokenStream τ] (s' : σ) (t' : τ) (left depth : Nat) (s : σ) (t : τ) : Prop :=
  ∃ ts, Discards depth ts ∧ ts.length ≤ left ∧ Walks s ts s' ∧ Walks t ts t'

theorem Beside.alongside [TokenSource σ] [TokenSource τ] [SkipsRuns σ] [SkipsRuns τ] (s' : σ) (t' : τ) :
    Alongside (Beside s' t') fun s t => s = s' ∧ t = t' where
  front := by
    rintro left depth s t ⟨ts, hts, -, hs, ht⟩
    obtain ⟨u, rest, rfl⟩ := List.exists_cons_of_ne_nil hts.ne_nil
    rw [hs.1, ht.1]
  advance := by
    rintro left depth depth' s t u ⟨ts, hts, hlen, hs, ht⟩ hf hu
    cases hts with
    | last h =>
      obtain ⟨hs, hs'⟩ := hs
      rw [hs] at hf
      cases hf
      rw [h] at hu
      cases hu
      exact ⟨0, hlen, hs', ht.2⟩
    | more h hrest =>
      obtain ⟨hs, hs'⟩ := hs
      rw [hs] at hf
      cases hf
      rw [h] at hu
      cases hu
      exact ⟨_, hlen, _, hrest, Nat.le_refl _, hs', ht.2⟩
  skip left depth := .of_run <| by
    rintro s t ⟨ts, hts, hlen, hs, ht⟩
    have hpos := List.length_pos_iff.2 hts.ne_nil
    cases depth with
    | zero =>
      exact .inl ⟨(), s', t', SkipsRuns.skip_run hts hs, SkipsRuns.skip_run hts ht, 0, by omega, rfl, rfl⟩
    | succ depth =>
      rcases hts.value_or with ⟨us, vs, rfl, hus, hvs⟩ | ⟨u, rest, rfl, hu⟩
      · obtain ⟨s₁, hs₁, hs⟩ := walks_append.1 hs
        obtain ⟨t₁, ht₁, ht⟩ := walks_append.1 ht
        have hlt := List.length_pos_iff.2 hus.ne_nil
        rw [List.length_append] at hlen
        exact .inl ⟨(), s₁, t₁, SkipsRuns.skip_run hus hs₁, SkipsRuns.skip_run hus ht₁, vs.length, by omega, vs, hvs,
          Nat.le_refl _, hs, ht⟩
      · exact .inr ⟨_, s, t, SkipsRuns.skip_refused hs.1 hu, SkipsRuns.skip_refused ht.1 hu⟩

/-! ## The same tape -/

/-- The same is left of both tapes, separators aside. -/
def TapeReader.Level (left _depth : Nat) (r r' : TapeReader) : Prop := r.SamePlain r' ∧ r.plain.length ≤ left

theorem TapeReader.alongside : Alongside TapeReader.Level TapeReader.SamePlain where
  front h := (samePlain_simulation.front h.1).symm
  advance := by
    rintro left depth depth' r r' u ⟨h, hlen⟩ hf -
    have hless := r.advance_shorter u hf
    refine ⟨(TokenStream.advance r).plain.length, by omega, ?_⟩
    cases depth' with
    | zero => exact samePlain_simulation.advance h
    | succ depth' => exact ⟨samePlain_simulation.advance h, Nat.le_refl _⟩
  skip left depth := .of_run <| by
    rintro r r' ⟨h, hlen⟩
    have hagree := samePlain_skip r r' h
    unfold Reading.run at hagree
    cases hr : (Reading.skip : Reading TapeReader Unit) r with
    | error e r₁ =>
      rw [hr] at hagree
      cases hr' : (Reading.skip : Reading TapeReader Unit) r' with
      | error e' r₁' =>
        rw [hr'] at hagree
        cases hagree.1
        exact .inr ⟨e, r₁, r₁', rfl, rfl⟩
      | ok a' r₁' =>
        rw [hr'] at hagree
        cases hagree.1
    | ok a r₁ =>
      rw [hr] at hagree
      cases hr' : (Reading.skip : Reading TapeReader Unit) r' with
      | error e' r₁' =>
        rw [hr'] at hagree
        cases hagree.1
      | ok a' r₁' =>
        rw [hr'] at hagree
        -- What was skipped is gone from the tape.
        obtain ⟨ts, hw, hts⟩ := consumesValue_skip.ok hr
        have hlt := List.length_pos_iff.2 hts.ne_nil
        have hplain := congrArg List.length (plain_of_walks hw)
        simp only [Tape.ofTokens, List.length_append, List.length_map] at hplain
        refine .inl ⟨a, r₁, r₁', rfl, rfl, r₁.plain.length, by omega, ?_⟩
        cases depth with
        | zero => exact hagree.2
        | succ depth => exact ⟨hagree.2, Nat.le_refl _⟩

end Bindery
