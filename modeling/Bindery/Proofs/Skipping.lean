import Bindery.Catalogue.Model
import Bindery.Proofs.Abreast
import Bindery.Proofs.Grammar
/-!
# Reading and skipping consume the same tokens

Skipping counts depth and looks at nothing else. `Discards depth ts` says that skipping from a depth ends
with the last of the tokens, and `Neutral ts` that inside a container the tokens leave the depth as it was.
A sentence of a document is discarded by one skip (`Denotes.discards`), and so is what reading a value consumes,
whatever the type and however malformed the tokens are (`ConsumesValue.value`). So it makes no difference to what
follows whether a value is read or skipped (`read_skip`).
-/

namespace Bindery

open TokenStream (front advance)
open Reading (depthAfter)
open BindError (IsMismatch isMismatch)

variable {σ α : Type}

/-! ## Tokens by depth -/

/-- Skipping from a depth ends with the last of the tokens, and not before. -/
inductive Discards : Nat → List Token → Prop
  | last {t : Token} {depth : Nat} (h : depthAfter t.kind depth = some 0) : Discards depth [t]
  | more {t : Token} {ts : List Token} {depth depth' : Nat} (h : depthAfter t.kind depth = some (depth' + 1))
    (hrest : Discards (depth' + 1) ts) : Discards depth (t :: ts)

/-- Inside a container the tokens leave the depth as it was. -/
def Neutral (ts : List Token) : Prop := ∀ depth us, Discards (depth + 1) us → Discards (depth + 1) (ts ++ us)

/-- What can be skipped can be skipped with more containers open. -/
theorem depthAfter_add {kind : TokenKind} {depth depth' : Nat} (h : depthAfter kind depth = some depth')
    (more : Nat) : depthAfter kind (depth + more) = some (depth' + more) := by
  cases kind with
  | startObject | startArray =>
    cases h
    exact congrArg some (Nat.add_right_comm depth more 1)
  | endObject | endArray | name =>
    cases depth with
    | zero => cases h
    | succ depth =>
      cases h
      rw [Nat.add_right_comm]
      rfl
  | string | number | boolean | null =>
    rw [Reading.depthAfter_scalar rfl] at h ⊢
    cases h
    rfl
  | endOfStream | unknown => cases depth <;> cases h

/-- With more containers open, tokens that are discarded lead back to where those containers are open. -/
theorem Discards.append {depth : Nat} {ts : List Token} (h : Discards depth ts) {more : Nat} {us : List Token}
    (hus : Discards (more + 1) us) : Discards (depth + (more + 1)) (ts ++ us) := by
  induction h with
  | last h =>
    have h := depthAfter_add h (more + 1)
    rw [Nat.zero_add] at h
    exact .more h hus
  | more h _ ih => exact .more (depthAfter_add h (more + 1)) ih

theorem Discards.neutral {ts : List Token} (h : Discards 0 ts) : Neutral ts := by
  intro depth us hus
  have := h.append hus
  rwa [Nat.zero_add] at this

theorem neutral_nil : Neutral [] := fun _ _ h => h

theorem neutral_name (key : String) : Neutral [.name key] := fun _ _ h => .more rfl h

theorem Neutral.append {ts us : List Token} (h : Neutral ts) (h' : Neutral us) : Neutral (ts ++ us) := by
  intro depth vs hvs
  rw [List.append_assoc]
  exact h depth _ (h' depth _ hvs)

theorem Discards.ne_nil {depth : Nat} {ts : List Token} (h : Discards depth ts) : ts ≠ [] := by
  cases h <;> exact List.cons_ne_nil _ _

theorem discards_scalar {t : Token} (h : t.kind.isScalar) : Discards 0 [t] :=
  .last (Reading.depthAfter_scalar h 0)

/-- Between brackets of any kind, what leaves the depth as it was is discarded. -/
theorem Neutral.bracketed {ts : List Token} (h : Neutral ts) {opening closing : Token}
    (hopen : depthAfter opening.kind 0 = some 1) (hclose : depthAfter closing.kind 1 = some 0) :
    Discards 0 (opening :: (ts ++ [closing])) :=
  .more hopen (h 0 _ (.last hclose))

theorem neutral_flatMap {as : List α} {f : α → List Token} (h : ∀ a ∈ as, Neutral (f a)) :
    Neutral (as.flatMap f) := by
  induction as with
  | nil => exact neutral_nil
  | cons a as ih =>
    obtain ⟨ha, has⟩ := List.forall_mem_cons.1 h
    rw [List.flatMap_cons]
    exact ha.append (ih has)

/-- A sentence is discarded by one skip. -/
theorem Denotes.discards {ts : List Token} {n : Node} (h : Denotes ts n) : Discards 0 ts := by
  induction h with
  | null | bool | number | string => exact discards_scalar rfl
  | array _ ih =>
    apply Neutral.bracketed _ rfl rfl
    apply neutral_flatMap
    intro p hp
    exact (ih p hp).neutral
  | object _ ih =>
    apply Neutral.bracketed _ rfl rfl
    apply neutral_flatMap
    intro p hp
    exact (neutral_name p.1).append (ih p hp).neutral

/-- Tokens that are discarded from a depth are skipped, with any budget that covers them. -/
theorem Discards.skipByDepth [TokenStream σ] {depth : Nat} {ts : List Token} (h : Discards depth ts) :
    ∀ {budget : Nat} {s s' : σ}, Walks s ts s' → ts.length ≤ budget →
      Reading.skipByDepth budget depth s = .ok () s' := by
  induction h with
  | last h =>
    intro budget s s' ⟨hf, hw⟩ hbudget
    obtain ⟨budget, rfl⟩ := Nat.exists_eq_succ_of_ne_zero (Nat.ne_zero_of_lt hbudget)
    cases hw
    exact Reading.skipByDepth_token hf h
  | more h _ ih =>
    intro budget s s' ⟨hf, hw⟩ hbudget
    obtain ⟨budget, rfl⟩ := Nat.exists_eq_succ_of_ne_zero (Nat.ne_zero_of_lt hbudget)
    rw [Reading.skipByDepth_token hf h, if_neg (Nat.succ_ne_zero _)]
    exact ih hw (Nat.le_of_succ_le_succ hbudget)

/-! ## What readings consume -/

/-- What is consumed would have been discarded by one skip. -/
abbrev ConsumesValue [TokenStream σ] (r : Reading σ α) : Prop :=
  Consumes r (fun _ ts => Discards 0 ts) fun _ => True

/-- A member is a name and a value. -/
def IsMember (ts : List Token) : Prop := ∃ key us, ts = .name key :: us ∧ Discards 0 us

section Stream
variable [TokenStream σ]

/-- A skip that succeeds has discarded what it consumed. -/
theorem consumes_skipByDepth (budget : Nat) : ∀ depth : Nat,
    Consumes (Reading.skipByDepth budget depth : Reading σ Unit) (fun _ ts => Discards depth ts) IsMismatch := by
  induction budget with
  | zero => exact fun depth s => isMismatch _ _
  | succ budget ih =>
    intro depth s
    rw [Reading.skipByDepth_succ]
    cases hf : front s with
    | unknown | done => cases depth <;> exact isMismatch _ _
    | token t =>
      cases hd : depthAfter (Front.token t).kind depth with
      | none => exact isMismatch _ _
      | some depth' =>
        cases depth' with
        | zero => exact ⟨[t], walks_one.2 ⟨hf, rfl⟩, .last hd⟩
        | succ depth' =>
          dsimp only
          cases hr : Reading.skipByDepth budget (depth' + 1) (advance s) with
          | error e s' => exact (ih (depth' + 1)).error hr
          | ok _ s' =>
            obtain ⟨ts, hw, hts⟩ := (ih (depth' + 1)).ok hr
            exact ⟨t :: ts, ⟨hf, hw⟩, .more hd hts⟩

end Stream

section Source
variable [TokenSource σ]

/-- A skip that does what skipping token by token does. -/
theorem consumes_skip (hskip : (Reading.skip : Reading σ Unit) = Reading.skipTokens) :
    Consumes (Reading.skip : Reading σ Unit) (fun _ ts => Discards 0 ts) IsMismatch :=
  hskip ▸ fun s => consumes_skipByDepth _ 0 s

theorem ConsumesValue.skip (hskip : (Reading.skip : Reading σ Unit) = Reading.skipTokens) :
    ConsumesValue (Reading.skip : Reading σ Unit) :=
  (consumes_skip hskip).mono_error fun _ _ => trivial

end Source

namespace Bracket

/-- A part of a container. -/
def IsPart : Bracket → List Token → Prop
  | array => Discards 0
  | object => IsMember

/-- So many parts of a container, one behind the other. -/
def AreParts (bracket : Bracket) (parts : Nat) (ts : List Token) : Prop :=
  ∃ ps : List (List Token), ps.length = parts ∧ ts = ps.flatten ∧ ∀ p ∈ ps, bracket.IsPart p

theorem IsPart.neutral {bracket : Bracket} {ts : List Token} (h : bracket.IsPart ts) : Neutral ts := by
  cases bracket with
  | array => exact Discards.neutral h
  | object =>
    obtain ⟨key, us, rfl, hus⟩ := h
    exact (neutral_name key).append hus.neutral

namespace AreParts

variable {bracket : Bracket} {parts : Nat} {ts us : List Token}

theorem nil (bracket : Bracket) : bracket.AreParts 0 [] := ⟨[], rfl, rfl, by simp⟩

theorem concat (h : bracket.AreParts parts ts) (hus : bracket.IsPart us) : bracket.AreParts (parts + 1) (ts ++ us) := by
  obtain ⟨ps, rfl, rfl, hps⟩ := h
  exact ⟨ps ++ [us], by simp, by simp, List.forall_mem_append.2 ⟨hps, List.forall_mem_singleton.2 hus⟩⟩

theorem neutral (h : bracket.AreParts parts ts) : Neutral ts := by
  obtain ⟨ps, -, rfl, hps⟩ := h
  have hneutral := neutral_flatMap (f := id) fun p hp => (hps p hp).neutral
  rwa [List.flatMap_id] at hneutral

/-- Between their brackets they are discarded. -/
theorem bracketed (h : bracket.AreParts parts ts) : Discards 0 (bracket.opening :: (ts ++ [bracket.closing])) := by
  cases bracket with
  | array => exact h.neutral.bracketed rfl rfl
  | object => exact h.neutral.bracketed rfl rfl

end AreParts
end Bracket

/-- From where on tokens are looked at: the front of a value, or that of a part of a container. -/
structure Stretch (σ : Type) where
  start : σ
  whole : Bool

/-- A source whose skip discards what it consumes, wherever it stands: behind a value stand the tokens that one skip
discards. -/
def Along.stretch [TokenSource σ] (hskip : ConsumesValue (Reading.skip : Reading σ Unit)) : Along σ where
  Pos := Stretch σ
  Part _ _ _ j := j.whole
  Placed _ place place' := place' = place
  Bounds _ _ := True
  At
    | .before, i, s => i.whole ∧ s = i.start
    | .inside bracket parts _ _, i, s =>
      ∃ ts, Walks i.start ((if i.whole then [bracket.opening] else []) ++ ts) s ∧ bracket.AreParts parts ts
    | .behind, i, s => i.whole → ∃ ts, Walks i.start ts s ∧ Discards 0 ts
  Fails _ _ _ _ := True
  placed_part := by
    rintro _ _ _ _ _ _ - rfl
    rfl
  bounds_part _ _ := trivial
  scalar_step := by
    rintro i _ u ⟨-, rfl⟩ hf hu -
    exact ⟨[u], walks_one.2 ⟨hf, rfl⟩, discards_scalar hu⟩
  enter := by
    rintro bracket i n _ - ⟨hwhole, rfl⟩ hf
    refine ⟨[], ?_, .nil bracket⟩
    rw [if_pos hwhole, List.append_nil]
    exact walks_one.2 ⟨hf, rfl⟩
  item := by
    rintro parts n i s owner ⟨ts, hw, hts⟩ -
    refine ⟨⟨s, true⟩, rfl, ⟨rfl, rfl⟩, fun s' hbehind => ?_⟩
    obtain ⟨us, hw', hus⟩ := hbehind rfl
    refine ⟨ts ++ us, ?_, hts.concat hus⟩
    rw [← List.append_assoc]
    exact hw.trans hw'
  member := by
    rintro parts n i s key owner ⟨ts, hw, hts⟩ hf
    refine ⟨⟨advance s, true⟩, rfl, ⟨rfl, rfl⟩, fun s' hbehind => ?_⟩
    obtain ⟨us, hw', hus⟩ := hbehind rfl
    refine ⟨ts ++ .name key :: us, ?_, hts.concat ⟨key, us, rfl, hus⟩⟩
    rw [← List.append_assoc]
    exact hw.trans ⟨hf, hw'⟩
  leave := by
    rintro bracket parts n i s ⟨ts, hw, hts⟩ hf hwhole
    rw [if_pos hwhole] at hw
    exact ⟨_, hw.trans (walks_one.2 ⟨hf, rfl⟩), hts.bracketed⟩
  skip_ok := by
    rintro i owner step j _ s' - ⟨-, rfl⟩ hr -
    exact hskip.ok hr
  skip_fails _ _ _ := trivial
  fails_before _ _ := trivial
  fails_name _ _ _ _ := trivial
  fails_leave _ _ _ _ := trivial
  fails_variant _ _ _ := trivial
  fails_plain _ := trivial
  fails_at _ _ := trivial
  fails_spent _ _ := trivial
  fails_part _ _ := trivial

namespace ConsumesValue

variable [TokenSource σ]

/-- Reading a document consumes a sentence. -/
theorem node (budget : Nat) (place : Place) : ConsumesValue (Decode.node budget place : Reading σ Node) := by
  apply ((ReadsSentence.node budget place).mono _).mono_error
  · intro e _
    trivial
  · intro n ts hts
    exact hts.discards

variable (hskip : ConsumesValue (Reading.skip : Reading σ Unit)) {c : Context} {r : Reading σ α} {placed : Bool}
  {p : α → Prop}
include hskip

theorem of_whole (h : ∀ s, (Along.stretch hskip).abreast.Whole placed ⟨s, true⟩ p r r) : ConsumesValue r := by
  intro s
  have hends := (h s).both (s := s) (t := s) ⟨rfl, trivial, rfl, rfl⟩
  revert hends
  cases r s with
  | error e s' => exact fun _ => trivial
  | ok a s' =>
    intro hends
    cases hends with
    | both hq => exact hq.2.2.2 rfl

theorem whole (h : ConsumesValue r) (i : Stretch σ) :
    (Along.stretch hskip).abreast.Whole placed i (fun _ => True) r r := by
  constructor
  · rintro s t ⟨hst, -, -, rfl⟩
    cases hst
    cases hr : r i.start with
    | ok a s' => exact .both ⟨trivial, rfl, trivial, fun _ => h.ok hr⟩
    | error e s' => exact .failed ⟨rfl, trivial⟩
  · rintro s e t ⟨hst, -⟩
    cases hst

theorem grounds (g : Config) : (Along.stretch hskip).abreast.Grounds c g g fun _ _ => True :=
  (Along.stretch hskip).grounds rfl (fun _ => trivial) (fun _ _ => .of_forall _ fun _ _ _ _ _ _ _ _ _ => trivial)
    (fun _ => .of_forall _ fun _ _ _ _ _ => trivial)
    (fun _ => ⟨fun _ _ => .of_forall _ fun _ _ => trivial, fun _ => trivial⟩) fun _ _ _ => trivial

/-- Whatever the type, reading a value consumes what one skip would have discarded. -/
theorem value (budget : Nat) (t : Ty) (place : Place) :
    ConsumesValue (Decode.value c budget t place : Reading σ Value) :=
  of_whole hskip fun _ => Abreast.value (grounds hskip c.config) budget ⟨rfl, trivial⟩ rfl t

theorem root (t : Ty) : ConsumesValue (Decode.root c t : Reading σ Value) := by
  refine Consumes.here fun s => ?_
  refine Consumes.bind (value hskip _ t _) fun v ts hts => ?_
  refine .lift (fun _ _ => ?_) fun _ _ => trivial
  rwa [List.append_nil]

/-- Members come whatever becomes of the assembly. -/
theorem members (r : Record) (creator : Creator) :
    (Along.stretch hskip).abreast.Members c c.config c.config r creator fun _ => True := by
  have hanywhere : ∀ e, (Along.stretch hskip).abreast.Anywhere e := by
    rintro e phase i s t ⟨hst, -⟩
    cases hst
    exact ⟨rfl, trivial⟩
  exact {
    argument _ _ _ := .of_forall _ hanywhere
    field _ _ _ := .of_forall _ hanywhere
    arrive _ h _ := (Along.stretch hskip).on_step_id h.before
    unknown _ h _ _ := (Along.stretch hskip).unknown h rfl fun _ => trivial }

/-- A member of a record is a name and then a value, whatever becomes of it. -/
theorem recordMember {r : Record} {creator : Creator} {capture : Place → Reading σ Node}
    {part : Ty → Place → Reading σ Value} (hcapture : ∀ place, ConsumesValue (capture place))
    (hpart : ∀ t place, ConsumesValue (part t place)) (place : Place) (state : Assembly × List (String × Node)) :
    Consumes (Decode.recordMember c r creator capture part place state) (fun _ ts => IsMember ts) fun _ => True := by
  intro s
  cases hr : Decode.recordMember c r creator capture part place state s with
  | error e s' => trivial
  | ok state' s' =>
    have hcloses : (front s).kind.closes = false := by
      rw [Bool.eq_false_iff]
      intro hcloses
      have hname : (Reading.name : Reading σ String) s =
          .error (.tokenMismatch TokenKind.name.text (front s).kind) s := by
        refine Reading.take_error fun u hu => ?_
        rw [hu] at hcloses
        cases u with
        | name => cases hcloses
        | startObject | endObject | startArray | endArray | string | number | bool | null => rfl
      rw [Decode.recordMember, Reading.bind_error hname] at hr
      cases hr
    have hon : (Along.stretch hskip).abreast.On (.inside .object 0 1 1) ⟨s, false⟩ s (.reading s) :=
      ⟨rfl, rfl, [], rfl, .nil .object⟩
    have hcaptures : (Along.stretch hskip).abreast.Parts false ⟨s, false⟩ (fun _ => True) capture capture := by
      rintro _ _ j - _ _ rfl
      exact whole hskip (hcapture _) j
    have hparts : ∀ t, (Along.stretch hskip).abreast.Parts true ⟨s, false⟩ (fun _ => True) (part t) (part t) := by
      rintro t _ _ j - _ _ rfl
      exact whole hskip (hpart t _) j
    have hplaced : (Along.stretch hskip).abreast.Placed ⟨s, false⟩ place place := rfl
    have hmembers := members hskip (c := c) r creator
    have hends := (Abreast.recordMember hmembers hcaptures hparts hplaced state trivial hon hcloses).both ⟨rfl, rfl⟩
    rw [hr] at hends
    cases hends with
    | both hq =>
      obtain ⟨-, -, -, ts, hw, ps, hlength, rfl, hps⟩ := hq
      obtain ⟨p, rfl⟩ := List.length_eq_one_iff.1 hlength
      refine ⟨p, ?_, hps p List.mem_cons_self⟩
      rw [if_neg Bool.false_ne_true, List.nil_append, List.flatten_singleton] at hw
      exact hw

end ConsumesValue

/-! ## Tapes -/

namespace TapeReader

theorem consumesValue_skip : ConsumesValue (Reading.skip : Reading TapeReader Unit) := .skip rfl

/-- Tokens that one skip discards are skipped. -/
theorem skip_of_walks {ts : List Token} (hts : Discards 0 ts) {s s' : TapeReader} (hw : Walks s ts s') :
    Reading.skip s = .ok () s' := by
  refine hts.skipByDepth hw (Nat.le_succ_of_le (Nat.le_trans ?_ s.plain_length_le))
  rw [plain_of_walks hw]
  simp [Tape.ofTokens]

/-- A member is passed over as a name and a skip. -/
theorem name_skip {ts : List Token} (hts : IsMember ts) {s s' : TapeReader} (hw : Walks s ts s') :
    (Reading.name >>= fun _ => Reading.skip) s = .ok () s' := by
  obtain ⟨key, us, rfl, hus⟩ := hts
  obtain ⟨hf, hw⟩ := hw
  have hname : (Reading.name : Reading TapeReader String) s = .ok key (advance s) := Reading.take_ok hf rfl
  rw [Reading.bind_ok hname]
  exact skip_of_walks hus hw

theorem skip_of_read {b : Binder} {t : Ty} {s s' : TapeReader} {v : Value} (h : b.read t s = (.ok v, s')) :
    Reading.skip.run s = (.ok (), s') := by
  unfold Binder.read Reading.run at h
  unfold Reading.run
  cases hr : Decode.root b.toContext t s with
  | error e s₁ =>
    rw [hr] at h
    cases h
  | ok w s₁ =>
    rw [hr] at h
    cases h
    obtain ⟨ts, hw, hts⟩ := (ConsumesValue.root consumesValue_skip t).ok hr
    rw [skip_of_walks hts hw]

end TapeReader

/-- Whatever stands on a tape from wherever a reader is: if a value of some type is read from there, a skip from
there succeeds too and leaves the reader at the same place, whether the type is registered first or not. And a
member of a record, be it bound to an argument or a field, read by a codec, absent, captured or skipped, is passed
over exactly as its name and a skip of its value, so that the members after it are read from the same place. -/
theorem read_skip (b : Binder) (t : Ty) (s s' : TapeReader) :
    (∀ v, b.read t s = (.ok v, s') → Reading.skip.run s = (.ok (), s')) ∧
    (∀ v b', b.decode t s = (.ok v, s', b') → Reading.skip.run s = (.ok (), s')) ∧
    ∀ (r : Record) (creator : Creator) (budget : Nat) (place : Place)
      (state state' : Assembly × List (String × Node)),
      Decode.recordMember b.toContext r creator (Decode.node budget) (Decode.value b.toContext budget) place state s
          = .ok state' s' →
        (Reading.name >>= fun _ => Reading.skip) s = .ok () s' := by
  refine ⟨fun v h => TapeReader.skip_of_read h, fun v b' h => ?_, fun r creator budget place state state' h => ?_⟩
  · rw [b.decode_eq, Prod.mk.injEq, Prod.mk.injEq] at h
    exact TapeReader.skip_of_read (Prod.ext h.1 h.2.1)
  · have hvalue := ConsumesValue.value TapeReader.consumesValue_skip (c := b.toContext) budget
    have hnode := ConsumesValue.node (σ := TapeReader) budget
    obtain ⟨ts, hw, hts⟩ := (ConsumesValue.recordMember TapeReader.consumesValue_skip hnode hvalue place state).ok h
    exact TapeReader.name_skip hts hw

/-- A key that no field has stands before a bracket that is closed by another kind of bracket: it is skipped, and
the record is read from what follows. -/
theorem read_skip_unbalanced :
    let b : Binder := { schema := { records := [Catalogue.baby] }, registry := {} }
    let s : TapeReader := ⟨Tape.ofTokens [.null, .startObject, .name "junk", .startArray, .name "x", .endObject,
      .name "name", .string "Ada", .endObject, .endArray], 3⟩
    let v : Value := Catalogue.make "Baby" [.string "Ada", .int .u32 0, Catalogue.level "LOW"]
    b.read (Catalogue.recordTy "Baby") (TokenStream.advance s) =
        (.ok v, ⟨[.mark (.token .endArray)], 12⟩) ∧
      Reading.skip.run (TokenStream.advance s) = (.ok (), ⟨[.mark (.token .endArray)], 12⟩) := by
  intro b s v
  have hread : b.read (Catalogue.recordTy "Baby") (TokenStream.advance s) =
      (.ok v, ⟨[.mark (.token .endArray)], 12⟩) := by
    rfl
  exact ⟨hread, (read_skip b _ _ _).1 v hread⟩

end Bindery
