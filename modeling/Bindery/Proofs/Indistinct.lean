import Bindery.Proofs.Grammar
import Bindery.Proofs.Written
/-!
# What is seen of codecs

A codec is asked for nulls and for documents of its wire kind, and for nothing else (`Decode.wire_eq`). So codecs that
agree there cannot be told apart, whatever else they do, and contexts that answer alike, up to codecs that cannot be
told apart, read and write alike wherever a value stands in another (`Context.Indistinct.root`,
`Context.Indistinct.encode`).
-/

namespace Bindery

open TokenStream (front advance)

/-! ## Documents of a wire kind -/

/-- A document begins with a token of its kind. -/
theorem Denotes.begins {ts : List Token} {n : Node} (h : Denotes ts n) :
    ∃ t rest, ts = t :: rest ∧ t.kind = n.kind := by
  cases h <;> exact ⟨_, _, rfl, rfl⟩

/-- A node that a codec of the wire kind is asked to read: not null, and of the kind. -/
def WireKind.Asked (wire : WireKind) (n : Node) : Prop := n.kind ≠ .null ∧ wire.accepts n.kind = true

namespace Decode

variable {σ : Type} [TokenStream σ]

/-- The document that is read is of the kind of the token at the front. -/
theorem node_whole {budget : Nat} {place : Place} {n : Node} {s s' : σ} (h : node budget place s = .ok n s') :
    n.kind = (front s).kind ∧ ∃ ts, Walks s ts s' ∧ Denotes ts n := by
  obtain ⟨ts, hw, hts⟩ := (ReadsSentence.node budget place).ok h
  obtain ⟨t, rest, rfl, hkind⟩ := hts.begins
  refine ⟨?_, _, hw, hts⟩
  rw [hw.1]
  exact hkind.symm

/-- A null goes to the codec, a token that does not begin its wire kind is refused, and what begins with one that does
is read to its end before the codec is asked. -/
theorem wire_eq (budget : Nat) (codec : Codec) (place : Place) (s : σ) :
    wire budget codec place s =
      if (front s).kind = .null then (Reading.lift codec.decodeNull : Reading σ Value) (advance s)
      else if codec.wire.accepts (front s).kind then
        match node budget place s with
        | .ok n s' => (Reading.lift (codec.decode n) : Reading σ Value) s'
        | .error e s' => .error e s'
      else .error (.tokenMismatch codec.wire.expected (front s).kind) s := by
  unfold wire
  rw [Reading.peek_bind]
  by_cases hnull : (front s).kind = .null
  · rw [if_pos hnull, if_pos hnull]
    have htoken : front s = .token .null := by
      cases hf : front s with
      | token t =>
        rw [hf] at hnull
        cases t <;> first | rfl | cases hnull
      | unknown | done =>
        rw [hf] at hnull
        cases hnull
    have hconsumed : (Reading.null : Reading σ Unit) s = .ok () (advance s) := by
      unfold Reading.null Reading.expect Reading.take
      rw [htoken]
      rfl
    exact Reading.bind_ok hconsumed
  · rw [if_neg hnull, if_neg hnull]
    by_cases haccepts : codec.wire.accepts (front s).kind
    · rw [if_pos haccepts, if_pos haccepts]
      cases hn : node budget place s with
      | ok n s' => exact Reading.bind_ok hn
      | error e s' => exact Reading.bind_error hn
    · rw [if_neg haccepts, if_neg haccepts]
      rfl

end Decode

/-! ## Indistinct codecs -/

/-- Codecs that agree on all that they are ever asked. -/
structure Codec.Indistinct (k l : Codec) : Prop where
  wire : l.wire = k.wire
  encode : ∀ v, l.encode v = k.encode v
  decodeNull : l.decodeNull = k.decodeNull
  decode : ∀ n, k.wire.Asked n → l.decode n = k.decode n

namespace Codec.Indistinct

theorem refl (k : Codec) : k.Indistinct k := ⟨rfl, fun _ => rfl, rfl, fun _ _ => rfl⟩

theorem read {σ : Type} [TokenStream σ] {k l : Codec} (h : k.Indistinct l) (budget : Nat) (place : Place) :
    (Decode.wire budget l place : Reading σ Value) = Decode.wire budget k place := by
  funext s
  rw [Decode.wire_eq, Decode.wire_eq, h.wire, h.decodeNull]
  split
  · rfl
  · next hnull =>
    split
    · next haccepts =>
      cases hn : Decode.node budget place s with
      | error e s' => rfl
      | ok n s' =>
        have hkind := (Decode.node_whole hn).1
        rw [← hkind] at hnull haccepts
        simp only [h.decode n ⟨hnull, haccepts⟩]
    · rfl

end Codec.Indistinct

/-- Ways to read that are the same, or by codecs that cannot be told apart. -/
inductive Context.Strategy.Indistinct : Strategy → Strategy → Prop
  | same (s : Strategy) : Indistinct s s
  | codec {k l : Codec} (h : k.Indistinct l) : Indistinct (.codec k) (.codec l)

/-- The same answers to whatever reading and writing ask, up to codecs that cannot be told apart. -/
structure Context.Indistinct (c d : Context) : Prop where
  schema : d.schema = c.schema
  config : d.config = c.config
  classify : ∀ t, d.classify t = c.classify t
  strategy : ∀ t, (c.strategy t).Indistinct (d.strategy t)
  codecFor? : ∀ t, Option.Rel Codec.Indistinct (c.codecFor? t) (d.codecFor? t)

namespace Context.Indistinct

variable {σ : Type} {c d : Context} (h : c.Indistinct d)
include h

/-! ## Reading -/

section Reading
variable [TokenSource σ]

theorem absent (t : Ty) : (Decode.absent d t : Reading σ Bool) = Decode.absent c t := by
  unfold Decode.absent
  rw [h.classify]

theorem unknown (type key : String) (child : Place) :
    (Decode.unknown d type key child : Reading σ Unit) = Decode.unknown c type key child := by
  unfold Decode.unknown
  rw [h.config]

theorem recordMember (r : Record) (creator : Creator) (capture : Place → Reading σ Node)
    (part : Ty → Place → Reading σ Value) (place : Place) :
    Decode.recordMember d r creator capture part place = Decode.recordMember c r creator capture part place := by
  funext state
  unfold Decode.recordMember
  simp only [h.absent, h.unknown]

theorem record (r : Record) (budget : Nat) (capture : Place → Reading σ Node) (part : Ty → Place → Reading σ Value)
    (place : Place) : Decode.record d r budget capture part place = Decode.record c r budget capture part place := by
  unfold Decode.record
  simp only [h.recordMember]

theorem refusal (t : Ty) : d.refusal t = c.refusal t := by
  unfold Context.refusal
  rw [h.schema]

theorem byStrategy (budget : Nat) (place : Place) (t : Ty) (form : Reading σ Value) :
    Decode.byStrategy d budget place t form = Decode.byStrategy c budget place t form := by
  unfold Decode.byStrategy
  have hs := h.strategy t
  generalize c.strategy t = u, d.strategy t = u' at hs
  cases hs with
  | same => rfl
  | codec hkl => exact hkl.read _ _

theorem level (budget : Nat) (part : Ty → Place → Reading σ Value) (place : Place) (t : Ty) :
    Decode.level d budget part place t = Decode.level c budget part place t := by
  -- Options are read by the level of their payload.
  induction t with
  | option payload ih =>
    rw [Decode.level.eq_def, Decode.level.eq_def]
    simp only [h.byStrategy, ih]
  | scalar | enum | seq | set | map | dynamic | record | foreign =>
    rw [Decode.level.eq_def, Decode.level.eq_def]
    simp only [h.byStrategy, h.record, h.schema, h.refusal]

theorem value (budget : Nat) : (Decode.value d budget : Ty → Place → Reading σ Value) = Decode.value c budget := by
  induction budget with
  | zero => rfl
  | succ budget ih =>
    funext t place
    unfold Decode.value
    rw [ih, h.level]

theorem root (t : Ty) : (Decode.root d t : Reading σ Value) = Decode.root c t := by
  unfold Decode.root Decode.rootWithin
  simp only [h.value, h.config]

end Reading

/-! ## Writing -/

omit h

theorem byCodec (h : c.Indistinct d) (v : Value) (byForm : Place → Emission) :
    Encode.byCodec d v byForm = Encode.byCodec c v byForm := by
  funext place
  unfold Encode.byCodec
  have hcodec := h.codecFor? v.ty
  generalize c.codecFor? v.ty = k?, d.codecFor? v.ty = l? at hcodec
  cases hcodec with
  | none => rfl
  | some hkl => simp only [hkl.encode]

theorem form (h : c.Indistinct d) (v : Value) : Encode.form d v = Encode.form c v := by
  have hmembers {parts parts' : List (String × (Place → Emission))}
      (hparts : List.Forall₂ (Encode.MemberRel Eq) parts parts') : parts = parts' := by
    rw [← List.forall₂_eq_eq_eq]
    exact hparts.imp fun _ _ hp => Prod.ext hp.1 hp.2
  suffices hrespects : Encode.Respects Eq d c from hrespects.form v
  refine {
    scalar := fun _ => rfl
    array := ?array
    object := ?object
    schema := h.schema.symm
    codec := ?codec
    foreignField := ?foreignField
    unsupported := fun _ => rfl }
  case array =>
    intro parts parts' owner hparts
    rw [List.forall₂_eq_eq_eq] at hparts
    rw [hparts]
  case object =>
    intro parts parts' owner hparts
    rw [hmembers hparts]
  case codec =>
    rintro v byForm _ rfl
    exact byCodec h v byForm
  case foreignField =>
    intro parts parts' type hparts
    rw [hmembers hparts]

theorem encode (h : c.Indistinct d) (v : Value) : Encode.root d v = Encode.root c v := by
  unfold Encode.root
  rw [h.form, h.config]

end Context.Indistinct
end Bindery
