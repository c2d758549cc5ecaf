import Bindery.Encode
import Mathlib.Data.List.Forall2
/-!
# What holds of all that is written

Values are written twice, side by side, in contexts of the same types. A relation between what is put down that holds
of scalars, and of containers if it holds of their parts (`Carries`), holds of what is written of a node; and if the
contexts write alike by codecs, and the relation holds where the writing of a value fails (`Respects`), it holds of what
is written of a value (`Respects.form`). What is shown of writings is one of these relations each time, also where it is
about a single writing, which is then related to whatever is written besides (`Carries.of_forall`).
-/

namespace Bindery.Encode

open Emission (token members fail)

variable {R : (Place → Emission) → (Place → Emission) → Prop} {P : (Place → Emission) → Prop} {c c' : Context}

/-! ## Nodes -/

/-- Members of the same name that are related. -/
def MemberRel (R : (Place → Emission) → (Place → Emission) → Prop) (p p' : String × (Place → Emission)) : Prop :=
  p.1 = p'.1 ∧ R p.2 p'.2

/-- What holds of related members holds of the first of each two. -/
theorem MemberRel.left {parts parts' : List (String × (Place → Emission))}
    (h : List.Forall₂ (MemberRel fun p _ => P p) parts parts') : ∀ p ∈ parts, P p.2 :=
  ((List.forall₂_and_left _ _).1 (h.imp fun _ _ hp => ⟨hp.2, trivial⟩)).1

/-- The relation holds of scalars, and of containers if it holds of their parts. -/
structure Carries (R : (Place → Emission) → (Place → Emission) → Prop) : Prop where
  scalar : ∀ {t : Token}, t.kind.isScalar → R (token · t) (token · t)
  array : ∀ {parts parts'} owner, List.Forall₂ R parts parts' → R (.array · owner parts) (.array · owner parts')
  object : ∀ {parts parts'} owner, List.Forall₂ (MemberRel R) parts parts' →
    R (.object · owner parts) (.object · owner parts')

namespace Carries

/-- A property of what is put down is a relation to whatever is put down besides. -/
theorem of_forall (hscalar : ∀ {t : Token}, t.kind.isScalar → P (token · t))
    (harray : ∀ {parts} owner, (∀ p ∈ parts, P p) → P (.array · owner parts))
    (hobject : ∀ {parts : List (String × (Place → Emission))} owner, (∀ p ∈ parts, P p.2) →
      P (.object · owner parts)) : Carries fun p _ => P p where
  scalar := hscalar
  array owner h := harray owner ((List.forall₂_and_left _ _).1 (h.imp fun _ _ hp => ⟨hp, trivial⟩)).1
  object owner h := hobject owner (MemberRel.left h)

mutual

theorem node (h : Carries R) : ∀ n : Node, R (Encode.node n) (Encode.node n)
  | .null => h.scalar rfl
  | .bool _ => h.scalar rfl
  | .number _ => h.scalar rfl
  | .string _ => h.scalar rfl
  | .array ns => h.array _ (nodeItems h ns)
  | .object es => h.object _ (nodeEntries h es)

theorem nodeItems (h : Carries R) : ∀ ns : List Node, List.Forall₂ R (Encode.nodeItems ns) (Encode.nodeItems ns)
  | [] => .nil
  | n :: ns => .cons (node h n) (nodeItems h ns)

theorem nodeEntries (h : Carries R) : ∀ es : List (String × Node),
    List.Forall₂ (MemberRel R) (Encode.nodeEntries es) (Encode.nodeEntries es)
  | [] => .nil
  | (_, n) :: es => .cons ⟨rfl, node h n⟩ (nodeEntries h es)

end

end Carries

/-! ## Codecs -/

theorem byCodec_some {v : Value} {k : Codec} (hk : c.codecFor? v.ty = some k) (byForm : Place → Emission) :
    byCodec c v byForm =
      match k.encode v with
      | .ok n => node n
      | .error e => fun _ => .fail e := by
  funext place
  cases hn : k.encode v <;> simp only [byCodec, hk, hn]

theorem byCodec_none {v : Value} (hk : c.codecFor? v.ty = none) (byForm : Place → Emission) :
    byCodec c v byForm = byForm := by
  funext place
  unfold byCodec
  rw [hk]

/-- A value whose type has a codec is written as the node that the codec spells. -/
theorem form_of_codec {v : Value} {k : Codec} (hk : c.codecFor? v.ty = some k) :
    form c v =
      match k.encode v with
      | .ok n => node n
      | .error e => fun _ => .fail e := by
  cases v with
  | node | object | array => cases hk
  | _ => rw [form, byCodec_some hk]

/-- What is written by the same codec is the same node, or fails with the same error. -/
theorem Carries.byCodec (h : Carries R) {v : Value} (hsame : c'.codecFor? v.ty = c.codecFor? v.ty)
    (hfail : ∀ {codec e}, c.codecFor? v.ty = some codec → codec.encode v = .error e →
      R (fun _ => fail e) (fun _ => fail e)) (byForm byForm' : Place → Emission) (hform : R byForm byForm') :
    R (byCodec c v byForm) (byCodec c' v byForm') := by
  cases hcodec : c.codecFor? v.ty with
  | none =>
    rw [byCodec_none hcodec, byCodec_none (hsame.trans hcodec)]
    exact hform
  | some codec =>
    rw [byCodec_some hcodec, byCodec_some (hsame.trans hcodec)]
    cases hencode : codec.encode v with
    | ok n => exact h.node n
    | error e => exact hfail hcodec hencode

/-! ## Records -/

/-- The members of an instance: one for each field, up to the first that shows nothing of it. -/
def front (r : Record) (instanceOf : String) (cells : List (Place → Emission)) :
    List (Option (String × (Place → Emission))) :=
  (r.fields.map fun f => if f.owner = instanceOf then cells[f.cell]?.map (f.name, ·) else none).takeWhile (·.isSome)

/-- The entries of the side object that are written behind the fields. -/
def behind (r : Record) (instanceOf : String) (side : List (String × Node)) : List (String × Node) :=
  match r.hybrid with
  | some h => if h.owner = instanceOf then sideEntries r side else []
  | none => []

/-- An instance is an object if all fields show something of it, else it breaks off where one does not. -/
theorem record_eq (r : Record) (instanceOf : String) (cells : List (Place → Emission)) (side : List (String × Node)) :
    record r instanceOf cells side =
      if (front r instanceOf cells).length = r.fields.length then
        (.object · r.name ((front r instanceOf cells).filterMap id ++ nodeEntries (behind r instanceOf side)))
      else fun place => token place .startObject ++ (members place r.name ((front r instanceOf cells).filterMap id)
        ++ fail (.typeError r.name .foreignField)) := by
  funext place
  unfold record front behind
  dsimp only
  split <;> rfl

/-! ## Values -/

/-- Writing in one context is related to writing in the other, codec by codec, and where it fails. -/
structure Respects (R : (Place → Emission) → (Place → Emission) → Prop) (c c' : Context) : Prop
    extends Carries R where
  schema : c'.schema = c.schema
  codec : ∀ v {byForm byForm'}, R byForm byForm' → R (byCodec c v byForm) (byCodec c' v byForm')
  foreignField : ∀ {parts parts'} type, List.Forall₂ (MemberRel R) parts parts' →
    R (fun place => token place .startObject ++ (members place type parts ++ fail (.typeError type .foreignField)))
      (fun place => token place .startObject ++ (members place type parts' ++ fail (.typeError type .foreignField)))
  unsupported : ∀ type, R (fun _ => fail (.unsupportedType type)) (fun _ => fail (.unsupportedType type))

/-- A property of what is written, which holds wherever the writing of a value fails. -/
theorem Respects.alone (h : Carries fun p _ => P p) (hfail : ∀ e, P fun _ => fail e)
    (hforeign : ∀ {parts : List (String × (Place → Emission))} type, (∀ p ∈ parts, P p.2) →
      P fun place => token place .startObject ++ (members place type parts ++ fail (.typeError type .foreignField))) :
    Respects (fun p _ => P p) c c where
  toCarries := h
  schema := rfl
  codec _ byForm byForm' hform := h.byCodec rfl (fun _ _ => hfail _) byForm byForm' hform
  foreignField type hparts := hforeign type (MemberRel.left hparts)
  unsupported _ := hfail _

theorem Rel.getElem? {α : Type} {S : α → α → Prop} {as as' : List α} (h : List.Forall₂ S as as') :
    ∀ i : Nat, Option.Rel S as[i]? as'[i]? := by
  induction h with
  | nil => exact fun _ => .none
  | cons ha _ ih =>
    rintro (_ | i)
    · exact .some ha
    · exact ih i

theorem Rel.filterMap {α : Type} {S : α → α → Prop} {os os' : List (Option α)}
    (h : List.Forall₂ (Option.Rel S) os os') : List.Forall₂ S (os.filterMap id) (os'.filterMap id) := by
  induction h with
  | nil => exact .nil
  | cons ho _ ih =>
    cases ho with
    | none => exact ih
    | some ha => exact .cons ha ih

/-- Instances with related cells show related members, and as many. -/
theorem front_related (r : Record) (instanceOf : String) {cells cells' : List (Place → Emission)}
    (h : List.Forall₂ R cells cells') :
    List.Forall₂ (Option.Rel (MemberRel R)) (front r instanceOf cells) (front r instanceOf cells') := by
  unfold front
  induction r.fields with
  | nil => exact .nil
  | cons f fields ih =>
    have hshown : Option.Rel (MemberRel R) (if f.owner = instanceOf then cells[f.cell]?.map (f.name, ·) else none)
        (if f.owner = instanceOf then cells'[f.cell]?.map (f.name, ·) else none) := by
      split
      · have hcell := Rel.getElem? h f.cell
        generalize cells[f.cell]? = o, cells'[f.cell]? = o' at hcell ⊢
        cases hcell with
        | none => exact .none
        | some hp => exact .some ⟨rfl, hp⟩
      · exact .none
    rw [List.map_cons, List.map_cons, List.takeWhile_cons, List.takeWhile_cons]
    generalize (if f.owner = instanceOf then cells[f.cell]?.map (f.name, ·) else none) = o at hshown ⊢
    generalize (if f.owner = instanceOf then cells'[f.cell]?.map (f.name, ·) else none) = o' at hshown ⊢
    cases hshown with
    | none => exact .nil
    | some hp => exact .cons (.some hp) ih

namespace Respects

theorem record (h : Respects R c c') (r : Record) (instanceOf : String) {cells cells' : List (Place → Emission)}
    (hcells : List.Forall₂ R cells cells') (side : List (String × Node)) :
    R (Encode.record r instanceOf cells side) (Encode.record r instanceOf cells' side) := by
  have hfront := front_related r instanceOf hcells
  rw [record_eq, record_eq, hfront.length_eq]
  split
  · exact h.object _ (List.rel_append (Rel.filterMap hfront) (h.nodeEntries _))
  · exact h.foreignField _ (Rel.filterMap hfront)

mutual

/-- What is written of a value. -/
theorem form (h : Respects R c c') : ∀ v : Value, R (Encode.form c v) (Encode.form c' v)
  | .unit | .bool _ | .char _ | .int _ _ | .f32 _ | .f64 _ | .string _ | .number _ | .variant _ _ _ | .none _ =>
    h.codec _ (h.scalar rfl)
  | .some v => h.codec _ (form h v)
  | .seq _ _ vs | .set _ _ vs => h.codec _ (h.array _ (forms h vs))
  | .map _ _ es => h.codec _ (h.object _ (entryForms h es))
  | .node n => h.node n
  | .object es => h.node (.object es)
  | .array ns => h.node (.array ns)
  | .record name cells side => by
    have hrecord := h.record (c.schema.record name) name (forms h cells) side
    exact h.codec _ (by rwa [h.schema])
  | .foreign name _ => h.codec _ (h.unsupported name)

theorem forms (h : Respects R c c') : ∀ vs : List Value, List.Forall₂ R (Encode.forms c vs) (Encode.forms c' vs)
  | [] => .nil
  | v :: vs => .cons (form h v) (forms h vs)

theorem entryForms (h : Respects R c c') : ∀ es : List (String × Value),
    List.Forall₂ (MemberRel R) (Encode.entryForms c es) (Encode.entryForms c' es)
  | [] => .nil
  | (_, v) :: es => .cons ⟨rfl, form h v⟩ (entryForms h es)

end

end Respects
end Bindery.Encode
