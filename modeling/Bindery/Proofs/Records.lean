import Bindery.Proofs.Rebuild
import Bindery.Proofs.Restored
import Mathlib.Data.List.TakeWhile
/-!
# Records and the objects that they are written as

A record that is written in full is an object of what all its fields show and of the entries of its side
object whose keys stand for no field (`record_object`). If the record makes its value anew from like field
values, such an object is read as a value like the one it was written for (`record_part`).
-/

namespace Bindery

open Value (Alike)

namespace Record

/-- The entries of the side object of a value that are written. -/
def written (r : Record) (v : Value) : List (String × Node) :=
  match r.hybrid.bind (·.side? v) with
  | some side => Encode.sideEntries r side
  | none => []

/-- The values that the fields show of a value. -/
def Shows (r : Record) (v : Value) (shown : List Value) : Prop :=
  List.Forall₂ (fun f x => f.get? v = some x) r.fields shown

/-- The record makes the value anew from the values of its fields and what is written of its side object.
A value of a field may come back with other NaNs, so this is asked of all values like those shown. -/
structure Remakes (r : Record) (v : Value) : Prop where
  check_eq : r.check = .ok ()
  typed : ∀ f ∈ r.fields, ∀ x, f.get? v = some x → x.ty = f.type
  written_distinct : (Node.object (r.written v)).Distinct
  rebuilt : ∃ creator, r.WellNamed creator ∧ ∀ shown values, r.Shows v shown → List.Forall₂ Alike shown values →
    ∃ w, r.rebuild creator values (r.written v) = .ok w ∧ Alike v w

end Record

/-- Entries under the names of fields, each restored from what its field shows. -/
def FieldsRestored (d : Context) (fields : List Field) (shown : List Value) (fs : List (String × Node)) : Prop :=
  List.Forall₂ (fun p e => e.1 = p.1.name ∧ Restored d p.2 e.2) (fields.zip shown) fs

/-- The members that a record is written as: what its fields show, then what is written of its side object. -/
def memberForms (c : Context) (r : Record) (v : Value) (shown : List Value) : List (String × (Place → Emission)) :=
  (r.fields.zip shown).map (fun p => (p.1.name, Encode.form c p.2)) ++ Encode.nodeEntries (r.written v)

section Records
variable {c d : Context} {r : Record} {name : String} {cells : List Value} {side : List (String × Node)}

theorem shown_eq (f : Field) :
    (if f.owner = name then (cells.map (Encode.form c))[f.cell]?.map (f.name, ·) else none) =
      (f.get? (.record name cells side)).map fun x => (f.name, Encode.form c x) := by
  unfold Field.get? Instance.ofValue?
  by_cases hname : name = f.owner
  · simp [hname, Option.map_map, Function.comp_def]
  · simp [hname, Ne.symm hname]

theorem written_none (h : r.hybrid = none) : r.written (.record name cells side) = [] := by
  unfold Record.written
  rw [h]
  rfl

theorem written_some {h : Hybrid} (hh : r.hybrid = some h) : r.written (.record name cells side) =
    if h.owner = name then Encode.sideEntries r side else [] := by
  unfold Record.written Hybrid.side? Instance.ofValue?
  rw [hh]
  by_cases hname : name = h.owner
  · simp [hname]
  · simp [hname, Ne.symm hname]

theorem shown_front {v : Value} {shown : List Value} (h : r.Shows v shown) :
    (r.fields.map fun f => (f.get? v).map fun x => (f.name, Encode.form c x)).filterMap id =
      (r.fields.zip shown).map fun p => (p.1.name, Encode.form c p.2) := by
  unfold Record.Shows at h
  generalize r.fields = fields at h ⊢
  induction h with
  | nil => rfl
  | cons hf _ ih => simp [hf, ← ih]

/-- A record that is written in full is an object, and all its fields show something. -/
theorem record_object {place : Place}
    (hok : (Encode.record r name (cells.map (Encode.form c)) side place).failure = none) :
    ∃ shown, r.Shows (.record name cells side) shown ∧
      Encode.record r name (cells.map (Encode.form c)) side place =
        .object place r.name (memberForms c r (.record name cells side) shown) := by
  have hfront : Encode.front r name (cells.map (Encode.form c)) =
      (r.fields.map fun f => (f.get? (.record name cells side)).map fun x => (f.name, Encode.form c x)).takeWhile
        (·.isSome) := by
    unfold Encode.front
    simp only [@shown_eq c name cells side]
  have hbehind : Encode.behind r name side = r.written (.record name cells side) := by
    unfold Encode.behind
    cases hh : r.hybrid with
    | none => rw [written_none hh]
    | some h => rw [written_some hh]
  rw [Encode.record_eq] at hok ⊢
  split at hok
  · next hlength =>
    rw [if_pos hlength, hbehind, hfront]
    rw [hfront] at hlength
    -- All fields were taken, so each of them shows something.
    have hall := (List.takeWhile_prefix _).eq_of_length (hlength.trans (List.length_map _).symm)
    rw [hall]
    rw [List.takeWhile_eq_self_iff] at hall
    obtain ⟨shown, hshown⟩ : ∃ shown, r.Shows (.record name cells side) shown := by
      refine exists_forall₂ fun f hf => ?_
      have hsome := hall _ (List.mem_map_of_mem hf)
      rw [Option.isSome_map] at hsome
      exact Option.isSome_iff_exists.1 hsome
    exact ⟨shown, hshown, by rw [shown_front hshown, memberForms]⟩
  · rw [Emission.append_failure, Emission.append_failure] at hok
    cases hok.2.2

/-- What is written for the fields is read as a value for each of them. -/
theorem exists_rows (place : Place) {fields : List Field} {shown : List Value} {fs : List (String × Node)}
    (htyped : List.Forall₂ (fun f x => x.ty = f.type) fields shown) : FieldsRestored d fields shown fs →
    ∃ rows : List (Field × Node × Value), rows.map (·.1) = fields ∧ rows.map (fun p => (p.1.name, p.2.1)) = fs ∧
      List.Forall₂ Alike shown (rows.map (·.2.2)) ∧ (∀ p ∈ rows, Tree.absent d p.1.type p.2.1 = false) ∧
      ∀ p ∈ rows, Tree.value d p.2.1 p.1.type (place.member r.name p.1.name) = .ok p.2.2 := by
  induction htyped generalizing fs with
  | nil =>
    intro h
    cases h
    exact ⟨[], rfl, rfl, .nil, by simp, by simp⟩
  | @cons f x fields shown hty _ ih =>
    intro h
    unfold FieldsRestored at h
    rw [List.zip_cons_cons] at h
    cases h with
    | @cons _ e _ fs he h =>
      obtain ⟨rows, hfields, hfs, halike, habsent, hread⟩ := ih h
      obtain ⟨w, hw, hxw⟩ := he.2.read (place.member r.name f.name)
      -- Only a value whose type accepts nulls, or has a codec, is written as null.
      have hpresent : Tree.absent d f.type e.2 = false := by
        by_cases hkind : e.2.kind = .null
        · rcases he.2.null hkind with hnull | hcodec
          · simp [Tree.absent, ← hty, hnull]
          · simp [Tree.absent, ← hty, hcodec]
        · simp [Tree.absent, hkind]
      refine ⟨(f, e.2, w) :: rows, ?_, ?_, .cons hxw halike, ?_, ?_⟩
      · rw [List.map_cons, hfields]
      · rw [List.map_cons, hfs, ← he.1]
      · exact List.forall_mem_cons.2 ⟨hpresent, habsent⟩
      · exact List.forall_mem_cons.2 ⟨hty ▸ hw, hread⟩

theorem mem_written {v : Value} {e : String × Node} (he : e ∈ r.written v) :
    r.hybrid.isSome ∧ r.fieldIndex? e.1 = none := by
  unfold Record.written at he
  cases hh : r.hybrid with
  | none => simp [hh] at he
  | some h =>
    simp only [hh, Option.bind_some] at he
    split at he
    · simpa [Encode.sideEntries] using (List.mem_filter.1 he).2
    · cases he

theorem written_kept {v : Value} (h : (Node.object (r.written v)).Distinct) :
    (∀ e ∈ r.written v, r.hybrid.isSome ∧ r.fieldIndex? e.1 = none ∧ e.2.collapse = e.2) ∧
      (Entries.keys (r.written v)).Nodup := by
  cases h with
  | object hkeys hentries =>
    exact ⟨fun e he => ⟨(mem_written he).1, (mem_written he).2, (hentries e he).collapse⟩, hkeys⟩

/-- The nodes of the fields, each as its value promises, then the entries of the side object. -/
theorem record_puts {R : Value → Node → Prop} {place : Place} {v : Value} {shown : List Value}
    (hshown : r.Shows v shown) (h : ∀ f ∈ r.fields, ∀ x, f.get? v = some x → Emission.Part (Encode.form c) R x)
    (hok : (Emission.object place r.name (memberForms c r v shown)).failure = none) :
    ∃ fs, (Emission.object place r.name (memberForms c r v shown)).Puts (Node.object (fs ++ r.written v)).tokens ∧
      List.Forall₂ (fun p e => e.1 = p.1.name ∧ R p.2 e.2) (r.fields.zip shown) fs := by
  -- The entries are of two sorts, and each sort has its own emission and its own promise.
  let fields : List (String × (Value ⊕ Node)) := (r.fields.zip shown).map fun p => (p.1.name, .inl p.2)
  let others : List (String × (Value ⊕ Node)) := (r.written v).map fun e => (e.1, .inr e.2)
  have hentries : memberForms c r v shown =
      (fields ++ others).map fun e => (e.1, Sum.elim (Encode.form c) Encode.node e.2) := by
    simp [memberForms, fields, others, Encode.nodeEntries_eq, Function.comp_def]
  rw [hentries] at hok ⊢
  have hparts : ∀ e ∈ fields ++ others,
      Emission.Part (Sum.elim (Encode.form c) Encode.node) (Sum.elim R Eq) e.2 := by
    intro e he
    rcases List.mem_append.1 he with he | he
    · obtain ⟨p, hp, rfl⟩ := List.mem_map.1 he
      exact h p.1 (List.of_mem_zip hp).1 p.2 (List.forall₂_zip hshown hp)
    · obtain ⟨p, -, rfl⟩ := List.mem_map.1 he
      exact Encode.node_part p.2
  obtain ⟨es, hes, hrestored⟩ := Emission.object_puts hparts place _ hok
  obtain ⟨fs, ss, rfl, hfs, hss⟩ := forall₂_append_left hrestored
  rw [List.forall₂_map_left_iff] at hfs hss
  have hside : List.Forall₂ Eq (r.written v) ss := hss.imp fun e s h => Prod.ext h.1.symm h.2
  rw [List.forall₂_eq_eq_eq] at hside
  exact ⟨fs, hside ▸ hes, hfs⟩

theorem names_eq {R : Value → Node → Prop} {v : Value} {shown : List Value} {fs : List (String × Node)}
    (hshown : r.Shows v shown)
    (hfs : List.Forall₂ (fun p e => e.1 = p.1.name ∧ R p.2 e.2) (r.fields.zip shown) fs) :
    Entries.keys fs = r.fields.map (·.name) := by
  have hkeys : Entries.keys fs = Entries.keys ((r.fields.zip shown).map fun p => (p.1.name, p.2)) :=
    Entries.keys_of_forall₂ (R := R) (List.forall₂_map_left_iff.2 hfs)
  have hfst := List.map_fst_zip (Nat.le_of_eq hshown.length_eq)
  rw [hkeys]
  conv_rhs => rw [← hfst]
  simp [Entries.keys]

/-- No key is repeated, since what is written of the side object stands for no field. -/
theorem keys_nodup {v : Value} {fs : List (String × Node)} (hnames : (r.fields.map (·.name)).Nodup)
    (hwritten : (Entries.keys (r.written v)).Nodup) (hkeys : Entries.keys fs = r.fields.map (·.name)) :
    (Entries.keys (fs ++ r.written v)).Nodup := by
  have hfields : (Entries.keys fs).Nodup := hkeys ▸ hnames
  rw [Entries.keys, List.map_append, List.nodup_append]
  refine ⟨hfields, hwritten, ?_⟩
  rintro key hkey other hother rfl
  have hmem : key ∈ Entries.keys fs := hkey
  rw [hkeys] at hmem
  obtain ⟨f, hf, rfl⟩ := List.mem_map.1 hmem
  obtain ⟨e, he, hname⟩ := List.mem_map.1 hother
  obtain ⟨i, hi⟩ := List.mem_iff_getElem?.1 hf
  -- An entry under the name of a field is not written.
  have hindex := (mem_written he).2
  rw [hname, Record.fieldIndex?_name hnames hi] at hindex
  cases hindex

theorem distinct_record {v : Value} {shown : List Value} {fs : List (String × Node)}
    (hnames : (r.fields.map (·.name)).Nodup) (hwritten : (Node.object (r.written v)).Distinct)
    (hshown : r.Shows v shown) (hfs : FieldsRestored d r.fields shown fs) :
    (Node.object (fs ++ r.written v)).Distinct := by
  cases hwritten with
  | object hside hentries =>
    refine .object ?_ fun e he => ?_
    · exact keys_nodup hnames hside (names_eq hshown hfs)
    · rcases List.mem_append.1 he with he | he
      · obtain ⟨p, -, hp⟩ := forall₂_exists_left hfs he
        exact hp.2.distinct
      · exact hentries e he

/-- A record without a codec that is written in full is an object of what its fields show, each as its value promises,
and of what is written of its side object. -/
theorem record_written {R : Value → Node → Prop} (hcodec : c.codecFor? (.record name) = none)
    (h : ∀ f ∈ (c.schema.record name).fields, ∀ x, f.get? (.record name cells side) = some x →
      Emission.Part (Encode.form c) R x) {place : Place}
    (hok : (Encode.form c (.record name cells side) place).failure = none) :
    ∃ shown fs, (c.schema.record name).Shows (.record name cells side) shown ∧
      (Encode.form c (.record name cells side) place).Puts
        (Node.object (fs ++ (c.schema.record name).written (.record name cells side))).tokens ∧
      List.Forall₂ (fun p e => e.1 = p.1.name ∧ R p.2 e.2) ((c.schema.record name).fields.zip shown) fs := by
  have hform : Encode.form c (.record name cells side) place =
      Encode.record (c.schema.record name) name (cells.map (Encode.form c)) side place := by
    simp only [Encode.form, Encode.byCodec, Value.ty, hcodec, Encode.forms_eq]
  rw [hform] at hok ⊢
  obtain ⟨shown, hshown, hobject⟩ := record_object hok
  rw [hobject] at hok ⊢
  obtain ⟨fs, hputs, hfs⟩ := record_puts hshown h hok
  exact ⟨shown, fs, hshown, hputs, hfs⟩

/-- Records. -/
theorem record_part (hd : c.Agree d) (hcodec : c.codecFor? (.record name) = none)
    (hremakes : (c.schema.record name).Remakes (.record name cells side))
    (h : ∀ f ∈ (c.schema.record name).fields, ∀ x, f.get? (.record name cells side) = some x →
      Emission.Part (Encode.form c) (Restored d) x) :
    Emission.Part (Encode.form c) (Restored d) (.record name cells side) := by
  have hs : d.strategy (.record name) = .byStructure := by
    refine hd.byStructure hcodec (by simp) ?_
    simp only [Schema.classify, hremakes.check_eq]
    cases (c.schema.record name).hybrid <;> simp
  obtain ⟨creator, hnamed, hrebuilt⟩ := hremakes.rebuilt
  intro place hok
  obtain ⟨shown, fs, hshown, hputs, hfs⟩ := record_written hcodec h hok
  have hdistinct := distinct_record hnamed.fields hremakes.written_distinct hshown hfs
  refine ⟨_, hputs, hdistinct, by simp [Node.kind], fun place => ?_⟩
  have htyped : List.Forall₂ (fun f x => x.ty = f.type) (c.schema.record name).fields shown := by
    rw [List.forall₂_iff_zip]
    exact ⟨hshown.length_eq, fun hp => hremakes.typed _ (List.of_mem_zip hp).1 _ (List.forall₂_zip hshown hp)⟩
  obtain ⟨rows, hfields, rfl, halike, habsent, hread⟩ :=
    exists_rows (r := c.schema.record name) place htyped hfs
  -- What is read for the fields is like what they show, so the record makes its value anew from it.
  obtain ⟨w, hw, hvw⟩ := hrebuilt shown _ hshown halike
  refine ⟨w, ?_, hvw⟩
  obtain ⟨hside, hkeys⟩ := written_kept hremakes.written_distinct
  have hrecord := Record.record_rebuilt hnamed ⟨hfields, habsent, hread⟩ hside hkeys
  rw [hw] at hrecord
  rw [Tree.value_ok]
  unfold Tree.level Tree.byStrategy
  simp only [Value.ty, hs, hd.schema_eq, Node.entries?, Option.getD_some]
  exact toOption_some hrecord

end Records

end Bindery
