import Bindery.Proofs.Construction
/-!
# Records made anew

`Record.rebuild` makes an instance from values of all fields, told without an assembly: the values of
the fields that an argument is named after make it, unless it can be made without arguments, the others
are assigned in order of declaration, and the side object is installed last. An object that holds the
fields in order, and then entries that stand for no field, is read as just that (`record_rebuilt`). Keys
of the side object may be aliases of arguments: the constructor has run when they come.
-/

namespace Bindery

/-! ## Slots -/

namespace ArgSlots

theorem free_of_fill {arguments : List (Nat × Value)} : ∀ {a : ArgSlots} {i : Nat},
    (a.fill arguments).slots[i]? = some none → a.slots[i]? = some none ∧ i ∉ arguments.map (·.1) := by
  induction arguments with
  | nil => intro a i h; exact ⟨h, by simp⟩
  | cons p arguments ih =>
    intro a i h
    have hput : a.fill (p :: arguments) = ArgSlots.fill (a.put p.1 p.2).2 arguments := rfl
    rw [hput, put_snd] at h
    obtain ⟨hfree, hnot⟩ := ih h
    rw [List.getElem?_set] at hfree
    by_cases hp : p.1 = i
    · rw [if_pos hp] at hfree
      split at hfree <;> cases hfree
    · rw [if_neg hp] at hfree
      exact ⟨hfree, by simp [Ne.symm hp, hnot]⟩

/-- Nothing is missing once something came for every slot. -/
theorem missing_fill {a : ArgSlots} {arguments : List (Nat × Value)}
    (h : ∀ i < a.slots.length, i ∈ arguments.map (·.1)) : (a.fill arguments).missing = 0 := by
  unfold missing
  rw [List.countP_eq_zero]
  intro slot hslot hnone
  obtain ⟨i, hi⟩ := List.mem_iff_getElem?.1 hslot
  rw [Option.isNone_iff_eq_none.1 hnone] at hi
  obtain ⟨hfree, hnot⟩ := free_of_fill hi
  exact hnot (h i (List.getElem?_eq_some_iff.1 hfree).1)

end ArgSlots

/-! ## What field values are for -/

namespace Creator

variable (creator : Creator)

/-- The argument that is named after a field, if the instance cannot be made without arguments. -/
def argumentFor? (f : Field) : Option Nat :=
  if creator.noArgs.isSome then none else creator.args.findIdx? (·.name == f.name)

/-- The instance without arguments, or what the constructor makes of the arguments. -/
def make (arguments : List (Nat × Value)) : Except BindError Value :=
  match creator.noArgs with
  | some v => .ok v
  | none => (creator.construct (creator.newSlots.fill arguments)).outcome

end Creator

namespace Record

/-- Makes an instance from values of all fields and the entries of a side object. -/
def rebuild (r : Record) (creator : Creator) (values : List Value) (side : List (String × Node)) :
    Except BindError Value := do
  let given := r.fields.zip values
  let made ← creator.make (given.filterMap fun p => (creator.argumentFor? p.1).map fun i => (i, p.2))
  let v ← (given.filter fun p => (creator.argumentFor? p.1).isNone).foldlM
    (fun v p => do return (← p.1.set v p.2).2) made
  match r.hybrid with
  | some h => h.install v side
  | none => return v

/-- The names tell the fields and the arguments apart, and every argument is the value of a field. -/
structure WellNamed (r : Record) (creator : Creator) : Prop where
  creator_eq : r.creator = some creator
  fields : (r.fields.map (·.name)).Nodup
  args : creator.noArgs = none → (creator.args.map (·.name)).Nodup
  args_fields : creator.noArgs = none → ∀ arg ∈ creator.args, ∃ f ∈ r.fields, f.name = arg.name ∧ f.type = arg.type
  args_aliases : creator.noArgs = none → ∀ arg ∈ creator.args, ∀ f ∈ r.fields, f.name ∈ arg.aliases →
    f.name = arg.name

namespace WellNamed

variable {r : Record} {creator : Creator} (h : r.WellNamed creator)
include h

theorem field_unique {f g : Field} (hf : f ∈ r.fields) (hg : g ∈ r.fields) (hname : f.name = g.name) : f = g :=
  List.inj_on_of_nodup_map h.fields hf hg hname

/-- The name of a field stands for the argument named after it, whatever the aliases. -/
theorem argIndex?_eq (hwaits : creator.noArgs = none) {f : Field} (hf : f ∈ r.fields) :
    creator.argIndex? f.name = creator.args.findIdx? (·.name == f.name) := by
  cases hi : creator.args.findIdx? (·.name == f.name) with
  | some i =>
    obtain ⟨hlt, hname, -⟩ := List.findIdx?_eq_some_iff_getElem.1 hi
    rw [← of_decide_eq_true hname]
    exact Creator.argIndex?_name (h.args hwaits) (List.getElem?_eq_getElem hlt)
  | none =>
    -- An argument that goes by the name as an alias would be named after the field.
    rw [List.findIdx?_eq_none_iff] at hi
    by_contra hsome
    obtain ⟨i, hi'⟩ := Option.ne_none_iff_exists'.1 hsome
    obtain ⟨arg, harg, hgoes⟩ := Creator.argIndex?_goesBy hi'
    have hmem := List.mem_of_getElem? harg
    have hname : arg.name = f.name := by
      rcases hgoes with hname | halias
      · exact hname
      · exact (h.args_aliases hwaits arg hmem f hf halias).symm
    simpa [hname] using hi arg hmem

/-- What is awaited under the name of a field is a value of the field's type. -/
theorem awaited_eq {f : Field} (hf : f ∈ r.fields) :
    creator.awaited f.name = (creator.argumentFor? f).map fun i => (i, f.type) := by
  unfold Creator.awaited Creator.argumentFor?
  cases hwaits : creator.noArgs with
  | some v => rfl
  | none =>
    have hindex := h.argIndex?_eq hwaits hf
    simp only [Option.isSome_none, Bool.false_eq_true, if_false, Creator.argumentOf, hindex]
    cases hi : creator.args.findIdx? (·.name == f.name) with
    | none => rfl
    | some i =>
      obtain ⟨hlt, hname, -⟩ := List.findIdx?_eq_some_iff_getElem.1 hi
      obtain ⟨g, hg, hgname, hgtype⟩ := h.args_fields hwaits _ (List.getElem_mem hlt)
      have hfg : g = f := h.field_unique hg hf (hgname.trans (of_decide_eq_true hname))
      simp [List.getElem?_eq_getElem hlt, ← hgtype, hfg]

end WellNamed

/-! ## The fields, one by one -/

/-- What the value of a field is for. -/
def given (r : Record) (creator : Creator) (f : Field) (v : Value) : Brought :=
  match creator.argumentFor? f, r.fieldIndex? f.name with
  | some i, _ => .argument i v
  | none, some i => .field i v
  | none, none => .nothing

variable {c : Context} {r : Record} {creator : Creator} {place : Place}

theorem given_argument? (f : Field) (v : Value) :
    (r.given creator f v).argument? = (creator.argumentFor? f).map fun i => (i, v) := by
  unfold given
  cases creator.argumentFor? f with
  | some i => rfl
  | none => cases r.fieldIndex? f.name <;> rfl

theorem given_other? (f : Field) (v : Value) : (r.given creator f v).other? = none := by
  unfold given
  split <;> rfl

/-- The fields that no argument is named after are assigned in order. -/
theorem assign_given (h : r.WellNamed creator) {ps : List (Field × Value)} (hps : ∀ p ∈ ps, p.1 ∈ r.fields) :
    ∀ made : Value, ((ps.filterMap fun p => (r.given creator p.1 p.2).field?).foldlM
        (Assembly.assign r) made).outcome = (ps.filter fun p => (creator.argumentFor? p.1).isNone).foldlM
        (fun v p => do return (← p.1.set v p.2).2) made := by
  simp only [Making.outcome_foldlM]
  induction ps with
  | nil => intro made; rfl
  | cons p ps ih =>
    intro made
    have hrest := ih fun q hq => hps q (List.mem_cons_of_mem p hq)
    obtain ⟨i, hi⟩ := List.mem_iff_getElem?.1 (hps p List.mem_cons_self)
    have hindex := Record.fieldIndex?_name h.fields hi
    cases ha : creator.argumentFor? p.1 with
    | some j =>
      have hnone : (r.given creator p.1 p.2).field? = none := by simp [given, ha, Brought.field?]
      simp only [List.filterMap_cons, hnone]
      rw [List.filter_cons_of_neg (by simp [ha])]
      exact hrest made
    | none =>
      have hsome : (r.given creator p.1 p.2).field? = some (i, p.2) := by simp [given, ha, hindex, Brought.field?]
      have hassign : (Assembly.assign r made (i, p.2)).outcome = do return (← p.1.set made p.2).2 := by
        simp only [Assembly.assign, hi, Making.outcome_bind, Making.outcome_does, Making.outcome_lift,
          Making.outcome_pure, ok_bind]
        rfl
      simp only [List.filterMap_cons, hsome]
      rw [List.filter_cons_of_pos (by simp [ha]), List.foldlM_cons, List.foldlM_cons, hassign]
      exact bind_congr hrest

/-- What is read under the name of a field is what the value of the field is for. -/
theorem brings_given (h : r.WellNamed creator) {f : Field} (hf : f ∈ r.fields) {n : Node} {v : Value}
    (hpresent : Tree.absent c f.type n = false)
    (hread : Tree.value c n f.type (place.member r.name f.name) = .ok v) :
    r.brings c creator.awaited place (f.name, n) = some (r.given creator f v) := by
  obtain ⟨i, hi⟩ := List.mem_iff_getElem?.1 hf
  have hindex := Record.fieldIndex?_name h.fields hi
  have hto : ∀ target, bringsTo c target f.type (place.member r.name f.name) n = some (target v) := by
    intro target
    simp [bringsTo, hpresent, Decode.ofNode_eq, hread, Except.toOption]
  unfold brings given
  rw [h.awaited_eq hf]
  cases creator.argumentFor? f with
  | some j => exact hto _
  | none =>
    simp only [Option.map_none, fieldOf, hindex, Option.bind_some, hi, Option.map_some]
    exact hto _

/-! ## All fields, then the side object -/

/-- Every field with a node that is read as a value for it. -/
structure Rows (c : Context) (r : Record) (place : Place) (rows : List (Field × Node × Value)) : Prop where
  fields_eq : rows.map (·.1) = r.fields
  present : ∀ p ∈ rows, Tree.absent c p.1.type p.2.1 = false
  read : ∀ p ∈ rows, Tree.value c p.2.1 p.1.type (place.member r.name p.1.name) = .ok p.2.2

namespace Rows

variable {rows : List (Field × Node × Value)} (hrows : Rows c r place rows)
include hrows

theorem mem_fields {p : Field × Node × Value} (hp : p ∈ rows) : p.1 ∈ r.fields :=
  hrows.fields_eq ▸ List.mem_map_of_mem hp

variable (h : r.WellNamed creator)
include h

theorem brings_eq :
    (rows.map fun p => (p.1.name, p.2.1)).mapM (r.brings c creator.awaited place) =
      some (rows.map fun p => r.given creator p.1 p.2.2) := by
  rw [List.mapM_map]
  exact mapM_of_forall fun p hp => brings_given h (hrows.mem_fields hp) (hrows.present p hp) (hrows.read p hp)

/-- No two fields are for one argument. -/
theorem arguments_nodup (hwaits : creator.noArgs = none) :
    ((rows.map fun p => (p.1.name, p.2.1)).filterMap (creator.argIndex? ·.1)).Nodup := by
  have hnames : (rows.map fun p => (p.1.name, p.2.1)).filterMap (creator.argIndex? ·.1) =
      (r.fields.map (·.name)).filterMap fun name => creator.args.findIdx? (·.name == name) := by
    rw [← hrows.fields_eq, List.map_map, List.filterMap_map, List.filterMap_map]
    exact List.filterMap_congr fun p hp => h.argIndex?_eq hwaits (hrows.mem_fields hp)
  rw [hnames]
  refine h.fields.filterMap fun name other i hname hother => ?_
  obtain ⟨hlt, hname, -⟩ := List.findIdx?_eq_some_iff_getElem.1 (Option.mem_def.1 hname)
  obtain ⟨_, hsame, -⟩ := List.findIdx?_eq_some_iff_getElem.1 (Option.mem_def.1 hother)
  exact (of_decide_eq_true hname).symm.trans (of_decide_eq_true hsame)

/-- Some field is for each argument. -/
theorem arguments_all (hwaits : creator.noArgs = none) :
    ∀ i < creator.newSlots.slots.length,
      i ∈ ((rows.map fun p => r.given creator p.1 p.2.2).filterMap Brought.argument?).map (·.1) := by
  intro i hi
  have hlt : i < creator.args.length := by simpa [Creator.newSlots, ArgSlots.empty] using hi
  obtain ⟨f, hf, hname, -⟩ := h.args_fields hwaits _ (List.getElem_mem hlt)
  rw [← hrows.fields_eq] at hf
  obtain ⟨p, hp, rfl⟩ := List.mem_map.1 hf
  have hindex : creator.argumentFor? p.1 = some i := by
    have hargs := Creator.argIndex?_name (h.args hwaits) (List.getElem?_eq_getElem hlt)
    rw [← hname, h.argIndex?_eq hwaits (hrows.mem_fields hp)] at hargs
    simp [Creator.argumentFor?, hwaits, hargs]
  rw [List.filterMap_map, List.map_filterMap, List.mem_filterMap]
  exact ⟨p, hp, by simp [given_argument?, hindex]⟩

/-- After the fields the instance is there. -/
theorem run_fields :
    (Assembly.opening r creator).outcome.toOption.bind
        (fun assembly => run c r creator place (assembly, []) (rows.map fun p => (p.1.name, p.2.1))) =
      (creator.make ((rows.map fun p => r.given creator p.1 p.2.2).filterMap Brought.argument?) >>= fun made =>
        (((rows.map fun p => r.given creator p.1 p.2.2).filterMap Brought.field?).foldlM
          (Assembly.assign r) made).outcome).toOption.map fun v => (.constructed v, []) := by
  have hbrings := hrows.brings_eq h
  have hother : (rows.map fun p => r.given creator p.1 p.2.2).filterMap Brought.other? = [] := by
    rw [List.filterMap_map, List.filterMap_eq_nil_iff]
    exact fun p _ => given_other? _ _
  have hnodup : creator.noArgs = none → _ := hrows.arguments_nodup h
  rw [run_opened hnodup, hbrings, Option.bind_some, hother]
  cases hwaits : creator.noArgs with
  | some v =>
    have hmake : ∀ arguments, creator.make arguments = .ok v := fun _ => by simp only [Creator.make, hwaits]
    rw [opened_of_made hwaits, hmake, Option.map_map]
    rfl
  | none =>
    have hmake : ∀ arguments, creator.make arguments = (creator.construct (creator.newSlots.fill arguments)).outcome :=
      fun _ => by simp only [Creator.make, hwaits]
    -- Every argument comes with its field, so nothing is missing at the end and the constructor has run.
    rw [opened_of_waiting hwaits]
    simp only [ArgSlots.missing_fill (hrows.arguments_all h hwaits), settle_full, Option.map_map, hmake]
    rfl

end Rows

/-- Entries that stand for no field are the side object of an instance that is there. -/
theorem run_side {side : List (String × Node)}
    (hside : ∀ e ∈ side, r.hybrid.isSome ∧ r.fieldIndex? e.1 = none ∧ e.2.collapse = e.2)
    (hkeys : (Entries.keys side).Nodup) (v : Value) :
    run c r creator place (.constructed v, []) side = some (.constructed v, side) := by
  have hbrings : side.mapM (r.brings c (fun _ => none) place) = some (side.map fun e => .other e.1 e.2) := by
    refine mapM_of_forall fun e he => ?_
    obtain ⟨hhybrid, hindex, hcollapse⟩ := hside e he
    simp [brings, fieldOf, hindex, hhybrid, hcollapse]
  have hfields : (side.map fun e => Brought.other e.1 e.2).filterMap Brought.field? = [] := by
    simp [List.filterMap_map, Brought.field?, Function.comp_def]
  have hothers : (side.map fun e => Brought.other e.1 e.2).filterMap Brought.other? = side := by
    simp [List.filterMap_map, Brought.other?, Function.comp_def]
  rw [run_constructed, hbrings, Option.bind_some, hfields, hothers]
  simp only [List.foldlM_nil, show Entries.insertAll [] side = side from Entries.ofList_of_nodup hkeys]
  rfl

/-- An object that holds all fields in order and then entries that stand for no field is read as the
record made anew from the values of the fields. -/
theorem record_rebuilt (h : r.WellNamed creator) {rows : List (Field × Node × Value)} (hrows : Rows c r place rows)
    {side : List (String × Node)}
    (hside : ∀ e ∈ side, r.hybrid.isSome ∧ r.fieldIndex? e.1 = none ∧ e.2.collapse = e.2)
    (hkeys : (Entries.keys side).Nodup) :
    let es := rows.map (fun p => (p.1.name, p.2.1)) ++ side
    (Tree.record c r (.object es) (es.map fun e => (e.1, e.2, Tree.value c e.2)) place).toOption =
      (r.rebuild creator (rows.map (·.2.2)) side).toOption := by
  intro es
  have hzip : r.fields.zip (rows.map (·.2.2)) = rows.map fun p => (p.1, p.2.2) := by
    rw [← hrows.fields_eq, List.zip_map']
  have harguments : (rows.map fun p => r.given creator p.1 p.2.2).filterMap Brought.argument? =
      (rows.map fun p => (p.1, p.2.2)).filterMap fun p => (creator.argumentFor? p.1).map fun i => (i, p.2) := by
    rw [List.filterMap_map, List.filterMap_map]
    exact List.filterMap_congr fun p _ => given_argument? _ _
  have hmem : ∀ p ∈ rows.map fun p => (p.1, p.2.2), p.1 ∈ r.fields := by
    intro p hp
    obtain ⟨q, hq, rfl⟩ := List.mem_map.1 hp
    exact hrows.mem_fields hq
  have hfields : ∀ made,
      (((rows.map fun p => r.given creator p.1 p.2.2).filterMap Brought.field?).foldlM
          (Assembly.assign r) made).outcome =
        ((rows.map fun p => (p.1, p.2.2)).filter fun p => (creator.argumentFor? p.1).isNone).foldlM
          (fun v p => do return (← p.1.set v p.2).2) made := by
    intro made
    rw [← assign_given h hmem made, List.filterMap_map, List.filterMap_map]
    rfl
  -- The fields make the instance, so the entries after them meet one that is there.
  rw [tree_record h.creator_eq]
  simp only [es, run_append]
  rw [← Option.bind_assoc, hrows.run_fields h, Option.bind_map]
  simp only [Function.comp_def, run_side hside hkeys]
  unfold rebuild
  rw [hzip, harguments]
  simp only [hfields]
  rw [Option.bind_assoc]
  simp only [Option.bind_some]
  rw [← toOption_bind, bind_assoc]
  rfl

end Record
end Bindery
