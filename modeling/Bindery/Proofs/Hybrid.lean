import Bindery.Proofs.Faults
import Bindery.Proofs.Records
import Bindery.Proofs.Transparency
import Bindery.Proofs.Writers
/-!
# Hybrid records keep what they do not know

A hybrid record takes the entries of an object whose keys are its own and captures all others. The
reading tells the two apart member by member, by the argument and the field a key stands for at that
time; the writing drops entries of the side object under the keys of fields; a look-up asks the fields
first. All three agree with one description, `Record.Owns`: a key is owned by a field that goes by it, or
by an argument that goes by it while the constructor waits. So the captured entries are the side object,
each is found by its key, and writing puts all of them after the fields (`hybrid_keeps_captured`).
-/

namespace Bindery

namespace Record

/-- The key is a name or an alias of a field, or of an argument that the constructor waits for. -/
def Owns (r : Record) (creator : Creator) (key : String) : Prop :=
  (∃ f ∈ r.fields, f.GoesBy key) ∨ (creator.noArgs.isNone ∧ ∃ arg ∈ creator.args, arg.GoesBy key)

instance (r : Record) (creator : Creator) (key : String) : Decidable (r.Owns creator key) :=
  inferInstanceAs (Decidable (_ ∨ _))

/-- The entries under keys that the record does not own. -/
def captured (r : Record) (creator : Creator) (es : List (String × Node)) : List (String × Node) :=
  es.filter fun e => ¬ r.Owns creator e.1

variable {c : Context} {r : Record} {creator : Creator} {place : Place}

/-! ## Owned keys -/

theorem not_owns_iff (key : String) :
    ¬ r.Owns creator key ↔ creator.awaited key = none ∧ r.fieldIndex? key = none := by
  have hargument : creator.awaited key = none ↔
      ¬ (creator.noArgs.isNone ∧ ∃ arg ∈ creator.args, arg.GoesBy key) := by
    unfold Creator.awaited
    cases creator.noArgs with
    | some v => simp
    | none =>
      rw [if_neg (by simp), ← Option.map_eq_none_iff (f := (·.1)), argumentOf_position,
        Creator.argIndex?_none_iff]
      simp
  rw [Owns, not_or, hargument, fieldIndex?_none_iff, and_comm]
  simp

theorem mem_captured {es : List (String × Node)} {e : String × Node} :
    e ∈ r.captured creator es ↔ e ∈ es ∧ creator.awaited e.1 = none ∧ r.fieldIndex? e.1 = none := by
  rw [captured, List.mem_filter, decide_eq_true_eq, not_owns_iff]

theorem captured_distinct {es : List (String × Node)} (h : (Node.object es).Distinct) :
    (Node.object (r.captured creator es)).Distinct := by
  cases h with
  | object hkeys hentries =>
    constructor
    · exact hkeys.sublist (List.filter_sublist.map _)
    · exact fun e he => hentries e (mem_captured.1 he).1

/-! ## Capturing -/

/-- What an entry brings to the side object: itself, unless its key is owned. -/
theorem other_of_brings (hhybrid : r.hybrid.isSome) {e : String × Node} {b : Brought}
    (h : r.brings c creator.awaited place e = some b) :
    b.other? = if r.Owns creator e.1 then none else some (e.1, e.2.collapse) := by
  have hstored : ∀ {target : Value → Brought} {t : Ty}, (∀ v, (target v).other? = none) →
      bringsTo c target t (place.member r.name e.1) e.2 = some b → b.other? = none := by
    intro target t htarget hb
    unfold bringsTo at hb
    split at hb
    · cases hb
      rfl
    · obtain ⟨v, -, rfl⟩ := Option.map_eq_some_iff.1 hb
      exact htarget v
  unfold brings at h
  by_cases howns : r.Owns creator e.1
  · rw [if_pos howns]
    have hsome : ¬ (creator.awaited e.1 = none ∧ r.fieldIndex? e.1 = none) :=
      fun hnone => (not_owns_iff e.1).2 hnone howns
    split at h
    · exact hstored (fun _ => rfl) h
    · next hawaited =>
      cases hindex : r.fieldIndex? e.1 with
      | none => exact absurd ⟨hawaited, hindex⟩ hsome
      | some i =>
        obtain ⟨f, hf, -⟩ := fieldIndex?_goesBy hindex
        simp only [fieldOf, hindex, Option.bind_some, hf, Option.map_some] at h
        exact hstored (fun _ => rfl) h
  · rw [if_neg howns]
    obtain ⟨hawaited, hindex⟩ := (not_owns_iff e.1).1 howns
    simp only [hawaited, fieldOf, hindex, Option.bind_none, hhybrid, if_true] at h
    cases h
    rfl

theorem filterMap_of_mapM {α β γ : Type} {g : α → Option β} {f : β → Option γ} {k : α → Option γ} {as : List α} :
    ∀ {bs : List β}, (∀ a ∈ as, ∀ b, g a = some b → f b = k a) → as.mapM g = some bs →
      bs.filterMap f = as.filterMap k := by
  induction as with
  | nil =>
    intro bs _ h
    cases h
    rfl
  | cons a as ih =>
    intro bs hk h
    rw [List.mapM_cons] at h
    obtain ⟨b, hb, h⟩ := Option.bind_eq_some_iff.1 h
    obtain ⟨bs', hbs, h⟩ := Option.bind_eq_some_iff.1 h
    cases h
    simp only [List.filterMap_cons, hk a List.mem_cons_self b hb,
      ih (fun a' ha' => hk a' (List.mem_cons_of_mem a ha')) hbs]

/-- The entries of an object that have all been read bring to the side object just the captured ones. -/
theorem others_captured (hhybrid : r.hybrid.isSome) {es : List (String × Node)}
    (hes : (Node.object es).Distinct) {bs : List Brought}
    (h : es.mapM (r.brings c creator.awaited place) = some bs) :
    bs.filterMap Brought.other? = r.captured creator es := by
  cases hes with
  | object hkeys hentries =>
    rw [filterMap_of_mapM (fun e _ b hb => other_of_brings hhybrid hb) h, captured, ← List.filterMap_eq_filter]
    refine List.filterMap_congr fun e he => ?_
    by_cases howns : r.Owns creator e.1
    · simp [howns, Option.guard]
    · simp [howns, Option.guard, (hentries e he).collapse]

/-- A hybrid record that is read installs the captured entries in the end, whether its instance was there
from the start or came with the last argument. -/
theorem record_installs (hcreator : r.creator = some creator) {h : Hybrid} (hhybrid : r.hybrid = some h)
    {es : List (String × Node)} (hes : (Node.object es).Distinct)
    (honce : creator.noArgs.isNone → (es.filterMap (creator.argIndex? ·.1)).Nodup) {v : Value}
    (hread : (Tree.record c r (.object es) (es.map fun e => (e.1, e.2, Tree.value c e.2)) place).toOption = some v) :
    ∃ made, h.install made (r.captured creator es) = .ok v := by
  have hkeys : (Entries.keys (r.captured creator es)).Nodup := by
    have hcaptured : (Node.object (r.captured creator es)).Distinct := captured_distinct hes
    cases hcaptured with
    | object hkeys _ => exact hkeys
  rw [tree_record hcreator, run_opened fun hwaits => honce (hwaits ▸ rfl)] at hread
  obtain ⟨state, hrun, hfinish⟩ := Option.bind_eq_some_iff.1 hread
  obtain ⟨bs, hbs, hrun⟩ := Option.bind_eq_some_iff.1 hrun
  obtain ⟨assembly, -, rfl⟩ := Option.map_eq_some_iff.1 hrun
  rw [others_captured (hhybrid ▸ rfl) hes hbs,
    show Entries.insertAll [] _ = _ from Entries.ofList_of_nodup hkeys] at hfinish
  simp only [Tree.finish, hhybrid, toOption_bind] at hfinish
  obtain ⟨made, -, hmade⟩ := Option.bind_eq_some_iff.1 hfinish
  exact ⟨made, toOption_some hmade⟩

end Record

/-! ## Reading, looking up, writing -/

namespace Context

variable {c : Context} {name : String}

/-- A record that is classified as hybrid has no codec and is read member by member. -/
theorem hybrid_strategy (hconsistent : c.registry.Consistent c.schema) (h : c.classify (.record name) = .hybrid) :
    c.codecFor? (.record name) = none ∧ c.strategy (.record name) = .byStructure := by
  constructor
  · cases hcodec : c.codecFor? (.record name) with
    | none => rfl
    | some codec =>
      rw [(strategy_codec hconsistent hcodec).2] at h
      cases h
  · unfold strategy
    rw [h]

end Context

/-- Registering a type shows neither in reading nor in writing. -/
theorem Binder.same_register (b : Binder) (h : Registry.Reachable b.schema b.registry) (t : Ty) :
    b.toContext.Same (b.register t).toContext := by
  refine ⟨rfl, rfl, fun u => ?_, fun u => ?_⟩
  · change (b.registry.register b.schema t).classify b.schema u = b.registry.classify b.schema u
    rw [(h.register t).consistent.classify, h.consistent.classify, Registry.register_codecs]
  · change (b.registry.register b.schema t).codecs.find? u = b.registry.codecs.find? u
    rw [Registry.register_codecs]

theorem Binder.toNode_register (b : Binder) (h : Registry.Reachable b.schema b.registry) (t : Ty) (v : Value) :
    (b.register t).toNode v = b.toNode v := by
  have hencode : (b.register t).encode v = b.encode v := (b.same_register h t).encode v
  unfold Binder.toNode
  rw [hencode]

/-- A side object that is stored as it is given is the side object of the value. -/
theorem Hybrid.side_of_install {h : Hybrid} (hstore : ∀ i side, (h.store i side).side = side) {made v : Value}
    {side : List (String × Node)} (hinstall : h.install made side = .ok v) :
    ∃ cells, v = .record h.owner cells side ∧ h.side? v = some side := by
  unfold Hybrid.install at hinstall
  split at hinstall
  · cases hinstall
  · next i hi =>
    cases hinstall
    refine ⟨(h.store i side).cells, ?_, ?_⟩
    · unfold Instance.toValue
      rw [hstore]
    · simp [Hybrid.side?, Instance.toValue, Instance.ofValue?, hstore]

variable {b : Binder} {name : String} {h : Hybrid} {creator : Creator} {es : List (String × Node)} {v : Value}

/-- What a binder reads as a hybrid record is an instance whose side object is the captured entries. -/
theorem Binder.readNode_captured (hreach : Registry.Reachable b.schema b.registry)
    (hclass : b.classify (.record name) = .hybrid) (hhybrid : (b.schema.record name).hybrid = some h)
    (hcreator : (b.schema.record name).creator = some creator) (hstore : ∀ i side, (h.store i side).side = side)
    (hes : (Node.object es).Distinct) (honce : creator.noArgs.isNone → (es.filterMap (creator.argIndex? ·.1)).Nodup)
    (hread : b.readNode (.record name) (.object es) = .ok v) :
    ∃ cells, v = .record name cells ((b.schema.record name).captured creator es) ∧
      h.side? v = some ((b.schema.record name).captured creator es) := by
  have hstrategy := (Context.hybrid_strategy hreach.consistent hclass).2
  rw [b.readNode_eq] at hread
  unfold Tree.root at hread
  cases hvalue : Tree.value b.toContext (.object es) (.record name) (Place.root b.config.tracking) with
  | error e =>
    rw [hvalue] at hread
    cases hread
  | ok w =>
    rw [hvalue] at hread
    change Value.ofType (.record name) w = .ok v at hread
    rw [Tree.value_ok] at hvalue
    unfold Tree.level Tree.byStrategy at hvalue
    simp only [hstrategy, Node.kind, reduceCtorEq, if_false, Node.entries?, Option.getD_some] at hvalue
    obtain ⟨made, hmade⟩ := Record.record_installs hcreator hhybrid hes honce
      ((congrArg Except.toOption hvalue).trans rfl)
    obtain ⟨cells, rfl, hside⟩ := Hybrid.side_of_install hstore hmade
    unfold Value.ofType at hread
    split at hread
    · next hty =>
      cases hread
      cases hty
      exact ⟨cells, rfl, hside⟩
    · cases hread

/-- A record that is written in full is an object of its fields in order and then of what is written of its
side object. -/
theorem Binder.toNode_record {b : Binder} {name : String} {cells : List Value} {side : List (String × Node)} {m : Node}
    (hcodec : b.codecFor? (.record name) = none) (hnames : ((b.schema.record name).fields.map (·.name)).Nodup)
    (hside : (Node.object ((b.schema.record name).written (.record name cells side))).Distinct)
    (hm : b.toNode (.record name cells side) = .ok m) :
    ∃ fs, m = .object (fs ++ (b.schema.record name).written (.record name cells side)) ∧
      Entries.keys fs = (b.schema.record name).fields.map (·.name) := by
  let r := b.schema.record name
  let v : Value := .record name cells side
  let root := Place.root b.config.tracking
  have hfailure : (b.encode v).failure = none := by
    cases hfail : (b.encode v).failure with
    | none => rfl
    | some e =>
      rw [toNode_error hfail] at hm
      cases hm
  have hencode : b.encode v = (Encode.form b.toContext v root).atPlace root := rfl
  have hpart : ∀ f ∈ r.fields, ∀ x, f.get? v = some x →
      Emission.Part (Encode.form b.toContext) (fun _ _ => True) x := by
    intro f _ x _ place hok
    obtain ⟨n, hn⟩ := Encode.form_whole b.toContext x place hok
    exact ⟨n, Emission.puts_of_laid hok hn, trivial⟩
  rw [hencode, Emission.atPlace_failure] at hfailure
  obtain ⟨shown, fs, hshown, hputs, hfs⟩ := record_written hcodec hpart hfailure
  have hnode : b.toNode v = .ok (Node.object (fs ++ r.written v)).collapse := toNode_puts (hputs.atPlace _)
  have hkeys : Entries.keys (fs.map fun e => (e.1, e.2.collapse)) = r.fields.map (·.name) := by
    rw [← names_eq (R := fun _ _ => True) hshown hfs]
    simp [Entries.keys]
  refine ⟨fs.map fun e => (e.1, e.2.collapse), ?_, hkeys⟩
  -- No two keys are equal, so a reader of the entries keeps them all, where they are.
  cases hside with
  | object hwritten hdistinct =>
    have hnodup := keys_nodup hnames hwritten hkeys
    have hkept := Node.map_collapse fun e he => (hdistinct e he).collapse
    rw [hnode, Node.collapse, Node.collapseEntries_eq, List.map_append, hkept, Entries.ofList_of_nodup hnodup] at hm
    exact (Except.ok.inj hm).symm

/-- Hybrid records lose nothing. Let a hybrid record store its side object as it is given, and let an
object without repeated keys, and with at most one entry for each argument that the constructor waits for,
be read as such a record. The side object of the value is the entries whose keys the record does not own,
unchanged and in order of arrival; each of them is found under its key; and if the value can be written as
a node and the names of the fields are distinct, the node is an object without repeated keys: all fields
in order of declaration, and then just those entries. -/
theorem hybrid_keeps_captured (hreach : Registry.Reachable b.schema b.registry)
    (hclass : b.classify (.record name) = .hybrid) (hhybrid : (b.schema.record name).hybrid = some h)
    (hcreator : (b.schema.record name).creator = some creator) (hstore : ∀ i side, (h.store i side).side = side)
    (hes : (Node.object es).Distinct) (honce : creator.noArgs.isNone → (es.filterMap (creator.argIndex? ·.1)).Nodup)
    (hread : (b.fromNode (.record name) (.object es)).1 = .ok v) :
    let r := b.schema.record name
    h.side? v = some (r.captured creator es) ∧
    (∀ e ∈ r.captured creator es, r.property? v e.1 = some (.side e.2)) ∧
    ∀ m, (b.fromNode (.record name) (.object es)).2.toNode v = .ok m → (r.fields.map (·.name)).Nodup →
      ∃ fs, m = .object (fs ++ r.captured creator es) ∧ Entries.keys fs = r.fields.map (·.name) ∧
        (Entries.keys (fs ++ r.captured creator es)).Nodup := by
  intro r
  obtain ⟨cells, rfl, hside⟩ : ∃ cells, v = .record name cells (r.captured creator es) ∧
      h.side? v = some (r.captured creator es) := by
    apply Binder.readNode_captured hreach hclass hhybrid hcreator hstore hes honce
    rw [← hread]
    exact congrArg (fun r => (Reading.run r _).1) ((b.same_register hreach _).root _).symm
  have hdistinct : (Node.object (r.captured creator es)).Distinct := Record.captured_distinct hes
  have hkeys : (Entries.keys (r.captured creator es)).Nodup := by
    cases hdistinct with
    | object hkeys _ => exact hkeys
  have hwritten : r.written (.record name cells (r.captured creator es)) = r.captured creator es := by
    unfold Record.written
    rw [show r.hybrid = some h from hhybrid, Option.bind_some, hside]
    refine List.filter_eq_self.2 fun e he => ?_
    rw [(Record.mem_captured.1 he).2.2]
    rfl
  refine ⟨hside, ?_, ?_⟩
  · intro e he
    have hfield : r.field? e.1 = none := by
      unfold Record.field?
      rw [(Record.mem_captured.1 he).2.2]
      rfl
    unfold Record.property?
    rw [hfield]
    simp only [show r.hybrid = some h from hhybrid, Option.bind_some, hside,
      Entries.find?_of_mem hkeys (show (e.1, e.2) ∈ _ from he), Option.map_some]
  · intro m hm hnames
    have hcodec := (Context.hybrid_strategy hreach.consistent hclass).1
    obtain ⟨fs, hfs, hfields⟩ := Binder.toNode_record hcodec hnames (hwritten.symm ▸ hdistinct)
      ((b.toNode_register hreach _ _).symm.trans hm)
    have hnodup := keys_nodup hnames (hwritten.symm ▸ hkeys) hfields
    rw [hwritten] at hfs hnodup
    exact ⟨fs, hfs, hfields, hnodup⟩

/-- A document whose constructor waits for two arguments, one of them under an alias: an entry that comes
before them is captured, and so is one that comes after the constructor has run. -/
theorem hybrid_keeps_captured_doc :
    let b : Binder := { schema := { records := [Catalogue.doc] }, registry := {} }
    let t := Catalogue.recordTy "Doc"
    let creator := Catalogue.doc.creator.get rfl
    let number (i : UInt64) : Node := .number (.posInt i)
    let others : List (String × Node) := [("x", .object [("id", .null)]), ("y", .null)]
    let es := [("x", .object [("id", .null)]), ("heading", .string "t"), ("id", number 7), ("y", .null)]
    let v : Value := .record (Catalogue.full "Doc") [.int .u32 7, .string "t", .int .u64 0] others
    let m : Node := .object ([("id", number 7), ("title", .string "t"), ("views", number 0)] ++ others)
    (b.classify t = .hybrid ∧ (Node.object es).Distinct ∧ (es.filterMap (creator.argIndex? ·.1)).Nodup ∧
      (b.fromNode t (.object es)).1 = .ok v ∧ (b.fromNode t (.object es)).2.toNode v = .ok m) ∧
    Catalogue.doc.captured creator es = others ∧
    (Catalogue.plainHybrid "Doc").side? v = some others ∧
    (∀ e ∈ others, Catalogue.doc.property? v e.1 = some (.side e.2)) ∧
    ∃ fs, m = .object (fs ++ others) ∧ Entries.keys fs = ["id", "title", "views"] ∧
      (Entries.keys (fs ++ others)).Nodup := by
  intro b t creator number others es v m
  have hclass : b.classify t = .hybrid := rfl
  have hes : (Node.object es).Distinct := by
    apply Node.Distinct.object (by decide)
    simp only [es, List.forall_mem_cons]
    exact ⟨.object (by decide) (by simpa using .null), .string _, .number _, .null, by simp⟩
  have honce : (es.filterMap (creator.argIndex? ·.1)).Nodup := by decide
  have hread : (b.fromNode t (.object es)).1 = .ok v := by
    rw [b.fromNode_eq]
    simp only [b, es, t]
    rfl
  have hputs : (b.encode v).Puts m.tokens := ⟨rfl, rfl⟩
  have hwrite : (b.fromNode t (.object es)).2.toNode v = .ok m := by
    rw [b.fromNode_register, b.toNode_register .empty]
    exact Binder.toNode_puts hputs
  obtain ⟨hside, hproperty, hwritten⟩ :=
    hybrid_keeps_captured .empty hclass rfl rfl (fun _ _ => rfl) hes (fun _ => honce) hread
  exact ⟨⟨hclass, hes, honce, hread, hwrite⟩, rfl, hside, hproperty, hwritten m hwrite (by decide)⟩

end Bindery
