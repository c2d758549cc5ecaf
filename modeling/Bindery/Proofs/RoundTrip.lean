import Bindery.Proofs.Records
/-!
# There and back

A value that is restorable is read back, up to NaNs, from what was written of it. `Restorable` is the
one description of such values: it says what the types promise of the parts of a value, what a codec and
a constructor have to do for it, and that nothing which is there is written as null. Both halves meet at
the node that the writing puts down: the writer puts down its tokens, and by recursion on the node a value
that is alike is read (`Restorable.part`).
-/

namespace Bindery

open Value (Alike)

/-- Values that are read back. Their types promise that integers are in range, that variants have names,
items the type of items and arrays their length, that sets ascend, whatever the bits of NaNs in them, that
maps ascend and that no object repeats a key. What is asked beyond that: codecs read back what they spell,
records make their values anew, and nothing that is there is written as null. -/
inductive Restorable (c : Context) : Value → Prop
  | codec {v : Value} {codec : Codec} (hcodec : c.codecFor? v.ty = some codec) (h : codec.ReadsBack v) :
    Restorable c v
  | scalar {v : Value} {s : ScalarType} (hcodec : c.codecFor? v.ty = none) (hscalar : v.ty = .scalar s)
    (hint : ∀ t i, v = .int t i → t.check i = some i) : Restorable c v
  | variant {enum : String} {variants : List String} {name : String}
    (hcodec : c.codecFor? (.enum enum variants) = none) (hname : name ∈ variants) :
    Restorable c (.variant enum variants name)
  | none {payload : Ty} (hcodec : c.codecFor? (.option payload) = none) : Restorable c (.none payload)
  | some {v : Value} (hcodec : c.codecFor? (.option v.ty) = none)
    (hnull : ∀ place, (Encode.form c v place).tokens ≠ [.null]) (h : Restorable c v) : Restorable c (.some v)
  | seq {kind : SeqKind} {item : Ty} {vs : List Value} (hcodec : c.codecFor? (.seq kind item) = none)
    (hlength : ∀ n, kind = .fixed n → vs.length = n) (htyped : ∀ v ∈ vs, v.ty = item)
    (h : ∀ v ∈ vs, Restorable c v) : Restorable c (.seq kind item vs)
  | set {item : Ty} {vs : List Value} (hcodec : c.codecFor? (.set .sorted item) = none)
    (hsorted : ∀ ws, List.Forall₂ Alike vs ws → ws.Pairwise fun v w => c.schema.order v w = .lt)
    (htyped : ∀ v ∈ vs, v.ty = item) (h : ∀ v ∈ vs, Restorable c v) : Restorable c (.set .sorted item vs)
  | map {value : Ty} {es : List (String × Value)} (hcodec : c.codecFor? (.map .sorted value) = none)
    (hsorted : (Entries.keys es).Pairwise fun j k => compare j k = .lt)
    (htyped : ∀ e ∈ es, e.2.ty = value) (h : ∀ e ∈ es, Restorable c e.2) : Restorable c (.map .sorted value es)
  | node {n : Node} (h : n.Distinct) : Restorable c (.node n)
  | object {es : List (String × Node)} (h : (Node.object es).Distinct) : Restorable c (.object es)
  | array {ns : List Node} (h : (Node.array ns).Distinct) : Restorable c (.array ns)
  | record {name : String} {cells : List Value} {side : List (String × Node)}
    (hcodec : c.codecFor? (.record name) = none)
    (hremakes : (c.schema.record name).Remakes (.record name cells side))
    (h : ∀ f ∈ (c.schema.record name).fields, ∀ x, f.get? (.record name cells side) = some x → Restorable c x) :
    Restorable c (.record name cells side)

/-- What is put down for a restorable value is restored. -/
theorem Restorable.part {c d : Context} (hd : c.Agree d) {v : Value} (hv : Restorable c v) :
    Emission.Part (Encode.form c) (Restored d) v := by
  induction hv with
  | codec hcodec h => exact codec_part hd hcodec h
  | scalar hcodec hscalar hint => exact scalar_part hd hcodec hscalar hint
  | variant hcodec hname => exact variant_part hd hcodec hname
  | none hcodec => exact none_part hd hcodec
  | some hcodec hnull _ ih => exact some_part hd hcodec hnull ih
  | seq hcodec hlength htyped _ ih => exact seq_part hd hcodec hlength htyped ih
  | set hcodec hsorted htyped _ ih => exact set_part hd hcodec (hd.schema_eq ▸ hsorted) htyped ih
  | map hcodec hsorted htyped _ ih => exact map_part hd hcodec hsorted htyped ih
  | node h =>
    refine dynamic_part hd rfl (by simp only [Encode.form]) h (fun _ => rfl) ?_
    simp only [Tree.dynamic, h.collapse]
  | @object es h =>
    refine dynamic_part hd rfl (by simp only [Encode.form]) h (by simp [Node.kind]) ?_
    have hcollapse := h.collapse
    rw [Node.collapse, Node.object.injEq] at hcollapse
    simp only [Tree.dynamic, hcollapse]
  | @array ns h =>
    refine dynamic_part hd rfl (by simp only [Encode.form]) h (by simp [Node.kind]) ?_
    have hcollapse := h.collapse
    rw [Node.collapse, Node.array.injEq] at hcollapse
    simp only [Tree.dynamic, hcollapse]
  | record hcodec hremakes _ ih => exact record_part hd hcodec hremakes ih

/-! ## Sets of file paths -/

namespace FilePath

theorem alike_text {s : String} {w : Value} (h : Alike (text s).toValue w) : w = (text s).toValue := by
  unfold Alike toValue at h
  cases w with
  | foreign name parts =>
    simp only [Value.quiet, Value.foreign.injEq] at h
    obtain ⟨rfl, h⟩ := h
    rcases parts with _ | ⟨part, _ | ⟨_, _⟩⟩ <;> simp only [Value.quietItems, List.cons.injEq] at h
    · simp at h
    · cases part <;> simp_all [Value.quiet, toValue]
    · simp at h
  | _ => simp [Value.quiet] at h

theorem readsBack (s : String) : codec.ReadsBack (text s).toValue := by
  rintro n hn
  cases show Except.ok (Node.string s) = .ok n from hn
  exact ⟨.string s, rfl, (text s).toValue, rfl, .refl _⟩

/-- Paths that are text compare by the components of their bytes. -/
theorem order_text (s t : String) : order (text s).toValue (text t).toValue =
    List.compareLex Component.compare (components s.toUTF8.toList) (components t.toUTF8.toList) := rfl

/-- Sorted sets of file paths, which ascend by components and not by text, are restorable. -/
theorem restorable_set {c : Context} (horder : c.schema.order = Value.standardOrder)
    (hset : c.codecFor? (.set .sorted type) = none) (hcodec : c.codecFor? type = some codec) {texts : List String}
    (h : texts.Pairwise fun s t => List.compareLex Component.compare (components s.toUTF8.toList)
      (components t.toUTF8.toList) = .lt) :
    Restorable c (.set .sorted type (texts.map fun s => (text s).toValue)) := by
  refine .set hset (fun ws hws => ?_) (fun v hv => ?_) (fun v hv => ?_)
  · have hsame : ws = texts.map fun s => (text s).toValue := by
      rw [List.forall₂_map_left_iff] at hws
      induction hws with
      | nil => rfl
      | cons halike _ ih => rw [alike_text halike, ih (List.pairwise_cons.1 h).2, List.map_cons]
    rw [hsame, horder, List.pairwise_map]
    exact h
  · obtain ⟨s, -, rfl⟩ := List.mem_map.1 hv
    rfl
  · obtain ⟨s, -, rfl⟩ := List.mem_map.1 hv
    exact .codec hcodec (readsBack s)

-- What is in a directory comes before what has a longer name than it.
example : order (text "a/b").toValue (text "a-b").toValue = .lt := by decide +kernel

end FilePath

namespace Binder

variable (b : Binder)

/-- Registering a type changes nothing but the registered types. -/
theorem register_agrees (h : Registry.Reachable b.schema b.registry) (t : Ty) :
    b.toContext.Agree (b.register t).toContext := by
  have hregistry : (b.register t).registry = b.registry.register b.schema t := rfl
  refine ⟨rfl, fun u => ?_, ?_⟩
  · have hcodec : (b.register t).registry.codec? u = b.registry.codec? u := by
      unfold Registry.codec?
      rw [hregistry, Registry.register_codecs]
    cases u <;> first | rfl | exact hcodec
  · rw [hregistry]
    exact h.consistent.register t

/-- A value that can be restored and is written in full is read back, up to NaNs: from the node that it
is written as, and from the tape that recorded the writing. -/
theorem round_trip (h : Registry.Reachable b.schema b.registry) {v : Value} (hv : Restorable b.toContext v)
    (hok : (b.encode v).outcome = .ok ()) :
    (∃ n w, b.toNode v = .ok n ∧ (b.fromNode v.ty n).1 = .ok w ∧ Alike v w) ∧
      ∃ w, (b.decode v.ty (TapeReader.ofTape (b.encode v).tape)).1 = .ok w ∧ Alike v w := by
  have hfailure : (b.encode v).failure = none := by
    unfold Emission.outcome at hok
    cases hf : (b.encode v).failure with
    | none => rfl
    | some e => simp [hf] at hok
  have hencode : b.encode v = (Encode.form b.toContext v (Place.root b.config.tracking)).atPlace
      (Place.root b.config.tracking) := rfl
  rw [hencode, Emission.atPlace_failure] at hfailure
  obtain ⟨n, hn, hrestored⟩ := hv.part (b.register_agrees h v.ty) _ hfailure
  have hputs : (b.encode v).Puts n.tokens := hn.atPlace _
  obtain ⟨w, hw, halike⟩ := hrestored.read (Place.root b.config.tracking)
  have hroot : Tree.root (b.register v.ty).toContext n v.ty = .ok w := by
    unfold Tree.root
    rw [show (b.register v.ty).toContext.config = b.config from rfl, hw]
    exact Value.ofType_ty halike.ty
  -- Reading the node and reading its tokens are both reading from the tree.
  refine ⟨⟨n, w, ?_, ?_, halike⟩, w, ?_, halike⟩
  · rw [toNode_puts hputs, hrestored.distinct.collapse]
  · exact (b.fromNode_eq v.ty n).trans hroot
  · refine ((b.register v.ty).read_tape v.ty n ?_).trans hroot
    rw [Emission.plain_tape, hputs.2]
    rfl

end Binder

/-! ## A document inside a document -/

theorem Value.Alike.int {t : IntType} {i : Int} {w : Value} (h : Alike (.int t i) w) : w = .int t i := by
  unfold Alike at h
  cases w <;> simp_all [Value.quiet]

theorem Value.Alike.string {s : String} {w : Value} (h : Alike (.string s) w) : w = .string s := by
  unfold Alike at h
  cases w <;> simp_all [Value.quiet]

/-- The constructor takes the number and the title, and the views are assigned. -/
theorem doc_remakes (id views : Int) (title : String) {side : List (String × Node)}
    (hside : (Node.object side).Distinct) (hkeys : ∀ e ∈ side, Catalogue.doc.fieldIndex? e.1 = none) :
    Catalogue.doc.Remakes (.record (Catalogue.full "Doc") [.int .u32 id, .string title, .int .u64 views] side) := by
  have hwritten : Catalogue.doc.written
      (.record (Catalogue.full "Doc") [.int .u32 id, .string title, .int .u64 views] side) = side := by
    change Encode.sideEntries Catalogue.doc side = side
    exact List.filter_eq_self.2 fun e he => by rw [hkeys e he]; rfl
  refine ⟨rfl, ?_, hwritten.symm ▸ hside, Catalogue.doc.creator.get rfl, ?_, ?_⟩
  · intro f hf x hx
    simp only [Catalogue.doc, Catalogue.constructed, List.mem_cons, List.not_mem_nil, or_false] at hf
    rcases hf with rfl | rfl | rfl <;> cases hx <;> rfl
  · exact ⟨rfl, by decide, fun _ => by decide, fun _ => by decide, fun _ => by decide⟩
  · intro shown values hshown hvalues
    simp only [Record.Shows, Catalogue.doc, Catalogue.constructed, List.forall₂_cons_left_iff,
      List.forall₂_nil_left_iff] at hshown
    obtain ⟨_, _, hid, ⟨_, _, htitle, ⟨_, _, hviews, rfl, rfl⟩, rfl⟩, rfl⟩ := hshown
    cases hid
    cases htitle
    cases hviews
    simp only [List.forall₂_cons_left_iff, List.forall₂_nil_left_iff] at hvalues
    obtain ⟨_, _, hid, ⟨_, _, htitle, ⟨_, _, hviews, rfl, rfl⟩, rfl⟩, rfl⟩ := hvalues
    rw [hid.int, htitle.string, hviews.int, hwritten]
    exact ⟨_, rfl, .refl _⟩

/-- A list, which might be absent, of two documents: the side object of one goes by the alias of an argument. -/
theorem Binder.round_trip_doc :
    let b : Binder := { schema := { records := [Catalogue.doc] }, registry := {} }
    let doc (id : Int) (side : List (String × Node)) : Value :=
      .record (Catalogue.full "Doc") [.int .u32 id, .string "t", .int .u64 3] side
    let v : Value := .some (.seq .vec (Catalogue.recordTy "Doc") [doc 7 [("heading", .null)], doc 8 []])
    (Registry.Reachable b.schema b.registry ∧ Restorable b.toContext v ∧ (b.encode v).outcome = .ok ()) ∧
      (∃ n w, b.toNode v = .ok n ∧ (b.fromNode v.ty n).1 = .ok w ∧ Alike v w) ∧
      ∃ w, (b.decode v.ty (TapeReader.ofTape (b.encode v).tape)).1 = .ok w ∧ Alike v w := by
  intro b doc v
  have hrecord : b.schema.record (Catalogue.full "Doc") = Catalogue.doc := by
    simp [b, Schema.record, Catalogue.doc, Catalogue.constructed]
  have hdoc : ∀ id side, IntType.u32.check id = some id → (Node.object side).Distinct →
      (∀ e ∈ side, Catalogue.doc.fieldIndex? e.1 = none) → Restorable b.toContext (doc id side) := by
    intro id side hid hside hkeys
    refine .record rfl ?_ ?_
    · rw [hrecord]
      exact doc_remakes id 3 "t" hside hkeys
    · rw [hrecord]
      intro f hf x hx
      simp only [Catalogue.doc, Catalogue.constructed, List.mem_cons, List.not_mem_nil, or_false] at hf
      rcases hf with rfl | rfl | rfl <;> cases hx
      · refine .scalar rfl rfl ?_
        rintro t i ⟨⟩
        exact hid
      · refine .scalar rfl rfl ?_
        rintro t i ⟨⟩
      · refine .scalar rfl rfl ?_
        rintro t i ⟨⟩
        rfl
  have hv : Restorable b.toContext v := by
    refine .some rfl ?_ (.seq rfl ?_ ?_ ?_)
    · intro place h
      cases h
    · intro n h
      cases h
    · simp [doc, Value.ty, Catalogue.recordTy]
    · rw [List.forall_mem_cons, List.forall_mem_singleton]
      refine ⟨hdoc 7 _ rfl (.object (by decide) ?_) (by decide), hdoc 8 [] rfl (.object (by decide) ?_) (by decide)⟩
      · rw [List.forall_mem_singleton]
        exact .null
      · exact fun _ h => by cases h
  have hok : (b.encode v).outcome = .ok () := rfl
  exact ⟨⟨.empty, hv, hok⟩, b.round_trip .empty hv hok⟩

end Bindery
