import Bindery.Proofs.Alike
import Bindery.Proofs.Construction
import Bindery.Proofs.Documents
import Bindery.Proofs.Numbers
import Bindery.Proofs.Registration
import Bindery.Proofs.Written
/-!
# Values and the nodes that they are written as

`Restored c v n` says that a value like `v` is read from the node `n`. A value that is written in full
puts down the tokens of such a node: this is shown here form by form, for scalars, variants, options,
documents, the values of codecs, and for containers from what holds of their items.
-/

namespace Bindery

open Value (Alike)

/-- A node that a value like the one it was written for is read from. -/
structure Restored (c : Context) (v : Value) (n : Node) : Prop where
  distinct : n.Distinct
  null : n.kind = .null → v.ty.acceptsNull = true ∨ c.classify v.ty = .valueCodec
  read : ∀ place, ∃ w, Tree.value c n v.ty place = .ok w ∧ Alike v w

/-- The contexts that a value is written and read in: the same but for types that were registered since. -/
structure Context.Agree (c d : Context) : Prop where
  schema_eq : d.schema = c.schema
  codecFor?_eq : ∀ t, d.codecFor? t = c.codecFor? t
  consistent : d.registry.Consistent d.schema

/-- The codec reads back what it spells of a value, and takes the token it begins with. -/
def Codec.ReadsBack (codec : Codec) (v : Value) : Prop :=
  ∀ n, codec.encode v = .ok n → n.Distinct ∧
    if n.kind = .null then ∃ w, codec.decodeNull = .ok w ∧ Alike v w
    else codec.wire.accepts n.kind = true ∧ ∃ w, codec.decode n = .ok w ∧ Alike v w

/-! ## Reading -/

namespace Value

theorem ofType_ty {v : Value} {t : Ty} (h : v.ty = t) : ofType t v = .ok v := if_pos h

theorem allOfType_eq {vs : List Value} {t : Ty} (h : ∀ v ∈ vs, v.ty = t) : allOfType t vs = .ok vs := by
  have hall := mapM_of_forall (f := id) fun v hv => ofType_ty (h v hv)
  rw [List.map_id] at hall
  exact hall

theorem ty_of_alike {vs ws : List Value} {t : Ty} (h : List.Forall₂ Alike vs ws) (ht : ∀ v ∈ vs, v.ty = t) :
    ∀ w ∈ ws, w.ty = t := by
  intro w hw
  obtain ⟨v, hv, halike⟩ := forall₂_exists_left h hw
  exact halike.ty.trans (ht v hv)

/-- A list in strictly ascending order is kept as it is, whatever the order. -/
theorem keepItems_sorted {order : Value → Value → Ordering} {vs : List Value}
    (h : vs.Pairwise fun v w => order v w = .lt) : keepItems order .sorted vs = vs := by
  induction vs with
  | nil => rfl
  | cons v vs ih =>
    rw [List.pairwise_cons] at h
    change insertSorted order v (keepItems order .sorted vs) = v :: vs
    rw [ih h.2]
    cases vs with
    | nil => rfl
    | cons w vs => simp [insertSorted, h.1 w]

theorem mem_insertSorted {order : Value → Value → Ordering} {u v : Value} :
    ∀ {vs : List Value}, u ∈ insertSorted order v vs → u = v ∨ u ∈ vs
  | [], h => .inl (List.mem_singleton.1 h)
  | w :: rest, h => by
    rw [insertSorted] at h
    split at h
    · exact List.mem_cons.1 h
    · exact .inr h
    · rcases List.mem_cons.1 h with rfl | h
      · exact .inr (.head _)
      · exact (mem_insertSorted h).imp_right (.tail _)

theorem insertSorted_ascends {order : Value → Value → Ordering} [Std.TransCmp order] (v : Value) {vs : List Value}
    (h : vs.Pairwise fun v w => order v w = .lt) : (insertSorted order v vs).Pairwise fun v w => order v w = .lt := by
  induction vs with
  | nil => exact List.pairwise_singleton _ _
  | cons w vs ih =>
    rw [List.pairwise_cons] at h
    rw [insertSorted]
    split
    · rename_i hlt
      refine List.pairwise_cons.2 ⟨fun u hu => ?_, List.pairwise_cons.2 h⟩
      rcases List.mem_cons.1 hu with rfl | hu
      · exact hlt
      · exact Std.TransCmp.lt_trans hlt (h.1 u hu)
    · exact List.pairwise_cons.2 h
    · rename_i hgt
      refine List.pairwise_cons.2 ⟨fun u hu => ?_, ih h.2⟩
      rcases mem_insertSorted hu with rfl | hu
      · exact Std.OrientedCmp.lt_of_gt hgt
      · exact h.1 u hu

/-- What a sorted set keeps ascends strictly, provided that the order is one. -/
theorem keepItems_ascends {order : Value → Value → Ordering} [Std.TransCmp order] (vs : List Value) :
    (keepItems order .sorted vs).Pairwise fun v w => order v w = .lt := by
  induction vs with
  | nil => exact .nil
  | cons v _ ih => exact insertSorted_ascends v ih

theorem keepEntries_sorted {es : List (String × Value)}
    (h : (Entries.keys es).Pairwise fun j k => Ord.compare j k = .lt) : keepEntries .sorted es = es := by
  induction es with
  | nil => rfl
  | cons e es ih =>
    rw [Entries.keys, List.map_cons, List.pairwise_cons] at h
    change insertSortedEntry e (keepEntries .sorted es) = e :: es
    rw [ih h.2]
    cases es with
    | nil => rfl
    | cons f es => simp [insertSortedEntry, h.1 f.1]

end Value

namespace Tree

variable {c : Context} {n : Node} {t : Ty} {place : Place} {w : Value}

theorem value_ok : Tree.value c n t place = .ok w ↔
    level c n ((n.items?.getD []).map (value c)) ((n.entries?.getD []).map fun e => (e.1, e.2, value c e.2)) place t =
      .ok w := by
  rw [value_eq]
  cases level c n ((n.items?.getD []).map (value c)) ((n.entries?.getD []).map fun e => (e.1, e.2, value c e.2)) place
    t <;> simp [Except.mapError]

theorem narrowed_number {α : Type} {type : String} {fit : Number → Option α} {x : Number} {a : α}
    (h : fit x = some a) : narrowed type fit (.number x) = .ok a := by
  simp only [narrowed, extract, Node.number?, ok_bind, h]
  rfl

theorem scalar_char (x : Char) : scalar .char (.string (String.singleton x)) = .ok (.char x) := by
  simp only [scalar, extract, Node.string?, ok_bind, String.toList_singleton]
  rfl

end Tree

/-! ## Leaves -/

section Forms
variable {c d : Context} (hd : c.Agree d)

/-- A value that is written as one token. -/
theorem Restored.part {v : Value} {n : Node} (hform : ∀ place, Encode.form c v place = Emission.token place n.head)
    (htokens : n.tokens = [n.head]) (h : Restored d v n) : Emission.Part (Encode.form c) (Restored d) v := by
  intro place _
  refine ⟨n, ?_, h⟩
  rw [hform, htokens]
  exact Emission.puts_token place n.head

include hd

theorem Context.Agree.byStructure {t : Ty} (hcodec : c.codecFor? t = none) (hdynamic : ∀ kind, t ≠ .dynamic kind)
    (hrecognized : c.schema.classify t false ≠ .unrecognized) : d.strategy t = .byStructure := by
  refine Context.strategy_byStructure hd.consistent (by rw [hd.codecFor?_eq, hcodec]) hdynamic ?_
  rw [hd.schema_eq]
  exact hrecognized

/-- A scalar that is written as one token. -/
theorem scalar_token {v : Value} {s : ScalarType} (hcodec : c.codecFor? v.ty = none) (hscalar : v.ty = .scalar s)
    (n : Node) (hform : ∀ place, Encode.form c v place = Emission.token place n.head) (htokens : n.tokens = [n.head])
    (hn : n.kind ≠ .null) (hread : ∃ w, Tree.scalar s n = .ok w ∧ Alike v w) :
    Emission.Part (Encode.form c) (Restored d) v := by
  rw [hscalar] at hcodec
  have hs : d.strategy (.scalar s) = .byStructure := hd.byStructure hcodec (by simp) (by simp [Schema.classify])
  obtain ⟨w, hw, halike⟩ := hread
  refine Restored.part hform htokens ⟨.of_leaf htokens, fun h => absurd h hn, fun place => ⟨w, ?_, halike⟩⟩
  rw [Tree.value_ok, hscalar]
  unfold Tree.level Tree.byStrategy
  rw [hs]
  simp only [if_neg hn]
  exact hw

/-- Scalars. -/
theorem scalar_part {v : Value} {s : ScalarType} (hcodec : c.codecFor? v.ty = none) (hscalar : v.ty = .scalar s)
    (hint : ∀ t i, v = .int t i → t.check i = some i) : Emission.Part (Encode.form c) (Restored d) v := by
  cases v with
  | unit =>
    have hs : d.strategy (.scalar .unit) = .byStructure :=
      hd.byStructure hcodec (by simp) (by simp [Schema.classify])
    have hform : ∀ place, Encode.form c .unit place = Emission.token place .null := fun _ => by
      simp [Encode.form, Encode.byCodec, hcodec]
    refine Restored.part (n := .null) hform rfl ⟨.null, fun _ => .inl rfl, fun place => ⟨.unit, ?_, .refl _⟩⟩
    rw [Tree.value_ok]
    unfold Tree.level Tree.byStrategy
    simp only [Value.ty, hs]
    rfl
  | bool b =>
    refine scalar_token hd hcodec rfl (.bool b) (fun _ => ?_) rfl (by simp [Node.kind]) ⟨.bool b, rfl, .refl _⟩
    simp [Encode.form, Encode.byCodec, hcodec, Node.head]
  | char x =>
    refine scalar_token hd hcodec rfl (.string (String.singleton x)) (fun _ => ?_) rfl (by simp [Node.kind])
      ⟨.char x, Tree.scalar_char x, .refl _⟩
    simp [Encode.form, Encode.byCodec, hcodec, Node.head]
  | int t i =>
    refine scalar_token hd hcodec rfl (.number (.ofInt i)) (fun _ => ?_) rfl (by simp [Node.kind])
      ⟨.int t i, ?_, .refl _⟩
    · simp [Encode.form, Encode.byCodec, hcodec, Node.head, Encode.number]
    · rw [Tree.scalar, Tree.narrowed_number (Number.narrow_ofInt (hint t i rfl))]
      rfl
  | f32 x =>
    -- A single comes back by way of the double it was widened to: its NaNs are one.
    refine scalar_token hd hcodec rfl (.number (.float x.widen)) (fun _ => ?_) rfl (by simp [Node.kind])
      ⟨.f32 x.quiet, ?_, ?_⟩
    · simp [Encode.form, Encode.byCodec, hcodec, Node.head, Encode.number]
    · rw [Tree.scalar, Tree.narrowed_number (Number.toBinary32?_widen x)]
      rfl
    · unfold Alike
      rw [Value.quiet, Value.quiet, Binary32.quiet_quiet]
  | f64 x =>
    refine scalar_token hd hcodec rfl (.number (.float x)) (fun _ => ?_) rfl (by simp [Node.kind])
      ⟨.f64 x, rfl, .refl _⟩
    simp [Encode.form, Encode.byCodec, hcodec, Node.head, Encode.number]
  | string s =>
    refine scalar_token hd hcodec rfl (.string s) (fun _ => ?_) rfl (by simp [Node.kind]) ⟨.string s, rfl, .refl _⟩
    simp [Encode.form, Encode.byCodec, hcodec, Node.head]
  | number x =>
    refine scalar_token hd hcodec rfl (.number x) (fun _ => ?_) rfl (by simp [Node.kind]) ⟨.number x, rfl, .refl _⟩
    simp [Encode.form, Encode.byCodec, hcodec, Node.head, Encode.number]
  | _ => simp [Value.ty] at hscalar

/-- Variants. -/
theorem variant_part {enum : String} {variants : List String} {name : String}
    (hcodec : c.codecFor? (.enum enum variants) = none) (hname : name ∈ variants) :
    Emission.Part (Encode.form c) (Restored d) (.variant enum variants name) := by
  have hs : d.strategy (.enum enum variants) = .byStructure :=
    hd.byStructure hcodec (by simp) (by simp [Schema.classify])
  have hrestored : Restored d (.variant enum variants name) (.string name) := by
    refine ⟨.string name, by simp [Node.kind], fun place => ⟨.variant enum variants name, ?_, .refl _⟩⟩
    rw [Tree.value_ok]
    unfold Tree.level Tree.byStrategy
    simp only [Value.ty, hs]
    have hvariant : Tree.variant enum variants (.string name) =
        if variants.contains name then .ok (.variant enum variants name) else .error (.enumMismatch enum name) := rfl
    simpa [hvariant, Node.kind] using hname
  exact hrestored.part (fun _ => by simp [Encode.form, Encode.byCodec, Value.ty, hcodec, Node.head]) rfl

/-- Nothing. -/
theorem none_part {payload : Ty} (hcodec : c.codecFor? (.option payload) = none) :
    Emission.Part (Encode.form c) (Restored d) (.none payload) := by
  have hs : d.strategy (.option payload) = .byStructure := hd.byStructure hcodec (by simp) (by simp [Schema.classify])
  have hrestored : Restored d (.none payload) .null := by
    refine ⟨.null, fun _ => .inl rfl, fun place => ⟨.none payload, ?_, .refl _⟩⟩
    rw [Tree.value_ok]
    unfold Tree.level Tree.byStrategy
    simp only [Value.ty, hs]
    rfl
  exact hrestored.part (fun _ => by simp [Encode.form, Encode.byCodec, Value.ty, hcodec, Node.head]) rfl

/-- Something, unless it is written as null. -/
theorem some_part {v : Value} (hcodec : c.codecFor? (.option v.ty) = none)
    (hnull : ∀ place, (Encode.form c v place).tokens ≠ [.null]) (h : Emission.Part (Encode.form c) (Restored d) v) :
    Emission.Part (Encode.form c) (Restored d) (.some v) := by
  have hs : d.strategy (.option v.ty) = .byStructure := hd.byStructure hcodec (by simp) (by simp [Schema.classify])
  have hform : Encode.form c (.some v) = Encode.form c v := by
    funext place
    simp [Encode.form, Encode.byCodec, Value.ty, hcodec]
  intro place hok
  rw [hform] at hok ⊢
  obtain ⟨n, hn, hrestored⟩ := h place hok
  -- A null would be read as nothing.
  have hkind : n.kind ≠ .null := by
    intro hkind
    cases n <;> cases hkind
    exact hnull place hn.2
  refine ⟨n, hn, hrestored.distinct, fun h => absurd h hkind, fun place => ?_⟩
  obtain ⟨w, hw, halike⟩ := hrestored.read place
  refine ⟨.some w, ?_, halike.some⟩
  rw [Tree.value_ok] at hw ⊢
  unfold Tree.level Tree.byStrategy
  simp only [Value.ty, hs, if_neg hkind, hw]
  change Value.wrapSome v.ty w = _
  rw [Value.wrapSome, Value.ofType_ty halike.ty]
  rfl

/-! ## Codecs and documents -/

/-- A value whose type has a codec. -/
theorem codec_part {v : Value} {codec : Codec} (hcodec : c.codecFor? v.ty = some codec) (h : codec.ReadsBack v) :
    Emission.Part (Encode.form c) (Restored d) v := by
  intro place hok
  cases hencode : codec.encode v with
  | error e =>
    rw [Encode.form_of_codec hcodec, hencode] at hok
    cases hok
  | ok n =>
    rw [Encode.form_of_codec hcodec, hencode] at hok ⊢
    -- What the codec spelled has no repeated keys, so the codec is handed just that to decode.
    obtain ⟨m, hm, rfl⟩ := Encode.node_part n place hok
    obtain ⟨hdistinct, hread⟩ := h n hencode
    have hcodec' : d.codecFor? v.ty = some codec := by rw [hd.codecFor?_eq, hcodec]
    obtain ⟨hs, hclassify⟩ := Context.strategy_codec hd.consistent hcodec'
    refine ⟨n, hm, hdistinct, fun _ => .inr hclassify, fun place => ?_⟩
    simp only [Tree.value_ok]
    unfold Tree.level Tree.byStrategy
    rw [hs]
    simp only [Tree.wire, hdistinct.collapse]
    by_cases hkind : n.kind = .null
    · rw [if_pos hkind] at hread ⊢
      exact hread
    · rw [if_neg hkind] at hread ⊢
      rw [if_pos hread.1]
      exact hread.2

/-- Documents are written and read as they are. -/
theorem dynamic_part {v : Value} {kind : DynamicKind} {n : Node} (hty : v.ty = .dynamic kind)
    (hform : Encode.form c v = Encode.node n) (hdistinct : n.Distinct)
    (hnull : n.kind = .null → (Ty.dynamic kind).acceptsNull = true) (hread : Tree.dynamic kind n = .ok v) :
    Emission.Part (Encode.form c) (Restored d) v := by
  intro place hok
  rw [hform] at hok ⊢
  obtain ⟨m, hm, rfl⟩ := Encode.node_part n place hok
  refine ⟨n, hm, hdistinct, fun h => .inl (by rw [hty]; exact hnull h), fun place => ⟨v, ?_, .refl _⟩⟩
  rw [Tree.value_ok, hty]
  unfold Tree.level Tree.byStrategy
  rw [Context.strategy_dynamic hd.consistent]
  exact hread

end Forms

/-! ## Containers -/

section Containers
variable {c d : Context} {item : Ty} (owner : String) (place : Place)

/-- What is read part by part is pushed part by part. -/
theorem foldlM_push {α β γ : Type} {S : α → β → Prop} {R : α → γ → Prop}
    {step : Array γ → β → Except BindError (Array γ)}
    (hstep : ∀ a b read, S a b → ∃ g, R a g ∧ step read b = .ok (read.push g)) {as : List α} {bs : List β}
    (h : List.Forall₂ S as bs) :
    ∀ read, ∃ gs, List.Forall₂ R as gs ∧ bs.foldlM step read = .ok (read ++ gs.toArray) := by
  induction h with
  | nil => exact fun read => ⟨[], .nil, by simp [pure, Except.pure]⟩
  | cons hab _ ih =>
    intro read
    obtain ⟨g, hg, hread⟩ := hstep _ _ read hab
    obtain ⟨gs, hgs, hfold⟩ := ih (read.push g)
    refine ⟨g :: gs, .cons hg hgs, ?_⟩
    rw [List.foldlM_cons, hread, ok_bind, hfold]
    simp

/-- The items of an array are read from the nodes that were written for them. -/
theorem items_restored {vs : List Value} {ns : List Node} (h : List.Forall₂ (Restored d) vs ns)
    (htyped : ∀ v ∈ vs, v.ty = item) : ∃ ws, List.Forall₂ Alike vs ws ∧
      Tree.items (.array ns) (ns.map (Tree.value d)) item owner place = .ok ws := by
  have hstep : ∀ v n (read : Array Value), v.ty = item ∧ Restored d v n → ∃ w, Alike v w ∧
      (do return read.push (← Tree.value d n item (place.item owner read.size))) =
        (.ok (read.push w) : Except BindError _) := by
    intro v n read hn
    obtain ⟨w, hw, halike⟩ := hn.2.read (place.item owner read.size)
    rw [hn.1] at hw
    exact ⟨w, halike, by rw [hw]; rfl⟩
  have hread : List.Forall₂ (fun v n => v.ty = item ∧ Restored d v n) vs ns :=
    (List.forall₂_and_left _ _).2 ⟨htyped, h⟩
  obtain ⟨ws, hws, hfold⟩ := foldlM_push (R := Alike) hstep hread #[]
  refine ⟨ws, hws, ?_⟩
  simp only [Tree.items, List.foldlM_map, hfold, ok_bind]
  simp [pure, Except.pure]

/-- The entries of an object are read from the nodes that were written for them. -/
theorem entries_restored {es : List (String × Value)} {fs : List (String × Node)}
    (h : List.Forall₂ (fun e f => f.1 = e.1 ∧ Restored d e.2 f.2) es fs) (htyped : ∀ e ∈ es, e.2.ty = item) :
    ∃ gs, List.Forall₂ (fun e g => g.1 = e.1 ∧ Alike e.2 g.2) es gs ∧
      Tree.entries (.object fs) (fs.map fun f => (f.1, f.2, Tree.value d f.2)) item owner place = .ok gs := by
  have hstep : ∀ (e : String × Value) (f : String × Node) (read : Array (String × Value)),
      e.2.ty = item ∧ f.1 = e.1 ∧ Restored d e.2 f.2 → ∃ g, (g.1 = e.1 ∧ Alike e.2 g.2) ∧
        (do return read.push (f.1, ← Tree.value d f.2 item (place.member owner f.1))) =
          (.ok (read.push g) : Except BindError _) := by
    intro e f read hf
    obtain ⟨w, hw, halike⟩ := hf.2.2.read (place.member owner f.1)
    rw [hf.1] at hw
    exact ⟨(f.1, w), ⟨hf.2.1, halike⟩, by rw [hw]; rfl⟩
  have hread : List.Forall₂ (fun e f => e.2.ty = item ∧ f.1 = e.1 ∧ Restored d e.2 f.2) es fs :=
    (List.forall₂_and_left _ _).2 ⟨htyped, h⟩
  obtain ⟨gs, hgs, hfold⟩ := foldlM_push (R := fun (e g : String × Value) => g.1 = e.1 ∧ Alike e.2 g.2) hstep hread #[]
  refine ⟨gs, hgs, ?_⟩
  simp only [Tree.entries, List.foldlM_map, hfold, ok_bind]
  simp [pure, Except.pure]

theorem distinct_array {vs : List Value} {ns : List Node} (h : List.Forall₂ (Restored d) vs ns) :
    (Node.array ns).Distinct := by
  refine .array fun n hn => ?_
  obtain ⟨v, -, hv⟩ := forall₂_exists_left h hn
  exact hv.distinct

theorem distinct_object {es : List (String × Value)} {fs : List (String × Node)} (hkeys : (Entries.keys es).Nodup)
    (h : List.Forall₂ (fun e f => f.1 = e.1 ∧ Restored d e.2 f.2) es fs) : (Node.object fs).Distinct := by
  have heq := Entries.keys_of_forall₂ h
  refine .object (heq ▸ hkeys) fun f hf => ?_
  obtain ⟨e, -, he⟩ := forall₂_exists_left h hf
  exact he.2.distinct

/-- A value that is written as an array of its items, and built from items that are read. -/
theorem array_part {v : Value} {vs : List Value} (build : List Value → Except BindError Value)
    (hform : ∀ place, Encode.form c v place = .array place v.ty.path (vs.map (Encode.form c)))
    (hlevel : ∀ ns place, Tree.level d (.array ns) (ns.map (Tree.value d)) [] place v.ty =
      Tree.items (.array ns) (ns.map (Tree.value d)) item v.ty.path place >>= build)
    (hbuild : ∀ ws, List.Forall₂ Alike vs ws → Value.allOfType item ws = .ok ws → ∃ w, build ws = .ok w ∧ Alike v w)
    (htyped : ∀ v ∈ vs, v.ty = item) (h : ∀ v ∈ vs, Emission.Part (Encode.form c) (Restored d) v) :
    Emission.Part (Encode.form c) (Restored d) v := by
  intro place hok
  rw [hform] at hok ⊢
  obtain ⟨ns, hns, hrestored⟩ := Emission.array_puts h place _ hok
  refine ⟨.array ns, hns, distinct_array hrestored, by simp [Node.kind], fun place => ?_⟩
  obtain ⟨ws, hws, hitems⟩ := items_restored v.ty.path place hrestored htyped
  obtain ⟨w, hw, halike⟩ := hbuild ws hws (Value.allOfType_eq (Value.ty_of_alike hws htyped))
  refine ⟨w, Tree.value_ok.2 ?_, halike⟩
  refine (hlevel ns place).trans ?_
  rw [hitems]
  exact hw

variable (hd : c.Agree d)
include hd

/-- Sequences. -/
theorem seq_part {kind : SeqKind} {vs : List Value} (hcodec : c.codecFor? (.seq kind item) = none)
    (hlength : ∀ n, kind = .fixed n → vs.length = n) (htyped : ∀ v ∈ vs, v.ty = item)
    (h : ∀ v ∈ vs, Emission.Part (Encode.form c) (Restored d) v) :
    Emission.Part (Encode.form c) (Restored d) (.seq kind item vs) := by
  have hs : d.strategy (.seq kind item) = .byStructure := hd.byStructure hcodec (by simp) (by simp [Schema.classify])
  refine array_part (Value.buildSeq kind item) (fun place => ?_) (fun ns place => ?_) ?_ htyped h
  · simp only [Encode.form, Encode.byCodec, Value.ty, hcodec, Encode.forms_eq]
  · simp [Tree.level, Tree.byStrategy, Value.ty, hs, Node.kind]
  · intro ws hws hall
    refine ⟨.seq kind item ws, ?_, .seq kind item hws⟩
    unfold Value.buildSeq
    rw [hall]
    cases kind with
    | fixed n => exact if_pos (hws.length_eq ▸ hlength n rfl)
    | _ => rfl

/-- Sorted sets. -/
theorem set_part {vs : List Value} (hcodec : c.codecFor? (.set .sorted item) = none)
    (hsorted : ∀ ws, List.Forall₂ Alike vs ws → ws.Pairwise fun v w => d.schema.order v w = .lt)
    (htyped : ∀ v ∈ vs, v.ty = item) (h : ∀ v ∈ vs, Emission.Part (Encode.form c) (Restored d) v) :
    Emission.Part (Encode.form c) (Restored d) (.set .sorted item vs) := by
  have hs : d.strategy (.set .sorted item) = .byStructure :=
    hd.byStructure hcodec (by simp) (by simp [Schema.classify])
  refine array_part (Value.buildSet d.schema.order .sorted item) (fun place => ?_) (fun ns place => ?_) ?_ htyped h
  · simp only [Encode.form, Encode.byCodec, Value.ty, hcodec, Encode.forms_eq]
  · simp [Tree.level, Tree.byStrategy, Value.ty, hs, Node.kind]
  · intro ws hws hall
    refine ⟨.set .sorted item ws, ?_, .set .sorted item hws⟩
    unfold Value.buildSet
    rw [hall]
    change Except.ok (Value.set .sorted item (Value.keepItems d.schema.order .sorted ws)) = _
    rw [Value.keepItems_sorted (hsorted ws hws)]

/-- Sorted maps. -/
theorem map_part {es : List (String × Value)} (hcodec : c.codecFor? (.map .sorted item) = none)
    (hsorted : (Entries.keys es).Pairwise fun j k => compare j k = .lt) (htyped : ∀ e ∈ es, e.2.ty = item)
    (h : ∀ e ∈ es, Emission.Part (Encode.form c) (Restored d) e.2) :
    Emission.Part (Encode.form c) (Restored d) (.map .sorted item es) := by
  have hs : d.strategy (.map .sorted item) = .byStructure :=
    hd.byStructure hcodec (by simp) (by simp [Schema.classify])
  have hform : ∀ place, Encode.form c (.map .sorted item es) place =
      .object place (Ty.map .sorted item).path (es.map fun e => (e.1, Encode.form c e.2)) := by
    intro place
    simp only [Encode.form, Encode.byCodec, Value.ty, hcodec, Encode.entryForms_eq]
  -- Keys that ascend are pairwise different.
  have hkeys : (Entries.keys es).Nodup := by
    refine hsorted.imp fun hjk heq => ?_
    subst heq
    simp at hjk
  intro place hok
  rw [hform] at hok ⊢
  obtain ⟨fs, hfs, hrestored⟩ := Emission.object_puts h place _ hok
  refine ⟨.object fs, hfs, distinct_object hkeys hrestored, by simp [Node.kind], fun place => ?_⟩
  obtain ⟨gs, hgs, hentries⟩ := entries_restored (Ty.map .sorted item).path place hrestored htyped
  have hgskeys := Entries.keys_of_forall₂ hgs
  have hgstyped : ∀ g ∈ gs, g.2.ty = item := by
    intro g hg
    obtain ⟨e, he, -, halike⟩ := forall₂_exists_left hgs hg
    exact halike.ty.trans (htyped e he)
  refine ⟨.map .sorted item gs, ?_, .map .sorted item hgs⟩
  rw [Tree.value_ok]
  have hlevel : ∀ fs place, Tree.level d (.object fs) [] (fs.map fun f => (f.1, f.2, Tree.value d f.2)) place
      (.map .sorted item) = Tree.entries (.object fs) (fs.map fun f => (f.1, f.2, Tree.value d f.2)) item
        (Ty.map .sorted item).path place >>= Value.buildMap .sorted item := by
    intro fs place
    simp [Tree.level, Tree.byStrategy, hs, Node.kind]
  refine (hlevel fs place).trans ?_
  rw [hentries]
  change Value.buildMap .sorted item gs = _
  unfold Value.buildMap
  rw [mapM_of_forall (f := id) fun g hg => by rw [Value.ofType_ty (hgstyped g hg)]; rfl, List.map_id]
  change Except.ok (Value.map .sorted item (Value.keepEntries .sorted gs)) = _
  rw [Value.keepEntries_sorted (hgskeys ▸ hsorted)]

end Containers

end Bindery
