import Bindery.Proofs.Documents
import Bindery.Proofs.Transparency
/-!
# When codecs are asked

Reading finds the codec of a type by the classification that the registry keeps, writing by the codecs alone. After
any registrations both find the same: the codec that was registered last for the very type, if the type is not
dynamic. Wherever a value of the type stands, writing puts down the node that its codec spells and nothing of the
value (`Encode.Spelled.form_eq`), and reading asks the codec for a null or for a whole document of its wire kind
(`Codec.consulted`). What a codec makes of anything else, and what codecs of dynamic types do, shows nowhere
(`codecs_consulted_alike`).
-/

namespace Bindery

open TokenStream (front advance)

/-! ## Writing -/

namespace Encode

/-- The second value is the first with some parts replaced by the nodes that their codecs spell. Around such a part
there are values without codecs only. -/
inductive Spelled (c : Context) : Value → Value → Prop
  | refl (v : Value) : Spelled c v v
  | node {v : Value} {k : Codec} {n : Node} (hk : c.codecFor? v.ty = some k) (hn : k.encode v = .ok n) :
    Spelled c v (.node n)
  | some {v w : Value} (h : Spelled c v w) (hc : c.codecFor? (.option v.ty) = none) : Spelled c (.some v) w
  | seq (kind : SeqKind) (item : Ty) {parts : List (Value × Value)} (h : ∀ p ∈ parts, Spelled c p.1 p.2)
    (hc : c.codecFor? (.seq kind item) = none) :
    Spelled c (.seq kind item (parts.map (·.1))) (.seq kind item (parts.map (·.2)))
  | set (keeping : Keeping) (item : Ty) {parts : List (Value × Value)} (h : ∀ p ∈ parts, Spelled c p.1 p.2)
    (hc : c.codecFor? (.set keeping item) = none) :
    Spelled c (.set keeping item (parts.map (·.1))) (.set keeping item (parts.map (·.2)))
  | map (keeping : Keeping) (val : Ty) {parts : List (String × Value × Value)} (h : ∀ p ∈ parts, Spelled c p.2.1 p.2.2)
    (hc : c.codecFor? (.map keeping val) = none) :
    Spelled c (.map keeping val (parts.map fun p => (p.1, p.2.1))) (.map keeping val (parts.map fun p => (p.1, p.2.2)))
  | record (name : String) (side : List (String × Node)) {parts : List (Value × Value)}
    (h : ∀ p ∈ parts, Spelled c p.1 p.2) (hc : c.codecFor? (.record name) = none) :
    Spelled c (.record name (parts.map (·.1)) side) (.record name (parts.map (·.2)) side)

variable {c : Context}

theorem forms_parts {parts : List (Value × Value)} (h : ∀ p ∈ parts, form c p.1 = form c p.2) :
    forms c (parts.map (·.1)) = forms c (parts.map (·.2)) := by
  rw [forms_eq, forms_eq, List.map_map, List.map_map]
  exact List.map_congr_left h

/-- Nothing is written of a part but the node that its codec spells. -/
theorem Spelled.form_eq {v w : Value} (h : Spelled c v w) : form c v = form c w := by
  induction h with
  | refl => rfl
  | @node v k n hk hn =>
    rw [form_of_codec hk, hn]
    rfl
  | some _ hc ih => rw [form, byCodec_none hc, ih]
  | seq kind item _ hc ih => rw [form, form, byCodec_none hc, byCodec_none hc, forms_parts ih]
  | set keeping item _ hc ih => rw [form, form, byCodec_none hc, byCodec_none hc, forms_parts ih]
  | @map keeping val parts _ hc ih =>
    have hentries : entryForms c (parts.map fun p => (p.1, p.2.1)) =
        entryForms c (parts.map fun p => (p.1, p.2.2)) := by
      rw [entryForms_eq, entryForms_eq, List.map_map, List.map_map]
      exact List.map_congr_left fun p hp => congrArg (p.1, ·) (ih p hp)
    rw [form, form, byCodec_none hc, byCodec_none hc, hentries]
  | record name side _ hc ih => rw [form, form, byCodec_none hc, byCodec_none hc, forms_parts ih]

end Encode

/-! ## Reading -/

/-- How a codec is asked at a source. -/
structure Codec.Consulted {σ : Type} [TokenStream σ] (k : Codec) (budget : Nat) (place : Place) (s : σ) : Prop where
  /-- A null is consumed, and the codec is asked what it reads as. -/
  null : (front s).kind = .null →
    Decode.wire budget k place s = (Reading.lift k.decodeNull : Reading σ Value) (advance s)
  /-- A token that does not begin the wire kind is refused and left where it is. -/
  refused : (front s).kind ≠ .null → k.wire.accepts (front s).kind = false →
    Decode.wire budget k place s = .error (.tokenMismatch k.wire.expected (front s).kind) s
  /-- From any other token on a whole document of the wire kind is read, and the codec is asked what it reads as;
  where there is none, reading fails before. -/
  whole : (front s).kind ≠ .null → k.wire.accepts (front s).kind = true →
    (∃ n ts s', Walks s ts s' ∧ Denotes ts n ∧ k.wire.Asked n ∧
      Decode.wire budget k place s = (Reading.lift (k.decode n) : Reading σ Value) s') ∨
    ∃ e s', e.IsMismatch ∧ Decode.node budget place s = .error e s' ∧ Decode.wire budget k place s = .error e s'

theorem Codec.consulted {σ : Type} [TokenStream σ] (k : Codec) (budget : Nat) (place : Place) (s : σ) :
    k.Consulted budget place s where
  null hnull := by rw [Decode.wire_eq, if_pos hnull]
  refused hnull haccepts := by rw [Decode.wire_eq, if_neg hnull, if_neg (by simp [haccepts])]
  whole hnull haccepts := by
    rw [Decode.wire_eq, if_neg hnull, if_pos haccepts]
    cases hn : Decode.node budget place s with
    | ok n s' =>
      obtain ⟨hkind, ts, hw, hts⟩ := Decode.node_whole hn
      exact .inl ⟨n, ts, s', hw, hts, ⟨hkind ▸ hnull, hkind ▸ haccepts⟩, rfl⟩
    | error e s' => exact .inr ⟨e, s', (ReadsSentence.node budget place).error hn, rfl, rfl⟩

/-- A type is dynamic or it is not. -/
theorem Ty.dynamic_or (t : Ty) : (∃ kind, t = .dynamic kind) ∨ ∀ kind, t ≠ .dynamic kind := by
  cases t with
  | dynamic kind => exact .inl ⟨kind, rfl⟩
  | _ => exact .inr fun _ h => nomatch h

namespace Context

variable {σ : Type} [TokenSource σ] {c : Context} {t : Ty} {k : Codec}

/-- A value whose type has a codec is read by it. -/
theorem level_of_codec (hconsistent : c.registry.Consistent c.schema) (hk : c.codecFor? t = some k) (budget : Nat)
    (part : Ty → Place → Reading σ Value) (place : Place) :
    Decode.level c budget part place t = Decode.wire (budget + 1) k place := by
  rw [Decode.level.eq_def]
  unfold Decode.byStrategy
  rw [(strategy_codec hconsistent hk).1]
  exact Reading.get_bind_const _

/-- No null is absent where a codec is asked. -/
theorem absent_of_codec (hconsistent : c.registry.Consistent c.schema) (hk : c.codecFor? t = some k) (s : σ) :
    Decode.absent c t s = .ok false s := by
  unfold Decode.absent
  rw [Reading.peek_bind, if_pos (.inr (.inr (strategy_codec hconsistent hk).2))]
  rfl

/-- A type without a codec is read by its structure or refused. -/
theorem strategy_of_none (hconsistent : c.registry.Consistent c.schema) (hk : c.codecFor? t = none)
    (hdynamic : ∀ kind, t ≠ .dynamic kind) :
    c.strategy t = if c.classify t = .unrecognized then .refuse (c.refusal t) else .byStructure := by
  have hclassify := classify_of_codecFor? hconsistent hk
  unfold strategy
  cases hkind : c.classify t with
  | valueCodec => exact absurd hkind hclassify
  | dynamic =>
    cases t with
    | dynamic kind => exact absurd rfl (hdynamic kind)
    | _ => rfl
  | _ => rfl

/-- Reading goes by a codec when writing does. -/
theorem strategy_codec_iff (hconsistent : c.registry.Consistent c.schema) :
    c.strategy t = .codec k ↔ c.codecFor? t = some k := by
  refine ⟨fun h => ?_, fun h => (strategy_codec hconsistent h).1⟩
  cases hc : c.codecFor? t with
  | some l =>
    rw [(strategy_codec hconsistent hc).1] at h
    cases h
    rfl
  | none =>
    rcases t.dynamic_or with ⟨kind, rfl⟩ | hdynamic
    · rw [strategy_dynamic hconsistent] at h
      cases h
    · rw [strategy_of_none hconsistent hc hdynamic] at h
      split at h <;> cases h

end Context

/-! ## Histories -/

namespace History

variable {Γ : Schema} {config : Config} {h h' : History}

theorem consistent : (h.binder Γ config).registry.Consistent (h.binder Γ config).schema := by
  rw [schema_binder]
  exact (h.reachable_binder Γ config).consistent

theorem codecFor?_binder {t : Ty} (hdynamic : ∀ kind, t ≠ .dynamic kind) :
    (h.binder Γ config).codecFor? t = h.codec? t := by
  rw [← h.codec?_binder Γ config]
  cases t with
  | dynamic kind => exact absurd rfl (hdynamic kind)
  | _ => rfl

theorem codecFor?_binder_iff {t : Ty} {k : Codec} :
    (h.binder Γ config).codecFor? t = some k ↔ h.codec? t = some k ∧ ∀ kind, t ≠ .dynamic kind := by
  constructor
  · intro hk
    have hdynamic := (Context.codec?_of_codecFor? hk).2
    exact ⟨(codecFor?_binder hdynamic).symm.trans hk, hdynamic⟩
  · exact fun ⟨hk, hdynamic⟩ => (codecFor?_binder hdynamic).trans hk

/-- The same codecs for the types that are not dynamic, as far as can be told. -/
def Indistinct (h h' : History) : Prop :=
  ∀ t, (∀ kind, t ≠ .dynamic kind) → Option.Rel Codec.Indistinct (h.codec? t) (h'.codec? t)

theorem Indistinct.isSome (hcodecs : h.Indistinct h') {t : Ty} (hdynamic : ∀ kind, t ≠ .dynamic kind) :
    (h'.codec? t).isSome = (h.codec? t).isSome := by
  have hrel := hcodecs t hdynamic
  generalize h.codec? t = k?, h'.codec? t = l? at hrel
  cases hrel <;> rfl

theorem Indistinct.classify (hcodecs : h.Indistinct h') (t : Ty) :
    (h'.binder Γ config).classify t = (h.binder Γ config).classify t := by
  rw [classify_binder, classify_binder]
  rcases t.dynamic_or with ⟨kind, rfl⟩ | hdynamic
  · rfl
  · rw [hcodecs.isSome hdynamic]

theorem Indistinct.codecFor? (hcodecs : h.Indistinct h') (t : Ty) :
    Option.Rel Codec.Indistinct ((h.binder Γ config).codecFor? t) ((h'.binder Γ config).codecFor? t) := by
  rcases t.dynamic_or with ⟨kind, rfl⟩ | hdynamic
  · exact .none
  · rw [codecFor?_binder hdynamic, codecFor?_binder hdynamic]
    exact hcodecs t hdynamic

theorem Indistinct.strategy (hcodecs : h.Indistinct h') (t : Ty) :
    ((h.binder Γ config).strategy t).Indistinct ((h'.binder Γ config).strategy t) := by
  rcases t.dynamic_or with ⟨kind, rfl⟩ | hdynamic
  · rw [Context.strategy_dynamic h.consistent, Context.strategy_dynamic h'.consistent]
    exact .same _
  · have hrel : Option.Rel Codec.Indistinct ((h.binder Γ config).codecFor? t) ((h'.binder Γ config).codecFor? t) :=
      hcodecs.codecFor? t
    generalize hk : (h.binder Γ config).codecFor? t = k?, hl : (h'.binder Γ config).codecFor? t = l? at hrel
    cases hrel with
    | some hkl =>
      rw [(Context.strategy_codec h.consistent hk).1, (Context.strategy_codec h'.consistent hl).1]
      exact .codec hkl
    | none =>
      have hrefusal : (h'.binder Γ config).refusal t = (h.binder Γ config).refusal t := by
        unfold Context.refusal
        rw [schema_binder, schema_binder]
      rw [Context.strategy_of_none h.consistent hk hdynamic, Context.strategy_of_none h'.consistent hl hdynamic,
        hcodecs.classify, hrefusal]
      exact .same _

theorem Indistinct.binder (hcodecs : h.Indistinct h') (Γ : Schema) (config : Config) :
    (h.binder Γ config).toContext.Indistinct (h'.binder Γ config).toContext where
  schema := by rw [schema_binder, schema_binder]
  config := by rw [config_binder, config_binder]
  classify := hcodecs.classify
  strategy := hcodecs.strategy
  codecFor? := hcodecs.codecFor?

end History

/-- After any registrations, reading a type goes by a codec when writing it does: by the codec that was registered
last for the type, unless the type is dynamic. Wherever a value of the type stands, in whatever other values, writing
puts down the node that the codec spells and nothing of the value; and reading asks the codec for a null, or for a
whole document of its wire kind and not null, and refuses any other token before the codec is asked. So it does not
show what the codecs make of other documents, nor whether there are codecs of dynamic types: after two histories
whose codecs of the other types agree on what they are asked, any source is read as any type alike, and any value
is written alike. -/
theorem codecs_consulted_alike (Γ : Schema) (config : Config) (h : History) :
    let b := h.binder Γ config
    (∀ t k, (b.strategy t = .codec k ↔ b.codecFor? t = some k) ∧
      (b.codecFor? t = some k ↔ h.codec? t = some k ∧ ∀ kind, t ≠ .dynamic kind)) ∧
    (∀ v k, b.codecFor? v.ty = some k → ∀ place, Encode.form b.toContext v place =
      match k.encode v with
      | .ok n => Encode.node n place
      | .error e => .fail e) ∧
    (∀ v w, Encode.Spelled b.toContext v w → ∀ place,
      Encode.form b.toContext v place = Encode.form b.toContext w place) ∧
    (∀ (σ : Type) [TokenSource σ] (t : Ty) (k : Codec), b.codecFor? t = some k → ∀ (budget : Nat) (place : Place),
      (∀ part : Ty → Place → Reading σ Value,
        Decode.level b.toContext budget part place t = Decode.wire (budget + 1) k place) ∧
      Decode.value b.toContext (budget + 1) t place =
        Reading.atPlace place (Decode.wire (budget + 1) k place : Reading σ Value) ∧
      ∀ s : σ, Decode.absent b.toContext t s = .ok false s ∧ k.Consulted budget place s) ∧
    ∀ h' : History, h.Indistinct h' →
      (∀ (σ : Type) [TokenSource σ] (t : Ty) (s : σ),
        (∀ budget place, Decode.value (h'.binder Γ config).toContext budget t place s =
          Decode.value b.toContext budget t place s) ∧
        ((h'.binder Γ config).decode t s).1 = (b.decode t s).1 ∧
        ((h'.binder Γ config).decode t s).2.1 = (b.decode t s).2.1) ∧
      ∀ v, (∀ place, Encode.form (h'.binder Γ config).toContext v place = Encode.form b.toContext v place) ∧
        (h'.binder Γ config).encode v = b.encode v := by
  intro b
  refine ⟨fun t k => ⟨Context.strategy_codec_iff h.consistent, History.codecFor?_binder_iff⟩,
    fun v k hk place => ?_, fun v w hvw place => congrFun hvw.form_eq place,
    fun σ _ t k hk budget place => ⟨fun part => Context.level_of_codec h.consistent hk budget part place, ?_, fun s =>
      ⟨Context.absent_of_codec h.consistent hk s, k.consulted budget place s⟩⟩, fun h' hcodecs => ?_⟩
  · rw [Encode.form_of_codec hk]
    cases k.encode v <;> rfl
  · rw [Decode.value, Context.level_of_codec h.consistent hk]
  · have hbinder : b.toContext.Indistinct (h'.binder Γ config).toContext := hcodecs.binder Γ config
    refine ⟨fun σ _ t s => ⟨fun budget place => ?_, ?_⟩, fun v => ⟨fun place => ?_, hbinder.encode v⟩⟩
    · rw [hbinder.value]
    · have hregister : (h.register t).Indistinct (h'.register t) := fun u hu => by
        rw [History.codec?_register, History.codec?_register]
        exact hcodecs u hu
      have hroot := (hregister.binder Γ config).root (σ := σ) t
      rw [History.binder_register, History.binder_register] at hroot
      unfold Binder.decode Binder.read
      simp only [b, hroot, and_self]
    · rw [hbinder.form]

/-- Bytes with a codec of strings, in a list. Another codec reads anything that is not a string as zero, and there is
one for documents: neither shows. -/
theorem codecs_consulted_alike_bytes :
    let wild : Codec := { Catalogue.u8Hex with
      read := fun
        | .string text => Catalogue.u8Hex.read (.string text)
        | _ => .ok (.int .u8 0)
      readNull := Catalogue.u8Hex.readNull }
    let h : History := { start := .empty, calls := [.codec Catalogue.u8Hex] }
    let h' : History := { start := .empty, calls := [.codec wild, .codec Catalogue.nodeWord] }
    let b := h.binder { records := [] } {}
    let s : TapeReader := TapeReader.ofTape (Tape.ofTokens [.startArray, .string "0x2a", .number (.ofInt 5), .endArray])
    let v : Value := .seq .vec Catalogue.u8 [.int .u8 42]
    let w : Value := .seq .vec Catalogue.u8 [.node (.string "0x2a")]
    (h.Indistinct h' ∧ b.codecFor? Catalogue.u8 = some Catalogue.u8Hex ∧ Encode.Spelled b.toContext v w) ∧
    Catalogue.u8Hex.Consulted 1 none s ∧
    Encode.form b.toContext v none = Encode.form b.toContext w none ∧
    ((h'.binder { records := [] } {}).decode (Catalogue.vec Catalogue.u8) s).1 =
      (b.decode (Catalogue.vec Catalogue.u8) s).1 := by
  intro wild h h' b s v w
  have hwild : Catalogue.u8Hex.Indistinct wild := by
    refine ⟨rfl, fun _ => rfl, rfl, fun n hn => ?_⟩
    cases n with
    | string => rfl
    | _ => exact nomatch hn.2
  have hcodecs : h.Indistinct h' := by
    intro t hdynamic
    have hword : Catalogue.nodeWord.type ≠ t := fun heq => hdynamic .any heq.symm
    have hh : h.codec? t = if Catalogue.u8 = t then some Catalogue.u8Hex else none := lastFor?_concat [] _ t
    have hh' : h'.codec? t = if Catalogue.u8 = t then some wild else none := by
      refine (lastFor?_concat [wild] _ t).trans ?_
      rw [if_neg hword]
      exact lastFor?_concat [] wild t
    rw [hh, hh']
    split
    · exact .some hwild
    · exact .none
  have hk : b.codecFor? Catalogue.u8 = some Catalogue.u8Hex := rfl
  have hparts : ∀ p ∈ [(Value.int .u8 42, Value.node (.string "0x2a"))], Encode.Spelled b.toContext p.1 p.2 := by
    simp only [List.mem_singleton, forall_eq]
    exact .node hk rfl
  have hspelled : Encode.Spelled b.toContext v w := .seq .vec Catalogue.u8 hparts rfl
  obtain ⟨-, -, hform, hread, hother⟩ := codecs_consulted_alike { records := [] } {} h
  exact ⟨⟨hcodecs, hk, hspelled⟩, ((hread TapeReader _ _ hk 1 none).2.2 s).2, hform v w hspelled none,
    ((hother h' hcodecs).1 TapeReader _ s).2.1⟩

end Bindery
