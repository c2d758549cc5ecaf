import Bindery.Context
/-!
# Registered types

A registry is reached from an empty one by registering types and codecs. Whatever the order was, the
classification that is kept for a type is the one it would get now (`Registry.Reachable.consistent`),
so a type is read by a codec if and only if its values are written by that codec.
-/

namespace Bindery

/-! ## Maps keyed by types -/

namespace TypeMap

variable {α : Type}

theorem lookup_cons (es : List (Ty × α)) (t : Ty) (a : α) (u : Ty) :
    ((t, a) :: es).lookup u = if u = t then some a else es.lookup u := by
  rw [List.lookup_cons]
  by_cases hu : u = t
  · simp [hu]
  · simp [hu, beq_eq_false_iff_ne.2 hu]

theorem find?_modify (m : TypeMap α) (t : Ty) (f : α → α) (u : Ty) :
    (m.modify t f).find? u = if u = t then (m.find? u).map f else m.find? u := by
  unfold find? modify
  induction m.entries with
  | nil => simp
  | cons e es ih =>
    obtain ⟨k, a⟩ := e
    rw [List.map_cons, lookup_cons]
    by_cases hk : k = t
    · simp only [hk, if_true, lookup_cons, ih]
      by_cases hu : u = t <;> simp [hu]
    · simp only [hk, if_false, lookup_cons, ih]
      by_cases hu : u = k
      · simp [hu, hk]
      · simp [hu]

theorem find?_concat (m : TypeMap α) (t : Ty) (a : α) (u : Ty) :
    find? ⟨m.entries ++ [(t, a)]⟩ u = (m.find? u).or (if u = t then some a else none) := by
  unfold find?
  rw [List.lookup_append, lookup_cons]
  rfl

theorem find?_insert (m : TypeMap α) (t : Ty) (a : α) (u : Ty) :
    (m.insert t a).find? u = if u = t then some a else m.find? u := by
  unfold insert
  by_cases hc : m.contains t
  · rw [if_pos hc, find?_modify]
    by_cases hu : u = t
    · subst hu
      obtain ⟨b, hb⟩ := Option.isSome_iff_exists.1 hc
      simp [hb]
    · simp [hu]
  · rw [if_neg hc, find?_concat]
    by_cases hu : u = t
    · subst hu
      have hnone : m.find? u = none := by simpa [contains] using hc
      simp [hnone]
    · simp [hu]

end TypeMap

/-! ## Registries -/

namespace Registry

/-- A registry that types and codecs were registered in. -/
inductive Reachable (Γ : Schema) : Registry → Prop
  | empty : Reachable Γ {}
  | register {r : Registry} (h : Reachable Γ r) (t : Ty) : Reachable Γ (r.register Γ t)
  | registerCodec {r : Registry} (h : Reachable Γ r) (c : Codec) : Reachable Γ (r.registerCodec Γ c)

/-- Every type is kept with the classification it would get now. -/
def Consistent (Γ : Schema) (r : Registry) : Prop :=
  ∀ t k, r.types.find? t = some k → k = Γ.classify t (r.codecs.contains t)

variable {Γ : Schema} {r : Registry}

theorem Consistent.classify (h : Consistent Γ r) (t : Ty) :
    r.classify Γ t = Γ.classify t (r.codecs.contains t) := by
  unfold Registry.classify
  cases ht : r.types.find? t with
  | none => rfl
  | some k => exact h t k ht

theorem registerOne_codecs (Γ : Schema) (r : Registry) (t : Ty) : (r.registerOne Γ t).2.codecs = r.codecs := rfl

theorem Consistent.registerOne (h : Consistent Γ r) (t : Ty) : Consistent Γ (r.registerOne Γ t).2 := by
  intro u k hu
  have htypes : (r.registerOne Γ t).2.types = (r.types.tryInsert t fun _ => r.classify Γ t).2 := rfl
  rw [htypes] at hu
  rw [registerOne_codecs]
  unfold TypeMap.tryInsert at hu
  by_cases hc : r.types.contains t
  · rw [if_pos hc] at hu
    exact h u k hu
  · rw [if_neg hc, TypeMap.find?_concat] at hu
    rcases Option.or_eq_some_iff.1 hu with hu | ⟨-, hu⟩
    · exact h u k hu
    · split at hu
      · next hut =>
        cases hu
        rw [hut]
        exact h.classify t
      · cases hu

theorem registerPending_codecs (Γ : Schema) (budget : Nat) : ∀ (pending : List Ty) (r : Registry),
    (r.registerPending Γ budget pending).codecs = r.codecs := by
  induction budget with
  | zero => intro _ _; rfl
  | succ budget ih =>
    intro pending r
    cases pending with
    | nil => rfl
    | cons t pending =>
      unfold registerPending
      split
      · next r' hr => rw [ih, ← registerOne_codecs Γ r t, hr]
      · next r' hr => rw [ih, ← registerOne_codecs Γ r t, hr]

theorem Consistent.registerPending (budget : Nat) : ∀ (pending : List Ty) {r : Registry}, Consistent Γ r →
    Consistent Γ (r.registerPending Γ budget pending) := by
  induction budget with
  | zero => exact fun _ _ h => h
  | succ budget ih =>
    intro pending r h
    cases pending with
    | nil => exact h
    | cons t pending =>
      have hone := h.registerOne t
      unfold Registry.registerPending
      split
      · next r' hr =>
        rw [hr] at hone
        exact ih _ hone
      · next r' hr =>
        rw [hr] at hone
        exact ih _ hone

theorem register_codecs (Γ : Schema) (r : Registry) (t : Ty) : (r.register Γ t).codecs = r.codecs :=
  registerPending_codecs Γ _ [t] r

theorem Consistent.register (h : Consistent Γ r) (t : Ty) : Consistent Γ (r.register Γ t) :=
  Consistent.registerPending _ [t] h

theorem Consistent.registerCodec (h : Consistent Γ r) (c : Codec) : Consistent Γ (r.registerCodec Γ c) := by
  intro t k ht
  have htypes : (r.registerCodec Γ c).types = r.types.modify c.type fun _ => Γ.classify c.type true := rfl
  have hcodecs : (r.registerCodec Γ c).codecs.contains t = (t = c.type ∨ r.codecs.contains t : Bool) := by
    unfold TypeMap.contains Registry.registerCodec
    rw [TypeMap.find?_insert]
    by_cases htc : t = c.type <;> simp [htc]
  rw [htypes, TypeMap.find?_modify] at ht
  rw [hcodecs]
  by_cases htc : t = c.type
  · rw [if_pos htc] at ht
    obtain ⟨_, -, rfl⟩ := Option.map_eq_some_iff.1 ht
    simp [htc]
  · rw [if_neg htc] at ht
    simpa [htc] using h t k ht

theorem Reachable.consistent (h : Reachable Γ r) : Consistent Γ r := by
  induction h with
  | empty => exact fun t k h => by cases h
  | register _ t ih => exact ih.register t
  | registerCodec _ c ih => exact ih.registerCodec c

end Registry

/-! ## Strategies -/

namespace Context

variable {c : Context} {t : Ty}

theorem strategy_dynamic (h : c.registry.Consistent c.schema) (kind : DynamicKind) :
    c.strategy (.dynamic kind) = .dynamic kind := by
  unfold strategy classify
  rw [h.classify]
  rfl

theorem codec?_of_codecFor? {codec : Codec} (hc : c.codecFor? t = some codec) :
    c.registry.codec? t = some codec ∧ ∀ kind, t ≠ .dynamic kind := by
  unfold codecFor? at hc
  split at hc
  · cases hc
  · next hne => exact ⟨hc, fun kind h => hne kind h⟩

/-- A type with a codec is read by the codec. -/
theorem strategy_codec (h : c.registry.Consistent c.schema) {codec : Codec} (hc : c.codecFor? t = some codec) :
    c.strategy t = .codec codec ∧ c.classify t = .valueCodec := by
  obtain ⟨hcodec, hdynamic⟩ := codec?_of_codecFor? hc
  have hcontains : c.registry.codecs.contains t = true := by
    unfold TypeMap.contains
    rw [show c.registry.codecs.find? t = some codec from hcodec]
    rfl
  have hclassify : c.classify t = .valueCodec := by
    unfold classify
    rw [h.classify, hcontains]
    cases t <;> first | rfl | exact absurd rfl (hdynamic _)
  unfold strategy
  rw [hclassify, hcodec]
  exact ⟨rfl, rfl⟩

/-- A type without a codec is not read by one. -/
theorem classify_of_codecFor? (h : c.registry.Consistent c.schema) (hc : c.codecFor? t = none) :
    c.classify t ≠ .valueCodec := by
  unfold classify
  rw [h.classify]
  cases t with
  | dynamic kind => exact nofun
  | record name =>
    have hcontains : c.registry.codecs.contains (.record name) = false := by
      unfold TypeMap.contains
      rw [show c.registry.codecs.find? (.record name) = none from hc]
      rfl
    unfold Schema.classify
    rw [hcontains]
    simp only [Bool.false_eq_true, if_false]
    split <;> exact nofun
  | _ =>
    unfold TypeMap.contains
    rw [show c.registry.codecs.find? _ = none from hc]
    exact nofun

/-- A type without a codec is read by its structure, if it is recognized. -/
theorem strategy_byStructure (h : c.registry.Consistent c.schema) (hc : c.codecFor? t = none)
    (hdynamic : ∀ kind, t ≠ .dynamic kind) (hrecognized : c.schema.classify t false ≠ .unrecognized) :
    c.strategy t = .byStructure := by
  have hnone : c.registry.codec? t = none := by
    cases t with
    | dynamic kind => exact absurd rfl (hdynamic kind)
    | _ => exact hc
  have hcontains : c.registry.codecs.contains t = false := by
    unfold TypeMap.contains
    rw [show c.registry.codecs.find? t = none from hnone]
    rfl
  unfold strategy classify
  rw [h.classify, hcontains]
  cases hk : c.schema.classify t false with
  | unrecognized => exact absurd hk hrecognized
  | valueCodec => simp only [hnone]
  | dynamic =>
    cases t with
    | dynamic kind => exact absurd rfl (hdynamic kind)
    | _ => rfl
  | _ => rfl

end Context

end Bindery
