import Bindery.Catalogue.Model
import Bindery.Proofs.History
import Mathlib.Data.List.Nodup
import Mathlib.Data.Set.Basic
import Mathlib.Order.Bounds.Basic
/-!
# What ends up registered

Registering a type takes up pending types one by one: a type that is new is followed by all that it is made
of, a type that is registered already by nothing. `Registry.Drains` is this loop without a budget. The budget
of `Registry.register` covers it, also where types are made of themselves (`drains_register`), because what a
type can still add to the pending ones is paid when it is registered.

While the loop runs, what a registered type is made of may still be pending, and nothing else is missing. So
the registered types are closed again at its end, and they are the least such set (`registered_least`).
-/

namespace Bindery

theorem TypeMap.contains_iff {α : Type} (m : TypeMap α) (t : Ty) : m.contains t ↔ t ∈ m.types := by
  unfold contains find? types
  induction m.entries with
  | nil => simp
  | cons e es ih =>
    obtain ⟨u, a⟩ := e
    rw [lookup_cons, List.map_cons, List.mem_cons, ← ih]
    by_cases h : t = u <;> simp [h]

/-- With every type, all that it is made of. -/
def Schema.Closed (Γ : Schema) (S : Set Ty) : Prop := ∀ t ∈ S, ∀ u ∈ Γ.dependencies t, u ∈ S

/-! ## Types that can be met -/

theorem Ty.mem_parts (t : Ty) : t ∈ t.parts := by
  cases t <;> simp [parts]

theorem Ty.parts_trans {u t : Ty} (h : u ∈ t.parts) : ∀ w ∈ u.parts, w ∈ t.parts := by
  induction t with
  | option t ih | seq _ t ih | set _ t ih | map _ t ih =>
    rw [parts, List.mem_cons] at h
    intro w hw
    rcases h with rfl | h
    · exact hw
    · exact List.mem_cons_of_mem _ (ih h w hw)
  | scalar | enum | dynamic | record | foreign =>
    cases List.mem_singleton.1 h
    exact fun _ hw => hw

namespace Schema

variable {Γ : Schema}

theorem types_record {name : String} {t : Ty} (h : t ∈ (Γ.record name).types) : ∃ r ∈ Γ.records, t ∈ r.types := by
  unfold record at h
  cases hfind : Γ.records.find? (·.name == name) with
  | none =>
    rw [hfind] at h
    cases h
  | some r =>
    rw [hfind] at h
    exact ⟨r, List.mem_of_find?_eq_some hfind, h⟩

/-- What a type is made of is a part of it, or the type of a field or an argument of a record. -/
theorem dependencies_cases {t u : Ty} (h : u ∈ Γ.dependencies t) :
    u ∈ t.parts ∨ ∃ r ∈ Γ.records, u ∈ r.types := by
  cases t with
  | option t | seq _ t | set _ t | map _ t =>
    rw [dependencies, List.mem_singleton] at h
    subst h
    exact .inl (List.mem_cons_of_mem _ u.mem_parts)
  | record name => exact .inr (types_record h)
  | scalar | enum | dynamic | foreign => cases h

theorem typesFrom_closed (Γ : Schema) (t : Ty) : Γ.Closed {u | u ∈ Γ.typesFrom t} := by
  intro u hu w hw
  simp only [Set.mem_ofPred_eq, typesFrom, List.mem_append, List.mem_flatMap] at hu ⊢
  rcases dependencies_cases hw with hw | ⟨r, hr, hw⟩
  · rcases hu with hu | ⟨r, hr, v, hv, hu⟩
    · exact .inl (Ty.parts_trans hu w hw)
    · exact .inr ⟨r, hr, v, hv, Ty.parts_trans hu w hw⟩
  · exact .inr ⟨r, hr, w, hw, w.mem_parts⟩

end Schema

namespace Registry

/-! ## The loop -/

/-- The types that are registered. -/
def registered (r : Registry) : Set Ty := {t | r.contains t}

theorem mem_registered {r : Registry} {t : Ty} : t ∈ r.registered ↔ t ∈ r.types.types := r.types.contains_iff t

variable {Γ : Schema} {r r' : Registry} {t : Ty} {pending : List Ty}

theorem registerOne_known (h : r.contains t) : r.registerOne Γ t = (false, r) := by
  have htypes : r.types.contains t := h
  unfold registerOne TypeMap.tryInsert
  rw [if_pos htypes]

theorem registerOne_new (h : ¬ r.contains t) :
    r.registerOne Γ t = (true, { r with types := ⟨r.types.entries ++ [(t, r.classify Γ t)]⟩ }) := by
  have htypes : ¬ r.types.contains t := h
  unfold registerOne TypeMap.tryInsert
  rw [if_neg htypes]

theorem types_registerOne_new (h : ¬ r.contains t) :
    (r.registerOne Γ t).2.types.types = r.types.types ++ [t] := by
  rw [registerOne_new h]
  exact List.map_append

theorem mem_registerOne_new (h : ¬ r.contains t) {u : Ty} :
    u ∈ (r.registerOne Γ t).2.registered ↔ u ∈ r.registered ∨ u = t := by
  rw [mem_registered, mem_registered, types_registerOne_new h, List.mem_append, List.mem_singleton]

/-- Pending types are taken up until there are none. -/
inductive Drains (Γ : Schema) : List Ty → Registry → Registry → Prop
  | done (r : Registry) : Drains Γ [] r r
  | known {t : Ty} {pending : List Ty} {r r' : Registry} (h : r.contains t) (rest : Drains Γ pending r r') :
    Drains Γ (t :: pending) r r'
  | new {t : Ty} {pending : List Ty} {r r' : Registry} (h : ¬ r.contains t)
    (rest : Drains Γ (Γ.dependencies t ++ pending) (r.registerOne Γ t).2 r') : Drains Γ (t :: pending) r r'

namespace Drains

/-- Entries stay as they are, and new ones come behind them. -/
theorem entries_kept (h : Drains Γ pending r r') : r.types.entries <+: r'.types.entries := by
  induction h with
  | done => exact List.prefix_refl _
  | known _ _ ih => exact ih
  | new hnew _ ih =>
    rw [registerOne_new hnew] at ih
    exact (List.prefix_append _ _).trans ih

theorem registered_subset (h : Drains Γ pending r r') : r.registered ⊆ r'.registered := by
  intro t ht
  rw [mem_registered] at ht ⊢
  exact (h.entries_kept.map Prod.fst).subset ht

theorem nodup (h : Drains Γ pending r r') (hr : r.types.types.Nodup) : r'.types.types.Nodup := by
  induction h with
  | done => exact hr
  | known _ _ ih => exact ih hr
  | @new t _ r _ hnew _ ih =>
    refine ih ?_
    rw [types_registerOne_new hnew, List.nodup_append]
    refine ⟨hr, List.nodup_singleton t, fun u hu w hw => ?_⟩
    rintro rfl
    rw [List.mem_singleton.1 hw] at hu
    exact hnew (mem_registered.2 hu)

theorem pending_registered (h : Drains Γ pending r r') : ∀ t ∈ pending, t ∈ r'.registered := by
  induction h with
  | done => exact fun _ h => by cases h
  | known hknown rest ih =>
    intro u hu
    rcases List.mem_cons.1 hu with rfl | hu
    · exact rest.registered_subset hknown
    · exact ih u hu
  | new hnew rest ih =>
    intro u hu
    rcases List.mem_cons.1 hu with rfl | hu
    · exact rest.registered_subset ((mem_registerOne_new hnew).2 (.inr rfl))
    · exact ih u (List.mem_append_right _ hu)

/-- What a registered type is made of is registered or pending, all through the loop. -/
theorem closed (h : Drains Γ pending r r')
    (hr : ∀ t ∈ r.registered, ∀ u ∈ Γ.dependencies t, u ∈ r.registered ∨ u ∈ pending) : Γ.Closed r'.registered := by
  induction h with
  | done => exact fun t ht u hu => (hr t ht u hu).resolve_right List.not_mem_nil
  | known hknown _ ih =>
    refine ih fun t ht u hu => ?_
    rcases hr t ht u hu with hu | hu
    · exact .inl hu
    · rcases List.mem_cons.1 hu with rfl | hu
      · exact .inl hknown
      · exact .inr hu
  | new hnew _ ih =>
    refine ih fun t ht u hu => ?_
    rw [mem_registerOne_new hnew] at ht ⊢
    rcases ht with ht | rfl
    · rcases hr t ht u hu with hu | hu
      · exact .inl (.inl hu)
      · rcases List.mem_cons.1 hu with rfl | hu
        · exact .inl (.inr rfl)
        · exact .inr (List.mem_append_right _ hu)
    · exact .inr (List.mem_append_left _ hu)

/-- Nothing is registered that a closed set does not hold. -/
theorem subset_of_closed (h : Drains Γ pending r r') {S : Set Ty} (hS : Γ.Closed S) (hr : r.registered ⊆ S)
    (hpending : ∀ t ∈ pending, t ∈ S) : r'.registered ⊆ S := by
  induction h with
  | done => exact hr
  | known _ _ ih => exact ih hr fun t ht => hpending t (List.mem_cons_of_mem _ ht)
  | @new t _ _ _ hnew _ ih =>
    have ht : t ∈ S := hpending t List.mem_cons_self
    refine ih (fun u hu => ?_) fun u hu => ?_
    · rcases (mem_registerOne_new hnew).1 hu with hu | rfl
      · exact hr hu
      · exact ht
    · rcases List.mem_append.1 hu with hu | hu
      · exact hS t ht u hu
      · exact hpending u (List.mem_cons_of_mem _ hu)

end Drains

/-! ## Its end -/

/-- What is still to be paid for types that may be met: one for each type that is not registered yet, and one
for each of the types that it is made of. -/
def owed (Γ : Schema) (r : Registry) (types : List Ty) : Nat :=
  types.foldr (fun t n => if r.contains t then n else 1 + (Γ.dependencies t).length + n) 0

theorem owed_cons (Γ : Schema) (r : Registry) (t : Ty) (types : List Ty) :
    owed Γ r (t :: types) =
      if r.contains t then owed Γ r types else 1 + (Γ.dependencies t).length + owed Γ r types := rfl

theorem owed_mono (h : r.registered ⊆ r'.registered) (types : List Ty) : owed Γ r' types ≤ owed Γ r types := by
  induction types with
  | nil => exact Nat.le_refl _
  | cons t types ih =>
    rw [owed_cons, owed_cons]
    by_cases ht : r.contains t
    · have ht' : r'.contains t := h ht
      rw [if_pos ht, if_pos ht']
      exact ih
    · rw [if_neg ht]
      split <;> omega

/-- A type is paid for when it is registered. -/
theorem owed_registerOne (hnew : ¬ r.contains t) {types : List Ty} (ht : t ∈ types) :
    owed Γ (r.registerOne Γ t).2 types + (1 + (Γ.dependencies t).length) ≤ owed Γ r types := by
  have hsubset : r.registered ⊆ (r.registerOne Γ t).2.registered := fun u hu => (mem_registerOne_new hnew).2 (.inl hu)
  have hself : (r.registerOne Γ t).2.contains t := (mem_registerOne_new hnew).2 (.inr rfl)
  induction types with
  | nil => cases ht
  | cons u types ih =>
    rw [owed_cons, owed_cons]
    by_cases hut : u = t
    · subst hut
      rw [if_pos hself, if_neg hnew]
      have := owed_mono (Γ := Γ) hsubset types
      omega
    · have hrest := ih ((List.mem_cons.1 ht).resolve_left (Ne.symm hut))
      by_cases hu : r.contains u
      · have hu' : (r.registerOne Γ t).2.contains u := hsubset hu
        rw [if_pos hu, if_pos hu']
        exact hrest
      · rw [if_neg hu]
        split <;> omega

/-- A budget that covers the pending types and what is owed lets the loop run to its end. -/
theorem drains_registerPending {types : List Ty} (hclosed : Γ.Closed {t | t ∈ types}) :
    ∀ (budget : Nat) (pending : List Ty) (r : Registry), (∀ t ∈ pending, t ∈ types) →
      pending.length + owed Γ r types ≤ budget → Drains Γ pending r (r.registerPending Γ budget pending) := by
  intro budget
  induction budget with
  | zero =>
    intro pending r _ hbudget
    cases pending with
    | nil => exact .done r
    | cons => simp at hbudget
  | succ budget ih =>
    intro pending r hpending hbudget
    cases pending with
    | nil => exact .done r
    | cons t pending =>
      have ht := hpending t List.mem_cons_self
      rw [List.length_cons] at hbudget
      unfold registerPending
      by_cases h : r.contains t
      · rw [registerOne_known h]
        exact .known h (ih pending r (fun u hu => hpending u (List.mem_cons_of_mem _ hu)) (by omega))
      · have hone : r.registerOne Γ t = (true, (r.registerOne Γ t).2) := by rw [registerOne_new h]
        have howed := owed_registerOne (Γ := Γ) h ht
        rw [hone]
        refine .new h (ih _ _ (fun u hu => ?_) ?_)
        · rcases List.mem_append.1 hu with hu | hu
          · exact hclosed t ht u hu
          · exact hpending u (List.mem_cons_of_mem _ hu)
        · rw [List.length_append]
          omega

theorem owed_le (Γ : Schema) (r : Registry) (types : List Ty) :
    1 + owed Γ r types ≤ types.foldr (fun u n => 1 + (Γ.dependencies u).length + n) 1 := by
  induction types with
  | nil => exact Nat.le_refl _
  | cons t types ih =>
    rw [owed_cons, List.foldr_cons]
    split <;> omega

/-- Registering a type runs the loop to its end. -/
theorem drains_register (Γ : Schema) (r : Registry) (t : Ty) : Drains Γ [t] r (r.register Γ t) := by
  refine drains_registerPending (Γ.typesFrom_closed t) _ _ _ (fun u hu => ?_) (owed_le Γ r _)
  rw [List.mem_singleton.1 hu]
  exact List.mem_append_left _ t.mem_parts

/-! ## Registered types -/

theorem register_known (h : r.contains t) : r.register Γ t = r := by
  have hdrains := drains_register Γ r t
  generalize r.register Γ t = r' at hdrains ⊢
  cases hdrains with
  | known _ rest => cases rest; rfl
  | new hnew _ => exact absurd h hnew

theorem registerCodec_types (r : Registry) (c : Codec) : (r.registerCodec Γ c).types.types = r.types.types := by
  unfold registerCodec TypeMap.modify TypeMap.types
  rw [List.map_map]
  refine List.map_congr_left fun e _ => ?_
  rw [Function.comp_apply]
  split <;> rfl

theorem registerCodec_registered (r : Registry) (c : Codec) : (r.registerCodec Γ c).registered = r.registered := by
  ext t
  rw [mem_registered, mem_registered, registerCodec_types]

theorem Reachable.nodup (h : Reachable Γ r) : r.types.types.Nodup := by
  induction h with
  | empty => exact List.nodup_nil
  | register _ t ih => exact (drains_register Γ _ t).nodup ih
  | registerCodec _ c ih =>
    rw [registerCodec_types]
    exact ih

theorem Reachable.closed (h : Reachable Γ r) : Γ.Closed r.registered := by
  induction h with
  | empty => exact fun _ h => by cases h
  | register _ t ih => exact (drains_register Γ _ t).closed fun u hu w hw => .inl (ih u hu w hw)
  | registerCodec _ c ih =>
    rw [registerCodec_registered]
    exact ih

/-- A full name is answered with its type, if no other registered type has it. -/
theorem typeWithPath?_path (hpaths : ∀ u ∈ r.registered, ∀ w ∈ r.registered, u.path = w.path → u = w)
    (ht : t ∈ r.registered) : r.typeWithPath? t.path = some t := by
  unfold typeWithPath?
  cases hfind : r.types.types.reverse.find? (·.path == t.path) with
  | none =>
    have := List.find?_eq_none.1 hfind t (List.mem_reverse.2 (mem_registered.1 ht))
    simp at this
  | some u =>
    have hu : u ∈ r.registered := mem_registered.2 (List.mem_reverse.1 (List.mem_of_find?_eq_some hfind))
    have hpath : u.path = t.path := by simpa using List.find?_some hfind
    rw [hpaths u hu t ht hpath]

end Registry

namespace Binder

variable {b : Binder}

theorem registered_run (b : Binder) (call : Registering) :
    b.registry.registered ⊆ (call.run b).registry.registered := by
  cases call with
  | type t | record t => exact (Registry.drains_register b.schema b.registry t).registered_subset
  | codec c => exact (Registry.registerCodec_registered b.registry c).ge

theorem types_registered (b : Binder) (calls : List Registering) :
    ∀ t ∈ calls.filterMap Registering.type?, t ∈ (b.after calls).registry.registered := by
  induction calls using List.reverseRecOn with
  | nil => exact fun _ h => by cases h
  | append_singleton calls call ih =>
    intro t ht
    rw [b.after_concat]
    rw [List.filterMap_append, List.mem_append] at ht
    rcases ht with ht | ht
    · exact registered_run _ call (ih t ht)
    · obtain ⟨_, hmem, htype⟩ := List.mem_filterMap.1 ht
      cases List.mem_singleton.1 hmem
      rw [Registering.run_type htype]
      exact (Registry.drains_register _ _ t).pending_registered t List.mem_cons_self

theorem registered_subset_of_closed {b : Binder} {S : Set Ty} (hS : b.schema.Closed S)
    (hb : b.registry.registered ⊆ S) (calls : List Registering)
    (hcalls : ∀ t ∈ calls.filterMap Registering.type?, t ∈ S) : (b.after calls).registry.registered ⊆ S := by
  induction calls using List.reverseRecOn with
  | nil => exact hb
  | append_singleton calls call ih =>
    rw [List.filterMap_append, List.forall_mem_append] at hcalls
    have hbefore := ih hcalls.1
    rw [b.after_concat]
    cases call with
    | type t | record t =>
      have ht : t ∈ S := hcalls.2 t (by simp [Registering.type?])
      rw [← (b.after_context calls).1] at hS
      refine (Registry.drains_register _ _ t).subset_of_closed hS hbefore fun u hu => ?_
      rwa [List.mem_singleton.1 hu]
    | codec c => exact (Registry.registerCodec_registered _ c).le.trans hbefore

end Binder

namespace History

/-- After any history exactly those types are registered that registering took up: the least set that holds
the types asked for, those of the start included, and with every type all that it is made of. -/
theorem registered_isLeast (Γ : Schema) (config : Config) (h : History) :
    IsLeast {S | (∀ t ∈ h.types, t ∈ S) ∧ Γ.Closed S} (h.binder Γ config).registry.registered := by
  refine ⟨⟨?_, (h.reachable_binder Γ config).closed⟩, fun S hS => ?_⟩
  · rw [binder_eq]
    exact Binder.types_registered _ h.all
  · rw [binder_eq]
    exact Binder.registered_subset_of_closed hS.2 (fun _ h => by cases h) h.all hS.1

end History

/-- After any history the registered types are the least set that holds the types asked for, those of the
start included, and with every type all that it is made of; the order of the history and its codecs do not
matter. A further registration of a type runs to the end of its loop, registers nothing twice, leaves
everything alone if the type was registered already and every entry that was there in any case, and leaves
full names that are pairwise different answered with their types. -/
theorem registered_least (Γ : Schema) (config : Config) (h : History) :
    IsLeast {S | (∀ t ∈ h.types, t ∈ S) ∧ Γ.Closed S} (h.binder Γ config).registry.registered ∧
    (∀ h' : History, (∀ t, t ∈ h'.types ↔ t ∈ h.types) →
      (h'.binder Γ config).registry.registered = (h.binder Γ config).registry.registered) ∧
    ∀ (t : Ty) (call : Registering), call.type? = some t →
      let r := (h.binder Γ config).registry
      let r' := (call.run (h.binder Γ config)).registry
      Registry.Drains Γ [t] r r' ∧ r'.types.types.Nodup ∧ (r.contains t → r' = r) ∧
      r.types.entries <+: r'.types.entries ∧
      ((∀ u ∈ r'.registered, ∀ w ∈ r'.registered, u.path = w.path → u = w) →
        ∀ u ∈ r'.registered, r'.typeWithPath? u.path = some u) := by
  refine ⟨h.registered_isLeast Γ config, fun h' htypes => ?_, fun t call hcall => ?_⟩
  · have hleast := h'.registered_isLeast Γ config
    simp only [htypes] at hleast
    exact hleast.unique (h.registered_isLeast Γ config)
  · have hdrains := Registry.drains_register Γ (h.binder Γ config).registry t
    have hrun : (call.run (h.binder Γ config)).registry = (h.binder Γ config).registry.register Γ t := by
      rw [Registering.run_type hcall]
      change (h.binder Γ config).registry.register (h.binder Γ config).schema t = _
      rw [h.schema_binder Γ config]
    simp only [hrun]
    exact ⟨hdrains, hdrains.nodup (h.reachable_binder Γ config).nodup, Registry.register_known,
      hdrains.entries_kept, fun hpaths _ => Registry.typeWithPath?_path hpaths⟩

/-- Trees have lists and maps of trees: once lists of trees are registered, trees are. -/
theorem registered_least_tree :
    let Γ : Schema := { records := [Catalogue.tree] }
    let tree : Ty := Catalogue.recordTy "Tree"
    let h : History := { start := .empty, calls := [.codec Duration.codec, .record (Catalogue.vec tree)] }
    let h' : History := { start := .empty, calls := [.type (Catalogue.vec tree)] }
    let r := (h.binder Γ {}).registry
    let r' := ((Registering.type tree).run (h.binder Γ {})).registry
    ((∀ t, t ∈ h'.types ↔ t ∈ h.types) ∧ (Registering.type tree).type? = some tree ∧ r.contains tree ∧
      (∀ u ∈ r'.registered, ∀ w ∈ r'.registered, u.path = w.path → u = w) ∧ tree ∈ r'.registered) ∧
    (h'.binder Γ {}).registry.registered = r.registered ∧ Registry.Drains Γ [tree] r r' ∧ r' = r ∧
    r'.typeWithPath? tree.path = some tree := by
  intro Γ tree h h' r r'
  have htypes : ∀ t, t ∈ h'.types ↔ t ∈ h.types := fun _ => Iff.rfl
  have hcontains : r.contains tree := by decide
  have hregistered : r'.types.types = [Catalogue.vec tree, tree, .int .i64, Catalogue.sortedMap tree] := by decide
  have hpaths : ∀ u ∈ r'.registered, ∀ w ∈ r'.registered, u.path = w.path → u = w := by
    intro u hu w hw
    rw [Registry.mem_registered, hregistered] at hu hw
    revert u w
    decide
  obtain ⟨-, hsame, hcalls⟩ := registered_least Γ {} h
  obtain ⟨hdrains, -, hknown, -, hnames⟩ := hcalls tree (.type tree) rfl
  have hmem : tree ∈ r'.registered := by
    rw [Registry.mem_registered, hregistered]
    simp
  exact ⟨⟨htypes, rfl, hcontains, hpaths, hmem⟩, hsame h' htypes, hdrains, hknown hcontains, hnames hpaths tree hmem⟩

end Bindery
