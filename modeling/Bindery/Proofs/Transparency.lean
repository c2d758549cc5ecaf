import Bindery.Catalogue.Codecs
import Bindery.Proofs.History
import Bindery.Proofs.Indistinct
/-!
# Registering types shows nowhere

Reading and writing ask a context for its schema, its configuration, the classification of types and their
codecs. Contexts that answer these alike read and write alike (`Context.Same.root`, `Context.Same.encode`).
A registry that is true to its schema answers by its codecs alone, so after two histories that registered the
same codec last for each type everything is read and written the same (`registration_transparent`).
-/

namespace Bindery

/-- The same answers to whatever reading and writing ask. -/
structure Context.Same (c d : Context) : Prop where
  schema : d.schema = c.schema
  config : d.config = c.config
  classify : ∀ t, d.classify t = c.classify t
  codec? : ∀ t, d.registry.codec? t = c.registry.codec? t

namespace Context.Same

variable {σ : Type} {c d : Context} (h : c.Same d)
include h

theorem strategy (t : Ty) : d.strategy t = c.strategy t := by
  have hrefusal : d.refusal t = c.refusal t := by
    unfold Context.refusal
    rw [h.schema]
  unfold Context.strategy
  rw [h.classify, h.codec?, hrefusal]

theorem codecFor? (t : Ty) : d.codecFor? t = c.codecFor? t := by
  cases t with
  | dynamic => rfl
  | _ => exact h.codec? _

/-- What answers the same cannot be told apart. -/
theorem indistinct : c.Indistinct d where
  schema := h.schema
  config := h.config
  classify := h.classify
  strategy t := by
    rw [h.strategy]
    exact .same _
  codecFor? t := by
    rw [h.codecFor?]
    cases c.codecFor? t with
    | none => exact .none
    | some k => exact .some (.refl k)

theorem root [TokenSource σ] (t : Ty) : (Decode.root d t : Reading σ Value) = Decode.root c t := h.indistinct.root t

theorem encode (v : Value) : Encode.root d v = Encode.root c v := h.indistinct.encode v

end Context.Same

/-! ## Histories -/

namespace History

variable (h : History) (Γ : Schema) (config : Config)

/-- A type is classified by whether a codec was registered for it. -/
theorem classify_binder (t : Ty) :
    (h.binder Γ config).classify t = Γ.classify t (h.codec? t).isSome := by
  have hconsistent := (h.reachable_binder Γ config).consistent
  unfold Context.classify
  rw [h.schema_binder, hconsistent.classify, ← h.codec?_binder Γ config]
  rfl

/-- Asking for one more type. -/
def register (t : Ty) : History := { h with calls := h.calls ++ [.type t] }

theorem binder_register (t : Ty) : (h.register t).binder Γ config = (h.binder Γ config).register t :=
  Binder.after_concat _ _ _

theorem codec?_register (t u : Ty) : (h.register t).codec? u = h.codec? u := by
  have hall : (h.register t).all = h.all ++ [.type t] := (List.append_assoc ..).symm
  unfold codec?
  rw [hall, List.filterMap_append, List.filterMap_cons_none rfl, List.filterMap_nil, List.append_nil]

theorem same {h h' : History} (hcodecs : ∀ t, h'.codec? t = h.codec? t) :
    (h.binder Γ config).toContext.Same (h'.binder Γ config).toContext where
  schema := by rw [schema_binder, schema_binder]
  config := by rw [config_binder, config_binder]
  classify t := by
    rw [classify_binder, classify_binder, hcodecs]
  codec? t := by rw [codec?_binder, codec?_binder, hcodecs]

end History

/-- After any history a type, registered or not, is classified as it would be classified now: by whether a
codec is registered for it. So whatever types were registered, and when, does not show: after two histories
with the same last codec for each type, any source is read as any type alike, whether the type is registered
first or not, and any value is written alike. -/
theorem registration_transparent (Γ : Schema) (config : Config) (h : History) :
    (∀ t, (h.binder Γ config).registry.codec? t = h.codec? t ∧
      (h.binder Γ config).classify t = Γ.classify t (h.codec? t).isSome) ∧
    ∀ h' : History, (∀ t, h'.codec? t = h.codec? t) →
      (∀ (σ : Type) [TokenSource σ] (t : Ty) (s : σ),
        (h'.binder Γ config).read t s = (h.binder Γ config).read t s ∧
        ((h'.binder Γ config).decode t s).1 = ((h.binder Γ config).decode t s).1 ∧
        ((h'.binder Γ config).decode t s).2.1 = ((h.binder Γ config).decode t s).2.1) ∧
      ∀ v, (h'.binder Γ config).encode v = (h.binder Γ config).encode v := by
  refine ⟨fun t => ⟨h.codec?_binder Γ config t, h.classify_binder Γ config t⟩, fun h' hcodecs => ?_⟩
  have hsame := History.same Γ config hcodecs
  refine ⟨fun σ _ t s => ?_, fun v => hsame.encode v⟩
  have hregister : ∀ u, (h'.register t).codec? u = (h.register t).codec? u := fun u => by
    rw [History.codec?_register, History.codec?_register, hcodecs]
  have hroot := (History.same Γ config hregister).root (σ := σ) t
  rw [History.binder_register, History.binder_register] at hroot
  refine ⟨?_, ?_⟩
  · unfold Binder.read
    rw [hsame.root]
  · unfold Binder.decode Binder.read
    simp only [hroot, and_self]

/-- Lists of bytes that were registered before the codec of bytes came, and a codec that came alone after
another. -/
theorem registration_transparent_bytes :
    let h : History := { start := .empty, calls := [.type (Catalogue.vec Catalogue.u8), .codec Catalogue.u8Hex] }
    let h' : History :=
      { start := .empty, calls := [.codec { Catalogue.u8Hex with wire := .any }, .codec Catalogue.u8Hex] }
    let s : TapeReader := TapeReader.ofTape (Tape.ofTokens [.startArray, .string "0x2a", .endArray])
    let v : Value := .seq .vec Catalogue.u8 [.int .u8 42]
    (∀ t, h'.codec? t = h.codec? t) ∧
    ((h'.binder { records := [] } {}).decode (Catalogue.vec Catalogue.u8) s).1 =
      ((h.binder { records := [] } {}).decode (Catalogue.vec Catalogue.u8) s).1 ∧
    (h'.binder { records := [] } {}).encode v = (h.binder { records := [] } {}).encode v := by
  intro h h' s v
  have hcodecs : ∀ t, h'.codec? t = h.codec? t := by
    intro t
    change lastFor? ([{ Catalogue.u8Hex with wire := .any }] ++ [Catalogue.u8Hex]) t =
      lastFor? ([] ++ [Catalogue.u8Hex]) t
    rw [lastFor?_concat, lastFor?_concat]
    by_cases ht : Catalogue.u8Hex.type = t
    · rw [if_pos ht, if_pos ht]
    · rw [if_neg ht, if_neg ht]
      exact (lastFor?_concat [] _ t).trans (if_neg ht)
  obtain ⟨hread, hencode⟩ := (registration_transparent { records := [] } {} h).2 h' hcodecs
  exact ⟨hcodecs, (hread TapeReader _ s).2.1, hencode v⟩

end Bindery
