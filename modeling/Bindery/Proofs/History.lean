import Bindery.Binder
import Bindery.Proofs.Registration
import Bindery.Standard
import Mathlib.Data.List.Induction
/-!
# Histories of registrations

A history is what was registered with a binder, in order, after it had started with an empty registry or
with the standard one. The standard registry has registrations of its own (`History.binder_eq`), so every
history is a list of registrations with an empty registry. A type has the codec that was registered for it
last (`History.codec?_binder`), whatever types were registered in between.
-/

namespace Bindery

/-! ## Registrations -/

/-- One registration: of a type, of a type that must be a record, or of a codec. -/
inductive Registering
  | type (t : Ty)
  | record (t : Ty)
  | codec (c : Codec)

namespace Registering

/-- The binder that a registration leaves, whatever it answers. -/
def run (b : Binder) : Registering → Binder
  | type t => b.register t
  | record t => (b.registerRecord t).2
  | codec c => b.registerCodec c

/-- The type that is to be registered. -/
def type? : Registering → Option Ty
  | type t | record t => some t
  | codec _ => none

/-- The codec that is to be registered. -/
def codec? : Registering → Option Codec
  | codec c => some c
  | type _ | record _ => none

theorem run_type {call : Registering} {t : Ty} (h : call.type? = some t) (b : Binder) :
    call.run b = b.register t := by
  cases call with
  | type u | record u => cases h; rfl
  | codec c => cases h

end Registering

/-- The binder after some registrations. -/
def Binder.after (b : Binder) (calls : List Registering) : Binder := calls.foldl Registering.run b

theorem Binder.after_append (b : Binder) (calls more : List Registering) :
    b.after (calls ++ more) = (b.after calls).after more :=
  List.foldl_append

theorem Binder.after_concat (b : Binder) (calls : List Registering) (call : Registering) :
    b.after (calls ++ [call]) = call.run (b.after calls) :=
  b.after_append calls [call]

/-- Registrations change nothing but the registry. -/
theorem Binder.after_context (b : Binder) (calls : List Registering) :
    (b.after calls).schema = b.schema ∧ (b.after calls).config = b.config := by
  induction calls using List.reverseRecOn with
  | nil => exact ⟨rfl, rfl⟩
  | append_singleton calls call ih =>
    rw [b.after_concat]
    cases call with
    | type t | record t => exact ih
    | codec c => exact ih

theorem Binder.after_reachable {b : Binder} (h : Registry.Reachable b.schema b.registry) (calls : List Registering) :
    Registry.Reachable b.schema (b.after calls).registry := by
  induction calls using List.reverseRecOn with
  | nil => exact h
  | append_singleton calls call ih =>
    have hschema := (b.after_context calls).1
    rw [b.after_concat, ← hschema]
    rw [← hschema] at ih
    cases call with
    | type t | record t => exact ih.register t
    | codec c => exact ih.registerCodec c

/-! ## Codecs -/

/-- The codec of a type in a list: the last one that is for the type. -/
def lastFor? (codecs : List Codec) (t : Ty) : Option Codec := codecs.reverse.find? fun c => c.type = t

theorem lastFor?_concat (codecs : List Codec) (c : Codec) (t : Ty) :
    lastFor? (codecs ++ [c]) t = if c.type = t then some c else lastFor? codecs t := by
  unfold lastFor?
  rw [List.reverse_concat, List.find?_cons]
  by_cases hc : c.type = t <;> simp [hc]

theorem Binder.codec?_after {b : Binder} (hb : b.registry.codecs = {}) (calls : List Registering) (t : Ty) :
    (b.after calls).registry.codec? t = lastFor? (calls.filterMap Registering.codec?) t := by
  induction calls using List.reverseRecOn with
  | nil =>
    change b.registry.codecs.find? t = none
    rw [hb]
    rfl
  | append_singleton calls call ih =>
    rw [b.after_concat, List.filterMap_append]
    cases call with
    | type u | record u =>
      change ((b.after calls).registry.register (b.after calls).schema u).codecs.find? t = _
      rw [Registry.register_codecs, List.filterMap_cons_none rfl, List.filterMap_nil, List.append_nil]
      exact ih
    | codec c =>
      change ((b.after calls).registry.codecs.insert c.type c).find? t = _
      have hcodec : Registering.codec? (.codec c) = some c := rfl
      rw [TypeMap.find?_insert, List.filterMap_cons_some hcodec, List.filterMap_nil, lastFor?_concat, ← ih]
      by_cases hc : c.type = t
      · rw [if_pos hc, if_pos hc.symm]
      · rw [if_neg hc, if_neg (Ne.symm hc)]
        rfl

/-! ## Histories -/

/-- What a binder can start with. -/
inductive Start
  | empty
  | standard

namespace Start

/-- The registry at the start. -/
def registry (Γ : Schema) : Start → Registry
  | empty => .empty
  | standard => .standard Γ

/-- The registrations that lead there from an empty registry. -/
def calls : Start → List Registering
  | empty => []
  | standard => Registry.standardCodecs.map .codec ++ Registry.standardTypes.map .type

end Start

/-- A start, and the registrations after it. -/
structure History where
  start : Start
  calls : List Registering

namespace History

/-- The binder at the end of a history. -/
def binder (h : History) (Γ : Schema) (config : Config) : Binder :=
  Binder.after { schema := Γ, registry := h.start.registry Γ, config } h.calls

/-- All registrations, those of the start first. -/
def all (h : History) : List Registering := h.start.calls ++ h.calls

/-- The types that were to be registered, those of the start first. -/
def types (h : History) : List Ty := h.all.filterMap Registering.type?

/-- The codec that was registered last for a type. -/
def codec? (h : History) (t : Ty) : Option Codec := lastFor? (h.all.filterMap Registering.codec?) t

variable (h : History) (Γ : Schema) (config : Config)

theorem after_codecs (r : Registry) (codecs : List Codec) :
    Binder.after { schema := Γ, registry := r, config } (codecs.map .codec) =
      { schema := Γ, registry := codecs.foldl (Registry.registerCodec Γ) r, config } := by
  induction codecs generalizing r with
  | nil => rfl
  | cons c codecs ih => exact ih (r.registerCodec Γ c)

theorem after_types (r : Registry) (types : List Ty) :
    Binder.after { schema := Γ, registry := r, config } (types.map .type) =
      { schema := Γ, registry := types.foldl (Registry.register Γ) r, config } := by
  induction types generalizing r with
  | nil => rfl
  | cons t types ih => exact ih (r.register Γ t)

/-- A history leads to the same binder as its registrations with an empty registry. -/
theorem binder_eq : h.binder Γ config = Binder.after { schema := Γ, registry := {}, config } h.all := by
  unfold binder all
  rw [Binder.after_append]
  cases h.start with
  | empty => rfl
  | standard =>
    unfold Start.calls
    rw [Binder.after_append, after_codecs, after_types]
    rfl

theorem reachable_binder : Registry.Reachable Γ (h.binder Γ config).registry := by
  rw [binder_eq]
  exact Binder.after_reachable (b := { schema := Γ, registry := {}, config }) .empty h.all

theorem codec?_binder (t : Ty) : (h.binder Γ config).registry.codec? t = h.codec? t := by
  rw [binder_eq]
  exact Binder.codec?_after rfl h.all t

theorem schema_binder : (h.binder Γ config).schema = Γ := (Binder.after_context _ _).1

theorem config_binder : (h.binder Γ config).config = config := (Binder.after_context _ _).2

end History

end Bindery
