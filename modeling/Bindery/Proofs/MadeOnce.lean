import Bindery.Catalogue.Model
import Bindery.Proofs.Assembling
import Bindery.Proofs.Deeds
/-!
# Instances are made once

While a record is read, its assembly agrees with what has been done so far (`Assembly.Backed`). As long as the
instance is still to be made, no constructor has run, nothing is assigned, and the values that are kept for later are
all the values of fields that were read, in order. Once the instance is there, one constructor has run, and every value
of a field that was read has been assigned, once and in order. Each turn of the loop over the members keeps this
(`Recorder.Does.recordMember`), so it holds at the head of every turn and at the end (`made_once`).
-/

namespace Bindery

variable {σ α β : Type}

/-! ## Accounts -/

namespace Deed

/-- Whether a constructor runs. -/
def isMaking : Deed → Bool
  | madeEmpty | made _ => true
  | _ => false

/-- The value of a field that is read. -/
def read? : Deed → Option (Nat × Value)
  | read p => some p
  | _ => none

/-- The value that is assigned to a field. -/
def assigned? : Deed → Option (Nat × Value)
  | assigned p => some p
  | _ => none

/-- The runs of constructors. -/
def makings (deeds : List Deed) : List Deed := deeds.filter isMaking

/-- The values of fields that were read, in order. -/
def reads (deeds : List Deed) : List (Nat × Value) := deeds.filterMap read?

/-- The values that were assigned to fields, in order. -/
def assignments (deeds : List Deed) : List (Nat × Value) := deeds.filterMap assigned?

/-- What may be done by a creator: the positional constructor runs only if there is no other, and the number of
arguments still to come is lowered only if it is not zero. -/
def Fits (creator : Creator) : Deed → Prop
  | madeEmpty => creator.noArgs.isSome
  | made _ => creator.noArgs.isNone ∧ creator.withArgs.isSome
  | lowered remaining => 0 < remaining
  | read _ | assigned _ => True

/-- What holds at any time, also when the reading fails: at most one constructor has run, and values are assigned in
the order in which they are read, each once. -/
structure Orderly (creator : Creator) (deeds : List Deed) : Prop where
  fits : ∀ d ∈ deeds, d.Fits creator
  once : (makings deeds).length ≤ 1
  inTurn : assignments deeds <+: reads deeds

/-- The instance is still to be made, and `pending` is kept for it. -/
structure Waiting (creator : Creator) (deeds : List Deed) (pending : List (Nat × Value)) : Prop where
  fits : ∀ d ∈ deeds, d.Fits creator
  waits : creator.noArgs = none
  unmade : makings deeds = []
  kept : reads deeds = pending
  unassigned : assignments deeds = []

/-- The instance was made, once, and of the values of fields that were read `rest` is still to be assigned. -/
structure Made (creator : Creator) (deeds : List Deed) (rest : List (Nat × Value)) : Prop where
  fits : ∀ d ∈ deeds, d.Fits creator
  once : (makings deeds).length = 1
  inTurn : assignments deeds ++ rest = reads deeds

variable {creator : Creator} {deeds : List Deed} {pending rest : List (Nat × Value)} {d : Deed} {p : Nat × Value}

theorem fits_concat (h : ∀ d ∈ deeds, d.Fits creator) (hd : d.Fits creator) : ∀ e ∈ deeds ++ [d], e.Fits creator :=
  List.forall_mem_append.2 ⟨h, List.forall_mem_singleton.2 hd⟩

/-- A deed that makes nothing. -/
theorem makings_concat (hd : d.isMaking = false) : makings (deeds ++ [d]) = makings deeds := by
  unfold makings
  rw [List.filter_append, List.filter_singleton, hd]
  exact List.append_nil _

/-- A deed that reads nothing. -/
theorem reads_concat (hd : d.read? = none) : reads (deeds ++ [d]) = reads deeds := by
  unfold reads
  rw [List.filterMap_append, List.filterMap_cons_none hd]
  exact List.append_nil _

/-- A deed that assigns nothing. -/
theorem assignments_concat (hd : d.assigned? = none) : assignments (deeds ++ [d]) = assignments deeds := by
  unfold assignments
  rw [List.filterMap_append, List.filterMap_cons_none hd]
  exact List.append_nil _

theorem reads_read (deeds : List Deed) (p : Nat × Value) : reads (deeds ++ [.read p]) = reads deeds ++ [p] :=
  List.filterMap_append

theorem Made.orderly (h : Made creator deeds rest) : Orderly creator deeds :=
  ⟨h.fits, Nat.le_of_eq h.once, rest, h.inTurn⟩

/-- One more value is read when the instance is there. -/
theorem Made.read (h : Made creator deeds []) (p : Nat × Value) : Made creator (deeds ++ [.read p]) [p] := by
  refine ⟨fits_concat h.fits trivial, ?_, ?_⟩
  · rw [makings_concat rfl]
    exact h.once
  · have hinTurn := h.inTurn
    rw [List.append_nil] at hinTurn
    rw [assignments_concat rfl, reads_read, hinTurn]

/-- The next value is assigned. -/
theorem Made.assign (h : Made creator deeds (p :: rest)) : Made creator (deeds ++ [.assigned p]) rest := by
  have hassigned : assignments (deeds ++ [.assigned p]) = assignments deeds ++ [p] := List.filterMap_append
  refine ⟨fits_concat h.fits trivial, ?_, ?_⟩
  · rw [makings_concat rfl]
    exact h.once
  · rw [hassigned, reads_concat rfl, List.append_assoc]
    exact h.inTurn

namespace Waiting

theorem orderly (h : Waiting creator deeds pending) : Orderly creator deeds := by
  refine ⟨h.fits, ?_, ?_⟩
  · simp [h.unmade]
  · rw [h.unassigned]
    exact List.nil_prefix

theorem lower (h : Waiting creator deeds pending) {remaining : Nat} (hpositive : 0 < remaining) :
    Waiting creator (deeds ++ [.lowered remaining]) pending where
  fits := fits_concat h.fits hpositive
  waits := h.waits
  unmade := (makings_concat rfl).trans h.unmade
  kept := (reads_concat rfl).trans h.kept
  unassigned := (assignments_concat rfl).trans h.unassigned

theorem read (h : Waiting creator deeds pending) (p : Nat × Value) :
    Waiting creator (deeds ++ [.read p]) (pending ++ [p]) where
  fits := fits_concat h.fits trivial
  waits := h.waits
  unmade := (makings_concat rfl).trans h.unmade
  kept := by rw [reads_read, h.kept]
  unassigned := (assignments_concat rfl).trans h.unassigned

/-- The positional constructor runs, and all that was kept is still to be assigned. -/
theorem made (h : Waiting creator deeds pending) (hsome : creator.withArgs.isSome) (slots : ArgSlots) :
    Made creator (deeds ++ [.made slots]) pending := by
  have hnone : creator.noArgs.isNone := by simp [h.waits]
  have hmakings : makings (deeds ++ [.made slots]) = makings deeds ++ [.made slots] := List.filter_append deeds _
  refine ⟨fits_concat h.fits ⟨hnone, hsome⟩, ?_, ?_⟩
  · rw [hmakings, h.unmade]
    rfl
  · rw [assignments_concat rfl, reads_concat rfl, h.unassigned, h.kept]
    rfl

end Waiting
end Deed

/-- The assembly agrees with what has been done so far. -/
def Assembly.Backed (creator : Creator) (deeds : List Deed) : Assembly → Prop
  | constructed _ => Deed.Made creator deeds []
  | deferred _ _ pending => Deed.Waiting creator deeds pending

theorem Assembly.Backed.orderly {creator : Creator} {deeds : List Deed} {a : Assembly} (h : a.Backed creator deeds) :
    Deed.Orderly creator deeds := by
  cases a with
  | constructed v => exact Deed.Made.orderly h
  | deferred slots remaining pending => exact Deed.Waiting.orderly h

/-! ## Assemblies -/

namespace Assembly

variable {r : Record} {creator : Creator} {deeds : List Deed}

theorem construct_keeps {pending : List (Nat × Value)} (h : Deed.Waiting creator deeds pending) (slots : ArgSlots) :
    (creator.construct slots).Keeps (Deed.Orderly creator) deeds fun _ deeds => Deed.Made creator deeds pending := by
  unfold Creator.construct
  cases hwith : creator.withArgs with
  | some f =>
    have hmade := h.made (hwith ▸ rfl) slots
    exact .does (.lift hmade.orderly fun _ => hmade)
  | none =>
    rw [h.waits]
    exact .throw h.orderly

theorem assign_keeps {p : Nat × Value} {rest : List (Nat × Value)} (hp : p.1 < r.fields.length)
    (h : Deed.Made creator deeds (p :: rest)) (target : Value) :
    (assign r target p).Keeps (Deed.Orderly creator) deeds fun _ deeds => Deed.Made creator deeds rest := by
  unfold assign
  rw [List.getElem?_eq_getElem hp]
  have hset : (Making.lift (r.fields[p.1].set target p.2)).Keeps (Deed.Orderly creator) (deeds ++ [.assigned p])
      fun _ deeds => Deed.Made creator deeds rest := .lift h.assign.orderly fun _ => h.assign
  exact .does (hset.bind fun _ _ hmade => .pure hmade)

/-- All that was kept is assigned, in order. -/
theorem assignAll_keeps {pending : List (Nat × Value)} : ∀ {deeds : List Deed} (target : Value),
    (∀ p ∈ pending, p.1 < r.fields.length) → Deed.Made creator deeds pending →
    (pending.foldlM (assign r) target).Keeps (Deed.Orderly creator) deeds fun _ deeds =>
      Deed.Made creator deeds [] := by
  induction pending with
  | nil => exact fun _ _ h => .pure h
  | cons p pending ih =>
    intro deeds target hpending h
    rw [List.forall_mem_cons] at hpending
    rw [List.foldlM_cons]
    exact (assign_keeps hpending.1 h target).bind fun target _ => ih target hpending.2

/-- The instance that is there in the end. -/
theorem finish_keeps {a : Assembly} (hin : a.InOrder r creator) (h : a.Backed creator deeds) :
    (a.finish r creator).Keeps (Deed.Orderly creator) deeds fun _ deeds => Deed.Made creator deeds [] := by
  cases a with
  | constructed v => exact .pure h
  | deferred slots remaining pending =>
    obtain ⟨-, -, -, hpending⟩ := hin
    exact (construct_keeps h slots).bind fun v _ => assignAll_keeps v hpending

theorem settle_keeps {slots : ArgSlots} {remaining : Nat} {pending : List (Nat × Value)}
    (hpending : ∀ p ∈ pending, p.1 < r.fields.length) (h : Deed.Waiting creator deeds pending) :
    (settle r creator (.deferred slots remaining pending)).Keeps (Deed.Orderly creator) deeds
      fun a deeds => a.Backed creator deeds := by
  cases remaining with
  | succ remaining => exact .pure h
  | zero =>
    have hfinish : (finish r creator (.deferred slots 0 pending)).Keeps (Deed.Orderly creator) deeds
        fun _ deeds => Deed.Made creator deeds [] :=
      (construct_keeps h slots).bind fun v _ => assignAll_keeps v hpending
    exact hfinish.bind fun v _ hmade => .pure hmade

/-- The assembly is in order, and agrees with what has been done. -/
def Kept (r : Record) (creator : Creator) (a : Assembly) (deeds : List Deed) : Prop :=
  a.InOrder r creator ∧ a.Backed creator deeds

/-- Nothing is asked of constructors. -/
theorem makes_any (creator : Creator) : creator.Makes (fun _ => True) fun _ => True :=
  ⟨fun _ _ => .of_forall _ fun _ => trivial, fun _ => trivial⟩

theorem inOrder_of_ends {x : Making Assembly} (h : Ends (Sound (fun _ => True) r creator) (fun _ => True) x.outcome) :
    Ends (fun a => a.InOrder r creator) (fun _ => True) x.outcome :=
  h.mono (fun _ ha => ha.inOrder) fun _ he => he

theorem opening_keeps : (opening r creator).Keeps (Deed.Orderly creator) [] (Kept r creator) := by
  refine .and ?_ (inOrder_of_ends (opening_ends (fun _ _ => trivial) (makes_any creator)))
  unfold opening start
  cases hnone : creator.noArgs with
  | some v =>
    have hfits : ∀ d ∈ [Deed.madeEmpty], d.Fits creator := by simp [Deed.Fits, hnone]
    have hmade : Deed.Made creator [.madeEmpty] [] := ⟨hfits, rfl, rfl⟩
    exact hmade
  | none =>
    have hwaiting : Deed.Waiting creator [] [] := ⟨by simp, hnone, rfl, rfl, rfl⟩
    exact settle_keeps (by simp) hwaiting

theorem putArgument_keeps {a : Assembly} (h : a.Kept r creator deeds) (i : Nat) (v : Value) :
    (a.putArgument r creator i v).Keeps (Deed.Orderly creator) deeds (Kept r creator) := by
  refine .and ?_ (inOrder_of_ends (putArgument_ends (fun _ _ => trivial) (makes_any creator)
    ⟨by cases a <;> trivial, h.1⟩ i v))
  obtain ⟨hin, hbacked⟩ := h
  cases a with
  | constructed target => exact .pure hbacked
  | deferred slots remaining pending =>
    obtain ⟨-, -, hpositive, hpending⟩ := hin
    have hwaiting : Deed.Waiting creator deeds pending := hbacked
    unfold putArgument
    dsimp only
    split
    · exact .does (settle_keeps hpending (hwaiting.lower hpositive))
    · exact settle_keeps hpending hwaiting

/-- The value of a field that is read is kept or assigned. -/
theorem putField_keeps {a : Assembly} (h : a.Kept r creator deeds) {i : Nat} (hi : i < r.fields.length) (v : Value) :
    (a.putField r i v).Keeps (Deed.Orderly creator) deeds (Kept r creator) := by
  refine .and ?_ (inOrder_of_ends (putField_ends (fun _ _ => trivial) ⟨by cases a <;> trivial, h.1⟩ hi v))
  obtain ⟨-, hbacked⟩ := h
  cases a with
  | constructed target =>
    exact .does ((assign_keeps hi (Deed.Made.read hbacked (i, v)) target).bind fun _ _ hmade => .pure hmade)
  | deferred slots remaining pending => exact .does (.pure (Deed.Waiting.read hbacked (i, v)))

end Assembly

/-! ## Records -/

/-- A record up to the first of its members. -/
def Decode.opening [TokenStream σ] [Listener σ] (r : Record) (creator : Creator) :
    Reading σ (Assembly × List (String × Node)) := do
  let assembly ← Reading.perform (Assembly.opening r creator)
  Reading.startObject
  return (assembly, [])

section Source
variable [TokenSource σ] {c : Context} {r : Record} {creator : Creator} {budget : Nat}
  {capture : Place → Reading σ Node} {part : Ty → Place → Reading σ Value} {place : Place}

namespace Recorder

/-- A member of a record that is read from a recorder, what is inside of it quietly. -/
abbrev recordMember (c : Context) (r : Record) (creator : Creator) (capture : Place → Reading σ Node)
    (part : Ty → Place → Reading σ Value) (place : Place) :
    Assembly × List (String × Node) → Reading (Recorder σ) (Assembly × List (String × Node)) :=
  Decode.recordMember c r creator (fun place => .quiet (capture place)) (fun t place => .quiet (part t place)) place

/-- A record that is read from a recorder, what is inside of its members quietly. -/
abbrev record (c : Context) (r : Record) (budget : Nat) (capture : Place → Reading σ Node)
    (part : Ty → Place → Reading σ Value) (place : Place) : Reading (Recorder σ) Value :=
  Decode.record c r budget (fun place => .quiet (capture place)) (fun t place => .quiet (part t place)) place

namespace Does

variable {E : List Deed → Prop} {deeds : List Deed}

/-- The value of a member is read and put in place, unless it is absent. -/
theorem stored {a : Assembly} {Q : Assembly → List Deed → Prop} (hE : E deeds) (hsame : Q a deeds)
    {put : Value → Making Assembly} (hput : ∀ v, (put v).Keeps E deeds Q) (t : Ty) (child : Place)
    (side : List (String × Node)) :
    Does E deeds
      (do
        if ← Decode.absent c t then return (a, side)
        let v ← Reading.quiet (part t child)
        return (← Reading.atPlace child (Reading.perform (put v)), side))
      (do
        if ← Decode.absent c t then return (a, side)
        let v ← part t child
        return (← Reading.atPlace child (Reading.perform (put v)), side))
      fun (state : Assembly × List (String × Node)) deeds => Q state.1 deeds := by
  refine bind_same (absent c t hE) fun gone => ?_
  cases gone with
  | true => exact pure hsame
  | false => exact bind_same (quiet _ hE) fun v => bind ((perform (hput v)).atPlace child) fun _ _ h => pure h

/-- A turn does what taking an argument or a field does, or nothing. -/
theorem recordMember {a : Assembly} {Q : Assembly → List Deed → Prop} (hE : E deeds) (hsame : Q a deeds)
    (hargument : ∀ i v, (a.putArgument r creator i v).Keeps E deeds Q)
    (hfield : ∀ i v, i < r.fields.length → (a.putField r i v).Keeps E deeds Q) (side : List (String × Node)) :
    Does E deeds (recordMember c r creator capture part place (a, side))
      (Decode.recordMember c r creator capture part place (a, side)) fun state deeds => Q state.1 deeds := by
  refine bind_same (take hE) fun key => ?_
  dsimp only
  refine Accords.here fun w₀ t₀ => ?_
  refine Accords.mono ?_ (fun _ _ h => h.1) (fun _ _ _ _ h => h) fun _ _ _ h => h
  refine bind_same (tell rfl) fun _ => ?_
  cases hroute : a.route r creator key with
  | argument i arg => exact stored hE hsame (hargument i) arg.type _ side
  | field i f => exact stored hE hsame (fun v => hfield i v (Assembly.field_lt hroute)) f.type _ side
  | elsewhere =>
    dsimp only
    split
    · exact bind_same ((quiet _ hE).atPlace _) fun n => pure hsame
    · refine bind_same ?_ fun _ => pure hsame
      unfold Decode.unknown
      cases c.config.unknownKeys with
      | skip => exact quiet _ hE
      | reject => exact (throw hE).atPlace _

/-- A turn leaves an assembly that is in order and agrees with what has been done. -/
theorem recordMember_kept {state : Assembly × List (String × Node)} (h : state.1.Kept r creator deeds) :
    Does (Deed.Orderly creator) deeds (Recorder.recordMember c r creator capture part place state)
      (Decode.recordMember c r creator capture part place state) fun state deeds => state.1.Kept r creator deeds :=
  recordMember h.2.orderly h (Assembly.putArgument_keeps h) (fun _ v hi => Assembly.putField_keeps h hi v) state.2

/-- A turn does not take the instance away. -/
theorem recordMember_made {state : Assembly × List (String × Node)} (h : ¬ state.1.isPending) :
    Does (fun _ => True) deeds (Recorder.recordMember c r creator capture part place state)
      (Decode.recordMember c r creator capture part place state) fun state _ => ¬ state.1.isPending := by
  obtain ⟨a, side⟩ := state
  refine recordMember (Q := fun a _ => ¬ a.isPending) trivial h (fun i v => ?_) (fun i v _ => ?_) side
  · cases a with
    | constructed target => exact .pure h
    | deferred slots remaining pending => exact absurd rfl h
  · cases a with
    | constructed target => exact .does ((Making.Keeps.any _).bind fun _ _ _ => .pure h)
    | deferred slots remaining pending => exact absurd rfl h

/-- Whatever was done before. -/
theorem recordMember_any (state : Assembly × List (String × Node)) :
    Does (fun _ => True) deeds (Recorder.recordMember c r creator capture part place state)
      (Decode.recordMember c r creator capture part place state) fun _ _ => True :=
  recordMember (Q := fun _ _ => True) trivial trivial (fun _ _ => .any _) (fun _ _ _ => .any _) state.2

theorem opening : Does (σ := σ) (Deed.Orderly creator) [] (Decode.opening r creator) (Decode.opening r creator)
    fun state deeds => state.1.Kept r creator deeds :=
  bind (perform Assembly.opening_keeps) fun _ _ h => bind_same (take h.2.orderly) fun _ => pure h

theorem opening_any : Does (σ := σ) (fun _ => True) deeds (Decode.opening r creator) (Decode.opening r creator)
    fun _ _ => True :=
  bind (perform (.any _)) fun _ _ _ => bind_same (take trivial) fun _ => pure trivial

/-- Reading a record makes its instance once, and at most once if it fails. -/
theorem record (hcreator : r.creator = some creator) :
    Does (Deed.Orderly creator) [] (Recorder.record c r budget capture part place)
      (Decode.record c r budget capture part place) fun _ deeds => Deed.Made creator deeds [] := by
  unfold Recorder.record Decode.record
  rw [hcreator]
  refine bind (perform Assembly.opening_keeps) fun a deeds h => ?_
  have hmembers : Does (Deed.Orderly creator) deeds
      (Decode.object budget (Recorder.recordMember c r creator capture part place) (a, []))
      (Decode.object budget (Decode.recordMember c r creator capture part place) (a, []))
      fun state deeds => state.1.Kept r creator deeds := by
    refine bind_same (take h.2.orderly) fun _ => ?_
    refine bind (forMembers (fun _ _ => recordMember_kept) budget h) fun state deeds h => ?_
    exact bind_same (take h.2.orderly) fun _ => pure h
  refine bind hmembers fun state deeds h => bind_same (tell rfl) fun _ => ?_
  refine bind (perform (Assembly.finish_keeps h.1 h.2)) fun v deeds hmade => ?_
  cases r.hybrid with
  | some hybrid => exact lift hmade.orderly fun _ => hmade
  | none => exact pure hmade

end Does
end Recorder
end Source

/-! ## Heads of the loop -/

namespace Recorder

/-- The outcome without what was heard. -/
def forget : EStateM.Result BindError (Recorder σ) α → EStateM.Result BindError σ α
  | .ok a w => .ok a w.source
  | .error e w => .error e w.source

/-- A recording ends as the reading of its source does, whatever was heard before. -/
def Erases (r : Reading (Recorder σ) α) (r' : Reading σ α) : Prop := ∀ w, forget (r w) = r' w.source

section Erases
variable {r : Reading (Recorder σ) α} {r' : Reading σ α}

theorem Does.forget {E : List Deed → Prop} {Q : α → List Deed → Prop} {w : Recorder σ} (h : Does E w.deeds r r' Q) :
    Recorder.forget (r w) = r' w.source := by
  rcases h.run rfl with ⟨a, w', hr, hr', -⟩ | ⟨e, w', hr, hr', -⟩
  · rw [hr, hr']
    rfl
  · rw [hr, hr']
    rfl

theorem Does.erases (h : ∀ deeds, Does (fun _ => True) deeds r r' fun _ _ => True) : Erases r r' :=
  fun w => (h w.deeds).forget

theorem Erases.ok (h : Erases r r') {w w' : Recorder σ} {a : α} (hr : r w = .ok a w') :
    r' w.source = .ok a w'.source := by
  rw [← h w, hr]
  rfl

/-- Where the reading succeeds, the recording does, whatever was heard before. -/
theorem Erases.exists_ok (h : Erases r r') {s s' : σ} {a : α} (hr : r' s = .ok a s') (log : List (Event σ)) :
    ∃ log', r ⟨s, log⟩ = .ok a ⟨s', log'⟩ := by
  cases hw : r ⟨s, log⟩ with
  | ok b w =>
    have hb := h.ok hw
    rw [hr] at hb
    cases hb
    exact ⟨w.log, rfl⟩
  | error e w =>
    have he := h ⟨s, log⟩
    rw [hw, hr] at he
    cases he

end Erases

section Heads
variable [TokenStream σ] {opening : Reading (Recorder σ) α} {opening' : Reading σ α}
  {body : α → Reading (Recorder σ) α} {body' : α → Reading σ α} {acc : α}

/-- Whether there are more members does not depend on what was heard. -/
theorem hasNext_iff {w : Recorder σ} :
    Reading.hasNext w = .ok true w ↔ Reading.hasNext w.source = .ok true w.source := by
  have hrecorder : Reading.hasNext w = .ok (!(TokenStream.front w.source).kind.closes) w := rfl
  have hsource : Reading.hasNext w.source = .ok (!(TokenStream.front w.source).kind.closes) w.source := rfl
  rw [hrecorder, hsource]
  simp only [EStateM.Result.ok.injEq, and_true]

theorem atHead_source (hopening : Erases opening opening') (hbody : ∀ acc, Erases (body acc) (body' acc))
    {w w' : Recorder σ} (h : Reading.AtHead opening body w acc w') :
    Reading.AtHead opening' body' w.source acc w'.source := by
  induction h with
  | opened h => exact .opened (hopening.ok h)
  | turned _ hnext h ih => exact .turned ih (hasNext_iff.1 hnext) ((hbody _).ok h)

/-- The heads of a loop that a recorder hears of are those of the loop. -/
theorem atHead_iff (hopening : Erases opening opening') (hbody : ∀ acc, Erases (body acc) (body' acc)) {s t : σ}
    (log : List (Event σ)) :
    Reading.AtHead opening' body' s acc t ↔ ∃ log', Reading.AtHead opening body ⟨s, log⟩ acc ⟨t, log'⟩ := by
  constructor
  · intro h
    induction h with
    | opened h =>
      obtain ⟨log', h⟩ := hopening.exists_ok h log
      exact ⟨log', .opened h⟩
    | @turned acc acc' t t' _ hnext h ih =>
      obtain ⟨log', hhead⟩ := ih
      obtain ⟨log'', h⟩ := (hbody acc).exists_ok h log'
      exact ⟨_, .turned hhead (hasNext_iff.2 hnext) h⟩
  · rintro ⟨log', h⟩
    exact atHead_source hopening hbody h

end Heads

section Source
variable [TokenSource σ] {c : Context} {r : Record} {creator : Creator} {capture : Place → Reading σ Node}
  {part : Ty → Place → Reading σ Value} {place : Place}

theorem kept_atHead {s : σ} {w : Recorder σ} {state : Assembly × List (String × Node)}
    (h : Reading.AtHead (Decode.opening r creator) (recordMember c r creator capture part place) { source := s } state
      w) : state.1.Kept r creator w.deeds := by
  induction h with
  | opened h => exact (Does.opening.ok h rfl).2
  | @turned acc acc' w w' _ _ h ih =>
    -- A turn is not done to the instance.
    rw [deeds_hear]
    exact (List.append_nil w'.deeds).symm ▸ ((Does.recordMember_kept ih).ok h rfl).2

theorem made_atHead {s t : σ} (state state' : Assembly × List (String × Node)) (hstate : ¬ state.1.isPending)
    (h : Reading.AtHead (pure state) (Decode.recordMember c r creator capture part place) s state' t) :
    ¬ state'.1.isPending := by
  induction h with
  | opened h =>
    cases h
    exact hstate
  | @turned acc acc' t t' _ _ h ih =>
    have herases : Erases (recordMember c r creator capture part place acc)
        (Decode.recordMember c r creator capture part place acc) := Does.erases fun _ => Does.recordMember_any acc
    obtain ⟨log, hw⟩ := herases.exists_ok h []
    exact ((Does.recordMember_made ih).ok hw rfl).2

end Source
end Recorder

/-- Reading a record makes its instance once. The reading does the same whether it is recorded or not. If it succeeds,
just one constructor has run, the one without arguments if there is one and the positional one otherwise, and each value
of a field that was read was handed to its setter once, in order of arrival; if it fails, at most one constructor has
run, and the values that were assigned are the first ones that were read. With no creator it fails before anything is
done. Whatever comes from the source, at the head of each turn of the loop over the members an instance that is still to
be made has as many arguments to come as there are empty slots, at least one, and what is kept for it is just the values
of fields that were read so far, in order; and once the instance is there, it stays there. -/
theorem made_once [TokenSource σ] (c : Context) (r : Record) (creator : Creator) (budget : Nat)
    (capture : Place → Reading σ Node) (part : Ty → Place → Reading σ Value) (place : Place) (s : σ) :
    Recorder.forget (Recorder.record c r budget capture part place { source := s }) =
      Decode.record c r budget capture part place s ∧
    (r.creator = some creator →
      (∀ v w, Recorder.record c r budget capture part place { source := s } = .ok v w → Deed.Made creator w.deeds []) ∧
      ∀ e w, Recorder.record c r budget capture part place { source := s } = .error e w →
        Deed.Orderly creator w.deeds) ∧
    (r.creator = none →
      ∃ e, Recorder.record c r budget capture part place { source := s } = .error e { source := s }) ∧
    (∀ state t,
      Reading.AtHead (Decode.opening r creator) (Decode.recordMember c r creator capture part place) s state t ↔
      ∃ log, Reading.AtHead (Decode.opening r creator) (Recorder.recordMember c r creator capture part place)
        { source := s } state ⟨t, log⟩) ∧
    (∀ a side w,
      Reading.AtHead (Decode.opening r creator) (Recorder.recordMember c r creator capture part place) { source := s }
        (a, side) w → a.InOrder r creator ∧ a.Backed creator w.deeds) ∧
    ∀ a side t a' side' t', ¬ a.isPending →
      Reading.AtHead (pure (a, side)) (Decode.recordMember c r creator capture part place) t (a', side') t' →
      ¬ a'.isPending := by
  refine ⟨?erased, fun hcreator => ?made, fun hnone => ?unmade, fun state t => ?heads,
    fun a side w => Recorder.kept_atHead, fun a side t a' side' t' => Recorder.made_atHead (a, side) (a', side')⟩
  case erased =>
    cases hcreator : r.creator with
    | some creator => exact (Recorder.Does.record hcreator).forget
    | none =>
      unfold Recorder.record Decode.record
      rw [hcreator]
      rfl
  case made =>
    have hdoes : Recorder.Does (Deed.Orderly creator) [] (Recorder.record c r budget capture part place)
        (Decode.record c r budget capture part place) fun _ deeds => Deed.Made creator deeds [] :=
      Recorder.Does.record hcreator
    exact ⟨fun v w h => (hdoes.ok h rfl).2, fun e w h => (hdoes.error h rfl).2⟩
  case unmade =>
    unfold Recorder.record Decode.record
    rw [hnone]
    exact ⟨_, rfl⟩
  case heads =>
    have hopening : Recorder.Erases (Decode.opening r creator)
        (Decode.opening r creator : Reading σ (Assembly × List (String × Node))) :=
      Recorder.Does.erases fun _ => Recorder.Does.opening_any
    have hmember : ∀ state, Recorder.Erases (Recorder.recordMember c r creator capture part place state)
        (Decode.recordMember c r creator capture part place state) :=
      fun state => Recorder.Does.erases fun _ => Recorder.Does.recordMember_any state
    exact Recorder.atHead_iff hopening hmember []

/-- A person is given a nickname before the last of the arguments, and another one once the person is there. -/
theorem made_once_person :
    let c : Context := { schema := { records := [Catalogue.person] }, registry := {} }
    let r := Catalogue.person
    let creator := r.creator.get rfl
    let capture : Place → Reading TapeReader Node := Decode.node 20
    let part : Ty → Place → Reading TapeReader Value := Decode.value c 20
    let s := TapeReader.ofTape (Tape.ofTokens [.startObject, .name "nick", .string "Al", .name "login", .string "Alice",
      .name "age", .number (.ofInt 7), .endObject])
    let again := TapeReader.ofTape (Tape.ofTokens [.name "nick", .string "Ali", .endObject])
    let nick : Nat × Value := (2, .some (.string "Al"))
    let alice (text : String) := Catalogue.personOf (.string "Alice") (.int .u32 7) (.some (.string text))
    let AtHead := Reading.AtHead (Decode.opening r creator) (Recorder.recordMember c r creator capture part none)
      { source := s }
    r.creator = some creator ∧
    (∃ w, Recorder.record c r 20 capture part none { source := s } = .ok (alice "Al") w ∧ Deed.Made creator w.deeds [] ∧
      Deed.reads w.deeds = [nick]) ∧
    (∃ slots w, AtHead (.deferred slots 1 [nick], []) w ∧ slots.missing = 1 ∧ Deed.Waiting creator w.deeds [nick]) ∧
    ∃ a side t, Reading.AtHead (pure (.constructed (alice "Al"), []))
      (Decode.recordMember c r creator capture part none) again (a, side) t ∧ ¬ a.isPending := by
  intro c r creator capture part s again nick alice AtHead
  have hcreator : r.creator = some creator := rfl
  obtain ⟨-, hmade, -, -, hbacked, hstays⟩ := made_once c r creator 20 capture part none s
  have hread : ∃ w, Recorder.record c r 20 capture part none { source := s } = .ok (alice "Al") w ∧
      Deed.reads w.deeds = [nick] := ⟨_, rfl, rfl⟩
  have hhead : ∃ slots w, AtHead (.deferred slots 1 [nick], []) w :=
    ⟨_, _, .turned (.turned (.opened rfl) rfl rfl) rfl rfl⟩
  have hturn : ∃ t, Reading.AtHead (pure (.constructed (alice "Al"), []))
      (Decode.recordMember c r creator capture part none) again (.constructed (alice "Ali"), []) t :=
    ⟨_, .turned (.opened rfl) rfl rfl⟩
  obtain ⟨w, hw, hreads⟩ := hread
  obtain ⟨slots, w', hhead⟩ := hhead
  obtain ⟨u, hturn⟩ := hturn
  obtain ⟨⟨-, hmissing, -⟩, hwaiting⟩ := hbacked _ _ _ hhead
  exact ⟨hcreator, ⟨w, hw, (hmade hcreator).1 _ _ hw, hreads⟩, ⟨slots, w', hhead, hmissing.symm, hwaiting⟩,
    _, _, u, hturn, hstays (.constructed (alice "Al")) [] _ _ _ _ Bool.false_ne_true hturn⟩

end Bindery
