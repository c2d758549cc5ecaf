import Bindery.Catalogue.Model
import Bindery.Proofs.Keys
import Bindery.Proofs.Reads
import Mathlib.Data.List.Nodup
/-!
# Constructors that wait for their arguments

While a record is read its instance may still be missing: the arguments fill slots, the values of
fields wait, and the constructor runs in the middle of the object. `Record.assembled` tells what
comes of the entries without any of that: what the entries bring to arguments makes the instance
once, what they bring to fields is then assigned in order of arrival, and the side object is
installed last. Reading gives the same (`record_assembled`), so it depends on the order of the other
entries only.
-/

namespace Bindery

/-- What reading a node by itself gives. -/
def Decode.ofNode (c : Context) (t : Ty) (place : Place) (n : Node) : Except BindError Value :=
  ((Decode.value c n.tokens.length t place).run (NodeCursor.ofNode n)).1

theorem Decode.ofNode_eq (c : Context) (t : Ty) (place : Place) (n : Node) :
    Decode.ofNode c t place n = Tree.value c n t place := by
  have hw : Walks (NodeCursor.ofNode n) n.tokens (NodeCursor.next []) := NodeCursor.walks_value n []
  unfold ofNode Reading.run
  rcases Reads.value (c := c) t place (Nat.le_refl _) _ _ hw with ⟨v, hv, hr⟩ | ⟨e, s, he, hr⟩
  · rw [hv, hr]
  · rw [he, hr]

/-! ## What the entries of an object bring -/

/-- What an entry brings to a record. -/
inductive Brought
  | nothing
  | argument (i : Nat) (v : Value)
  | field (i : Nat) (v : Value)
  | other (key : String) (n : Node)

namespace Brought

/-- The value for an argument. -/
def argument? : Brought → Option (Nat × Value)
  | argument i v => some (i, v)
  | _ => none

/-- The value for a field. -/
def field? : Brought → Option (Nat × Value)
  | field i v => some (i, v)
  | _ => none

/-- The entry for the side object. -/
def other? : Brought → Option (String × Node)
  | other key n => some (key, n)
  | _ => none

end Brought

/-- The argument a key stands for, and its type. -/
def Creator.argumentOf (creator : Creator) (key : String) : Option (Nat × Ty) :=
  (creator.argIndex? key).bind fun i => creator.args[i]?.map fun a => (i, a.type)

/-- The argument that a key stands for before any entry came. -/
def Creator.awaited (creator : Creator) (key : String) : Option (Nat × Ty) :=
  if creator.noArgs.isSome then none else creator.argumentOf key

/-- The field a key stands for, and its position. -/
def Record.fieldOf (r : Record) (key : String) : Option (Nat × Field) :=
  (r.fieldIndex? key).bind fun i => r.fields[i]?.map (i, ·)

/-- Slots with the values of arguments put in. -/
def ArgSlots.fill (a : ArgSlots) (arguments : List (Nat × Value)) : ArgSlots :=
  arguments.foldl (fun a p => (a.put p.1 p.2).2) a

namespace Record

variable (c : Context) (r : Record)

/-- What the node of an entry brings to a target, by itself: nothing if it is an absent null. -/
def bringsTo (target : Value → Brought) (t : Ty) (place : Place) (n : Node) : Option Brought :=
  if Tree.absent c t n then some .nothing else (Decode.ofNode c t place n).toOption.map target

/-- What an entry brings, arguments first. None if its node cannot be read or its key is refused. -/
def brings (argumentOf : String → Option (Nat × Ty)) (place : Place) (e : String × Node) : Option Brought :=
  match argumentOf e.1 with
  | some (i, t) => bringsTo c (.argument i) t (place.member r.name e.1) e.2
  | none =>
    match r.fieldOf e.1 with
    | some (i, f) => bringsTo c (.field i) f.type (place.member r.name e.1) e.2
    | none =>
      if r.hybrid.isSome then some (.other e.1 e.2.collapse)
      else
        match c.config.unknownKeys with
        | .skip => some .nothing
        | .reject => none

/-- Makes the instance, assigns the fields in order, installs the side object. -/
def build (make : List (Nat × Value) → Except BindError Value) (side : List (String × Node))
    (brought : List Brought) : Except BindError Value := do
  let made ← make (brought.filterMap Brought.argument?)
  let v ← ((brought.filterMap Brought.field?).foldlM (Assembly.assign r) made).outcome
  match r.hybrid with
  | some h => h.install v (Entries.insertAll side (brought.filterMap Brought.other?))
  | none => return v

/-- What the entries of an object come to: the slots are filled with all arguments that came, and
the constructor runs once. None if anything fails. -/
def assembled (creator : Creator) (place : Place) (es : List (String × Node)) : Option Value := do
  let brought ← es.mapM (r.brings c creator.argumentOf place)
  (r.build (fun arguments => (creator.construct (creator.newSlots.fill arguments)).outcome) [] brought).toOption

end Record

/-! ## Lists and outcomes -/

theorem mapM_of_forall {m : Type → Type} [Monad m] [LawfulMonad m] {α β : Type} {g : α → m β} {f : α → β}
    {as : List α} (h : ∀ a ∈ as, g a = pure (f a)) : as.mapM g = pure (as.map f) := by
  induction as with
  | nil => rfl
  | cons a as ih =>
    rw [List.mapM_cons, h a (by simp), ih fun b hb => h b (by simp [hb])]
    simp

theorem mapM_of_none {α β : Type} {g : α → Option β} {as : List α} {a : α} (ha : a ∈ as) (h : g a = none) :
    as.mapM g = none := by
  induction as with
  | nil => cases ha
  | cons b as ih =>
    rw [List.mapM_cons]
    rcases List.mem_cons.1 ha with rfl | ha
    · rw [h]
      rfl
    · rw [ih ha]
      cases g b <;> rfl

theorem filterMap_map_filter {α β γ : Type} {f : α → β} {g : β → Option γ} {p : α → Bool} {as : List α}
    (h : ∀ a ∈ as, ¬ p a → g (f a) = none) : (as.map f).filterMap g = (as.filter p).filterMap (g ∘ f) := by
  rw [List.filterMap_map, List.filterMap_filter]
  refine List.filterMap_congr fun a ha => ?_
  by_cases hp : p a
  · rw [if_pos hp]
  · rw [if_neg hp, Function.comp_apply, h a ha hp]

theorem ok_bind {α β : Type} (a : α) (k : α → Except BindError β) : (.ok a >>= k : Except BindError β) = k a := rfl

theorem bind_eq_ok {α β : Type} {x : Except BindError α} {k : α → Except BindError β} {b : β} (h : x >>= k = .ok b) :
    ∃ a, x = .ok a ∧ k a = .ok b := by
  cases x with
  | error e => cases h
  | ok a => exact ⟨a, rfl, h⟩

theorem mapError_eq_ok {α : Type} {x : Except BindError α} {f : BindError → BindError} {a : α}
    (h : x.mapError f = .ok a) : x = .ok a := by
  cases x with
  | error e => cases h
  | ok b => exact h

theorem toOption_bind {α β : Type} (x : Except BindError α) (k : α → Except BindError β) :
    (x >>= k).toOption = x.toOption.bind fun a => (k a).toOption := by
  cases x <;> rfl

theorem toOption_some {α : Type} {x : Except BindError α} {a : α} (h : x.toOption = some a) : x = .ok a := by
  cases x with
  | error e => cases h
  | ok b => exact congrArg Except.ok (Option.some.inj h)

/-- A fold whose every step first makes something of its element: all can be made first, and then folded. What is
folded so far and what is left decide together that a step is such a step. -/
theorem foldlM_fused {α β γ : Type} {I : List α → β → Prop} {f : β → α → Except BindError β} {g : α → Option γ}
    {h : β → γ → Except BindError β}
    (hstep : ∀ a as b, I (a :: as) b → (f b a).toOption = (g a).bind fun x => (h b x).toOption)
    (hkeep : ∀ a as b x b', I (a :: as) b → g a = some x → h b x = .ok b' → I as b') (as : List α) :
    ∀ b, I as b → (as.foldlM f b).toOption = (as.mapM g).bind fun xs => (xs.foldlM h b).toOption := by
  induction as with
  | nil => exact fun _ _ => rfl
  | cons a as ih =>
    intro b hb
    rw [List.foldlM_cons, toOption_bind, hstep a as b hb, List.mapM_cons]
    simp only [Option.bind_eq_bind, Option.bind_assoc, Option.pure_def, Option.bind_some, List.foldlM_cons,
      toOption_bind]
    refine Option.bind_congr fun x hx => ?_
    rw [Option.bind_comm]
    exact Option.bind_congr fun b' hb' => ih b' (hkeep a as b x b' hb hx (toOption_some hb'))

/-! ## Slots -/

/-- Slots with the values of arguments put in, until none is missing. -/
def ArgSlots.collect (a : ArgSlots) (arguments : List (Nat × Value)) : ArgSlots :=
  arguments.foldl (fun a p => if a.missing = 0 then a else (a.put p.1 p.2).2) a

namespace ArgSlots

theorem put_snd (a : ArgSlots) (i : Nat) (v : Value) :
    (a.put i v).2 = { a with slots := a.slots.set i (some v) } := by
  unfold put
  split
  · next h =>
    rw [List.set_eq_of_length_le (List.getElem?_eq_none_iff.1 h)]
  · rfl

/-- Filling an empty slot leaves one empty slot less, and replacing a value leaves as many. -/
theorem missing_put (a : ArgSlots) (i : Nat) (v : Value) :
    (a.put i v).2.missing = if (a.put i v).1 then a.missing - 1 else a.missing := by
  unfold put
  cases hi : a.slots[i]? with
  | none => rfl
  | some old =>
    obtain ⟨hlt, hold⟩ := List.getElem?_eq_some_iff.1 hi
    cases old <;> simp [missing, List.countP_set hlt, hold]

theorem missing_pos {a : ArgSlots} {i : Nat} (h : a.slots[i]? = some none) : a.missing ≠ 0 := by
  have : 0 < a.missing := List.countP_pos_iff.2 ⟨none, List.mem_of_getElem? h, rfl⟩
  omega

theorem collect_full {a : ArgSlots} (h : a.missing = 0) (arguments : List (Nat × Value)) : a.collect arguments = a := by
  induction arguments with
  | nil => rfl
  | cons p arguments ih => rwa [collect, List.foldl_cons, if_pos h]

theorem collect_cons {a : ArgSlots} (h : a.missing ≠ 0) (p : Nat × Value) (arguments : List (Nat × Value)) :
    a.collect (p :: arguments) = (a.put p.1 p.2).2.collect arguments := by
  rw [collect, List.foldl_cons, if_neg h, collect]

/-- Arguments that come once each, for slots that are free, are all collected. -/
theorem collect_eq_fill (arguments : List (Nat × Value)) : ∀ a : ArgSlots, (arguments.map (·.1)).Nodup →
    (∀ i ∈ arguments.map (·.1), a.slots[i]? = some none) → a.collect arguments = a.fill arguments := by
  induction arguments with
  | nil => exact fun _ _ _ => rfl
  | cons p arguments ih =>
    intro a hnodup hfree
    rw [List.map_cons, List.nodup_cons] at hnodup
    rw [collect_cons (missing_pos (hfree p.1 (by simp)))]
    refine ih _ hnodup.2 fun i hi => ?_
    have hne : p.1 ≠ i := fun heq => hnodup.1 (heq ▸ hi)
    rw [put_snd, List.getElem?_set_ne hne]
    exact hfree i (List.mem_cons_of_mem _ hi)

end ArgSlots

/-! ## One entry -/

namespace Record

variable {c : Context} {r : Record} {creator : Creator} {place : Place}

/-- Takes what an entry brought. -/
def take (r : Record) (creator : Creator) (state : Assembly × List (String × Node)) :
    Brought → Except BindError (Assembly × List (String × Node))
  | .nothing => .ok state
  | .argument i v => return (← (state.1.putArgument r creator i v).outcome, state.2)
  | .field i v => return (← (state.1.putField r i v).outcome, state.2)
  | .other key n => .ok (state.1, Entries.insert state.2 key n)

/-- The targets a key can have while the instance is as it is. -/
def targets (creator : Creator) : Assembly → String → Option (Nat × Ty)
  | .deferred _ _ _ => creator.argumentOf
  | .constructed _ => fun _ => none

/-- A value that is read and stored is taken as what its node brings. -/
theorem stored_toOption {state : Assembly × List (String × Node)} {target : Value → Brought}
    {put : Value → Making Assembly}
    (htarget : ∀ v, r.take creator state (target v) = do return (← (put v).outcome, state.2)) (t : Ty) (n : Node) :
    (if Tree.absent c t n then .ok state
      else do
        let v ← Tree.value c n t place
        return (← (put v).outcome.mapError (·.at? place), state.2) : Except BindError _).toOption =
      (bringsTo c target t place n).bind fun b => (r.take creator state b).toOption := by
  unfold bringsTo
  by_cases habsent : Tree.absent c t n
  · simp [habsent, take]
  · rw [if_neg habsent, if_neg habsent, Decode.ofNode_eq, toOption_bind]
    cases Tree.value c n t place with
    | error e => rfl
    | ok v =>
      simp only [Except.toOption, Option.map_some, Option.bind_some, htarget]
      cases (put v).outcome <;> rfl

theorem route_of_no_argument {assembly : Assembly} {key : String} (h : assembly.argument? creator key = none) :
    assembly.route r creator key =
      match r.fieldOf key with
      | some (i, f) => .field i f
      | none => .elsewhere := by
  unfold Assembly.route
  rw [h]
  unfold fieldOf
  cases (r.fieldIndex? key).bind fun i => r.fields[i]?.map (i, ·) <;> rfl

/-- A member that no argument waits for is taken as what it brings. -/
theorem member_toOption_rest {assembly : Assembly} {key : String} (side : List (String × Node)) (n : Node)
    (h : assembly.argument? creator key = none) (hnone : targets creator assembly key = none) :
    (Tree.member c r creator place (assembly, side) (key, n, Tree.value c n)).toOption =
      (r.brings c (targets creator assembly) place (key, n)).bind
        fun b => (r.take creator (assembly, side) b).toOption := by
  simp only [Tree.member, brings, route_of_no_argument h, hnone]
  cases r.fieldOf key with
  | some p => exact stored_toOption (fun v => rfl) _ _
  | none =>
    by_cases hh : r.hybrid.isSome
    · simp [hh, take]
    · simp only [hh]
      cases c.config.unknownKeys <;> rfl

/-- A member is taken as what it brings. -/
theorem member_toOption (state : Assembly × List (String × Node)) (e : String × Node) :
    (Tree.member c r creator place state (e.1, e.2, Tree.value c e.2)).toOption =
      (r.brings c (targets creator state.1) place e).bind fun b => (r.take creator state b).toOption := by
  obtain ⟨assembly, side⟩ := state
  obtain ⟨key, n⟩ := e
  cases assembly with
  | constructed v => exact member_toOption_rest side n rfl rfl
  | deferred slots remaining pending =>
    cases hi : creator.argIndex? key with
    | none =>
      exact member_toOption_rest side n (by simp [Assembly.argument?, hi])
        (by simp [targets, Creator.argumentOf, hi])
    | some i =>
      obtain ⟨arg, harg, -⟩ := Creator.argIndex?_goesBy hi
      simp only [Tree.member, Assembly.route, Assembly.argument?, brings, targets, Creator.argumentOf, hi, harg,
        Option.bind_some, Option.map_some]
      exact stored_toOption (fun v => rfl) _ _

/-! ## Members in turn -/

/-- What has been read of a record, and its side object, after some members. -/
def run (c : Context) (r : Record) (creator : Creator) (place : Place)
    (state : Assembly × List (String × Node)) (es : List (String × Node)) :
    Option (Assembly × List (String × Node)) :=
  (es.foldlM (fun state e => Tree.member c r creator place state (e.1, e.2, Tree.value c e.2)) state).toOption

theorem run_append (state : Assembly × List (String × Node)) (es es' : List (String × Node)) :
    run c r creator place state (es ++ es') =
      (run c r creator place state es).bind fun state => run c r creator place state es' := by
  rw [run, List.foldlM_append, toOption_bind]
  rfl

/-- Entries that can only go to given targets are taken as what they bring there, one after the other. -/
theorem run_taken {I : List (String × Node) → Assembly → Prop} {argumentOf : String → Option (Nat × Ty)}
    (htargets : ∀ e es assembly, I (e :: es) assembly → argumentOf e.1 = targets creator assembly e.1)
    (hkeep : ∀ e es state b state', I (e :: es) state.1 → r.brings c argumentOf place e = some b →
      r.take creator state b = .ok state' → I es state'.1)
    {es : List (String × Node)} {state : Assembly × List (String × Node)} (h : I es state.1) :
    run c r creator place state es =
      (es.mapM (r.brings c argumentOf place)).bind fun bs => (bs.foldlM (r.take creator) state).toOption := by
  refine foldlM_fused (I := fun es state => I es state.1) (fun e es state h => ?_) hkeep es state h
  rw [member_toOption]
  simp only [brings, htargets e es state.1 h]

/-- Once the instance is there the fields are assigned, and arguments are lost. -/
theorem takes_made (bs : List Brought) : ∀ (v : Value) (side : List (String × Node)),
    (bs.foldlM (r.take creator) (.constructed v, side)).toOption =
      ((bs.filterMap Brought.field?).foldlM (Assembly.assign r) v).outcome.toOption.map fun v =>
        (.constructed v, Entries.insertAll side (bs.filterMap Brought.other?)) := by
  induction bs with
  | nil => exact fun _ _ => rfl
  | cons b bs ih =>
    intro v side
    cases b with
    | nothing | argument | other => exact ih _ _
    | field i w =>
      simp only [List.foldlM_cons, take, Assembly.putField, List.filterMap_cons, Brought.field?, Making.outcome_bind,
        Making.outcome_does, Making.outcome_pure, ok_bind]
      cases hw : (Assembly.assign r v (i, w)).outcome with
      | error e => rfl
      | ok v' => exact ih v' side

/-- An instance that is there stays there. -/
theorem take_made {v : Value} {side : List (String × Node)} {b : Brought} {state : Assembly × List (String × Node)}
    (h : r.take creator (.constructed v, side) b = .ok state) : ∃ v', state.1 = .constructed v' := by
  cases b with
  | nothing | argument | other =>
    cases h
    exact ⟨v, rfl⟩
  | field i w =>
    simp only [take, Assembly.putField, Making.outcome_bind, Making.outcome_does, Making.outcome_pure, ok_bind] at h
    obtain ⟨_, hput, h⟩ := bind_eq_ok h
    obtain ⟨v', -, hput⟩ := bind_eq_ok hput
    cases hput
    cases h
    exact ⟨v', rfl⟩

/-- A record whose instance is there: the fields are assigned, and nothing is an argument. -/
theorem run_constructed (es : List (String × Node)) (v : Value) (side : List (String × Node)) :
    run c r creator place (.constructed v, side) es =
      (es.mapM (r.brings c (fun _ => none) place)).bind fun bs =>
        ((bs.filterMap Brought.field?).foldlM (Assembly.assign r) v).outcome.toOption.map fun v =>
          (.constructed v, Entries.insertAll side (bs.filterMap Brought.other?)) := by
  have htaken : run c r creator place (.constructed v, side) es =
      (es.mapM (r.brings c (fun _ => none) place)).bind
        fun bs => (bs.foldlM (r.take creator) (.constructed v, side)).toOption := by
    refine run_taken (I := fun _ assembly => ∃ v, assembly = .constructed v) ?_ ?_ ⟨v, rfl⟩
    · rintro e es _ ⟨v, rfl⟩
      rfl
    · rintro e es ⟨_, side⟩ b state ⟨v, rfl⟩ - htake
      exact take_made htake
  simp only [htaken, takes_made]

/-! ## Arguments come once -/

theorem argument_of_bringsTo {target : Value → Brought} {t : Ty} {n : Node} {b : Brought}
    (h : bringsTo c target t place n = some b) {p : Nat × Value} (hp : b.argument? = some p) :
    ∃ v, b = target v := by
  unfold bringsTo at h
  split at h
  · cases h
    cases hp
  · obtain ⟨v, -, hv⟩ := Option.map_eq_some_iff.1 h
    exact ⟨v, hv.symm⟩

/-- What comes for an argument comes for the argument of the key. -/
theorem argument_of_brings {argumentOf : String → Option (Nat × Ty)} {e : String × Node} {b : Brought}
    (h : r.brings c argumentOf place e = some b) {p : Nat × Value} (hp : b.argument? = some p) :
    (argumentOf e.1).map (·.1) = some p.1 := by
  unfold brings at h
  split at h
  · next i t hi =>
    obtain ⟨v, rfl⟩ := argument_of_bringsTo h hp
    cases hp
    rw [hi]
    rfl
  · split at h
    · obtain ⟨v, rfl⟩ := argument_of_bringsTo h hp
      cases hp
    · split at h
      · cases h
        cases hp
      · split at h
        · cases h
          cases hp
        · cases h

theorem argumentOf_position (creator : Creator) (key : String) :
    (creator.argumentOf key).map (·.1) = creator.argIndex? key := by
  unfold Creator.argumentOf
  cases hi : creator.argIndex? key with
  | none => rfl
  | some i =>
    obtain ⟨arg, harg, -⟩ := Creator.argIndex?_goesBy hi
    simp [harg]

theorem arguments_sublist {argumentOf : String → Option (Nat × Ty)} {es : List (String × Node)} :
    ∀ {bs : List Brought}, es.mapM (r.brings c argumentOf place) = some bs →
      ((bs.filterMap Brought.argument?).map (·.1)).Sublist
        (es.filterMap fun e => (argumentOf e.1).map (·.1)) := by
  induction es with
  | nil =>
    intro bs h
    cases h
    exact .refl _
  | cons e es ih =>
    intro bs h
    rw [List.mapM_cons] at h
    obtain ⟨b, hb, h⟩ := Option.bind_eq_some_iff.1 h
    obtain ⟨bs', hbs, h⟩ := Option.bind_eq_some_iff.1 h
    cases h
    rw [List.filterMap_cons, List.filterMap_cons]
    cases hp : b.argument? with
    | none =>
      -- The entry may stand for an argument all the same: an absent one brings nothing.
      cases (argumentOf e.1).map (·.1) with
      | none => exact ih hbs
      | some i => exact (ih hbs).cons i
    | some p =>
      rw [argument_of_brings hb hp]
      exact (ih hbs).cons_cons p.1

theorem settle_full (slots : ArgSlots) (pending : List (Nat × Value)) :
    ((Assembly.deferred slots 0 pending).settle r creator).outcome.toOption =
      ((creator.construct slots).outcome >>= fun made =>
        (pending.foldlM (Assembly.assign r) made).outcome).toOption.map .constructed := by
  simp only [Assembly.settle, Assembly.finish, Making.outcome_bind, Making.outcome_pure]
  cases (creator.construct slots).outcome >>= fun made => (pending.foldlM (Assembly.assign r) made).outcome <;> rfl

theorem settle_waiting {slots : ArgSlots} {remaining : Nat} (h : remaining ≠ 0) (pending : List (Nat × Value)) :
    ((Assembly.deferred slots remaining pending).settle r creator).outcome.toOption =
      some (.deferred slots remaining pending) := by
  cases remaining with
  | zero => exact absurd rfl h
  | succ => rfl

/-- Whatever is missing, the constructor runs, and the fields are assigned to what it makes. -/
theorem finish_deferred (slots : ArgSlots) (remaining : Nat) (pending : List (Nat × Value))
    (side : List (String × Node)) :
    Tree.finish r creator (.deferred slots remaining pending, side) =
      ((creator.construct slots).outcome >>= fun made => (pending.foldlM (Assembly.assign r) made).outcome)
        >>= fun v => Tree.finish r creator (.constructed v, side) := by
  simp only [Tree.finish, Assembly.finish, Making.outcome_bind, Making.outcome_pure, ok_bind]

/-- To build an instance is to finish one that has been made. -/
theorem build_eq (make : List (Nat × Value) → Except BindError Value) (side : List (String × Node))
    (bs : List Brought) :
    r.build make side bs =
      (make (bs.filterMap Brought.argument?) >>= fun made =>
        ((bs.filterMap Brought.field?).foldlM (Assembly.assign r) made).outcome) >>= fun v =>
          Tree.finish r creator (.constructed v, Entries.insertAll side (bs.filterMap Brought.other?)) :=
  (bind_assoc _ _ _).symm

/-- To finish comes to the same if no argument is missing and the instance is made first. -/
theorem finish_settle (slots : ArgSlots) (remaining : Nat) (pending : List (Nat × Value))
    (side : List (String × Node)) :
    ((Assembly.deferred slots remaining pending).settle r creator).outcome.toOption.bind
        (fun assembly => (Tree.finish r creator (assembly, side)).toOption) =
      (Tree.finish r creator (.deferred slots remaining pending, side)).toOption := by
  cases remaining with
  | succ => rfl
  | zero =>
    rw [settle_full, finish_deferred]
    cases (creator.construct slots).outcome >>= fun made => (pending.foldlM (Assembly.assign r) made).outcome <;> rfl

theorem assign_append (v : Value) (pending late : List (Nat × Value)) :
    ((pending ++ late).foldlM (Assembly.assign r) v).outcome =
      (pending.foldlM (Assembly.assign r) v).outcome >>= fun v => (late.foldlM (Assembly.assign r) v).outcome := by
  simp only [Making.outcome_foldlM, List.foldlM_append]

theorem take_argument {slots : ArgSlots} (i : Nat) (v : Value) (pending : List (Nat × Value))
    (side : List (String × Node)) :
    (r.take creator (.deferred slots slots.missing pending, side) (.argument i v)).toOption =
      let filled := (slots.put i v).2
      ((Assembly.deferred filled filled.missing pending).settle r creator).outcome.toOption.map (·, side) := by
  simp only [take, Assembly.putArgument, ArgSlots.missing_put]
  rw [toOption_bind]
  cases (slots.put i v).1 with
  | true => exact Option.map_eq_bind.symm
  | false => exact Option.map_eq_bind.symm

/-- While arguments are awaited they are collected, until none is missing; the rest is done on what the constructor
makes of them. -/
theorem takes_waiting (bs : List Brought) : ∀ (slots : ArgSlots) (pending : List (Nat × Value))
    (side : List (String × Node)),
    ((Assembly.deferred slots slots.missing pending).settle r creator).outcome.toOption.bind
        (fun assembly => (bs.foldlM (r.take creator) (assembly, side)).toOption) =
      let filled := slots.collect (bs.filterMap Brought.argument?)
      ((Assembly.deferred filled filled.missing (pending ++ bs.filterMap Brought.field?)).settle
        r creator).outcome.toOption.map fun assembly =>
          (assembly, Entries.insertAll side (bs.filterMap Brought.other?)) := by
  induction bs with
  | nil =>
    intro slots pending side
    simp only [List.filterMap_nil, List.append_nil]
    exact Option.map_eq_bind.symm
  | cons b bs ih =>
    intro slots pending side
    by_cases hmissing : slots.missing = 0
    · simp only [hmissing, ArgSlots.collect_full hmissing, settle_full, assign_append, ← bind_assoc]
      cases (creator.construct slots).outcome >>= fun made => (pending.foldlM (Assembly.assign r) made).outcome with
      | error e => rfl
      | ok v =>
        refine (takes_made (b :: bs) v side).trans ?_
        simp only [Option.map_map]
        rfl
    -- Waiting goes on unless an argument came.
    have hwait := fun pending side => ih slots pending side
    simp only [settle_waiting hmissing, Option.bind_some] at hwait
    rw [settle_waiting hmissing]
    simp only [Option.bind_some, List.foldlM_cons, toOption_bind]
    cases b with
    | nothing => exact hwait pending side
    | other key n => exact hwait pending _
    | field i v =>
      refine (hwait (pending ++ [(i, v)]) side).trans ?_
      simp only [List.append_assoc]
      rfl
    | argument i v =>
      rw [take_argument, Option.bind_map]
      refine (ih (slots.put i v).2 pending side).trans ?_
      simp only [List.filterMap_cons, Brought.argument?, ArgSlots.collect_cons hmissing]
      rfl

/-! ## Entries that give each argument once -/

/-- The entries that are left give arguments that are missing, each of them once. -/
def GivesOnce (creator : Creator) (es : List (String × Node)) : Assembly → Prop
  | .deferred slots remaining _ => remaining = slots.missing ∧ (es.filterMap (creator.argIndex? ·.1)).Nodup ∧
      ∀ i ∈ es.filterMap (creator.argIndex? ·.1), slots.slots[i]? = some none
  | .constructed _ => ∀ e ∈ es, creator.argIndex? e.1 = none

theorem GivesOnce.tail {e : String × Node} {es : List (String × Node)} {assembly : Assembly}
    (h : GivesOnce creator (e :: es) assembly) : GivesOnce creator es assembly := by
  have hsub : (es.filterMap (creator.argIndex? ·.1)).Sublist ((e :: es).filterMap (creator.argIndex? ·.1)) :=
    (List.sublist_cons_self e es).filterMap _
  cases assembly with
  | deferred slots remaining pending => exact ⟨h.1, h.2.1.sublist hsub, fun i hi => h.2.2 i (hsub.mem hi)⟩
  | constructed v => exact fun e' he' => h e' (List.mem_cons_of_mem _ he')

/-- The instance is made when nothing is missing, so no argument is left. -/
theorem GivesOnce.settle {es : List (String × Node)} {slots : ArgSlots} {pending : List (Nat × Value)}
    {assembly : Assembly} (h : GivesOnce creator es (.deferred slots slots.missing pending))
    (hsettle : ((Assembly.deferred slots slots.missing pending).settle r creator).outcome.toOption = some assembly) :
    GivesOnce creator es assembly := by
  by_cases hmissing : slots.missing = 0
  · rw [hmissing, settle_full] at hsettle
    obtain ⟨v, -, rfl⟩ := Option.map_eq_some_iff.1 hsettle
    intro e he
    by_contra hsome
    obtain ⟨i, hi⟩ := Option.ne_none_iff_exists'.1 hsome
    exact ArgSlots.missing_pos (h.2.2 i (List.mem_filterMap.2 ⟨e, he, hi⟩)) hmissing
  · rw [settle_waiting hmissing] at hsettle
    cases hsettle
    exact h

theorem GivesOnce.take {e : String × Node} {es : List (String × Node)} {state state' : Assembly × List (String × Node)}
    {b : Brought} (h : GivesOnce creator (e :: es) state.1) (hb : r.brings c creator.argumentOf place e = some b)
    (htake : r.take creator state b = .ok state') : GivesOnce creator es state'.1 := by
  obtain ⟨assembly, side⟩ := state
  cases assembly with
  | constructed v =>
    obtain ⟨assembly', side'⟩ := state'
    obtain ⟨v', rfl⟩ := take_made htake
    exact h.tail
  | deferred slots remaining pending =>
    cases b with
    | nothing | other | field =>
      cases htake
      exact h.tail
    | argument i v =>
      obtain ⟨rfl, hnodup, hfree⟩ := h
      have hi : creator.argIndex? e.1 = some i := by
        rw [← argumentOf_position]
        exact argument_of_brings hb rfl
      have hcons : (e :: es).filterMap (creator.argIndex? ·.1) = i :: es.filterMap (creator.argIndex? ·.1) :=
        List.filterMap_cons_some hi
      rw [hcons] at hnodup hfree
      rw [List.nodup_cons] at hnodup
      have hsettled := (congrArg Except.toOption htake).symm.trans (take_argument i v pending side)
      obtain ⟨assembly', hsettle, rfl⟩ := Option.map_eq_some_iff.1 hsettled.symm
      refine GivesOnce.settle ⟨rfl, hnodup.2, fun j hj => ?_⟩ hsettle
      have hne : i ≠ j := fun heq => hnodup.1 (heq ▸ hj)
      rw [ArgSlots.put_snd, List.getElem?_set_ne hne]
      exact hfree j (List.mem_cons_of_mem _ hj)

/-- A record that waits for arguments, each of which comes once at most. -/
theorem run_settled (es : List (String × Node)) (slots : ArgSlots) (pending : List (Nat × Value))
    (side : List (String × Node)) (hnodup : (es.filterMap (creator.argIndex? ·.1)).Nodup)
    (hfree : ∀ i ∈ es.filterMap (creator.argIndex? ·.1), slots.slots[i]? = some none) :
    ((Assembly.deferred slots slots.missing pending).settle r creator).outcome.toOption.bind
        (fun assembly => run c r creator place (assembly, side) es) =
      (es.mapM (r.brings c creator.argumentOf place)).bind fun bs =>
        let filled := slots.fill (bs.filterMap Brought.argument?)
        ((Assembly.deferred filled filled.missing (pending ++ bs.filterMap Brought.field?)).settle
          r creator).outcome.toOption.map fun assembly =>
            (assembly, Entries.insertAll side (bs.filterMap Brought.other?)) := by
  have hrun : ∀ assembly,
      ((Assembly.deferred slots slots.missing pending).settle r creator).outcome.toOption = some assembly →
      run c r creator place (assembly, side) es = (es.mapM (r.brings c creator.argumentOf place)).bind
        fun bs => (bs.foldlM (r.take creator) (assembly, side)).toOption := by
    intro assembly hsettle
    refine run_taken ?_ (fun e es state b state' h hb htake => h.take hb htake)
      (GivesOnce.settle ⟨rfl, hnodup, hfree⟩ hsettle)
    intro e es assembly h
    cases assembly with
    | deferred slots remaining pending => rfl
    | constructed v => simp only [targets, Creator.argumentOf, h e List.mem_cons_self, Option.bind_none]
  rw [Option.bind_congr hrun, Option.bind_comm]
  refine Option.bind_congr fun bs hbs => ?_
  have hsub := arguments_sublist hbs
  simp only [argumentOf_position] at hsub
  rw [takes_waiting, ArgSlots.collect_eq_fill _ slots (hnodup.sublist hsub) fun i hi => hfree i (hsub.mem hi)]

/-! ## All members of an object -/

theorem newSlots_missing (creator : Creator) : creator.newSlots.missing = creator.arity := by
  simp [Creator.newSlots, ArgSlots.empty, ArgSlots.missing, Creator.arity, List.countP_replicate]

theorem newSlots_free {key : String} {i : Nat} (h : creator.argIndex? key = some i) :
    creator.newSlots.slots[i]? = some none := by
  obtain ⟨arg, harg, -⟩ := Creator.argIndex?_goesBy h
  have hlt := (List.getElem?_eq_some_iff.1 harg).1
  simp [Creator.newSlots, ArgSlots.empty, hlt]

theorem awaited_of_made {made : Value} (h : creator.noArgs = some made) : creator.awaited = fun _ => none := by
  funext key
  simp [Creator.awaited, h]

theorem awaited_of_waiting (h : creator.noArgs = none) : creator.awaited = creator.argumentOf := by
  funext key
  simp [Creator.awaited, h]

theorem opening_of_made {made : Value} (h : creator.noArgs = some made) :
    (Assembly.opening r creator).outcome = .ok (.constructed made) := by
  simp only [Assembly.opening, Assembly.start, h]
  rfl

theorem opening_of_waiting (h : creator.noArgs = none) :
    (Assembly.opening r creator).outcome =
      ((Assembly.deferred creator.newSlots creator.newSlots.missing []).settle r creator).outcome := by
  simp only [Assembly.opening, Assembly.start, h, Making.outcome_bind, Making.outcome_pure, ok_bind, newSlots_missing]

/-- What an opened record has come to by what entries brought it. -/
def opened (r : Record) (creator : Creator) (brought : List Brought) : Except BindError Assembly :=
  let fields := brought.filterMap Brought.field?
  match creator.noArgs with
  | some made => return .constructed (← (fields.foldlM (Assembly.assign r) made).outcome)
  | none =>
    let filled := creator.newSlots.fill (brought.filterMap Brought.argument?)
    ((Assembly.deferred filled filled.missing fields).settle r creator).outcome

theorem opened_of_made {made : Value} (h : creator.noArgs = some made) (bs : List Brought) :
    (r.opened creator bs).toOption =
      ((bs.filterMap Brought.field?).foldlM (Assembly.assign r) made).outcome.toOption.map .constructed := by
  simp only [opened, h]
  rw [toOption_bind]
  exact Option.map_eq_bind.symm

theorem opened_of_waiting (h : creator.noArgs = none) (bs : List Brought) :
    r.opened creator bs =
      let filled := creator.newSlots.fill (bs.filterMap Brought.argument?)
      ((Assembly.deferred filled filled.missing (bs.filterMap Brought.field?)).settle r creator).outcome := by
  simp only [opened, h]

/-- A record is opened and takes what the entries bring to it, whether its instance is there from the start or waits
for arguments that come once each. -/
theorem run_opened {es : List (String × Node)}
    (honce : creator.noArgs = none → (es.filterMap (creator.argIndex? ·.1)).Nodup) :
    (Assembly.opening r creator).outcome.toOption.bind (fun assembly => run c r creator place (assembly, []) es) =
      (es.mapM (r.brings c creator.awaited place)).bind fun bs =>
        (r.opened creator bs).toOption.map fun assembly =>
          (assembly, Entries.insertAll [] (bs.filterMap Brought.other?)) := by
  cases hwaits : creator.noArgs with
  | some made =>
    rw [opening_of_made hwaits, awaited_of_made hwaits]
    refine (run_constructed es made []).trans (Option.bind_congr fun bs _ => ?_)
    rw [opened_of_made hwaits, Option.map_map]
    rfl
  | none =>
    have hfree : ∀ i ∈ es.filterMap (creator.argIndex? ·.1), creator.newSlots.slots[i]? = some none := by
      intro i hi
      obtain ⟨e, -, he⟩ := List.mem_filterMap.1 hi
      exact newSlots_free he
    rw [opening_of_waiting hwaits, awaited_of_waiting hwaits, run_settled es _ [] [] (honce hwaits) hfree]
    simp only [opened_of_waiting hwaits, List.nil_append]

/-- The tree of an object is read member by member. -/
theorem tree_record (hcreator : r.creator = some creator) (es : List (String × Node)) :
    (Tree.record c r (.object es) (es.map fun e => (e.1, e.2, Tree.value c e.2)) place).toOption =
      ((Assembly.opening r creator).outcome.toOption.bind
        fun assembly => run c r creator place (assembly, []) es).bind
          fun state => (Tree.finish r creator state).toOption := by
  simp only [Tree.record, hcreator, List.foldlM_map, toOption_bind, run, Option.bind_assoc]

/-- The phases make no difference. -/
theorem record_assembled (hcreator : r.creator = some creator) (hwaits : creator.noArgs = none)
    {es : List (String × Node)} (honce : (es.filterMap (creator.argIndex? ·.1)).Nodup) :
    (Tree.record c r (.object es) (es.map fun e => (e.1, e.2, Tree.value c e.2)) place).toOption =
      r.assembled c creator place es := by
  rw [tree_record hcreator, run_opened fun _ => honce, awaited_of_waiting hwaits, Option.bind_assoc]
  refine Option.bind_congr fun bs _ => ?_
  rw [opened_of_waiting hwaits, Option.bind_map]
  simp only [Function.comp_def, finish_settle]
  rw [finish_deferred, build_eq]

/-! ## The order of the arguments -/

theorem fill_perm {a : ArgSlots} {as as' : List (Nat × Value)} (hperm : as.Perm as')
    (hnodup : (as.map (·.1)).Nodup) : a.fill as = a.fill as' := by
  refine hperm.foldl_eq' ?_ a
  intro p hp q hq a
  by_cases hpq : p.1 = q.1
  · rw [List.inj_on_of_nodup_map hnodup hp hq hpq]
  · simp only [ArgSlots.put_snd, List.set_comm _ _ hpq]

/-- What an entry of an argument brings goes nowhere else. -/
theorem no_field_of_argument {argumentOf : String → Option (Nat × Ty)} {e : String × Node} {b : Brought}
    (h : r.brings c argumentOf place e = some b) (hsome : (argumentOf e.1).isSome) :
    b.field? = none ∧ b.other? = none := by
  obtain ⟨⟨i, t⟩, hit⟩ := Option.isSome_iff_exists.1 hsome
  simp only [brings, hit, bringsTo] at h
  split at h
  · cases h
    exact ⟨rfl, rfl⟩
  · obtain ⟨v, -, rfl⟩ := Option.map_eq_some_iff.1 h
    exact ⟨rfl, rfl⟩

/-- Arguments are brought by the entries that stand for arguments, all else by the others. -/
theorem brought_apart {f : String × Node → Brought} {es : List (String × Node)}
    (hf : ∀ e ∈ es, r.brings c creator.argumentOf place e = some (f e)) :
    (es.map f).filterMap Brought.argument? =
        (es.filter fun e => (creator.argIndex? e.1).isSome).filterMap (Brought.argument? ∘ f) ∧
      (es.map f).filterMap Brought.field? =
        (es.filter fun e => (creator.argIndex? e.1).isNone).filterMap (Brought.field? ∘ f) ∧
      (es.map f).filterMap Brought.other? =
        (es.filter fun e => (creator.argIndex? e.1).isNone).filterMap (Brought.other? ∘ f) := by
  have hother : ∀ e ∈ es, ¬ (creator.argIndex? e.1).isSome → (f e).argument? = none := by
    intro e he hno
    by_contra hsome
    obtain ⟨p, hp⟩ := Option.ne_none_iff_exists'.1 hsome
    have hi := argument_of_brings (hf e he) hp
    rw [argumentOf_position] at hi
    exact hno (by simp [hi])
  have hargument : ∀ e ∈ es, ¬ (creator.argIndex? e.1).isNone → (f e).field? = none ∧ (f e).other? = none := by
    intro e he hno
    refine no_field_of_argument (hf e he) ?_
    rw [← Option.isSome_map (f := (·.1)), argumentOf_position, Option.isSome_iff_ne_none]
    simpa using hno
  exact ⟨filterMap_map_filter hother, filterMap_map_filter fun e he hno => (hargument e he hno).1,
    filterMap_map_filter fun e he hno => (hargument e he hno).2⟩

/-- Entries come to the same whatever the order of those that stand for arguments, and wherever they
stand among the others. -/
theorem assembled_perm {es es' : List (String × Node)} (honce : (es.filterMap (creator.argIndex? ·.1)).Nodup)
    (harguments : (es.filter fun e => (creator.argIndex? e.1).isSome).Perm
      (es'.filter fun e => (creator.argIndex? e.1).isSome))
    (hothers : es.filter (fun e => (creator.argIndex? e.1).isNone) =
      es'.filter fun e => (creator.argIndex? e.1).isNone) :
    r.assembled c creator place es = r.assembled c creator place es' := by
  have hmem : ∀ e, e ∈ es ↔ e ∈ es' := by
    intro e
    have ha := harguments.mem_iff (a := e)
    have ho := congrArg (e ∈ ·) hothers
    simp only [List.mem_filter] at ha ho
    cases he : creator.argIndex? e.1 <;> simp_all
  unfold assembled
  by_cases hall : ∀ e ∈ es, (r.brings c creator.argumentOf place e).isSome
  · -- Every entry brings something: the arguments in another order, all else in the same.
    let f (e : String × Node) : Brought := (r.brings c creator.argumentOf place e).getD .nothing
    have hf : ∀ e ∈ es, r.brings c creator.argumentOf place e = some (f e) := by
      intro e he
      obtain ⟨b, hb⟩ := Option.isSome_iff_exists.1 (hall e he)
      simp [f, hb]
    have hf' : ∀ e ∈ es', r.brings c creator.argumentOf place e = some (f e) := fun e he => hf e ((hmem e).2 he)
    have hes := mapM_of_forall hf
    have hes' := mapM_of_forall hf'
    obtain ⟨harg, hfield, hother⟩ := brought_apart hf
    obtain ⟨harg', hfield', hother'⟩ := brought_apart hf'
    have hperm : ((es.map f).filterMap Brought.argument?).Perm ((es'.map f).filterMap Brought.argument?) := by
      rw [harg, harg']
      exact harguments.filterMap _
    have hfields : (es.map f).filterMap Brought.field? = (es'.map f).filterMap Brought.field? := by
      rw [hfield, hfield', hothers]
    have hside : (es.map f).filterMap Brought.other? = (es'.map f).filterMap Brought.other? := by
      rw [hother, hother', hothers]
    have hnodup : (((es.map f).filterMap Brought.argument?).map (·.1)).Nodup := by
      refine (arguments_sublist hes).nodup ?_
      simpa only [argumentOf_position] using honce
    rw [hes, hes']
    simp only [Option.pure_def, Option.bind_eq_bind, Option.bind_some, build, hfields, hside,
      fill_perm hperm hnodup]
  · -- An entry that cannot be read spoils the object wherever it stands.
    obtain ⟨e, he, hnone⟩ : ∃ e ∈ es, r.brings c creator.argumentOf place e = none := by
      by_contra hex
      refine hall fun e he => Option.isSome_iff_ne_none.2 fun hnone => hex ⟨e, he, hnone⟩
    rw [mapM_of_none he hnone, mapM_of_none ((hmem e).1 he) hnone]

end Record

/-- Reading a record whose constructor waits, from any source. -/
theorem record_outcome {σ : Type} [TokenSource σ] [LawfulSource σ] (c : Context) {r : Record}
    {creator : Creator} (hcreator : r.creator = some creator) (hwaits : creator.noArgs = none)
    {es : List (String × Node)} (honce : (es.filterMap (creator.argIndex? ·.1)).Nodup) (place : Place)
    {budget : Nat} {s s' : σ} (hs : Walks s (Node.object es).tokens s')
    (hbudget : (Node.object es).tokens.length ≤ budget + 1) :
    match r.assembled c creator place es with
    | some v => Decode.record c r budget (Decode.node budget) (Decode.value c budget) place s = .ok v s'
    | none => ∃ e s'',
      Decode.record c r budget (Decode.node budget) (Decode.value c budget) place s = .error e s'' := by
  rw [← Record.record_assembled hcreator hwaits honce]
  have hreads : Reads (Decode.record c r budget (Decode.node budget) (Decode.value c budget) place : Reading σ Value)
      (Node.object es).tokens
      (Tree.record c r (.object es) (es.map fun e => (e.1, e.2, Tree.value c e.2)) place) :=
    Reads.record place hbudget (fun e _ hb place => Reads.node place hb) fun e _ hb t place =>
      Reads.value t place hb
  rcases hreads s s' hs with ⟨v, hv, hr⟩ | ⟨e, s'', he, hr⟩
  · rw [hv]
    exact hr
  · rw [he]
    exact ⟨e, s'', hr⟩

/-- A record whose constructor waits for its arguments, read from an object in which no argument comes
twice: the source does not matter, nor does the order in which the arguments come or where they come
among the other entries. The arguments that come make the instance once, the fields are then assigned in
order of arrival, and the side object is installed last. -/
theorem record_out_of_order {σ τ : Type} [TokenSource σ] [LawfulSource σ] [TokenSource τ] [LawfulSource τ]
    (c : Context) {r : Record} {creator : Creator} (hcreator : r.creator = some creator)
    (hwaits : creator.noArgs = none) {es : List (String × Node)}
    (honce : (es.filterMap (creator.argIndex? ·.1)).Nodup) (place : Place) {budget : Nat} {s s' : σ}
    (hs : Walks s (Node.object es).tokens s') (hbudget : (Node.object es).tokens.length ≤ budget + 1) :
    (match r.assembled c creator place es with
      | some v => Decode.record c r budget (Decode.node budget) (Decode.value c budget) place s = .ok v s'
      | none => ∃ e s'', Decode.record c r budget (Decode.node budget) (Decode.value c budget) place s = .error e s'') ∧
    ∀ {es' : List (String × Node)} {budget' : Nat} {t t' : τ},
      (es.filter fun e => (creator.argIndex? e.1).isSome).Perm
        (es'.filter fun e => (creator.argIndex? e.1).isSome) →
      es.filter (fun e => (creator.argIndex? e.1).isNone) =
        es'.filter (fun e => (creator.argIndex? e.1).isNone) →
      Walks t (Node.object es').tokens t' → (Node.object es').tokens.length ≤ budget' + 1 →
      ((Decode.record c r budget (Decode.node budget) (Decode.value c budget) place).run s).1.toOption =
        ((Decode.record c r budget' (Decode.node budget') (Decode.value c budget') place).run t).1.toOption := by
  have hout := record_outcome c hcreator hwaits honce place hs hbudget
  refine ⟨hout, ?_⟩
  intro es' budget' t t' harguments hothers ht hbudget'
  have hfilter : ∀ es : List (String × Node), es.filterMap (creator.argIndex? ·.1) =
      (es.filter fun e => (creator.argIndex? e.1).isSome).filterMap (creator.argIndex? ·.1) := by
    intro es
    rw [List.filterMap_filter]
    refine List.filterMap_congr fun e _ => ?_
    cases creator.argIndex? e.1 <;> rfl
  have honce' : (es'.filterMap (creator.argIndex? ·.1)).Nodup := by
    rw [hfilter] at honce ⊢
    exact (harguments.filterMap _).nodup_iff.1 honce
  have hout' := record_outcome c hcreator hwaits honce' place ht hbudget'
  rw [← Record.assembled_perm honce harguments hothers] at hout'
  simp only [Reading.run]
  cases hv : r.assembled c creator place es with
  | some v =>
    rw [hv] at hout hout'
    simp only at hout hout'
    rw [hout, hout']
  | none =>
    rw [hv] at hout hout'
    obtain ⟨e, s'', he⟩ := hout
    obtain ⟨e', t'', he'⟩ := hout'
    rw [he, he']
    rfl

/-- Setters that count their calls, around two arguments: from a node and, the arguments swapped and
moved, from a tape. -/
theorem record_out_of_order_replay :
    let c : Context := { schema := Catalogue.schema, registry := {} }
    let r := Catalogue.replay
    let creator := r.creator.get rfl
    let number (i : UInt64) : Node := .number (.posInt i)
    let es := [("s1", number 1), ("p", number 5), ("s2", number 2), ("q", number 6), ("s3", number 3)]
    let es' := [("q", number 6), ("s1", number 1), ("s2", number 2), ("s3", number 3), ("p", number 5)]
    (r.creator = some creator ∧ creator.noArgs = none ∧ (es.filterMap (creator.argIndex? ·.1)).Nodup) ∧
    Decode.record c r 20 (Decode.node 20) (Decode.value c 20) none (NodeCursor.ofNode (.object es)) =
      .ok (Catalogue.make "Replay" [.int .i32 5, .int .i32 6, .int .i32 3, .int .i64 123]) ⟨.done, []⟩ ∧
    ((Decode.record c r 20 (Decode.node 20) (Decode.value c 20) none).run (NodeCursor.ofNode (.object es))).1.toOption =
      ((Decode.record c r 30 (Decode.node 30) (Decode.value c 30) none).run
        (TapeReader.ofTape (Tape.ofNode (.object es')))).1.toOption := by
  intro c r creator number es es'
  have honce : (es.filterMap (creator.argIndex? ·.1)).Nodup := by decide
  have hcreator : r.creator = some creator := rfl
  obtain ⟨t', ht, -⟩ : ∃ t', Walks (TapeReader.ofTape (Tape.ofNode (.object es'))) (Node.object es').tokens t' ∧
      t'.plain = [] := TapeReader.walks rfl
  have hthm := record_out_of_order (τ := TapeReader) c hcreator rfl honce none
    (NodeCursor.walks_value (.object es) []) (by decide : _ ≤ 20 + 1)
  have harguments : (es.filter fun e => (creator.argIndex? e.1).isSome).Perm
      (es'.filter fun e => (creator.argIndex? e.1).isSome) := .swap _ _ _
  exact ⟨⟨hcreator, rfl, honce⟩, hthm.1, hthm.2 harguments rfl ht (by decide)⟩

end Bindery
