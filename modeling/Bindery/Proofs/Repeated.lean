import Bindery.Catalogue.Model
import Bindery.Proofs.Assembling
import Bindery.Proofs.Runs
import Mathlib.Data.List.Infix
/-!
# Arguments that come more than once

An argument may come several times, under its name and its aliases, and each time its value takes the place of the one
before, as long as the constructor waits. It waits until each argument has come. So it runs on the last value of each
argument up to the member that gives the last one missing (`Record.counted`). What comes for an argument later goes to
the read-only field that mirrors it and is lost (`argument_replaced_until_complete`). Two members in a row that give
different arguments may change places, unless one of them is the member that the constructor waits for.
-/

namespace Bindery

/-! ## Who gives an argument -/

namespace Creator

variable (c : Context) (creator : Creator)

/-- The argument that a member gives a value to: that of its key, unless the member is an absent null. -/
def given? (m : Member) : Option Nat :=
  (creator.argumentOf m.1).bind fun p => if Decode.isAbsent c p.2 m.2 then none else some p.1

/-- The last member that gives argument `i`. -/
def lastGiven (i : Nat) (ms : List Member) : Option Member := ms.reverse.find? fun m => creator.given? c m = some i

/-- Each argument has been given by some member. -/
def Complete (ms : List Member) : Prop := ∀ i < creator.arity, (creator.lastGiven c i ms).isSome

instance (ms : List Member) : Decidable (creator.Complete c ms) :=
  inferInstanceAs (Decidable (∀ i < creator.arity, (creator.lastGiven c i ms).isSome))

/-- The members that count for the arguments: those up to the one that gives the last argument missing, or all if
some argument is never given. -/
def counted (ms : List Member) : List Member := (ms.inits.find? fun pre => creator.Complete c pre).getD ms

end Creator

namespace Record

variable (c : Context) (r : Record) (creator : Creator) (place : Place)

/-- Under each key of an argument there is a read-only field of its type. -/
def Mirrored : Prop :=
  ∀ ⦃key i arg⦄, creator.argIndex? key = some i → creator.args[i]? = some arg →
    ∃ j f, r.fieldOf key = some (j, f) ∧ f.type = arg.type ∧ f.store = none

/-- The slots hold for each argument the value of the last member that gives it. -/
structure Collected (ms : List Member) (slots : ArgSlots) : Prop where
  frame : slots = { creator.newSlots with slots := slots.slots }
  length : slots.slots.length = creator.arity
  empty : ∀ {i : Nat}, i < creator.arity → creator.lastGiven c i ms = none → slots.slots[i]? = some none
  filled : ∀ {i : Nat} {arg : Arg} {m : Member}, creator.args[i]? = some arg → creator.lastGiven c i ms = some m →
    ∃ v, Decode.ofRun c arg.type (place.member r.name m.1) m.2 = .ok v ∧ slots.slots[i]? = some (some v)

/-- What a member brings while arguments are awaited. -/
def awaited (m : Member) : Option Brought :=
  (r.bringing c (Assembly.route r creator (.deferred creator.newSlots creator.arity []) m.1)
    (place.member r.name m.1) m).toOption

end Record

/-! ## Keys that name an argument and its mirror -/

/-- An argument is mirrored by a read-only field of its name, its aliases and its type, if no key is that of two
fields. -/
theorem Record.mirrored_of_names {r : Record} {creator : Creator}
    (hmirror : ∀ arg ∈ creator.args, ∃ f ∈ r.fields, f.toNames = arg.toNames ∧ f.type = arg.type ∧ f.store = none)
    (hkeys : ∀ f ∈ r.fields, ∀ g ∈ r.fields, ∀ key, f.GoesBy key → g.GoesBy key → f = g) : r.Mirrored creator := by
  intro key i arg hi harg
  obtain ⟨arg', harg', hgoes⟩ := Creator.argIndex?_goesBy hi
  rw [harg] at harg'
  cases harg'
  obtain ⟨f, hf, hnames, htype, hstore⟩ := hmirror arg (List.mem_of_getElem? harg)
  rw [← hnames] at hgoes
  cases hj : r.fieldIndex? key with
  | none => exact absurd hgoes ((r.fieldIndex?_none_iff key).1 hj f hf)
  | some j =>
    obtain ⟨g, hg, hkey⟩ := Record.fieldIndex?_goesBy hj
    obtain rfl := hkeys g (List.mem_of_getElem? hg) f hf key hkey hgoes
    exact ⟨j, g, by simp [Record.fieldOf, hj, hg], htype, hstore⟩

/-! ## One member -/

namespace Record

variable {c : Context} {r : Record} {creator : Creator} {place : Place}

theorem awaited_argument {m : Member} {i : Nat} {arg : Arg} (hi : creator.argIndex? m.1 = some i)
    (harg : creator.args[i]? = some arg) :
    r.awaited c creator place m = (stored c (.argument i) arg.type (place.member r.name m.1) m.2).toOption := by
  simp [awaited, Assembly.route, Assembly.argument?, hi, harg, bringing]

theorem awaited_rest {m : Member} (hi : creator.argIndex? m.1 = none) :
    r.awaited c creator place m =
      (r.bringing c (match r.fieldOf m.1 with | some (i, f) => .field i f | none => .elsewhere)
        (place.member r.name m.1) m).toOption := by
  unfold awaited
  refine congrArg (fun target => (r.bringing c target _ m).toOption) ?_
  refine (route_of_no_argument (by simp [Assembly.argument?, hi])).trans ?_
  cases r.fieldOf m.1 <;> rfl

/-- A member whose key stands for an argument brings its value, or nothing if it is an absent null. -/
theorem awaited_some {m : Member} {i : Nat} {b : Brought} (hi : creator.argIndex? m.1 = some i)
    (hb : r.awaited c creator place m = some b) :
    (creator.given? c m = none ∧ b = .nothing) ∨
      (creator.given? c m = some i ∧ ∃ arg v, creator.args[i]? = some arg ∧
        Decode.ofRun c arg.type (place.member r.name m.1) m.2 = .ok v ∧ b = .argument i v) := by
  obtain ⟨arg, harg, -⟩ := Creator.argIndex?_goesBy hi
  rw [awaited_argument hi harg] at hb
  rcases stored_ok (toOption_some hb) with ⟨habsent, rfl⟩ | ⟨hpresent, v, hv, rfl⟩
  · exact .inl ⟨by simp [Creator.given?, Creator.argumentOf, hi, harg, habsent], rfl⟩
  · exact .inr ⟨by simp [Creator.given?, Creator.argumentOf, hi, harg, hpresent], arg, v, harg, hv, rfl⟩

/-- A member whose key stands for no argument gives none. -/
theorem awaited_none {m : Member} {b : Brought} (hi : creator.argIndex? m.1 = none)
    (hb : r.awaited c creator place m = some b) : creator.given? c m = none ∧ b.argument? = none := by
  refine ⟨by simp [Creator.given?, Creator.argumentOf, hi], ?_⟩
  rw [awaited_rest hi] at hb
  replace hb := toOption_some hb
  cases hf : r.fieldOf m.1 with
  | some p =>
    rw [hf] at hb
    rcases stored_ok hb with ⟨-, rfl⟩ | ⟨-, v, -, rfl⟩ <;> rfl
  | none =>
    rw [hf] at hb
    rcases elsewhere_ok hb with ⟨-, n, -, rfl⟩ | ⟨-, rfl⟩ <;> rfl

/-- A member is taken as what it brings, while arguments are awaited. -/
theorem step_waiting (slots : ArgSlots) (remaining : Nat) (pending : List (Nat × Value)) (side : List (String × Node))
    (m : Member) :
    (r.step c creator place (.deferred slots remaining pending, side) m).toOption =
      (r.awaited c creator place m).bind fun b =>
        (r.take creator (.deferred slots remaining pending, side) b).toOption := by
  have hroute : Assembly.route r creator (.deferred slots remaining pending) m.1 =
      Assembly.route r creator (.deferred creator.newSlots creator.arity []) m.1 := rfl
  unfold step awaited
  rw [toOption_bind, hroute]
  congr 1
  funext b
  cases r.take creator (.deferred slots remaining pending, side) b <;> rfl

/-- A member is taken as what it brings once the instance is there, but for what it brings to an argument: that is
lost. -/
theorem step_made (hmirrored : r.Mirrored creator) (v : Value) (side : List (String × Node)) (m : Member) :
    (r.step c creator place (.constructed v, side) m).toOption =
      (r.awaited c creator place m).bind fun b => (r.take creator (.constructed v, side) b).toOption := by
  unfold step
  rw [toOption_bind, route_of_no_argument (show (Assembly.constructed v).argument? creator m.1 = none from rfl)]
  cases hi : creator.argIndex? m.1 with
  | none =>
    rw [awaited_rest hi]
    congr 1
    funext b
    cases r.take creator (.constructed v, side) b <;> rfl
  | some i =>
    obtain ⟨arg, harg, -⟩ := Creator.argIndex?_goesBy hi
    obtain ⟨j, f, hf, htype, hstore⟩ := hmirrored hi harg
    rw [awaited_argument hi harg, hf, ← htype]
    simp only [bringing, stored]
    split
    · rfl
    · cases Decode.ofRun c f.type (place.member r.name m.1) m.2 with
      | error e => rfl
      | ok w =>
        have hassign : (Assembly.assign r v (j, w)).outcome = .ok v := by
          simp only [Assembly.assign, (fieldIndex?_of_fieldOf hf).2, Field.set, hstore]
          rfl
        change ((r.take creator (.constructed v, side) (.field j w)).mapError _).toOption = _
        simp only [take, Assembly.putField, Making.outcome_bind, Making.outcome_does, ok_bind, hassign]
        rfl

/-- Members are taken as what they bring, one after the other. -/
theorem run_awaited (hmirrored : r.Mirrored creator) (ms : List Member) : ∀ state : Assembly × List (String × Node),
    (ms.foldlM (r.step c creator place) state).toOption =
      (ms.mapM (r.awaited c creator place)).bind fun bs => (bs.foldlM (r.take creator) state).toOption := by
  refine fun state => foldlM_fused (I := fun _ _ => True) ?_ (fun _ _ _ _ _ _ _ _ => trivial) ms state trivial
  rintro m ms ⟨assembly, side⟩ -
  cases assembly with
  | deferred slots remaining pending => exact step_waiting slots remaining pending side m
  | constructed v => exact step_made hmirrored v side m

end Record

namespace ArgSlots

theorem collect_append (a : ArgSlots) (arguments more : List (Nat × Value)) :
    a.collect (arguments ++ more) = (a.collect arguments).collect more := List.foldl_append

/-- Two arguments may change places unless one of them is the last one missing. -/
theorem collect_swap {a : ArgSlots} {p q : Nat × Value} (hpq : p.1 ≠ q.1)
    (h : a.missing ≠ 0 → (a.collect [p]).missing ≠ 0 ∧ (a.collect [q]).missing ≠ 0) (more : List (Nat × Value)) :
    a.collect (p :: q :: more) = a.collect (q :: p :: more) := by
  by_cases ha : a.missing = 0
  · rw [collect_full ha, collect_full ha]
  · obtain ⟨hp, hq⟩ := h ha
    rw [collect_cons ha] at hp hq
    rw [collect_cons ha, collect_cons (a := (a.put p.1 p.2).2) hp, collect_cons ha,
      collect_cons (a := (a.put q.1 q.2).2) hq]
    simp only [put_snd, List.set_comm _ _ hpq]

end ArgSlots

namespace Record

variable {c : Context} {r : Record} {creator : Creator} {place : Place}

/-- What reading an object as a record comes to, by what its members bring. -/
theorem bound_awaited (hmirrored : r.Mirrored creator) (hcreator : r.creator = some creator)
    (hwaits : creator.noArgs = none) (ms : List Member) :
    (r.bound c place ms).toOption =
      (ms.mapM (r.awaited c creator place)).bind fun bs =>
        (r.build (fun arguments => (creator.construct (creator.newSlots.collect arguments)).outcome) []
          bs).toOption := by
  unfold bound
  rw [hcreator]
  simp only [toOption_bind, run_awaited hmirrored, opening_of_waiting hwaits]
  cases ms.mapM (r.awaited c creator place) with
  | none => exact Option.bind_fun_none _
  | some bs =>
    simp only [Option.bind_some]
    rw [← Option.bind_assoc, takes_waiting]
    simp only [Option.bind_map, Function.comp_def, finish_settle, List.nil_append]
    rw [finish_deferred, build_eq]

end Record

/-! ## What is collected -/

namespace Creator

variable {c : Context} {creator : Creator}

theorem lastGiven_concat (i : Nat) (ms : List Member) (m : Member) :
    creator.lastGiven c i (ms ++ [m]) =
      if creator.given? c m = some i then some m else creator.lastGiven c i ms := by
  unfold lastGiven
  rw [List.reverse_concat, List.find?_cons]
  split <;> simp_all

theorem Complete.append {ms : List Member} (h : creator.Complete c ms) (more : List Member) :
    creator.Complete c (ms ++ more) := by
  intro i hi
  have hsome := h i hi
  unfold lastGiven at hsome ⊢
  rw [List.find?_isSome] at hsome ⊢
  obtain ⟨m, hm, hgiven⟩ := hsome
  rw [List.mem_reverse] at hm
  exact ⟨m, List.mem_reverse.2 (List.mem_append_left _ hm), hgiven⟩

theorem counted_of_not_complete {ms : List Member} (h : ¬ creator.Complete c ms) :
    ms.inits.find? (fun pre => creator.Complete c pre) = none ∧ creator.counted c ms = ms := by
  have hnone : ms.inits.find? (fun pre => creator.Complete c pre) = none := by
    refine List.find?_eq_none.2 fun pre hpre => ?_
    obtain ⟨post, rfl⟩ := (List.mem_inits _ _).1 hpre
    simpa using fun hcomplete : creator.Complete c pre => h (hcomplete.append post)
  exact ⟨hnone, by rw [counted, hnone, Option.getD_none]⟩

theorem counted_nil : creator.counted c [] = [] := by
  unfold counted
  rw [show ([] : List Member).inits = [[]] from rfl, List.find?_singleton]
  split <;> rfl

/-- A member counts as long as no member before it completed the arguments. -/
theorem counted_concat (ms : List Member) (m : Member) :
    creator.counted c (ms ++ [m]) = if creator.Complete c ms then creator.counted c ms else ms ++ [m] := by
  have hinits : (ms ++ [m]).inits = ms.inits ++ [ms ++ [m]] := by
    rw [List.inits_append]
    rfl
  unfold counted
  rw [hinits, List.find?_append]
  by_cases h : creator.Complete c ms
  · have hsome : (ms.inits.find? fun pre => creator.Complete c pre).isSome :=
      List.find?_isSome.2 ⟨ms, (List.mem_inits _ _).2 List.prefix_rfl, by simpa using h⟩
    obtain ⟨pre, hpre⟩ := Option.isSome_iff_exists.1 hsome
    rw [if_pos h, hpre]
    rfl
  · rw [if_neg h, (counted_of_not_complete h).1, Option.none_or, List.find?_singleton]
    split <;> rfl

end Creator

namespace Record

variable {c : Context} {r : Record} {creator : Creator} {place : Place} {ms : List Member} {m : Member}
  {slots : ArgSlots}

theorem Collected.nil : r.Collected c creator place [] creator.newSlots := by
  constructor
  · rfl
  · simp [Creator.newSlots, ArgSlots.empty, Creator.arity]
  · intro i hi _
    rw [Creator.arity] at hi
    simp [Creator.newSlots, ArgSlots.empty, hi]
  · intro i arg m _ hnone
    cases hnone

/-- The slots are full when each argument has been given. -/
theorem Collected.missing_eq_zero_iff (h : r.Collected c creator place ms slots) :
    slots.missing = 0 ↔ creator.Complete c ms := by
  unfold ArgSlots.missing
  rw [List.countP_eq_zero]
  constructor
  · intro hfull i hi
    rw [Option.isSome_iff_ne_none]
    intro hnone
    exact hfull none (List.mem_of_getElem? (h.empty hi hnone)) rfl
  · intro hcomplete slot hslot
    obtain ⟨i, hi, rfl⟩ := List.mem_iff_getElem.1 hslot
    have hi' : i < creator.arity := h.length ▸ hi
    obtain ⟨m, hm⟩ := Option.isSome_iff_exists.1 (hcomplete i hi')
    obtain ⟨v, -, hv⟩ := h.filled (List.getElem?_eq_getElem hi') hm
    rw [List.getElem?_eq_getElem hi, Option.some.injEq] at hv
    simp [hv]

/-- A member that gives nothing changes no slot. -/
theorem Collected.pass (h : r.Collected c creator place ms slots) (hm : creator.given? c m = none) :
    r.Collected c creator place (ms ++ [m]) slots := by
  have hlast : ∀ i, creator.lastGiven c i (ms ++ [m]) = creator.lastGiven c i ms := by
    intro i
    rw [Creator.lastGiven_concat, if_neg (by simp [hm])]
  exact ⟨h.frame, h.length, fun hi hnone => h.empty hi ((hlast _).symm.trans hnone),
    fun harg hsome => h.filled harg ((hlast _).symm.trans hsome)⟩

/-- A member that gives an argument is the last one to give it. -/
theorem Collected.put (h : r.Collected c creator place ms slots) {i : Nat} {arg : Arg} {v : Value}
    (hm : creator.given? c m = some i) (harg : creator.args[i]? = some arg)
    (hv : Decode.ofRun c arg.type (place.member r.name m.1) m.2 = .ok v) :
    r.Collected c creator place (ms ++ [m]) (slots.put i v).2 := by
  have hi : i < slots.slots.length := h.length ▸ (List.getElem?_eq_some_iff.1 harg).1
  rw [ArgSlots.put_snd]
  constructor
  · rw [h.frame]
  · rw [List.length_set, h.length]
  · intro j hj hnone
    rw [Creator.lastGiven_concat] at hnone
    split at hnone
    · cases hnone
    · next hij =>
      rw [List.getElem?_set_ne (by rintro rfl; exact hij hm)]
      exact h.empty hj hnone
  · intro j arg' m' harg' hsome
    rw [Creator.lastGiven_concat] at hsome
    split at hsome
    · next hij =>
      cases hsome
      cases hm.symm.trans hij
      cases harg.symm.trans harg'
      exact ⟨v, hv, List.getElem?_set_self hi⟩
    · next hij =>
      rw [List.getElem?_set_ne (by rintro rfl; exact hij hm)]
      exact h.filled harg' hsome

/-- After some members the slots hold the last values among those that count, and are full when each argument has
been given. -/
theorem collected : ∀ {bs : List Brought}, ms.mapM (r.awaited c creator place) = some bs →
    r.Collected c creator place (creator.counted c ms) (creator.newSlots.collect (bs.filterMap Brought.argument?)) ∧
      ((creator.newSlots.collect (bs.filterMap Brought.argument?)).missing = 0 ↔ creator.Complete c ms) := by
  induction ms using List.reverseRecOn with
  | nil =>
    intro bs hbs
    cases hbs
    rw [Creator.counted_nil]
    have hnil : r.Collected c creator place [] creator.newSlots := .nil
    exact ⟨hnil, hnil.missing_eq_zero_iff⟩
  | append_singleton ms m ih =>
    intro bs' hbs
    obtain ⟨bs, hbefore, b, hb, rfl⟩ : ∃ bs, ms.mapM (r.awaited c creator place) = some bs ∧
        ∃ b, r.awaited c creator place m = some b ∧ bs ++ [b] = bs' := by
      simpa [List.mapM_append, Option.bind_eq_some_iff] using hbs
    obtain ⟨hslots, hfull⟩ := ih hbefore
    rw [List.filterMap_append, ArgSlots.collect_append, Creator.counted_concat]
    by_cases hcomplete : creator.Complete c ms
    -- Once the slots are full they collect nothing more, and the members that count are those before.
    · rw [if_pos hcomplete, ArgSlots.collect_full (hfull.2 hcomplete)]
      exact ⟨hslots, iff_of_true (hfull.2 hcomplete) (hcomplete.append _)⟩
    · rw [if_neg hcomplete]
      rw [(Creator.counted_of_not_complete hcomplete).2] at hslots
      have hmissing := mt hfull.1 hcomplete
      suffices h : r.Collected c creator place (ms ++ [m])
          ((creator.newSlots.collect (bs.filterMap Brought.argument?)).collect ([b].filterMap Brought.argument?)) from
        ⟨h, h.missing_eq_zero_iff⟩
      cases hi : creator.argIndex? m.1 with
      | none =>
        obtain ⟨hgiven, hnone⟩ := awaited_none hi hb
        rw [List.filterMap_cons_none hnone]
        exact hslots.pass hgiven
      | some i =>
        rcases awaited_some hi hb with ⟨hgiven, rfl⟩ | ⟨hgiven, arg, v, harg, hv, rfl⟩
        · exact hslots.pass hgiven
        · refine (ArgSlots.collect_cons hmissing (i, v) []).symm ▸ hslots.put hgiven harg hv

/-- What the members of no argument bring is all that is brought but arguments. -/
theorem awaited_apart : ∀ {bs : List Brought}, ms.mapM (r.awaited c creator place) = some bs →
    ∃ rest, (ms.filter fun m => creator.argIndex? m.1 = none).mapM (r.awaited c creator place) = some rest ∧
      rest.filterMap Brought.field? = bs.filterMap Brought.field? ∧
      rest.filterMap Brought.other? = bs.filterMap Brought.other? := by
  induction ms with
  | nil =>
    intro bs hbs
    cases hbs
    exact ⟨[], rfl, rfl, rfl⟩
  | cons m ms ih =>
    intro bs' hbs
    rw [List.mapM_cons] at hbs
    obtain ⟨b, hb, hbs⟩ := Option.bind_eq_some_iff.1 hbs
    obtain ⟨bs, hafter, hcons⟩ := Option.bind_eq_some_iff.1 hbs
    cases hcons
    obtain ⟨rest, hrest, hfields, hothers⟩ := ih hafter
    cases hi : creator.argIndex? m.1 with
    | none =>
      refine ⟨b :: rest, ?_, ?_, ?_⟩
      · rw [List.filter_cons_of_pos (by simpa using hi), List.mapM_cons, hb, hrest]
        rfl
      · rw [List.filterMap_cons, List.filterMap_cons, hfields]
      · rw [List.filterMap_cons, List.filterMap_cons, hothers]
    | some i =>
      refine ⟨rest, by rwa [List.filter_cons_of_neg (by simp [hi])], ?_⟩
      rcases awaited_some hi hb with ⟨-, rfl⟩ | ⟨-, arg, v, -, -, rfl⟩ <;> exact ⟨hfields, hothers⟩

/-! ## Members that change places -/

/-- Two members in a row that give different arguments may change places unless one of them completes the
arguments. -/
theorem bound_swap (hmirrored : r.Mirrored creator) (hcreator : r.creator = some creator)
    (hwaits : creator.noArgs = none) {pre post : List Member} {m m' : Member} {i j : Nat}
    (hi : creator.argIndex? m.1 = some i) (hj : creator.argIndex? m'.1 = some j) (hij : i ≠ j)
    (htip : ¬ creator.Complete c pre → ¬ creator.Complete c (pre ++ [m]) ∧ ¬ creator.Complete c (pre ++ [m'])) :
    (r.bound c place (pre ++ m :: m' :: post)).toOption = (r.bound c place (pre ++ m' :: m :: post)).toOption := by
  rw [bound_awaited hmirrored hcreator hwaits, bound_awaited hmirrored hcreator hwaits]
  cases hpre : pre.mapM (r.awaited c creator place) with
  | none => simp [List.mapM_append, hpre]
  | some bs =>
    cases hb : r.awaited c creator place m with
    | none => simp [List.mapM_append, List.mapM_cons, hpre, hb]
    | some b =>
      cases hb' : r.awaited c creator place m' with
      | none => simp [List.mapM_append, List.mapM_cons, hpre, hb, hb']
      | some b' =>
        simp only [List.mapM_append, List.mapM_cons, hpre, hb, hb', Option.pure_def, Option.bind_eq_bind,
          Option.bind_some, Option.bind_assoc]
        refine Option.bind_congr fun more _ => ?_
        unfold build
        rcases awaited_some hi hb with ⟨-, rfl⟩ | ⟨-, -, v, -, -, rfl⟩
        · simp [List.filterMap_cons, Brought.argument?, Brought.field?, Brought.other?]
        · rcases awaited_some hj hb' with ⟨-, rfl⟩ | ⟨-, -, w, -, -, rfl⟩
          · simp [List.filterMap_cons, Brought.argument?, Brought.field?, Brought.other?]
          · -- Both bring an argument; a member that brings none leaves the slots alone, so the cases above are equal.
            have hone : ∀ {m b}, r.awaited c creator place m = some b →
                (pre ++ [m]).mapM (r.awaited c creator place) = some (bs ++ [b]) := by
              intro m b hb
              simp [List.mapM_append, hpre, hb]
            have hleft := (collected (hone hb)).2
            have hright := (collected (hone hb')).2
            rw [List.filterMap_append, ArgSlots.collect_append] at hleft hright
            have hswap := ArgSlots.collect_swap (p := (i, v)) (q := (j, w)) hij
              (fun hmissing =>
                have htip := htip fun hcomplete => hmissing ((collected hpre).2.2 hcomplete)
                ⟨mt hleft.1 htip.1, mt hright.1 htip.2⟩)
              (more.filterMap Brought.argument?)
            simp only [List.filterMap_append, List.filterMap_cons, Brought.argument?, Brought.field?, Brought.other?,
              ArgSlots.collect_append, hswap]

end Record

/-- Whatever is read as a record is an object of members. When there is only a positional constructor, and read-only
fields mirror its arguments, the constructor runs on the last value of each argument among the members up to the one
that gives the last argument missing; a null that is absent gives none. All that is done to what it makes is what the
members of no argument do. So two members in a row that give different arguments may change places without a change
in what is made, unless the arguments were not complete before and are with one of the two. -/
theorem argument_replaced_until_complete {σ : Type} [TokenSource σ] [SkipsRuns σ] (c : Context) {r : Record}
    {creator : Creator} (hcreator : r.creator = some creator) (hwaits : creator.noArgs = none)
    (hmirrored : r.Mirrored creator) (budget : Nat) (place : Place) :
    (∀ (s s' : σ) (v : Value),
      Decode.record c r budget (Decode.node budget) (Decode.value c budget) place s = .ok v s' →
      ∃ ms, Walks s (objectTokens ms) s' ∧ ∀ m ∈ ms, Discards 0 m.2) ∧
    (∀ (ms : List Member) (s s' s'' : σ) (v : Value), (∀ m ∈ ms, Discards 0 m.2) → Walks s (objectTokens ms) s' →
      (objectTokens ms).length ≤ budget + 1 →
      Decode.record c r budget (Decode.node budget) (Decode.value c budget) place s = .ok v s'' →
      s'' = s' ∧ ∃ slots made, r.Collected c creator place (creator.counted c ms) slots ∧
        (creator.construct slots).outcome = .ok made ∧
        ∃ rest, (ms.filter fun m => creator.argIndex? m.1 = none).mapM (r.awaited c creator place) = some rest ∧
          r.build (fun _ => .ok made) [] rest = .ok v) ∧
    ∀ (pre post : List Member) (m m' : Member) (i j : Nat) (s s' t t' s'' : σ) (v : Value),
      creator.argIndex? m.1 = some i → creator.argIndex? m'.1 = some j → i ≠ j →
      (¬ creator.Complete c pre → ¬ creator.Complete c (pre ++ [m]) ∧ ¬ creator.Complete c (pre ++ [m'])) →
      (∀ m'' ∈ pre ++ m :: m' :: post, Discards 0 m''.2) →
      (objectTokens (pre ++ m :: m' :: post)).length ≤ budget + 1 →
      Walks s (objectTokens (pre ++ m :: m' :: post)) s' → Walks t (objectTokens (pre ++ m' :: m :: post)) t' →
      Decode.record c r budget (Decode.node budget) (Decode.value c budget) place s = .ok v s'' →
      Decode.record c r budget (Decode.node budget) (Decode.value c budget) place t = .ok v t' := by
  refine ⟨fun s s' v h => ?_, fun ms s s' s'' v hms hw hb hread => ?_, ?_⟩
  · have hvalue : ∀ t place, ConsumesValue (Decode.value c budget t place : Reading σ Value) :=
      ConsumesValue.value SkipsRuns.skip_consumes budget
    obtain ⟨_, hw, ms, rfl, hms⟩ := (consumes_record (ConsumesValue.node budget) hvalue place).ok h
    exact ⟨ms, hw, hms⟩
  · obtain ⟨hbound, rfl⟩ := (Reads.bound hms hb).ok hw hread
    have hsome : (r.bound c place ms).toOption = some v := by rw [hbound]; rfl
    rw [Record.bound_awaited hmirrored hcreator hwaits] at hsome
    obtain ⟨bs, hbs, hbuild⟩ := Option.bind_eq_some_iff.1 hsome
    obtain ⟨hslots, -⟩ := Record.collected hbs
    obtain ⟨rest, hrest, hfields, hothers⟩ := Record.awaited_apart hbs
    obtain ⟨made, hmade, hrest'⟩ := bind_eq_ok (toOption_some hbuild)
    refine ⟨rfl, _, made, hslots, hmade, rest, hrest, ?_⟩
    unfold Record.build
    rw [hfields, hothers]
    exact hrest'
  · intro pre post m m' i j s s' t t' s'' v hi hj hij htip hms hb hs ht hread
    obtain ⟨hbound, rfl⟩ := (Reads.bound hms hb).ok hs hread
    have hswap : (r.bound c place (pre ++ m :: m' :: post)).toOption =
        (r.bound c place (pre ++ m' :: m :: post)).toOption :=
      Record.bound_swap hmirrored hcreator hwaits hi hj hij htip
    rw [hbound] at hswap
    have hperm : (pre ++ m' :: m :: post).Perm (pre ++ m :: m' :: post) := (List.Perm.swap _ _ _).append_left pre
    have hlen : (objectTokens (pre ++ m' :: m :: post)).length = (objectTokens (pre ++ m :: m' :: post)).length := by
      simp [objectTokens, Nat.add_left_comm]
    exact (Reads.bound (fun m'' hm => hms m'' (hperm.subset hm)) (hlen ▸ hb)).of_ok ht (toOption_some hswap.symm)

/-- The arguments of a person are mirrored by its fields. -/
theorem person_mirrored {creator : Creator} (hcreator : Catalogue.person.creator = some creator) :
    Catalogue.person.Mirrored creator := by
  cases hcreator
  refine Record.mirrored_of_names ?_ ?_
  · simp [Catalogue.person, Catalogue.constructed, Catalogue.arg, Catalogue.readOnly]
  · simp only [Catalogue.person, Catalogue.constructed, Catalogue.readOnly, Catalogue.settable, Catalogue.personNames,
      Names.GoesBy]
    intro f hf g hg key hkey hkey'
    simp only [List.mem_cons, List.not_mem_nil, or_false] at hf hg
    rcases hf with rfl | rfl | rfl <;> rcases hg with rfl | rfl | rfl <;> grind

/-- A person is given a name twice before the age, and again afterwards. -/
theorem argument_replaced_until_complete_person :
    let c : Context := { schema := { records := [Catalogue.person] }, registry := {} }
    let r := Catalogue.person
    let creator := r.creator.get rfl
    let pre : List Member := [("login", [.string "first"]), ("name", [.string "second"]), ("age", [.number (.ofInt 7)])]
    let name : Member := ("userName", [.string "third"])
    let age : Member := ("age", [.number (.ofInt 8)])
    let read (ms : List Member) := Decode.record c r 20 (Decode.node 20) (Decode.value c 20) none
      (TapeReader.ofTape (Tape.ofTokens (objectTokens ms)))
    let v := Catalogue.personOf (.string "second") (.int .u32 7) (.none .string)
    (r.creator = some creator ∧ creator.noArgs = none ∧ r.Mirrored creator ∧
        ∃ s', read (pre ++ [name, age]) = .ok v s') ∧
      (∃ slots, r.Collected c creator none pre slots ∧ (creator.construct slots).outcome = .ok v) ∧
      ∃ s', read (pre ++ [age, name]) = .ok v s' := by
  intro c r creator pre name age read v
  have hmirrored : r.Mirrored creator := person_mirrored rfl
  have hms : ∀ m ∈ pre ++ [name, age], Discards 0 m.2 := by
    simp only [pre, name, age, List.cons_append, List.nil_append, List.forall_mem_cons]
    exact ⟨.last rfl, .last rfl, .last rfl, .last rfl, .last rfl, by simp⟩
  obtain ⟨s', hs, -⟩ := TapeReader.walks_ofTokens (objectTokens (pre ++ [name, age]))
  obtain ⟨t', ht, -⟩ := TapeReader.walks_ofTokens (objectTokens (pre ++ [age, name]))
  have hreads : Reads (Decode.record c r 20 (Decode.node 20) (Decode.value c 20) none : Reading TapeReader Value)
      (objectTokens (pre ++ [name, age])) (r.bound c none (pre ++ [name, age])) := Reads.bound hms (by decide)
  have hread : read (pre ++ [name, age]) = .ok v s' := hreads.of_ok hs rfl
  obtain ⟨-, hvalues, hswap⟩ := @argument_replaced_until_complete TapeReader _ _ c r creator rfl rfl hmirrored 20 none
  obtain ⟨-, slots, made, hslots, hmade, rest, hrest, hbuild⟩ := hvalues _ _ _ _ _ hms hs (by decide) hread
  cases hrest
  cases hbuild
  have hcomplete : creator.Complete c pre := by decide
  exact ⟨⟨rfl, rfl, hmirrored, s', hread⟩, ⟨slots, hslots, hmade⟩, t',
    hswap pre [] name age 0 1 _ _ _ _ _ _ rfl rfl (by decide) (fun h => absurd hcomplete h) hms (by decide) hs ht hread⟩

/-- Once the arguments are complete a name is replaced no more: the constructor does not run on the last name, and
the age may not be moved past it. -/
theorem argument_kept_once_complete :
    let c : Context := { schema := { records := [Catalogue.person] }, registry := {} }
    let r := Catalogue.person
    let creator := r.creator.get rfl
    let login : Member := ("login", [.string "first"])
    let age : Member := ("age", [.number (.ofInt 7)])
    let name : Member := ("name", [.string "second"])
    let read (ms : List Member) := Decode.record c r 20 (Decode.node 20) (Decode.value c 20) none
      (TapeReader.ofTape (Tape.ofTokens (objectTokens ms)))
    let first := Catalogue.personOf (.string "first") (.int .u32 7) (.none .string)
    let second := Catalogue.personOf (.string "second") (.int .u32 7) (.none .string)
    (r.creator = some creator ∧ creator.noArgs = none ∧ r.Mirrored creator) ∧
      (∃ s', read [login, age, name] = .ok first s') ∧
      (¬ ∃ slots, r.Collected c creator none [login, age, name] slots ∧ (creator.construct slots).outcome = .ok first) ∧
      (∃ s', read [login, name, age] = .ok second s') ∧ first ≠ second := by
  intro c r creator login age name read first second
  have hrun : ∀ m ∈ [login, age, name], Discards 0 m.2 := by
    simp only [login, age, name, List.forall_mem_cons]
    exact ⟨.last rfl, .last rfl, .last rfl, by simp⟩
  have hread : ∀ {ms v}, ms ⊆ [login, age, name] → (objectTokens ms).length ≤ 21 → r.bound c none ms = .ok v →
      ∃ s', read ms = .ok v s' := by
    intro ms v hms hb hv
    obtain ⟨s', hs, -⟩ := TapeReader.walks_ofTokens (objectTokens ms)
    have hreads : Reads (Decode.record c r 20 (Decode.node 20) (Decode.value c 20) none : Reading TapeReader Value)
        (objectTokens ms) (r.bound c none ms) := Reads.bound (fun m hm => hrun m (hms hm)) hb
    exact ⟨s', hreads.of_ok hs hv⟩
  refine ⟨⟨rfl, rfl, person_mirrored rfl⟩, hread (List.Subset.refl _) (by decide) rfl, ?_,
    hread (by simp) (by decide) rfl, ?_⟩
  · rintro ⟨slots, hslots, hmade⟩
    obtain ⟨v, hv, hslot⟩ := hslots.filled (i := 0) (m := name) rfl rfl
    cases hv
    have hname : slots.require 0 .string = .ok (.string "second") := by
      unfold ArgSlots.require ArgSlots.take
      rw [hslot]
      rfl
    change (slots.require 0 .string >>= fun name => slots.require 1 Catalogue.u32 >>= fun age =>
      .ok (Catalogue.personOf name age (.none .string))) = .ok first at hmade
    rw [hname, ok_bind] at hmade
    cases hage : slots.require 1 Catalogue.u32 with
    | error e =>
      rw [hage] at hmade
      cases hmade
    | ok age =>
      rw [hage] at hmade
      simp [first, Catalogue.personOf, Catalogue.make, ok_bind] at hmade
  · simp [first, second, Catalogue.personOf, Catalogue.make]

end Bindery
