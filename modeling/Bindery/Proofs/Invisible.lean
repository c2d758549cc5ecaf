import Bindery.Proofs.Hybrid
import Bindery.Proofs.Runs
/-!
# Members that carry nothing

A record that skips unknown keys passes over two kinds of members without a trace: those whose key it does not own,
whatever run of tokens they hold, and nulls where neither null is a value nor a codec is asked. Reading one leaves
what has been read so far as it is (`step_of_carriesNothing`), whether the instance is there yet or not. So two
tapes that differ in such members only are read alike, with the same error or the same value, whatever comes after
them (`members_invisible`).
-/

namespace Bindery

open TokenStream (front advance)

/-! ## Thinned rows -/

/-- The second list is what is left of the first when elements with a property are taken out, all or some. -/
inductive Thinned {α : Type} (P : α → Prop) : List α → List α → Prop
  | nil : Thinned P [] []
  | keep (a : α) {as bs : List α} (h : Thinned P as bs) : Thinned P (a :: as) (a :: bs)
  | drop {a : α} {as bs : List α} (ha : P a) (h : Thinned P as bs) : Thinned P (a :: as) bs

namespace Thinned

variable {α β ε : Type} {P : α → Prop} {as bs : List α}

theorem subset (h : Thinned P as bs) : bs ⊆ as := by
  induction h with
  | nil => exact fun _ h => h
  | keep a _ ih => exact List.cons_subset_cons a ih
  | drop _ _ ih => exact List.Subset.trans ih (List.subset_cons_self _ _)

/-- Elements that leave every state as it is make no difference to a run of steps. -/
theorem foldlM_eq (h : Thinned P as bs) {f : β → α → Except ε β} {I : β → Prop}
    (hP : ∀ a, P a → ∀ s, I s → f s a = .ok s)
    (hI : ∀ s a s', I s → f s a = .ok s' → I s') : ∀ s, I s → as.foldlM f s = bs.foldlM f s := by
  induction h with
  | nil => exact fun _ _ => rfl
  | keep a _ ih =>
    intro s hs
    rw [List.foldlM_cons, List.foldlM_cons]
    cases hf : f s a with
    | error e => rfl
    | ok s' => exact ih s' (hI s a s' hs hf)
  | drop ha _ ih =>
    intro s hs
    rw [List.foldlM_cons, hP _ ha s hs]
    exact ih s hs

end Thinned

/-! ## Assemblies that never wait -/

/-- The instance is there if it can be made without arguments. -/
def Assembly.Prompt (creator : Creator) (a : Assembly) : Prop := creator.noArgs.isSome → ∃ v, a = .constructed v

namespace Assembly

variable {r : Record} {creator : Creator} {a a' : Assembly}

theorem opening_prompt (h : (opening r creator).outcome = .ok a) : a.Prompt creator := by
  intro hsome
  obtain ⟨v, hv⟩ := Option.isSome_iff_exists.1 hsome
  unfold opening start at h
  rw [hv] at h
  cases h
  exact ⟨v, rfl⟩

theorem Prompt.take (h : a.Prompt creator) {side : List (String × Node)} {b : Brought}
    {state : Assembly × List (String × Node)} (htake : r.take creator (a, side) b = .ok state) :
    state.1.Prompt creator := by
  intro hsome
  obtain ⟨v, rfl⟩ := h hsome
  cases b with
  | nothing | other | argument =>
    cases htake
    exact ⟨v, rfl⟩
  | field i w =>
    obtain ⟨a, hput, hstate⟩ := bind_eq_ok htake
    simp only [Assembly.putField, Making.outcome_bind, Making.outcome_does, Making.outcome_pure, ok_bind] at hput
    obtain ⟨v', -, ha⟩ := bind_eq_ok hput
    cases ha
    cases hstate
    exact ⟨v', rfl⟩

/-- While arguments are awaited, the key of an argument stands for it. -/
theorem Prompt.argument? (h : a.Prompt creator) (key : String) (hnone : creator.awaited key = none) :
    a.argument? creator key = none := by
  cases a with
  | constructed v => rfl
  | deferred slots remaining pending =>
    have hwaits : creator.noArgs.isSome = false := by
      refine Bool.eq_false_iff.2 fun hsome => ?_
      obtain ⟨v, hv⟩ := h hsome
      cases hv
    unfold Creator.awaited at hnone
    rw [hwaits, if_neg Bool.false_ne_true, ← Option.map_eq_none_iff (f := (·.1)), Record.argumentOf_position] at hnone
    simp [Assembly.argument?, hnone]

end Assembly

/-! ## What carries nothing -/

/-- Null is not a value of the type, and no codec is asked what it makes of one. -/
def Context.Mute (c : Context) (t : Ty) : Prop := t.acceptsNull = false ∧ c.codecFor? t = none

/-- A member whose key the record does not own; or a null, and null means nothing to the argument and to the field
that its key stands for. -/
def Record.CarriesNothing (c : Context) (r : Record) (creator : Creator) (m : Member) : Prop :=
  ¬ r.Owns creator m.1 ∨
    m.2 = [.null] ∧ (∀ i t, creator.argumentOf m.1 = some (i, t) → c.Mute t) ∧
      ∀ i f, r.fieldOf m.1 = some (i, f) → c.Mute f.type

namespace Record

variable {c : Context} {r : Record} {creator : Creator} {place : Place} {m : Member}

theorem argumentOf_of_route {a : Assembly} {key : String} {i : Nat} {arg : Arg}
    (h : a.route r creator key = .argument i arg) : creator.argumentOf key = some (i, arg.type) := by
  unfold Assembly.route at h
  split at h
  · next harg =>
    cases h
    cases a with
    | constructed v => cases harg
    | deferred slots remaining pending =>
      unfold Assembly.argument? at harg
      obtain ⟨j, hj, harg⟩ := Option.bind_eq_some_iff.1 harg
      obtain ⟨arg', harg', hpair⟩ := Option.map_eq_some_iff.1 harg
      cases hpair
      simp [Creator.argumentOf, hj, harg']
  · split at h <;> cases h

theorem fieldOf_of_route {a : Assembly} {key : String} {i : Nat} {f : Field}
    (h : a.route r creator key = .field i f) : r.fieldOf key = some (i, f) := by
  unfold Assembly.route at h
  split at h
  · cases h
  · split at h
    · next hfield =>
      cases h
      exact hfield
    · cases h

theorem isAbsent_of_mute (hconsistent : c.registry.Consistent c.schema) {t : Ty} (h : c.Mute t) :
    Decode.isAbsent c t [.null] = true := by
  have hclassify := Context.classify_of_codecFor? hconsistent h.2
  simp [Decode.isAbsent, h.1, hclassify]

/-- A key that the record does not own stands for nothing, whatever has been read. -/
theorem route_of_not_owns {a : Assembly} (ha : a.Prompt creator) {key : String} (h : ¬ r.Owns creator key) :
    a.route r creator key = .elsewhere := by
  obtain ⟨hawaited, hindex⟩ := (not_owns_iff key).1 h
  rw [route_of_no_argument (ha.argument? key hawaited)]
  simp [fieldOf, hindex]

/-- A member that carries nothing leaves what has been read as it is. -/
theorem step_of_carriesNothing (hconsistent : c.registry.Consistent c.schema) (hplain : r.hybrid = none)
    (hskip : c.config.unknownKeys = .skip) (h : r.CarriesNothing c creator m) {state : Assembly × List (String × Node)}
    (hstate : state.1.Prompt creator) : r.step c creator place state m = .ok state := by
  suffices hnothing : r.bringing c (state.1.route r creator m.1) (place.member r.name m.1) m = .ok .nothing by
    unfold step
    dsimp only
    rw [hnothing]
    rfl
  have helsewhere : r.bringing c .elsewhere (place.member r.name m.1) m = .ok .nothing := by
    simp [bringing, hplain, hskip]
  rcases h with howns | ⟨hnull, hargument, hfield⟩
  · rw [route_of_not_owns hstate howns]
    exact helsewhere
  · have hstored : ∀ {target : Value → Brought} {t : Ty}, c.Mute t →
        stored c target t (place.member r.name m.1) m.2 = .ok .nothing := by
      intro target t ht
      unfold stored
      rw [hnull, if_pos (isAbsent_of_mute hconsistent ht)]
    cases hroute : state.1.route r creator m.1 with
    | argument i arg => exact hstored (hargument i _ (argumentOf_of_route hroute))
    | field i f => exact hstored (hfield i f (fieldOf_of_route hroute))
    | elsewhere => exact helsewhere

theorem step_prompt {state state' : Assembly × List (String × Node)} (hstate : state.1.Prompt creator)
    (h : r.step c creator place state m = .ok state') : state'.1.Prompt creator := by
  obtain ⟨b, -, htake⟩ := bind_eq_ok h
  exact hstate.take (mapError_eq_ok htake)

end Record

/-- A record that is classified as such has no side object. -/
theorem Context.plain_of_record {c : Context} (hconsistent : c.registry.Consistent c.schema) {name : String}
    (h : c.classify (.record name) = .record) : (c.schema.record name).hybrid = none := by
  unfold Context.classify at h
  rw [hconsistent.classify] at h
  unfold Schema.classify at h
  dsimp only at h
  split at h
  · cases h
  · split at h
    · cases h
    · assumption
    · cases h

/-! ## Two tapes -/

/-- The readings end with the same error, or with the same value and the same left of both tapes. -/
def SameOutcome {α : Type} (x y : Except BindError α × TapeReader) : Prop :=
  x.1 = y.1 ∧ ∀ a, x.1 = .ok a → x.2.SamePlain y.2

theorem Alike.sameOutcome {α : Type} {P : TapeReader → TapeReader → Prop} {r r' : Reading TapeReader α}
    (h : Alike P TapeReader.SamePlain r r') {s s' : TapeReader} (hs : P s s') :
    SameOutcome (r.run s) (r'.run s') := by
  unfold Reading.run
  rcases h.run hs with ⟨a, s₁, s₁', hr, hr', hsame⟩ | ⟨e, s₁, s₁', hr, hr'⟩
  · rw [hr, hr']
    exact ⟨rfl, fun _ _ => hsame⟩
  · rw [hr, hr']
    exact ⟨rfl, fun a ha => by cases ha⟩

/-- A loop over members that stand first in a source: it goes on behind them with what they came to, or fails with
one of them. -/
theorem Reading.forMembers_walks {σ α : Type} [TokenStream σ] {body : α → Reading σ α}
    {step : α → Member → Except BindError α} {s' : σ} {ms : List Member}
    (hbody : ∀ m ∈ ms, ∀ acc, Reads (body acc) m.tokens (step acc m)) (more : Nat) :
    ∀ (acc : α) {s : σ}, Walks s (ms.flatMap Member.tokens) s' →
      (∃ acc', ms.foldlM step acc = .ok acc' ∧
        Reading.forMembers body (ms.length + more) acc s = Reading.forMembers body more acc' s') ∨
      ∃ e s₁, ms.foldlM step acc = .error e ∧ Reading.forMembers body (ms.length + more) acc s = .error e s₁ := by
  induction ms with
  | nil =>
    intro acc s hs
    cases hs
    exact .inl ⟨acc, rfl, by rw [List.length_nil, Nat.zero_add]⟩
  | cons m ms ih =>
    intro acc s hs
    obtain ⟨s₁, hm, hms⟩ := walks_append.1 hs
    have hturn : Reading.forMembers body ((m :: ms).length + more) acc s =
        (body acc >>= fun acc => Reading.forMembers body (ms.length + more) acc) s := by
      rw [List.length_cons, Nat.add_right_comm, Reading.forMembers_succ, Reading.hasNext, bind_assoc, Reading.peek_bind,
        hm.1, pure_bind]
      rfl
    rw [hturn, List.foldlM_cons]
    rcases hbody m List.mem_cons_self acc s s₁ hm with ⟨acc', hstep, hr⟩ | ⟨e, s₂, hstep, hr⟩
    · rw [Reading.bind_ok hr, hstep]
      exact ih (fun m' hm' => hbody m' (List.mem_cons_of_mem m hm')) acc' hms
    · rw [Reading.bind_error hr, hstep]
      exact .inr ⟨e, s₂, rfl, rfl⟩

theorem Reading.bind_of_eq {σ α β : Type} {r r' : Reading σ α} {k : α → Reading σ β} {s s' : σ} (h : r s = r' s') :
    (r >>= k) s = (r' >>= k) s' := by
  simp only [Bind.bind, EStateM.bind, h]

namespace TapeReader

/-- The tapes begin with these tokens and go on alike behind them, and the bounds exceed what is left of each. -/
def Begin (ts ts' : List Token) (bound bound' : Nat) (s s' : TapeReader) : Prop :=
  ∃ rest, s.plain = Tape.ofTokens ts ++ rest ∧ s'.plain = Tape.ofTokens ts' ++ rest ∧
    s.plain.length < bound ∧ s'.plain.length < bound'

variable {ts ts' : List Token} {t : Token} {bound bound' : Nat} {s s' : TapeReader}

theorem Begin.front (h : Begin (t :: ts) (t :: ts') bound bound' s s') :
    TokenStream.front s = .token t ∧ TokenStream.front s' = .token t := by
  obtain ⟨rest, hs, hs', -⟩ := h
  rw [front_eq, front_eq, hs, hs']
  exact ⟨rfl, rfl⟩

theorem Begin.advance (h : Begin (t :: ts) (t :: ts') (bound + 1) (bound' + 1) s s') :
    Begin ts ts' bound bound' (TokenStream.advance s) (TokenStream.advance s') := by
  obtain ⟨rest, hs, hs', hb, hb'⟩ := h
  refine ⟨rest, ?_, ?_, ?_, ?_⟩
  · rw [plain_advance, hs]
    rfl
  · rw [plain_advance, hs']
    rfl
  · have := congrArg List.length hs
    rw [List.length_append, Tape.ofTokens, List.length_map, List.length_cons] at this
    rw [plain_advance, List.length_tail]
    omega
  · have := congrArg List.length hs'
    rw [List.length_append, Tape.ofTokens, List.length_map, List.length_cons] at this
    rw [plain_advance, List.length_tail]
    omega

theorem Begin.expect :
    Alike (Begin (t :: ts) (t :: ts') (bound + 1) (bound' + 1)) (Begin ts ts' bound bound') (Reading.expect t)
      (Reading.expect t) := by
  refine .of_run fun s s' h => ?_
  obtain ⟨hs, hs'⟩ := h.front
  refine .inl ⟨(), _, _, ?_, ?_, h.advance⟩
  · simp [Reading.expect, Reading.take, hs]
  · simp [Reading.expect, Reading.take, hs']

end TapeReader

section Record
variable {c : Context} {r : Record} {creator : Creator} {ms ms' : List Member} {budget budget' : Nat}

/-- The members of an object, each one a step, when bounds cover them. -/
theorem Reads.steps {σ : Type} [TokenSource σ] [SkipsRuns σ] (hms : ∀ m ∈ ms, Discards 0 m.2)
    (hb : (ms.flatMap Member.tokens).length ≤ budget) (place : Place) :
    ∀ m ∈ ms, ∀ state, Reads
      (Decode.recordMember c r creator (Decode.node budget) (Decode.value c budget) place state : Reading σ _)
      m.tokens (r.step c creator place state m) := by
  intro m hm state
  have hone := (List.sublist_flatten_of_mem (List.mem_map_of_mem (f := Member.tokens) hm)).length_le
  rw [← List.flatMap_def, Member.tokens, List.length_cons] at hone
  exact Reads.step (hms m hm) (by omega) state m.1

/-- The members of an object that stand first on a tape: the loop goes on behind them with what they came to, its
bounds exceeding what is left, or it fails with one of them. -/
theorem members_first (hms : ∀ m ∈ ms, Discards 0 m.2) (place : Place) (state : Assembly × List (String × Node))
    {rest : List TapeEntry} {s : TapeReader} (hs : s.plain = Tape.ofTokens (ms.flatMap Member.tokens) ++ rest)
    (hb : s.plain.length < budget) :
    (∃ after more s₁, ms.foldlM (r.step c creator place) state = .ok after ∧ s₁.plain = rest ∧
      rest.length < more ∧ rest.length < budget ∧
      Reading.forMembers (Decode.recordMember c r creator (Decode.node budget) (Decode.value c budget) place) budget
          state s =
        Reading.forMembers (Decode.recordMember c r creator (Decode.node budget) (Decode.value c budget) place) more
          after s₁) ∨
    ∃ e s₁, ms.foldlM (r.step c creator place) state = .error e ∧
      Reading.forMembers (Decode.recordMember c r creator (Decode.node budget) (Decode.value c budget) place) budget
        state s = .error e s₁ := by
  have hlen := congrArg List.length hs
  rw [List.length_append, Tape.ofTokens, List.length_map] at hlen
  have hfew := Node.length_le_length_flatMap Member.tokens ms fun m _ => Nat.succ_pos m.2.length
  obtain ⟨more, hmore⟩ := Nat.exists_eq_add_of_le (show ms.length ≤ budget by omega)
  obtain ⟨s₁, hw, hrest⟩ := TapeReader.walks hs
  have hsteps : ∀ m ∈ ms, ∀ state, Reads (Decode.recordMember c r creator (Decode.node budget) (Decode.value c budget)
      place state : Reading TapeReader _) m.tokens (r.step c creator place state m) := Reads.steps hms (by omega) place
  have hmembers := Reading.forMembers_walks hsteps more state hw
  rw [← hmore] at hmembers
  refine hmembers.imp_left ?_
  rintro ⟨after, hafter, hloop⟩
  exact ⟨after, more, s₁, hafter, hrest, by omega, by omega, hloop⟩

/-- The members of a thinned object come to the same, and then the tapes go on alike. -/
theorem members_thinned (hconsistent : c.registry.Consistent c.schema) (hplain : r.hybrid = none)
    (hskip : c.config.unknownKeys = .skip) (hms : ∀ m ∈ ms, Discards 0 m.2)
    (hthin : Thinned (r.CarriesNothing c creator) ms ms') (place : Place) {state : Assembly × List (String × Node)}
    (hstate : state.1.Prompt creator) :
    Alike (TapeReader.Begin (ms.flatMap Member.tokens) (ms'.flatMap Member.tokens) budget budget') TapeReader.SamePlain
      (Reading.forMembers (Decode.recordMember c r creator (Decode.node budget) (Decode.value c budget) place) budget
        state >>= fun state => Reading.expect .endObject >>= fun _ => pure state)
      (Reading.forMembers (Decode.recordMember c r creator (Decode.node budget') (Decode.value c budget') place) budget'
        state >>= fun state => Reading.expect .endObject >>= fun _ => pure state) := by
  refine .of_run ?_
  rintro s s' ⟨rest, hs, hs', hb, hb'⟩
  have hfold : ms.foldlM (r.step c creator place) state = ms'.foldlM (r.step c creator place) state :=
    hthin.foldlM_eq (I := fun state => state.1.Prompt creator)
      (fun m hm state hstate => Record.step_of_carriesNothing hconsistent hplain hskip hm hstate)
      (fun _ _ _ hstate hstep => Record.step_prompt hstate hstep) _ hstate
  have hms' : ∀ m ∈ ms', Discards 0 m.2 := fun m hm => hms m (hthin.subset hm)
  rcases members_first hms place state hs hb with ⟨after, more, s₁, hafter, hrest, hmore, hleft, hloop⟩ |
    ⟨e, s₂, hfail, hloop⟩
  · rcases members_first hms' place state hs' hb' with ⟨after', more', s₁', hafter', hrest', hmore', hleft', hloop'⟩ |
      ⟨e', s₂', hfail', -⟩
    · rw [hafter, hafter'] at hfold
      cases hfold
      rw [Reading.bind_of_eq hloop, Reading.bind_of_eq hloop']
      exact (TapeReader.alongside.members_left hmore hmore' hleft hleft' r creator place after).run
        ⟨hrest.trans hrest'.symm, by rw [hrest]⟩
    · rw [hafter, hfail'] at hfold
      cases hfold
  · rcases members_first hms' place state hs' hb' with ⟨after', -, -, hafter', -⟩ | ⟨e', s₂', hfail', hloop'⟩
    · rw [hfail, hafter'] at hfold
      cases hfold
    · rw [hfail, hfail'] at hfold
      cases hfold
      exact .inr ⟨e, s₂, s₂', Reading.bind_error hloop, Reading.bind_error hloop'⟩

/-- An object is read as a record with the same outcome when members that carry nothing are taken out. -/
theorem record_thinned (hconsistent : c.registry.Consistent c.schema) (hcreator : r.creator = some creator)
    (hplain : r.hybrid = none) (hskip : c.config.unknownKeys = .skip) (hms : ∀ m ∈ ms, Discards 0 m.2)
    (hthin : Thinned (r.CarriesNothing c creator) ms ms') (place : Place) :
    Alike (TapeReader.Begin (.startObject :: ms.flatMap Member.tokens) (.startObject :: ms'.flatMap Member.tokens)
        (budget + 1) (budget' + 1)) TapeReader.SamePlain
      (Decode.record c r budget (Decode.node budget) (Decode.value c budget) place)
      (Decode.record c r budget' (Decode.node budget') (Decode.value c budget') place) := by
  unfold Decode.record
  rw [hcreator]
  refine Alike.perform_bind fun assembly hopening => ?_
  have hprompt : Assembly.Prompt creator (assembly, ([] : List (String × Node))).1 := Assembly.opening_prompt hopening
  refine Accords.bind (TapeReader.Begin.expect.bind fun _ =>
    members_thinned hconsistent hplain hskip hms hthin place hprompt) fun state => ?_
  obtain ⟨assembly, side⟩ := state
  simp only [hplain, Reading.tell_deaf, pure_bind]
  exact Alike.perform_bind fun v _ => Alike.lift (.ok v) fun _ _ h => h

/-- The same where a value is asked for. -/
theorem value_thinned (hconsistent : c.registry.Consistent c.schema) {name : String}
    (hclass : c.classify (.record name) = .record) (hcreator : (c.schema.record name).creator = some creator)
    (hskip : c.config.unknownKeys = .skip) (hms : ∀ m ∈ ms, Discards 0 m.2)
    (hthin : Thinned ((c.schema.record name).CarriesNothing c creator) ms ms') (place : Place) :
    Alike (TapeReader.Begin (.startObject :: ms.flatMap Member.tokens) (.startObject :: ms'.flatMap Member.tokens)
        (budget + 1) (budget' + 1)) TapeReader.SamePlain
      (Decode.value c (budget + 1) (.record name) place) (Decode.value c (budget' + 1) (.record name) place) := by
  have hstrategy : c.strategy (.record name) = .byStructure := by
    unfold Context.strategy
    rw [hclass]
  refine Alike.atPlace place (.of_run fun s s' h => ?_)
  have hfront := h.front
  have hplain := Context.plain_of_record hconsistent hclass
  simp only [Decode.level.eq_def, Decode.byStrategy, hstrategy, Reading.asked_deaf, Reading.get_bind_const]
  rw [Reading.peek_bind, Reading.peek_bind, hfront.1, hfront.2]
  exact (record_thinned hconsistent hcreator hplain hskip hms hthin place).run h

end Record

/-- Members that carry nothing are invisible. Let a record that is not hybrid skip unknown keys, and let an object of
it stand on a tape, behind it anything at all, or the tape end inside it. When members are taken out, all or some,
whose key the record does not own, whatever run they hold, or that are a null for an argument and a field to whose
types null means nothing, then the outcome is the same, wherever they stand and whatever has been constructed by
then: the same value, with the same left of the tape, or the same error with the same place. -/
theorem members_invisible (b : Binder) (hreach : Registry.Reachable b.schema b.registry) {name : String}
    (hclass : b.classify (.record name) = .record) {creator : Creator}
    (hcreator : (b.schema.record name).creator = some creator) (hskip : b.config.unknownKeys = .skip)
    {ms ms' : List Member} (hms : ∀ m ∈ ms, Discards 0 m.2)
    (hthin : Thinned ((b.schema.record name).CarriesNothing b.toContext creator) ms ms') {rest : List TapeEntry}
    {s s' : TapeReader} (hs : s.plain = Tape.ofTokens (.startObject :: ms.flatMap Member.tokens) ++ rest)
    (hs' : s'.plain = Tape.ofTokens (.startObject :: ms'.flatMap Member.tokens) ++ rest) :
    (∀ (place : Place) (budget budget' : Nat), TokenStream.length s < budget → TokenStream.length s' < budget' →
      SameOutcome ((Decode.value b.toContext budget (.record name) place).run s)
        ((Decode.value b.toContext budget' (.record name) place).run s')) ∧
    SameOutcome (b.read (.record name) s) (b.read (.record name) s') ∧
    SameOutcome ((b.decode (.record name) s).1, (b.decode (.record name) s).2.1)
      ((b.decode (.record name) s').1, (b.decode (.record name) s').2.1) := by
  have hvalue : ∀ (place : Place) (budget budget' : Nat),
      TokenStream.length s < budget → TokenStream.length s' < budget' →
        Alike (fun r r' => r = s ∧ r' = s') TapeReader.SamePlain
          (Decode.value b.toContext budget (.record name) place)
          (Decode.value b.toContext budget' (.record name) place) := by
    refine fun place budget budget' hb hb' => .of_run ?_
    rintro r r' ⟨rfl, rfl⟩
    obtain ⟨budget, rfl⟩ := Nat.exists_eq_succ_of_ne_zero (Nat.ne_zero_of_lt hb)
    obtain ⟨budget', rfl⟩ := Nat.exists_eq_succ_of_ne_zero (Nat.ne_zero_of_lt hb')
    have hlen := r.plain_length_le
    have hlen' := r'.plain_length_le
    exact (value_thinned hreach.consistent hclass hcreator hskip hms hthin place).run
      ⟨rest, hs, hs', by omega, by omega⟩
  have hread : SameOutcome (b.read (.record name) s) (b.read (.record name) s') := by
    have hvalue := hvalue (Place.root b.config.tracking) _ _ (Nat.lt_succ_self _) (Nat.lt_succ_self _)
    unfold Binder.read
    rw [Decode.root_run, Decode.root_run]
    exact Alike.sameOutcome (hvalue.bind fun v => Alike.lift (Value.ofType (.record name) v) fun _ _ h => h) ⟨rfl, rfl⟩
  refine ⟨fun place budget budget' hb hb' => (hvalue place budget budget' hb hb').sameOutcome ⟨rfl, rfl⟩, hread, ?_⟩
  have hsame := (b.same_register hreach (.record name)).root (σ := TapeReader) (.record name)
  unfold Binder.decode Binder.read
  unfold Binder.read at hread
  simp only [hsame]
  exact hread

/-- A person between members that carry nothing: unbalanced brackets under a key that nothing has, the last of them
just before the instance is made, and nulls for a name, before the instance is made and after. -/
theorem members_invisible_person :
    let b : Binder := { schema := { records := [Catalogue.person] }, registry := {} }
    let t := Catalogue.recordTy "Person"
    let creator := Catalogue.person.creator.get rfl
    let name : Member := ("name", [.string "Ada"])
    let age : Member := ("age", [.number (.posInt 36)])
    let ms : List Member := [("user_name", [.null]), name, ("junk", [.startArray, .name "x", .endObject]), age,
      ("login", [.null]), ("more", [.startObject, .startObject, .endArray, .null, .endArray])]
    let rest := Tape.ofTokens [.name "nick", .string "A", .endObject, .endArray]
    let s : TapeReader := ⟨.mark .arrayComma :: Tape.ofTokens (.startObject :: ms.flatMap Member.tokens) ++
      .mark .objectComma :: rest, 2⟩
    let s' : TapeReader := ⟨Tape.ofTokens (.startObject :: [name, age].flatMap Member.tokens) ++ rest, 0⟩
    (b.classify t = .record ∧ (∀ m ∈ ms, Discards 0 m.2) ∧
      Thinned (Catalogue.person.CarriesNothing b.toContext creator) ms [name, age]) ∧
    (b.read t s).1 = .ok (Catalogue.personOf (.string "Ada") (.int .u32 36) (.some (.string "A"))) ∧
    SameOutcome (b.read t s) (b.read t s') := by
  intro b t creator name age ms rest s s'
  have hms : ∀ m ∈ ms, Discards 0 m.2 := by
    have hjunk : Discards 0 [.startArray, .name "x", .endObject] := .more rfl (.more rfl (.last rfl))
    have hmore : Discards 0 [.startObject, .startObject, .endArray, .null, .endArray] :=
      .more rfl (.more rfl (.more rfl (.more rfl (.last rfl))))
    simp only [ms, List.forall_mem_cons]
    exact ⟨.last rfl, .last rfl, hjunk, .last rfl, .last rfl, hmore, by simp⟩
  have hunowned : ∀ {key ts}, ¬ Catalogue.person.Owns creator key →
      Catalogue.person.CarriesNothing b.toContext creator (key, ts) := .inl
  have hnull : ∀ {key}, creator.argumentOf key = some (0, .string) → Catalogue.person.fieldOf key =
      some (0, Catalogue.readOnly "Person" 0 "name" .string Catalogue.personNames) →
      Catalogue.person.CarriesNothing b.toContext creator (key, [.null]) := by
    intro key hargument hfield
    refine .inr ⟨rfl, fun i u h => ?_, fun i f h => ?_⟩
    · rw [hargument] at h
      cases h
      exact ⟨rfl, rfl⟩
    · rw [hfield] at h
      cases h
      exact ⟨rfl, rfl⟩
  have hthin : Thinned (Catalogue.person.CarriesNothing b.toContext creator) ms [name, age] :=
    .drop (hnull rfl rfl) (.keep _ (.drop (hunowned (by decide)) (.keep _ (.drop (hnull rfl rfl)
      (.drop (hunowned (by decide)) .nil)))))
  have hclass : b.classify (.record (Catalogue.full "Person")) = .record := rfl
  have hs : s.plain = Tape.ofTokens (.startObject :: ms.flatMap Member.tokens) ++ rest := rfl
  have hs' : s'.plain = Tape.ofTokens (.startObject :: [name, age].flatMap Member.tokens) ++ rest := rfl
  have hread : SameOutcome (b.read t s) (b.read t s') :=
    (members_invisible b .empty hclass (show _ = some creator from rfl) rfl hms hthin hs hs').2.1
  have hshort : (b.read t s').1 = .ok (Catalogue.personOf (.string "Ada") (.int .u32 36) (.some (.string "A"))) := rfl
  exact ⟨⟨hclass, hms, hthin⟩, hread.1.trans hshort, hread⟩

end Bindery
