import Bindery.Proofs.Alongside
import Bindery.Proofs.Construction
/-!
# Records from runs

The value of a member need not be a document: under a key that nothing has, any run of tokens is skipped that
closes what it opens. What comes of a value is what comes of the tokens of its run alone (`Reads.ofRun`), wherever
they stand. So an object is a row of members, each a key and a run, and reading it as a record is one step for each
member (`Reads.bound`). Whatever is read as a record is such an object (`consumes_record`).
-/

namespace Bindery

variable {σ α : Type}

/-! ## Runs -/

namespace Decode

/-- What reading a value from just these tokens gives. -/
def ofRun (c : Context) (t : Ty) (place : Place) (ts : List Token) : Except BindError Value :=
  ((value c (ts.length + 1) t place).run (TapeReader.ofTape (Tape.ofTokens ts))).1

/-- What reading a document from just these tokens gives. -/
def nodeOfRun (place : Place) (ts : List Token) : Except BindError Node :=
  ((node (ts.length + 1) place).run (TapeReader.ofTape (Tape.ofTokens ts))).1

/-- Whether the tokens stand for an absent member of type `t`. -/
def isAbsent (c : Context) (t : Ty) (ts : List Token) : Bool :=
  ts.head? = some .null ∧ !t.acceptsNull ∧ c.classify t ≠ .valueCodec

end Decode

theorem Discards.of_null {ts : List Token} (h : Discards 0 ts) (hnull : ts.head? = some .null) : ts = [.null] := by
  cases h with
  | last h =>
    cases hnull
    rfl
  | more h hrest =>
    cases hnull
    cases h

theorem TapeReader.walks_ofTokens (ts : List Token) :
    ∃ r : TapeReader, Walks (TapeReader.ofTape (Tape.ofTokens ts)) ts r ∧ r.plain = [] := by
  refine TapeReader.walks ?_
  rw [List.append_nil]
  exact List.filter_eq_self.2 fun e he => by
    obtain ⟨t, -, rfl⟩ := List.mem_map.1 he
    rfl

/-- What a reading gives is what the tokens come to, and it ends after them. -/
theorem Reads.ok [TokenStream σ] {r : Reading σ α} {ts : List Token} {x : Except BindError α} (h : Reads r ts x)
    {s s' s'' : σ} (hw : Walks s ts s') {a : α} (hr : r s = .ok a s'') : x = .ok a ∧ s'' = s' := by
  rcases h s s' hw with ⟨b, hb, hb'⟩ | ⟨e, s₁, -, he⟩
  · rw [hr] at hb'
    cases hb'
    exact ⟨hb, rfl⟩
  · rw [hr] at he
    cases he

/-- If the tokens come to a value, the reading gives it. -/
theorem Reads.of_ok [TokenStream σ] {r : Reading σ α} {ts : List Token} {x : Except BindError α} (h : Reads r ts x)
    {s s' : σ} (hw : Walks s ts s') {a : α} (hx : x = .ok a) : r s = .ok a s' := by
  rcases h s s' hw with ⟨b, hb, hb'⟩ | ⟨e, s₁, he, -⟩
  · rw [hx] at hb
    cases hb
    exact hb'
  · rw [hx] at he
    cases he

variable [TokenSource σ] [SkipsRuns σ]

omit [SkipsRuns σ] in
/-- A reading that ends alike from wherever the run stands gives what it gives from the run alone. -/
theorem Reads.of_alike {r : Reading σ α} {r' : Reading TapeReader α} {ts : List Token} (hts : Discards 0 ts)
    (h : ∀ s' t', Alike (Beside s' t' ts.length 0) (Past (Beside s' t') (fun s t => s = s' ∧ t = t') ts.length 0)
      r r') :
    Reads r ts (r'.run (TapeReader.ofTape (Tape.ofTokens ts))).1 := by
  intro s s' hs
  obtain ⟨t', ht, -⟩ := TapeReader.walks_ofTokens ts
  unfold Reading.run
  rcases (h s' t').run ⟨ts, hts, Nat.le_refl _, hs, ht⟩ with
    ⟨a, s₁, t₁, hr, hr', less, -, rfl, rfl⟩ | ⟨e, s₁, t₁, hr, hr'⟩
  · rw [hr']
    exact .inl ⟨a, rfl, hr⟩
  · rw [hr']
    exact .inr ⟨e, s₁, rfl, hr⟩

variable {c : Context} {budget : Nat} {ts : List Token}

theorem Reads.ofRun (hts : Discards 0 ts) (hb : ts.length < budget) (t : Ty) (place : Place) :
    Reads (Decode.value c budget t place : Reading σ Value) ts (Decode.ofRun c t place ts) :=
  Reads.of_alike hts fun s' t' => (Beside.alongside s' t').value hb (Nat.lt_succ_self _) t place

theorem Reads.nodeOfRun (hts : Discards 0 ts) (hb : ts.length < budget) (place : Place) :
    Reads (Decode.node budget place : Reading σ Node) ts (Decode.nodeOfRun place ts) :=
  Reads.of_alike hts fun s' t' => (Beside.alongside s' t').node hb (Nat.lt_succ_self _) place

theorem Reads.skipRun (hts : Discards 0 ts) : Reads (Reading.skip : Reading σ Unit) ts (.ok ()) :=
  fun _ _ hw => .inl ⟨(), rfl, SkipsRuns.skip_run hts hw⟩

/-- A run that is read as a document is a sentence of the document. -/
theorem Decode.denotes_of_nodeOfRun {place : Place} {n : Node} (h : Decode.nodeOfRun place ts = .ok n)
    (hts : Discards 0 ts) : Denotes ts n := by
  obtain ⟨t', ht, hplain⟩ := TapeReader.walks_ofTokens ts
  rcases Reads.nodeOfRun hts (Nat.lt_succ_self _) place _ _ ht with ⟨m, hm, hr⟩ | ⟨e, s', he, -⟩
  · rw [h] at hm
    cases hm
    obtain ⟨us, hw, hus⟩ := (ReadsSentence.node _ place).ok hr
    -- What was consumed is all that was there.
    have hall := (TapeReader.plain_of_walks ht).symm.trans (TapeReader.plain_of_walks hw)
    rw [hplain, List.append_nil, List.append_nil] at hall
    have hinj : Function.Injective fun t : Token => TapeEntry.mark (.token t) := by
      intro t u htu
      cases htu
      rfl
    rw [List.map_injective_iff.2 hinj hall]
    exact hus
  · rw [h] at he
    cases he

/-! ## Members -/

/-- A member of an object: its key, and the run of its value. -/
abbrev Member := String × List Token

/-- The tokens of a member. -/
def Member.tokens (m : Member) : List Token := .name m.1 :: m.2

/-- The tokens of an object. -/
def objectTokens (ms : List Member) : List Token := .startObject :: (ms.flatMap Member.tokens ++ [.endObject])

namespace Record

/-- What a run brings to a target of type `t`: nothing if it is an absent null. -/
def stored (c : Context) (target : Value → Brought) (t : Ty) (place : Place) (ts : List Token) :
    Except BindError Brought :=
  if Decode.isAbsent c t ts then .ok .nothing else do return target (← Decode.ofRun c t place ts)

/-- What a member brings whose key stands for `target`. -/
def bringing (c : Context) (r : Record) (target : Target) (place : Place) (m : Member) : Except BindError Brought :=
  match target with
  | .argument i arg => stored c (.argument i) arg.type place m.2
  | .field i f => stored c (.field i) f.type place m.2
  | .elsewhere =>
    if r.hybrid.isSome then do
      return .other m.1 (← (Decode.nodeOfRun place m.2).mapError (·.at? place))
    else
      match c.config.unknownKeys with
      | .skip => .ok .nothing
      | .reject => .error ((BindError.unknownKey r.name m.1).at? place)

/-- Reads one member into what has been read of a record so far. -/
def step (c : Context) (r : Record) (creator : Creator) (place : Place) (state : Assembly × List (String × Node))
    (m : Member) : Except BindError (Assembly × List (String × Node)) := do
  let child := place.member r.name m.1
  let b ← r.bringing c (state.1.route r creator m.1) child m
  (r.take creator state b).mapError (·.at? child)

/-- What reading an object as a record gives. -/
def bound (c : Context) (r : Record) (place : Place) (ms : List Member) : Except BindError Value :=
  match r.creator with
  | none => .error (.typeError r.name .noConstructor)
  | some creator => do
    let assembly ← (Assembly.opening r creator).outcome
    let state ← ms.foldlM (r.step c creator place) (assembly, [])
    Tree.finish r creator state

end Record

/-- A run of steps that succeeds comes to its last step by a run that succeeds. -/
theorem foldlM_concat_ok {α β : Type} {f : β → α → Except BindError β} {as : List α} {a : α} {s s' : β}
    (h : (as ++ [a]).foldlM f s = .ok s') : ∃ before, as.foldlM f s = .ok before ∧ f before a = .ok s' := by
  simp only [List.foldlM_append, List.foldlM_cons, List.foldlM_nil, bind_pure] at h
  exact bind_eq_ok h

namespace Record

variable {r : Record} {place : Place}

theorem fieldIndex?_of_fieldOf {key : String} {i : Nat} {f : Field} (h : r.fieldOf key = some (i, f)) :
    r.fieldIndex? key = some i ∧ r.fields[i]? = some f := by
  obtain ⟨j, hj, hf⟩ := Option.bind_eq_some_iff.1 h
  obtain ⟨g, hg, hpair⟩ := Option.map_eq_some_iff.1 hf
  cases hpair
  exact ⟨hj, hg⟩

/-- What a run brings that is stored: its value, or nothing if it is an absent null. -/
theorem stored_ok {target : Value → Brought} {t : Ty} {b : Brought} (h : stored c target t place ts = .ok b) :
    (Decode.isAbsent c t ts = true ∧ b = .nothing) ∨
      (Decode.isAbsent c t ts = false ∧ ∃ v, Decode.ofRun c t place ts = .ok v ∧ b = target v) := by
  unfold stored at h
  by_cases habsent : Decode.isAbsent c t ts
  · rw [if_pos habsent] at h
    cases h
    exact .inl ⟨habsent, rfl⟩
  · rw [if_neg habsent] at h
    obtain ⟨v, hv, hb⟩ := bind_eq_ok h
    cases hb
    exact .inr ⟨by simpa using habsent, v, hv, rfl⟩

/-- What a member brings that stands for nothing: an entry of the side object, or nothing if there is none. -/
theorem elsewhere_ok {m : Member} {b : Brought} (h : r.bringing c .elsewhere place m = .ok b) :
    (r.hybrid.isSome ∧ ∃ n, Decode.nodeOfRun place m.2 = .ok n ∧ b = .other m.1 n) ∨
      (r.hybrid = none ∧ b = .nothing) := by
  simp only [bringing] at h
  cases hhybrid : r.hybrid with
  | some hy =>
    simp only [hhybrid, Option.isSome_some, if_true] at h
    obtain ⟨n, hn, hb⟩ := bind_eq_ok h
    cases hb
    exact .inl ⟨rfl, n, mapError_eq_ok hn, rfl⟩
  | none =>
    simp only [hhybrid, Option.isSome_none, Bool.false_eq_true, if_false] at h
    split at h
    · cases h
      exact .inr ⟨rfl, rfl⟩
    · cases h

end Record

namespace Reads

variable {r : Record} {creator : Creator} {place : Place}

omit [SkipsRuns σ] in
/-- Looking at the first token of a run. -/
theorem peek_run (hts : Discards 0 ts) {k : TokenKind → Reading σ α} {x : Except BindError α}
    (h : ∀ t, ts.head? = some t → Reads (k t.kind) ts x) : Reads (Reading.peek >>= k) ts x := by
  obtain ⟨t, rest, rfl⟩ := List.exists_cons_of_ne_nil hts.ne_nil
  exact peek (h t rfl)

/-- The value of a member, unless it is absent. -/
theorem storedRun (hts : Discards 0 ts) (hb : ts.length < budget) {state : Assembly × List (String × Node)}
    {target : Value → Brought} {put : Value → Making Assembly}
    (htarget : ∀ v, r.take creator state (target v) = do return (← (put v).outcome, state.2)) (t : Ty) :
    Reads
      (Decode.absent c t >>= fun absent =>
        if absent then Pure.pure state
        else do
          let v ← Decode.value c budget t place
          return (← Reading.atPlace place (Reading.perform (put v)), state.2) : Reading σ _) ts
      (Record.stored c target t place ts >>= fun b => (r.take creator state b).mapError (·.at? place)) := by
  unfold Decode.absent Record.stored
  rw [bind_assoc]
  refine peek_run hts fun u hu => ?_
  by_cases habsent : Decode.isAbsent c t ts
  · obtain ⟨hnull, haccepts, hcodec⟩ : u = .null ∧ t.acceptsNull = false ∧ c.classify t ≠ .valueCodec := by
      simpa [Decode.isAbsent, hu] using habsent
    subst hnull
    have hnot : ¬ (Token.kind .null ≠ .null ∨ t.acceptsNull ∨ c.classify t = .valueCodec) := by
      simp [Token.kind, haccepts, hcodec]
    rw [if_neg hnot, if_pos habsent, hts.of_null hu, bind_assoc]
    refine (take (a := ()) _ (if_pos rfl)).then_nil (x := .ok ()) (y := fun _ => .ok state) fun _ => ?_
    exact pure state
  · have hpresent : u.kind ≠ .null ∨ t.acceptsNull ∨ c.classify t = .valueCodec := by
      by_contra hnot
      have hu' : u = .null := by
        cases u <;> simp [Token.kind] at hnot ⊢
      exact habsent (by simpa [Decode.isAbsent, hu, hu', Token.kind] using hnot)
    rw [if_pos hpresent, if_neg habsent, pure_bind, if_neg Bool.false_ne_true, bind_assoc]
    refine (Reads.ofRun hts hb t place).then_nil fun v => ?_
    rw [pure_bind, htarget]
    refine of_eq ((perform (put v)).atPlace place |>.map _) ?_
    cases (put v).outcome <;> rfl

/-- A member, by its key and its run. -/
theorem step (hts : Discards 0 ts) (hb : ts.length < budget) (state : Assembly × List (String × Node)) (key : String) :
    Reads (Decode.recordMember c r creator (Decode.node budget) (Decode.value c budget) place state : Reading σ _)
      (Member.tokens (key, ts)) (r.step c creator place state (key, ts)) := by
  refine name_bind ?_
  unfold Record.step Record.bringing
  simp only [Reading.tell_deaf, pure_bind, Reading.get_bind_const]
  cases Assembly.route r creator state.1 key with
  | argument i arg => exact storedRun hts hb (fun v => rfl) arg.type
  | field i f => exact storedRun hts hb (fun v => rfl) f.type
  | elsewhere =>
    dsimp only
    split
    · refine of_eq (((nodeOfRun hts hb _).atPlace _).map _) ?_
      cases Decode.nodeOfRun (place.member r.name key) ts <;> rfl
    · unfold Decode.unknown
      cases c.config.unknownKeys with
      | skip => exact (skipRun hts).map _
      | reject => exact ((throw _ ts).atPlace _).then_error

/-- A record, member by member. -/
theorem bound {ms : List Member} (hms : ∀ m ∈ ms, Discards 0 m.2) (hb : (objectTokens ms).length ≤ budget + 1) :
    Reads (Decode.record c r budget (Decode.node budget) (Decode.value c budget) place : Reading σ Value)
      (objectTokens ms) (r.bound c place ms) := by
  unfold Decode.record Record.bound
  cases r.creator with
  | none => exact throw _ _
  | some creator =>
    have hlen : (ms.flatMap Member.tokens).length + 1 ≤ budget := by
      simpa [objectTokens] using hb
    have hcount := Node.length_le_length_flatMap Member.tokens ms fun m _ => Nat.succ_pos _
    refine bind_nil (perform _) fun assembly => ?_
    have hobject : Reads (Decode.object budget
        (Decode.recordMember c r creator (Decode.node budget) (Decode.value c budget) place) (assembly, []) :
          Reading σ _) (objectTokens ms) (ms.foldlM (r.step c creator place) (assembly, [])) := by
      rw [← bind_pure (ms.foldlM _ _)]
      refine container rfl .pure (fun m _ => ⟨_, _, rfl, Bool.false_ne_true⟩) (fun m hm state => ?_) (by omega)
      have hone := (List.sublist_flatten_of_mem (List.mem_map_of_mem (f := Member.tokens) hm)).length_le
      rw [← List.flatMap_def, Member.tokens, List.length_cons] at hone
      exact step (hms m hm) (by omega) state m.1
    exact hobject.then_nil (finish r creator)

end Reads

/-! ## What a record consumes -/

/-- Whatever is read as a record is an object: each of its members is a key and a run. -/
theorem consumes_record {r : Record} {capture : Place → Reading σ Node} {part : Ty → Place → Reading σ Value}
    (hcapture : ∀ place, ConsumesValue (capture place)) (hpart : ∀ t place, ConsumesValue (part t place))
    (place : Place) :
    Consumes (Decode.record c r budget capture part place : Reading σ Value)
      (fun _ ts => ∃ ms : List Member, ts = objectTokens ms ∧ ∀ m ∈ ms, Discards 0 m.2) fun _ => True := by
  have hlift : ∀ {α : Type} (x : Except BindError α),
      Consumes (Reading.lift x : Reading σ α) (fun _ ts => ts = []) fun _ => True :=
    fun x => .lift (fun _ _ => rfl) fun _ _ => trivial
  unfold Decode.record
  cases r.creator with
  | none => exact .throw trivial
  | some creator =>
    simp only [Reading.perform_deaf, Reading.tell_deaf, pure_bind]
    refine (hlift _).bind fun assembly ts hts => ?_
    subst hts
    have hobject : Consumes (Decode.object budget (Decode.recordMember c r creator capture part place) (assembly, []))
        (fun _ ts => ∃ ms : List Member, ts = objectTokens ms ∧ ∀ m ∈ ms, Discards 0 m.2) fun _ => True := by
      refine Consumes.container
        (I := fun _ ts => ∃ ms : List Member, ts = ms.flatMap Member.tokens ∧ ∀ m ∈ ms, Discards 0 m.2)
        (fun _ _ => trivial) ⟨[], rfl, by simp⟩ ?_ ?_
      · rintro state ts ⟨ms, rfl, hms⟩
        refine (ConsumesValue.recordMember SkipsRuns.skip_consumes hcapture hpart place state).mono ?_
        rintro _ _ ⟨key, vs, rfl, hvs⟩
        refine ⟨ms ++ [(key, vs)], by simp [Member.tokens], ?_⟩
        exact List.forall_mem_append.2 ⟨hms, List.forall_mem_singleton.2 hvs⟩
      · rintro state ts ⟨ms, rfl, hms⟩
        exact .pure ⟨ms, rfl, hms⟩
    refine hobject.bind fun state ts hts => (hlift _).bind fun v us hus => ?_
    subst hus
    cases r.hybrid with
    | none => exact .pure (by simpa using hts)
    | some h => exact .lift (fun _ _ => by simpa using hts) fun _ _ => trivial

end Bindery
