import Bindery.Catalogue.Model
import Bindery.Json.Standard
import Bindery.Proofs.Laid
import Bindery.Proofs.Reads
import Bindery.Proofs.Registration
/-!
# The writers agree

One emission drives three writers: a recorder, a builder of nodes and a writer of text. Written in full,
it lays down one document: the builder makes the node that a reader of the tape makes, repeated names and
all, and the text is the spelling of the tape, unless a number on it has no spelling, which is then refused
where it stands. Cut short, it is refused by all three (`writers_agree`).
-/

namespace Bindery

/-! ## Errors at spots -/

/-- The error with a spot around it, if there is one. -/
def BindError.atSpot (here : Spot) (e : BindError) : BindError :=
  match here with
  | some steps => .located (Path.text steps) e
  | none => e

theorem BindError.at?_eq_atSpot {e : BindError} (h : e.isLocated = false) (place : Place) :
    e.at? place = e.atSpot place.spot := by
  unfold at?
  rw [h, if_neg Bool.false_ne_true]
  cases place with
  | none => rfl
  | some path => exact congrArg (fun t => BindError.located t e) (Path.render_eq path)

/-! ## Spellings -/

/-- Whether a mark is no infinite or undefined number. -/
def Mark.isFinite : Mark → Bool
  | .token (.number (.float x)) => x.isFinite
  | _ => true

namespace Json

variable (numerals : Numerals)

theorem spell_finite {m : Mark} (h : m.isFinite) : ∃ text, spell numerals m = .ok text := by
  cases m with
  | objectComma | arrayComma => exact ⟨_, rfl⟩
  | token t =>
    cases t with
    | number x =>
      cases x with
      | posInt | negInt => exact ⟨_, rfl⟩
      | float x =>
        have hx : x.isFinite = true := h
        exact ⟨numerals.double x, by simp [spell, spellToken, hx]⟩
    | _ => exact ⟨_, rfl⟩

theorem spell_not_finite {m : Mark} (h : m.isFinite = false) : ∃ x, m = .token (.number (.float x)) ∧
    spell numerals m = .error (.invalidValue "f64" (.noJsonForm x)) := by
  cases m with
  | objectComma | arrayComma => cases h
  | token t =>
    cases t with
    | number x =>
      cases x with
      | posInt | negInt => cases h
      | float x =>
        have hx : x.isFinite = false := h
        exact ⟨x, rfl, by simp [spell, spellToken, hx]⟩
    | _ => cases h

/-- Marks that all have a spelling are written one spelling after the other. -/
theorem feed_finite {marks : List (Place × Mark)} (h : ∀ m ∈ marks, m.2.isFinite) (text : String) :
    ∃ texts, (marks.mapM fun m => spell numerals m.2) = .ok texts ∧
      Emission.feed (write numerals) marks text = (.ok (), text ++ String.join texts) := by
  induction marks generalizing text with
  | nil => exact ⟨[], rfl, by simp [Emission.feed]⟩
  | cons m marks ih =>
    obtain ⟨place, m⟩ := m
    obtain ⟨more, hmore⟩ := spell_finite numerals (h _ List.mem_cons_self)
    obtain ⟨texts, htexts, hfeed⟩ := ih (fun m hm => h m (List.mem_cons_of_mem _ hm)) (text ++ more)
    have hmore : spell numerals m = .ok more := hmore
    refine ⟨more :: texts, ?_, ?_⟩
    · rw [List.mapM_cons, htexts, hmore]
      rfl
    · simp only [Emission.feed, write, hmore]
      rw [hfeed, String.join_cons, String.append_assoc]

/-- The first mark without a spelling is refused at its place. -/
theorem feed_not_finite {marks : List (Place × Mark)} {place : Place} {m : Mark}
    (h : marks.find? (fun m => !m.2.isFinite) = some (place, m)) (text : String) :
    ∃ x text', m = .token (.number (.float x)) ∧ Emission.feed (write numerals) marks text =
      (.error ((BindError.invalidValue "f64" (.noJsonForm x)).atSpot place.spot), text') := by
  induction marks generalizing text with
  | nil => cases h
  | cons p marks ih =>
    obtain ⟨at_, k⟩ := p
    cases hk : k.isFinite with
    | true =>
      obtain ⟨more, hmore⟩ := spell_finite numerals hk
      rw [List.find?_cons_of_neg (by simp [hk])] at h
      obtain ⟨x, text', hx, hfeed⟩ := ih h (text ++ more)
      exact ⟨x, text', hx, by simpa only [Emission.feed, write, hmore] using hfeed⟩
    | false =>
      rw [List.find?_cons_of_pos (by simp [hk])] at h
      cases h
      obtain ⟨x, rfl, hspell⟩ := spell_not_finite numerals hk
      refine ⟨x, text, rfl, ?_⟩
      simp only [Emission.feed, write, hspell]
      rw [BindError.at?_eq_atSpot rfl]

end Json

/-! ## The builder -/

namespace NodeBuilder

/-- A builder that takes some tokens takes the first of them. -/
theorem takes_front {b b' : NodeBuilder} {ts us : List Token} (h : Takes b (ts ++ us) b') :
    ∃ c, Takes b ts c := by
  induction ts generalizing b with
  | nil => exact ⟨b, rfl⟩
  | cons t ts ih =>
    obtain ⟨d, hd, h⟩ := h
    obtain ⟨c, hc⟩ := ih h
    exact ⟨c, d, hd, hc⟩

/-- A builder takes whatever begins a sentence. -/
theorem feed_sentence {marks : List (Place × Mark)} {w : List Mark} (hw : Sentence w)
    (h : marks.map (·.2) <+: w) : ∃ b, Emission.feed NodeBuilder.mark marks {} = (.ok (), b) := by
  obtain ⟨n, hn⟩ := hw.exists_marks
  obtain ⟨us, hus⟩ := h.filterMap Mark.token?
  have htakes : Takes {} n.tokens { root := some n.collapse } := takes_node n rfl
  rw [← n.marks_tokens, hn, ← hus] at htakes
  obtain ⟨b, hb⟩ := takes_front htakes
  rw [List.filterMap_map] at hb
  exact ⟨b, feed_takes hb⟩

end NodeBuilder

namespace Binder

variable {b : Binder} {v : Value}

/-- The builder refuses nothing: a node fails to be made only as the emission does. -/
theorem toNode_error {e : BindError} (h : (b.encode v).failure = some e) : b.toNode v = .error e := by
  have hfollows : (b.encode v).Follows Sentence.language :=
    Emission.follows_atPlace _ (Encode.form_follows _ v _)
  unfold Emission.Follows at hfollows
  rw [h] at hfollows
  obtain ⟨w, hw, hfront, -⟩ := hfollows
  obtain ⟨builder, hbuilder⟩ := NodeBuilder.feed_sentence hw hfront
  unfold toNode Emission.writeTo
  simp only [hbuilder, h]
  rfl

section Text
variable (numerals : Json.Numerals)

theorem toJson_error {e : BindError} (h : (b.encode v).failure = some e) : ∃ e', b.toJson numerals v = .error e' := by
  unfold toJson Emission.writeTo
  cases Emission.feed (Json.write numerals) (b.encode v).marks "" with
  | mk answer text =>
    cases answer with
    | error e' => exact ⟨e', rfl⟩
    | ok => exact ⟨e, by simp only [h]; rfl⟩

/-- A document of numbers that all have a spelling is written as the spellings of its marks. -/
theorem toJson_finite (h : (b.encode v).failure = none) (hall : ∀ m ∈ (b.encode v).marks, m.2.isFinite) :
    ∃ texts, ((b.encode v).marks.mapM fun m => Json.spell numerals m.2) = .ok texts ∧
      b.toJson numerals v = .ok (String.join texts) := by
  obtain ⟨texts, htexts, hfeed⟩ := Json.feed_finite numerals hall ""
  refine ⟨texts, htexts, ?_⟩
  unfold toJson Emission.writeTo
  rw [hfeed, h, String.empty_append]
  rfl

/-- The first number without a spelling is refused at its spot. -/
theorem toJson_not_finite {place : Place} {m : Mark}
    (h : (b.encode v).marks.find? (fun m => !m.2.isFinite) = some (place, m)) :
    ∃ x, m = .token (.number (.float x)) ∧
      b.toJson numerals v = .error ((BindError.invalidValue "f64" (.noJsonForm x)).atSpot place.spot) := by
  obtain ⟨x, text, hx, hfeed⟩ := Json.feed_not_finite numerals h ""
  refine ⟨x, hx, ?_⟩
  unfold toJson Emission.writeTo
  rw [hfeed]
  rfl

end Text

/-- An encoding that is not cut short lays down a document from the root. -/
theorem encode_laid (h : (b.encode v).failure = none) :
    ∃ n : Node, (b.encode v).laid = n.laid (if b.config.tracking then some [] else none) := by
  rw [← Place.spot_root]
  exact Encode.form_whole _ v _ ((Emission.atPlace_failure _).1 h)

/-- A tape of the tokens of a node is decoded as the node, as a builder makes it. -/
theorem decode_node (h : Registry.Reachable b.schema b.registry) (n : Node) {tape : List TapeEntry}
    (htape : Tape.plain tape = Tape.ofNode n) :
    (b.decode (.dynamic .any) (TapeReader.ofTape tape)).1 = .ok (.node n.collapse) := by
  have hread := (b.register (.dynamic .any)).read_tape (.dynamic .any) n htape
  have hconsistent := h.consistent.register (.dynamic .any)
  have hvalue : ∀ place, Tree.value (b.register (.dynamic .any)).toContext n (.dynamic .any) place =
      .ok (.node n.collapse) := by
    intro place
    rw [Tree.value_eq, Tree.level, Tree.byStrategy, Context.strategy_dynamic hconsistent]
    rfl
  rw [Tree.root, hvalue] at hread
  exact hread

end Binder

/-- Whatever is written, and however numbers are spelled: if the recorder ends with an error, the builder ends
with the same one and the text fails too. Else the tape is a document mark by mark; the builder makes the node
that is decoded from the tape; and the text is the tape's spellings, or the first number of the tape that is
infinite or a NaN is refused where it stands in the document. -/
theorem writers_agree (numerals : Json.Numerals) (b : Binder) (h : Registry.Reachable b.schema b.registry)
    (v : Value) :
    match (b.encode v).writeTo Tape.record [] with
    | (.error e, _) => b.toNode v = .error e ∧ ∃ e', b.toJson numerals v = .error e'
    | (.ok (), tape) => ∃ n m : Node,
      let laid := n.laid (if b.config.tracking then some [] else none)
      tape = laid.map (fun p => .mark p.2) ∧
      b.toNode v = .ok m ∧
      (b.decode (.dynamic .any) (TapeReader.ofTape tape)).1 = .ok (.node m) ∧
      match laid.find? fun p => !p.2.isFinite with
      | none => ∃ texts, (laid.mapM fun p => Json.spell numerals p.2) = .ok texts ∧
        b.toJson numerals v = .ok (String.join texts)
      | some (here, k) => ∃ x, k = .token (.number (.float x)) ∧
        b.toJson numerals v = .error ((BindError.invalidValue "f64" (.noJsonForm x)).atSpot here) := by
  rw [Emission.writeTo_record, List.nil_append]
  cases hf : (b.encode v).failure with
  | some e =>
    simp only [Emission.outcome, hf]
    exact ⟨Binder.toNode_error hf, Binder.toJson_error numerals hf⟩
  | none =>
    simp only [Emission.outcome, hf]
    obtain ⟨n, hlaid⟩ := Binder.encode_laid hf
    have hputs := Emission.puts_of_laid hf hlaid
    have hplain : Tape.plain (b.encode v).tape = Tape.ofNode n := by
      rw [Emission.plain_tape, hputs.2]
      rfl
    refine ⟨n, n.collapse, ?_, Binder.toNode_puts hputs, Binder.decode_node h n hplain, ?_⟩
    · rw [← hlaid, Emission.laid, List.map_map]
      rfl
    rw [← hlaid, Emission.laid, List.find?_map]
    cases hfind : (b.encode v).marks.find? ((fun p : Spot × Mark => !p.2.isFinite) ∘ fun m => (m.1.spot, m.2)) with
    | none =>
      have hall : ∀ m ∈ (b.encode v).marks, m.2.isFinite := by
        intro m hm
        simpa using List.find?_eq_none.1 hfind m hm
      obtain ⟨texts, htexts, hjson⟩ := Binder.toJson_finite numerals hf hall
      refine ⟨texts, ?_, hjson⟩
      rw [List.mapM_map]
      exact htexts
    | some p => exact Binder.toJson_not_finite numerals hfind

/-- An instance with two fields of one name: both are on the tape, and the last one is in the node. -/
theorem writers_agree_dup :
    let b : Binder := { schema := { records := [Catalogue.dup] }, registry := {} }
    let v : Value := .record (Catalogue.full "Dup") [.int .i32 1, .int .i32 2] []
    let tape : List TapeEntry := [.mark (.token .startObject), .mark (.token (.name "k")),
      .mark (.token (.number (.posInt 1))), .mark .objectComma, .mark (.token (.name "k")),
      .mark (.token (.number (.posInt 2))), .mark (.token .endObject)]
    let n : Node := .object [("k", .number (.posInt 2))]
    Registry.Reachable b.schema b.registry ∧ (b.encode v).writeTo Tape.record [] = (.ok (), tape) ∧
      b.toNode v = .ok n ∧ (b.decode (.dynamic .any) (TapeReader.ofTape tape)).1 = .ok (.node n) := by
  intro b v tape n
  have htape : (b.encode v).writeTo Tape.record [] = (.ok (), tape) := by
    rfl
  have hagree := writers_agree Json.standard.toNumerals b .empty v
  rw [htape] at hagree
  obtain ⟨_, m, -, hm, hdecode, -⟩ := hagree
  have hn : b.toNode v = .ok n := by
    rfl
  cases hm.symm.trans hn
  exact ⟨.empty, htape, hn, hdecode⟩

end Bindery
