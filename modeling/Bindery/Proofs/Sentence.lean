import Bindery.Binder
import Bindery.Proofs.Written
import Mathlib.Computability.Language
/-!
# Documents as marks

`Sentence` is the grammar of documents with their separators: a scalar, a bracketed list of
sentences with a comma between each two, or a braced list of named sentences with a comma between
each two. Writing a value into a recorder, which takes every mark, leaves exactly one sentence if
it succeeds and a proper prefix of a sentence if it fails (`encode_sentence`).

An emission follows a language if it puts down a word of it, or breaks off inside a word of it.
Emissions in sequence follow the product of their languages, so the theorem is one lemma for each
way in which emissions are put together.
-/

namespace Bindery

/-- The marks of one document. -/
inductive Sentence : List Mark → Prop
  | scalar {t : Token} (h : t.kind.isScalar) : Sentence [.token t]
  | array {parts : List (List Mark)} (h : ∀ ms ∈ parts, Sentence ms) :
    Sentence (.token .startArray :: ([.arrayComma].intercalate parts ++ [.token .endArray]))
  | object {parts : List (String × List Mark)} (h : ∀ p ∈ parts, Sentence p.2) :
    Sentence (.token .startObject ::
      ([.objectComma].intercalate (parts.map fun p => .token (.name p.1) :: p.2)
        ++ [.token .endObject]))

namespace Sentence

/-- The language of documents. -/
def language : Language Mark := {ms | Sentence ms}

/-- The language of a name and a document. -/
def member : Language Mark := {ms | ∃ k v, Sentence v ∧ ms = .token (.name k) :: v}

/-- Words of a language, at least one, with a separator between each two. -/
def chain (separator : Mark) (L : Language Mark) : Language Mark :=
  {ms | ∃ p ps, (∀ q ∈ p :: ps, q ∈ L) ∧ ms = [separator].intercalate (p :: ps)}

/-- Words of a language, any number of them, with a separator between each two. -/
def series (separator : Mark) (L : Language Mark) : Language Mark :=
  {ms | ∃ ps : List (List Mark), (∀ p ∈ ps, p ∈ L) ∧ ms = [separator].intercalate ps}

theorem null_mem : [Mark.token .null] ∈ language := .scalar rfl

theorem member_null_mem : [Mark.token (.name ""), .token .null] ∈ member := ⟨_, _, null_mem, rfl⟩

variable {separator : Mark} {L : Language Mark}

theorem nil_mem_series : [] ∈ series separator L := ⟨[], by simp, rfl⟩

theorem chain_sub_series : ∀ ms ∈ chain separator L, ms ∈ series separator L := by
  rintro _ ⟨p, ps, h, rfl⟩
  exact ⟨p :: ps, h, rfl⟩

theorem mem_chain {w : List Mark} (h : w ∈ L) : w ∈ chain separator L :=
  ⟨w, [], by simpa using h, by simp [List.intercalate]⟩

theorem mul_chain_sub :
    ∀ ms ∈ L * ({[separator]} * chain separator L), ms ∈ chain separator L := by
  rintro _ ⟨w, hw, _, ⟨_, rfl, _, ⟨p, ps, h, rfl⟩, rfl⟩, rfl⟩
  refine ⟨w, p :: ps, ?_, by simp [List.intercalate]⟩
  intro q hq
  rcases List.mem_cons.1 hq with rfl | hq
  · exact hw
  · exact h q hq

theorem brackets {ms : List Mark}
    (h : ms ∈ ({[.token .startArray]} * (series .arrayComma language * {[.token .endArray]}) : Language Mark)) :
    Sentence ms := by
  obtain ⟨_, rfl, _, ⟨_, ⟨parts, hp, rfl⟩, _, rfl, rfl⟩, rfl⟩ := h
  exact .array hp

theorem braces {ms : List Mark}
    (h : ms ∈ ({[.token .startObject]} * (series .objectComma member * {[.token .endObject]}) : Language Mark)) :
    Sentence ms := by
  obtain ⟨_, rfl, _, ⟨_, ⟨parts, hp, rfl⟩, _, rfl, rfl⟩, rfl⟩ := h
  have hsplit : ∃ es : List (String × List Mark), (∀ e ∈ es, Sentence e.2) ∧
      parts = es.map fun e => .token (.name e.1) :: e.2 := by
    induction parts with
    | nil => exact ⟨[], by simp, rfl⟩
    | cons p ps ih =>
      obtain ⟨k, v, hv, rfl⟩ := hp p (by simp)
      obtain ⟨es, hes, rfl⟩ := ih fun q hq => hp q (by simp [hq])
      refine ⟨(k, v) :: es, ?_, rfl⟩
      intro e he
      rcases List.mem_cons.1 he with rfl | he
      · exact hv
      · exact hes e he
  obtain ⟨es, hes, rfl⟩ := hsplit
  exact .object hes

end Sentence

/-! ## Emissions that follow a language -/

namespace Emission

/-- The marks of an emission, without their places. -/
def word (a : Emission) : List Mark := a.marks.map (·.2)

/-- The emission puts down a word of the language, or breaks off inside one. -/
def Follows (L : Language Mark) (a : Emission) : Prop :=
  match a.failure with
  | none => a.word ∈ L
  | some _ => ∃ w ∈ L, a.word <+: w ∧ a.word ≠ w

variable {L M : Language Mark} {a b : Emission}

theorem Follows.mono (h : a.Follows L) (hLM : ∀ ms ∈ L, ms ∈ M) : a.Follows M := by
  unfold Follows at h ⊢
  cases hf : a.failure with
  | none => rw [hf] at h; exact hLM _ h
  | some e =>
    rw [hf] at h
    obtain ⟨w, hw, hp⟩ := h
    exact ⟨w, hLM w hw, hp⟩

theorem follows_mark (place : Place) (m : Mark) : (mark place m).Follows {[m]} := rfl

theorem follows_token (place : Place) (t : Token) : (token place t).Follows {[.token t]} := rfl

/-- A failure before any mark breaks off inside any word that has a mark. -/
theorem follows_fail (e : BindError) {w : List Mark} (hw : w ∈ L) (hne : w ≠ []) :
    (fail e).Follows L :=
  ⟨w, hw, List.nil_prefix, hne.symm⟩

theorem follows_atPlace (place : Place) (h : a.Follows L) : (a.atPlace place).Follows L := by
  unfold Follows at h ⊢
  cases hf : a.failure with
  | none => rw [hf] at h; simp only [atPlace, hf, Option.map_none]; exact h
  | some e => rw [hf] at h; simp only [atPlace, hf, Option.map_some]; exact h

/-- What breaks off in the first language can be completed, once there is a word of the second. -/
theorem Follows.append (ha : a.Follows L) (hb : b.Follows M) {v : List Mark} (hv : v ∈ M) :
    (a ++ b).Follows (L * M) := by
  show (a.andThen b).Follows (L * M)
  unfold Follows at ha hb ⊢
  cases hfa : a.failure with
  | some e =>
    rw [hfa] at ha
    obtain ⟨w, hw, hp, hne⟩ := ha
    have hlt : a.word.length < w.length :=
      lt_of_le_of_ne hp.length_le fun he => hne (hp.eq_of_length he)
    simp only [andThen, hfa]
    refine ⟨w ++ v, Language.append_mem_mul hw hv, hp.trans (List.prefix_append w v), ?_⟩
    intro he
    have := congrArg List.length he
    simp only [List.length_append] at this
    omega
  | none =>
    rw [hfa] at ha
    simp only [andThen, hfa]
    cases hfb : b.failure with
    | none =>
      rw [hfb] at hb
      simpa [word] using Language.append_mem_mul ha hb
    | some e =>
      rw [hfb] at hb
      obtain ⟨w, hw, hp, hne⟩ := hb
      refine ⟨a.word ++ w, Language.append_mem_mul ha hw, ?_, ?_⟩
      · simpa [word] using hp
      · simpa [word] using hne

theorem follows_chain (place : Place) (separator : Mark) {v : List Mark} (hv : v ∈ L) (a : Emission) :
    ∀ (as : List Emission), (∀ x ∈ a :: as, x.Follows L) →
      (separated (mark place separator) (a :: as)).Follows (Sentence.chain separator L) := by
  intro as
  induction as generalizing a with
  | nil => exact fun h => (h a (by simp)).mono fun _ hw => Sentence.mem_chain hw
  | cons b as ih =>
    intro h
    have hrest := ih b fun x hx => h x (List.mem_cons_of_mem _ hx)
    have htail := (follows_mark place separator).append hrest (Sentence.mem_chain hv)
    exact ((h a (by simp)).append htail
      (Language.append_mem_mul rfl (Sentence.mem_chain hv))).mono Sentence.mul_chain_sub

/-- Emissions with a separator between each two follow the series of their language. -/
theorem follows_separated (place : Place) (separator : Mark) {v : List Mark} (hv : v ∈ L) :
    ∀ (as : List Emission), (∀ a ∈ as, a.Follows L) →
      (separated (mark place separator) as).Follows (Sentence.series separator L)
  | [], _ => Sentence.nil_mem_series
  | a :: as, h => (follows_chain place separator hv a as h).mono Sentence.chain_sub_series

/-! ## Arrays and objects -/

theorem follows_items (place : Place) (owner : String) (parts : List (Place → Emission))
    (h : ∀ p ∈ parts, ∀ place, (p place).Follows Sentence.language) :
    (items place owner parts).Follows (Sentence.series .arrayComma Sentence.language) := by
  refine follows_separated place .arrayComma Sentence.null_mem _ ?_
  intro a ha
  obtain ⟨⟨p, i⟩, hp, rfl⟩ := List.mem_map.1 ha
  exact follows_atPlace _ (h p (List.fst_mem_of_mem_zipIdx hp) _)

theorem follows_members (place : Place) (owner : String) (parts : List (String × (Place → Emission)))
    (h : ∀ p ∈ parts, ∀ place, (p.2 place).Follows Sentence.language) :
    (members place owner parts).Follows (Sentence.series .objectComma Sentence.member) := by
  refine follows_separated place .objectComma Sentence.member_null_mem _ ?_
  intro a ha
  obtain ⟨p, hp, rfl⟩ := List.mem_map.1 ha
  refine ((follows_token place (.name p.1)).append (follows_atPlace _ (h p hp _))
    Sentence.null_mem).mono ?_
  rintro _ ⟨_, rfl, v, hv, rfl⟩
  exact ⟨p.1, v, hv, rfl⟩

/-- A bracketed list, closed by whatever follows the closing bracket. -/
theorem follows_bracketed (place : Place) {body closing : Emission} {open_ close : Mark}
    {v : List Mark} (hv : v ∈ L) (hb : body.Follows L) (hc : closing.Follows {[close]}) :
    (mark place open_ ++ (body ++ closing)).Follows ({[open_]} * (L * {[close]})) :=
  (follows_mark place open_).append (hb.append hc rfl) (Language.append_mem_mul hv rfl)

end Emission

/-! ## Values -/

namespace Encode

open Emission

/-- Nodes are put down as the grammar has them. -/
theorem carries_follows : Carries fun p _ => ∀ place, (p place).Follows Sentence.language := by
  refine .of_forall (fun h place => .scalar h) (fun owner hparts place => ?_) fun owner hparts place => ?_
  · exact (follows_bracketed place Sentence.nil_mem_series (follows_items place owner _ hparts)
      (follows_token place .endArray)).mono fun _ => Sentence.brackets
  · exact (follows_bracketed place Sentence.nil_mem_series (follows_members place owner _ hparts)
      (follows_token place .endObject)).mono fun _ => Sentence.braces

/-- Values are written as the grammar has them. Where a field shows nothing of an instance, the failure goes for the
closing brace: nothing of it is there, and a brace would complete the object. -/
theorem form_follows (c : Context) (v : Value) (place : Place) : (form c v place).Follows Sentence.language := by
  have hbrace (e : BindError) : (fail e).Follows {[Mark.token .endObject]} := follows_fail e rfl (by simp)
  refine (Respects.alone (c := c) carries_follows (fun e place => ?_) fun type hparts place => ?_).form v place
  · exact follows_fail e Sentence.null_mem (by simp)
  · exact (follows_bracketed place Sentence.nil_mem_series (follows_members place type _ hparts) (hbrace _)).mono
      fun _ => Sentence.braces

end Encode

/-! ## Recording -/

/-- A recorder takes every mark. -/
def Tape.record (tape : List TapeEntry) (m : Mark) : Except BindError Unit × List TapeEntry :=
  (.ok (), tape ++ [.mark m])

namespace Emission

theorem feed_record (marks : List (Place × Mark)) (tape : List TapeEntry) :
    feed Tape.record marks tape = (.ok (), tape ++ marks.map fun m => .mark m.2) := by
  induction marks generalizing tape with
  | nil => simp [feed]
  | cons m marks ih => simp [feed, Tape.record, ih]

/-- A recorder is left with the tape of the emission, and the emission's own outcome. -/
theorem writeTo_record (a : Emission) (tape : List TapeEntry) :
    a.writeTo Tape.record tape = (a.outcome, tape ++ a.tape) := by
  simp only [writeTo, feed_record, outcome, Emission.tape]
  cases a.failure <;> rfl

theorem tape_eq_word (a : Emission) : a.tape = a.word.map .mark := by
  simp [Emission.tape, word, List.map_map, Function.comp_def]

end Emission

/-- Writing a value into a fresh recorder leaves one sentence if it succeeds, and a proper prefix
of a sentence if it fails. -/
theorem encode_sentence (b : Binder) (v : Value) :
    match (b.encode v).writeTo Tape.record [] with
    | (.ok (), tape) => ∃ w, Sentence w ∧ tape = w.map .mark
    | (.error _, tape) => ∃ w, Sentence w ∧ tape <+: w.map .mark ∧ tape ≠ w.map .mark := by
  have h : (b.encode v).Follows Sentence.language :=
    Emission.follows_atPlace _ (Encode.form_follows _ v _)
  rw [Emission.writeTo_record, List.nil_append, Emission.tape_eq_word]
  unfold Emission.Follows at h
  cases hf : (b.encode v).failure with
  | none =>
    rw [hf] at h
    simp only [Emission.outcome, hf]
    exact ⟨_, h, rfl⟩
  | some e =>
    rw [hf] at h
    obtain ⟨w, hw, hp, hne⟩ := h
    simp only [Emission.outcome, hf]
    refine ⟨w, hw, hp.map _, fun he => hne ?_⟩
    exact List.map_injective_iff.2 (fun a b h => by injection h) he

end Bindery
