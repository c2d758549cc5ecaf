import Bindery.Proofs.Grammar
/-!
# What a builder accepts

A builder finds some mistakes late: a container that opens where nothing may stand is refused only when it closes. So
what a builder has taken need not begin a document. It is the document at the root, or nothing, and then the beginning
of each open container, outermost first (`NodeBuilder.Took`). Every token that is not refused keeps this
(`NodeBuilder.Took.token`), and nothing may be open in the end: a builder takes all marks and finishes with a node
exactly if the marks, without separators, are a sentence of the node (`builder_accepts`).
-/

namespace Bindery

open ReadsSentence (ItemsSoFar EntriesSoFar)

namespace NodeBuilder

/-! ## Marks in turn -/

/-- The answers to marks that are handed over in turn, refused or not, and the builder that is left. -/
def answers : List Mark → NodeBuilder → List (Except BindError Unit) × NodeBuilder
  | [], b => ([], b)
  | m :: ms, b =>
    let (answer, b) := b.mark m
    let (rest, b) := answers ms b
    (answer :: rest, b)

/-- Nothing is refused exactly if all tokens are taken; separators make no difference. -/
theorem answers_iff (ms : List Mark) (b b' : NodeBuilder) :
    ((∀ a ∈ (answers ms b).1, a = .ok ()) ∧ (answers ms b).2 = b') ↔ Takes b (ms.filterMap Mark.token?) b' := by
  induction ms generalizing b with
  | nil => simp [answers, Takes]
  | cons m ms ih =>
    cases m with
    | objectComma | arrayComma => simpa [answers, mark, List.filterMap_cons, Mark.token?] using ih b
    | token t =>
      simp only [answers, mark, List.forall_mem_cons, List.filterMap_cons, Mark.token?, Takes]
      constructor
      · rintro ⟨⟨hok, hall⟩, hleft⟩
        exact ⟨(b.token t).2, Prod.ext hok rfl, (ih _).1 ⟨hall, hleft⟩⟩
      · rintro ⟨c, hc, htakes⟩
        rw [hc]
        obtain ⟨hall, hleft⟩ := (ih c).2 htakes
        exact ⟨⟨rfl, hall⟩, hleft⟩

end NodeBuilder

/-! ## What was taken -/

/-- What an open container was made of: its bracket, its members so far, and the name that waits for a value. -/
def BuilderFrame.Took : BuilderFrame → List Token → Prop
  | .array items, ts => ∃ us, ItemsSoFar items us ∧ ts = .startArray :: us
  | .object entries name, ts => ∃ us, EntriesSoFar entries us ∧ ts = .startObject :: (us ++ name.toList.map .name)

namespace BuilderFrame

theorem took_array : Took (.array #[]) [.startArray] := ⟨[], .nil, rfl⟩

theorem took_object : Took (.object [] none) [.startObject] := ⟨[], .nil, rfl⟩

variable {items : Array Node} {entries : List (String × Node)} {key : String} {n : Node} {ts us : List Token}

theorem Took.push (h : Took (.array items) ts) (hn : Denotes us n) : Took (.array (items.push n)) (ts ++ us) := by
  obtain ⟨vs, hvs, rfl⟩ := h
  exact ⟨_, hvs.push hn, rfl⟩

theorem Took.name (h : Took (.object entries none) ts) (key : String) :
    Took (.object entries (some key)) (ts ++ [.name key]) := by
  obtain ⟨vs, hvs, rfl⟩ := h
  exact ⟨vs, hvs, by simp⟩

theorem Took.insert (h : Took (.object entries (some key)) ts) (hn : Denotes us n) :
    Took (.object (Entries.insert entries key n) none) (ts ++ us) := by
  obtain ⟨vs, hvs, rfl⟩ := h
  exact ⟨_, hvs.insert hn, by simp⟩

/-- An array that closes is a document. -/
theorem Took.endArray (h : Took (.array items) ts) : Denotes (ts ++ [.endArray]) (.array items.toList) := by
  obtain ⟨vs, hvs, rfl⟩ := h
  exact hvs.bracketed

/-- An object that closes while no name waits is a document. -/
theorem Took.endObject (h : Took (.object entries none) ts) : Denotes (ts ++ [.endObject]) (.object entries) := by
  obtain ⟨vs, hvs, rfl⟩ := h
  simpa using hvs.braced

end BuilderFrame

namespace NodeBuilder

/-- What a builder was made of: the tokens of the root, and then those of the open containers, outermost first. An
open container may stand where nothing may stand. -/
inductive Took : NodeBuilder → List Token → Prop
  | fresh : Took ⟨[], none⟩ []
  | root {n : Node} {ts : List Token} (h : Denotes ts n) : Took ⟨[], some n⟩ ts
  | frame {f : BuilderFrame} {stack : List BuilderFrame} {root : Option Node} {ts us : List Token}
    (h : Took ⟨stack, root⟩ ts) (hf : f.Took us) : Took ⟨f :: stack, root⟩ (ts ++ us)

namespace Took

variable {b b' : NodeBuilder} {n : Node} {ts us : List Token}

/-- A document that is put in its place. -/
theorem put (h : b.Took ts) (hn : Denotes us n) (hput : b.put n = (.ok (), b')) : b'.Took (ts ++ us) := by
  cases h with
  | fresh =>
    cases hput
    exact .root hn
  | root => cases hput
  | @frame f stack root ts vs h hf =>
    rw [List.append_assoc]
    match f, hf, hput with
    | .array items, hf, rfl => exact .frame h (hf.push hn)
    | .object entries (some key), hf, rfl => exact .frame h (hf.insert hn)

/-- Any token that is not refused. -/
theorem token {t : Token} (h : b.Took ts) (ht : b.token t = (.ok (), b')) : b'.Took (ts ++ [t]) := by
  cases t with
  | startObject =>
    cases ht
    exact .frame h BuilderFrame.took_object
  | startArray =>
    cases ht
    exact .frame h BuilderFrame.took_array
  | string s => exact h.put (.string s) ht
  | number x => exact h.put (.number x) ht
  | bool v => exact h.put (.bool v) ht
  | null => exact h.put .null ht
  | endObject =>
    cases h with
    | fresh | root => cases ht
    | @frame f stack root ts us h hf =>
      rw [List.append_assoc]
      match f, hf, ht with
      | .object entries none, hf, ht => exact h.put hf.endObject ht
  | endArray =>
    cases h with
    | fresh | root => cases ht
    | @frame f stack root ts us h hf =>
      rw [List.append_assoc]
      match f, hf, ht with
      | .array items, hf, ht => exact h.put hf.endArray ht
  | name key =>
    cases h with
    | fresh | root => cases ht
    | @frame f stack root ts us h hf =>
      rw [List.append_assoc]
      match f, hf, ht with
      | .object entries none, hf, rfl => exact .frame h (hf.name key)

/-- Any run of tokens that are not refused. -/
theorem takes (h : b.Took us) (hts : Takes b ts b') : b'.Took (us ++ ts) := by
  induction ts generalizing b us with
  | nil =>
    cases hts
    simpa using h
  | cons t ts ih =>
    obtain ⟨c, hc, hts⟩ := hts
    simpa using ih (h.token hc) hts

/-- A builder that finishes was made of one document. -/
theorem finish (h : b.Took ts) (hfinish : b.finish = .ok n) : Denotes ts n := by
  cases h with
  | fresh | frame => cases hfinish
  | root h =>
    cases hfinish
    exact h

end Took
end NodeBuilder

/-- Handed any marks in turn, a fresh builder refuses none of them and finishes with a node exactly if the marks without
the separators are a sentence, and the node is what it denotes: keys in order of first arrival, each with its last
value. -/
theorem builder_accepts (ms : List Mark) (n : Node) :
    let (answers, b) := NodeBuilder.answers ms {}
    ((∀ a ∈ answers, a = .ok ()) ∧ b.finish = .ok n) ↔ Denotes (ms.filterMap Mark.token?) n := by
  constructor
  · rintro ⟨hall, hfinish⟩
    have htakes := (NodeBuilder.answers_iff ms {} _).1 ⟨hall, rfl⟩
    exact (NodeBuilder.Took.fresh.takes htakes).finish hfinish
  · intro h
    obtain ⟨m, htokens, rfl⟩ := h.exists_node
    have htakes : NodeBuilder.Takes {} m.tokens { root := some m.collapse } := NodeBuilder.takes_node m rfl
    rw [htokens] at htakes
    obtain ⟨hall, hleft⟩ := (NodeBuilder.answers_iff ms {} _).2 htakes
    refine ⟨hall, ?_⟩
    rw [hleft]
    rfl

-- An array where a name should stand is refused when it closes.
example : (NodeBuilder.answers [.token .startObject, .token .startArray, .objectComma, .token .endArray] {}).1 =
    [.ok (), .ok (), .ok (), .error (.malformed .unnamedValue)] := by rfl

end Bindery
