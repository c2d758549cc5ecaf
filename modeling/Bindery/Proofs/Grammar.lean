import Bindery.Proofs.Consumption
import Bindery.Proofs.Documents
import Bindery.Proofs.Registration
/-!
# The grammar of documents

`Denotes ts n` is the grammar of tokens that readers see: a scalar, named values between braces, or values
between brackets. A document it denotes has its keys in order of first arrival, each with its last value.
Reading without a declared type accepts exactly this: a tape from which a sentence can be taken is read as what
the sentence denotes and no further, and any other tape is refused with a token that does not fit
(`dynamic_read`).
-/

namespace Bindery

open TokenStream (front advance)

/-! ## Repeated keys -/

namespace Entries

variable {α : Type}

/-- Each key once, in order of first arrival, with the last value that came for it. -/
def settled (es : List (String × α)) : List (String × α) :=
  (keys es).eraseDups.filterMap fun key => (find? es.reverse key).map (key, ·)

theorem eraseDups_concat (ks : List String) (key : String) :
    (ks ++ [key]).eraseDups = if key ∈ ks then ks.eraseDups else ks.eraseDups ++ [key] := by
  rw [List.eraseDups_append]
  by_cases h : key ∈ ks <;> simp [List.removeAll, List.eraseDups_cons, h]

theorem nodup_eraseDups (ks : List String) : ks.eraseDups.Nodup := by
  induction ks using List.reverseRecOn with
  | nil => simp
  | append_singleton ks key ih =>
    rw [eraseDups_concat]
    split
    · exact ih
    · next h =>
      refine List.nodup_append.2 ⟨ih, by simp, ?_⟩
      rintro k hk k' hk' rfl
      rw [List.mem_singleton.1 hk', List.mem_eraseDups] at hk
      exact h hk

theorem find?_reverse_concat (es : List (String × α)) (e : String × α) (key : String) :
    find? (es ++ [e]).reverse key = if e.1 = key then some e.2 else find? es.reverse key := by
  rw [List.reverse_concat, find?]

theorem find?_reverse_isSome (es : List (String × α)) {key : String} (h : key ∈ keys es) :
    (find? es.reverse key).isSome := by
  induction es using List.reverseRecOn with
  | nil => cases h
  | append_singleton es e ih =>
    rw [find?_reverse_concat]
    split
    · rfl
    · next hne =>
      simp only [keys, List.map_append, List.mem_append, List.map_cons, List.map_nil, List.mem_singleton] at h
      exact ih (h.resolve_right (Ne.symm hne))

/-- Inserting into rows of pairwise different keys changes one value, or adds a row. -/
theorem insert_rows {ks : List String} (hnodup : ks.Nodup) {g : String → Option α} (hg : ∀ k ∈ ks, (g k).isSome)
    (key : String) (a : α) :
    insert (ks.filterMap fun k => (g k).map (k, ·)) key a =
      (if key ∈ ks then ks else ks ++ [key]).filterMap fun k => (if key = k then some a else g k).map (k, ·) := by
  induction ks with
  | nil => simp [insert]
  | cons k ks ih =>
    obtain ⟨hk, hnodup⟩ := List.nodup_cons.1 hnodup
    obtain ⟨b, hb⟩ := Option.isSome_iff_exists.1 (hg k List.mem_cons_self)
    by_cases hkey : key = k
    · subst hkey
      have hrest : ∀ k ∈ ks, (g k).map (k, ·) = (if key = k then some a else g k).map (k, ·) := by
        intro k hmem
        rw [if_neg]
        rintro rfl
        exact hk hmem
      simp [insert, hb, List.filterMap_congr hrest]
    · have ih := ih hnodup fun k hk => hg k (List.mem_cons_of_mem _ hk)
      by_cases hmem : key ∈ ks
      · simp [insert, hb, hkey, Ne.symm hkey, hmem, ih]
      · simp [insert, hb, hkey, Ne.symm hkey, hmem, ih]

/-- Entries that are inserted in turn settle. -/
theorem ofList_eq_settled (es : List (String × α)) : ofList es = settled es := by
  induction es using List.reverseRecOn with
  | nil => rfl
  | append_singleton es e ih =>
    have hinsert : ofList (es ++ [e]) = insert (ofList es) e.1 e.2 := by
      simp [ofList, insertAll]
    have hkeys : keys (es ++ [e]) = keys es ++ [e.1] := by simp [keys]
    rw [hinsert, ih]
    unfold settled
    rw [insert_rows (nodup_eraseDups _) fun k hk => find?_reverse_isSome es (List.mem_eraseDups.1 hk)]
    rw [hkeys, eraseDups_concat]
    simp only [List.mem_eraseDups, find?_reverse_concat]

end Entries

/-! ## Sentences of tokens -/

theorem map_eq_of_forall₂ {α β γ : Type} {R : α → β → Prop} {as : List α} {bs : List β} (h : List.Forall₂ R as bs)
    {f : α → γ} {g : β → γ} (hR : ∀ a b, R a b → g b = f a) : bs.map g = as.map f := by
  rw [← List.forall₂_eq_eq_eq, List.forall₂_map_left_iff, List.forall₂_map_right_iff]
  exact (h.imp hR).flip

/-- The tokens of one document, and the document they denote. -/
inductive Denotes : List Token → Node → Prop
  | null : Denotes [.null] .null
  | bool (b : Bool) : Denotes [.bool b] (.bool b)
  | number (x : Number) : Denotes [.number x] (.number x)
  | string (s : String) : Denotes [.string s] (.string s)
  | array {parts : List (List Token × Node)} (h : ∀ p ∈ parts, Denotes p.1 p.2) :
    Denotes (.startArray :: (parts.flatMap (·.1) ++ [.endArray])) (.array (parts.map (·.2)))
  | object {parts : List (String × List Token × Node)} (h : ∀ p ∈ parts, Denotes p.2.1 p.2.2) :
    Denotes (.startObject :: (parts.flatMap (fun p => .name p.1 :: p.2.1) ++ [.endObject]))
      (.object (Entries.settled (parts.map fun p => (p.1, p.2.2))))

/-- A sentence begins as the document does that it denotes. -/
theorem Denotes.head {ts : List Token} {n : Node} (h : Denotes ts n) : ∃ rest, ts = n.head :: rest := by
  cases h <;> exact ⟨_, rfl⟩

/-- Every sentence is the tokens of a node. -/
theorem Denotes.exists_node {ts : List Token} {n : Node} (h : Denotes ts n) :
    ∃ m : Node, m.tokens = ts ∧ m.collapse = n := by
  induction h with
  | null => exact ⟨.null, rfl, rfl⟩
  | bool b => exact ⟨.bool b, rfl, rfl⟩
  | number x => exact ⟨.number x, rfl, rfl⟩
  | string s => exact ⟨.string s, rfl, rfl⟩
  | @array parts _ ih =>
    obtain ⟨ms, hms⟩ := exists_forall₂ ih
    have htokens : ms.map Node.tokens = parts.map (·.1) := map_eq_of_forall₂ hms fun _ _ h => h.1
    have hnodes : ms.map Node.collapse = parts.map (·.2) := map_eq_of_forall₂ hms fun _ _ h => h.2
    refine ⟨.array ms, ?_, ?_⟩
    · rw [Node.array_tokens, List.flatMap_def, List.flatMap_def, htokens]
    · rw [Node.collapse, Node.collapseItems_eq, hnodes]
  | @object parts _ ih =>
    have hentry : ∀ p ∈ parts, ∃ e : String × Node, e.1 = p.1 ∧ e.2.tokens = p.2.1 ∧ e.2.collapse = p.2.2 := by
      intro p hp
      obtain ⟨m, hm⟩ := ih p hp
      exact ⟨(p.1, m), rfl, hm⟩
    obtain ⟨es, hes⟩ := exists_forall₂ hentry
    have htokens : (es.map fun e => Token.name e.1 :: e.2.tokens) = parts.map fun p => .name p.1 :: p.2.1 :=
      map_eq_of_forall₂ hes fun _ _ ⟨hkey, htokens, _⟩ => by rw [hkey, htokens]
    have hnodes : (es.map fun e => (e.1, e.2.collapse)) = parts.map fun p => (p.1, p.2.2) :=
      map_eq_of_forall₂ hes fun _ _ ⟨hkey, _, hnode⟩ => by rw [hkey, hnode]
    refine ⟨.object es, ?_, ?_⟩
    · rw [Node.object_tokens, List.flatMap_def, List.flatMap_def, htokens]
    · rw [Node.collapse, Node.collapseEntries_eq, hnodes, Entries.ofList_eq_settled]

/-! ## What reading a document consumes -/

namespace BindError

/-- The cause is a token that does not fit. -/
def IsMismatch (e : BindError) : Prop := ∃ expected found, e.rootCause = .tokenMismatch expected found

theorem isMismatch (expected : String) (found : TokenKind) : (tokenMismatch expected found).IsMismatch :=
  ⟨expected, found, rfl⟩

theorem rootCause_at? (e : BindError) (place : Place) : (e.at? place).rootCause = e.rootCause := by
  unfold at?
  split
  · rfl
  · cases place <;> rfl

theorem IsMismatch.at? {e : BindError} (h : e.IsMismatch) (place : Place) : (e.at? place).IsMismatch := by
  obtain ⟨expected, found, h⟩ := h
  exact ⟨expected, found, (rootCause_at? e place).trans h⟩

end BindError

open BindError (IsMismatch isMismatch)

section Stream
variable {σ α β : Type} [TokenStream σ]

/-- What is consumed is a sentence of the document that is read. -/
abbrev ReadsSentence (r : Reading σ α) (doc : α → Node) : Prop :=
  Consumes r (fun a ts => Denotes ts (doc a)) IsMismatch

namespace ReadsSentence

/-- A token of a scalar. -/
theorem take {expected : String} {pick : Token → Option α} {doc : α → Node}
    (h : ∀ t a, pick t = some a → Denotes [t] (doc a)) : ReadsSentence (Reading.take expected pick : Reading σ α) doc :=
  Consumes.take h fun _ => isMismatch _ _

/-- What is made of a document that is read. -/
theorem map {r : Reading σ α} {doc : β → Node} (f : α → β) (h : ReadsSentence r fun a => doc (f a)) :
    ReadsSentence (do return f (← r)) doc := by
  refine h.bind fun a ts hts => .pure ?_
  rwa [List.append_nil]

/-- The items so far are what the tokens so far denote. -/
def ItemsSoFar (items : Array Node) (ts : List Token) : Prop :=
  ∃ parts : List (List Token × Node),
    (∀ p ∈ parts, Denotes p.1 p.2) ∧ ts = parts.flatMap (·.1) ∧ items.toList = parts.map (·.2)

namespace ItemsSoFar

theorem nil : ItemsSoFar #[] [] := ⟨[], by simp, rfl, rfl⟩

theorem push {items : Array Node} {ts us : List Token} {n : Node} (h : ItemsSoFar items ts) (hn : Denotes us n) :
    ItemsSoFar (items.push n) (ts ++ us) := by
  obtain ⟨parts, hparts, rfl, hitems⟩ := h
  refine ⟨parts ++ [(us, n)], ?_, by simp, by simp [hitems]⟩
  intro p hp
  rcases List.mem_append.1 hp with hp | hp
  · exact hparts p hp
  · rw [List.mem_singleton.1 hp]
    exact hn

/-- Between brackets they are an array. -/
theorem bracketed {items : Array Node} {ts : List Token} (h : ItemsSoFar items ts) :
    Denotes (.startArray :: (ts ++ [.endArray])) (.array items.toList) := by
  obtain ⟨parts, hparts, rfl, hitems⟩ := h
  rw [hitems]
  exact .array hparts

end ItemsSoFar

/-- The entries so far are what the tokens so far denote, each key with the last value so far. -/
def EntriesSoFar (entries : List (String × Node)) (ts : List Token) : Prop :=
  ∃ parts : List (String × List Token × Node),
    (∀ p ∈ parts, Denotes p.2.1 p.2.2) ∧ ts = parts.flatMap (fun p => .name p.1 :: p.2.1) ∧
      entries = Entries.ofList (parts.map fun p => (p.1, p.2.2))

namespace EntriesSoFar

theorem nil : EntriesSoFar [] [] := ⟨[], by simp, rfl, rfl⟩

theorem insert {entries : List (String × Node)} {ts us : List Token} {key : String} {n : Node}
    (h : EntriesSoFar entries ts) (hn : Denotes us n) :
    EntriesSoFar (Entries.insert entries key n) (ts ++ .name key :: us) := by
  obtain ⟨parts, hparts, rfl, rfl⟩ := h
  refine ⟨parts ++ [(key, us, n)], ?_, by simp, by simp [Entries.ofList, Entries.insertAll]⟩
  intro p hp
  rcases List.mem_append.1 hp with hp | hp
  · exact hparts p hp
  · rw [List.mem_singleton.1 hp]
    exact hn

/-- Between braces they are an object. -/
theorem braced {entries : List (String × Node)} {ts : List Token} (h : EntriesSoFar entries ts) :
    Denotes (.startObject :: (ts ++ [.endObject])) (.object entries) := by
  obtain ⟨parts, hparts, rfl, rfl⟩ := h
  rw [Entries.ofList_eq_settled]
  exact .object hparts

end EntriesSoFar

theorem nodeArray {item : Place → Reading σ Node} (hitem : ∀ place, ReadsSentence (item place) id) (budget : Nat)
    (place : Place) : ReadsSentence (Decode.nodeArray budget item place) .array := by
  refine Consumes.container (I := ItemsSoFar) isMismatch .nil ?_ fun items ts hitems => .pure hitems.bracketed
  intro items ts hitems
  exact ((hitem _).atPlace _ fun _ he => he.at? _).bind fun n us hn => .pure (by simpa using hitems.push hn)

theorem nodeObject {value : Place → Reading σ Node} (hvalue : ∀ place, ReadsSentence (value place) id) (budget : Nat)
    (place : Place) : ReadsSentence (Decode.nodeObject budget value place) .object := by
  refine Consumes.container (I := EntriesSoFar) isMismatch .nil ?_ fun entries ts hentries => .pure hentries.braced
  intro entries ts hentries
  refine (Consumes.name (Q := fun key us => us = [.name key]) (fun _ => rfl) fun _ => isMismatch _ _).bind
    fun key us hus => ?_
  subst hus
  exact ((hvalue _).atPlace _ fun _ he => he.at? _).bind fun n us hn => .pure (by simpa using hentries.insert hn)

/-- Whatever stands at the front: if a document is read, its sentence was there. -/
theorem node (budget : Nat) : ∀ place : Place, ReadsSentence (Decode.node budget place : Reading σ Node) id := by
  induction budget with
  | zero =>
    intro place
    change ReadsSentence Reading.noValue id
    exact .peek fun _ => .throw (isMismatch _ _)
  | succ budget ih =>
    intro place
    refine .here fun _ => .peek fun kind => ?_
    cases kind with
    | startObject => exact (nodeObject ih budget place).map Node.object
    | startArray => exact (nodeArray ih budget place).map Node.array
    | string =>
      refine map Node.string (take fun t a h => ?_)
      cases t <;> cases h
      exact .string _
    | number =>
      refine map Node.number (take fun t a h => ?_)
      cases t <;> cases h
      exact .number _
    | boolean =>
      refine map Node.bool (take fun t a h => ?_)
      cases t <;> cases h
      exact .bool _
    | null =>
      refine Consumes.bind (Consumes.expect (Q := fun _ ts => ts = [.null]) rfl fun _ => isMismatch _ _) ?_
      rintro _ _ rfl
      exact .pure .null
    | endObject | endArray | name | endOfStream | unknown => exact .throw (isMismatch _ _)

end ReadsSentence
end Stream

/-! ## Dynamic types -/

/-- The value of a dynamic type that a document is, if it opens as the type says. -/
def DynamicKind.value? : DynamicKind → Node → Option Value
  | .any, n => some (.node n)
  | .object, .object es => some (.object es)
  | .array, .array ns => some (.array ns)
  | _, _ => none

theorem DynamicKind.ofType_value? {kind : DynamicKind} {n : Node} {v : Value} (h : kind.value? n = some v) :
    Value.ofType (.dynamic kind) v = .ok v := by
  refine if_pos ?_
  cases kind with
  | any =>
    cases h
    rfl
  | object | array =>
    cases n <;> cases h
    rfl

theorem Tree.dynamic_value? {kind : DynamicKind} {n : Node} {v : Value} (h : kind.value? n.collapse = some v) :
    Tree.dynamic kind n = .ok v := by
  cases kind with
  | any =>
    cases h
    rfl
  | object | array =>
    cases n <;> cases h
    rfl

section Dynamic
variable {σ : Type} {kind : DynamicKind}

/-- What a dynamic type is read from is a sentence of a document that opens as the type says. -/
abbrev ReadsDynamic (kind : DynamicKind) [TokenStream σ] (r : Reading σ Value) : Prop :=
  Consumes r (fun v ts => ∃ n, Denotes ts n ∧ kind.value? n = some v) IsMismatch

theorem readsDynamic_map [TokenStream σ] {α : Type} {r : Reading σ α} {doc : α → Node} (h : ReadsSentence r doc)
    {f : α → Value} (hf : ∀ a, kind.value? (doc a) = some (f a)) : ReadsDynamic kind (do return f (← r)) := by
  refine h.bind fun a ts hts => .pure ?_
  rw [List.append_nil]
  exact ⟨doc a, hts, hf a⟩

theorem readsDynamic_dynamic [TokenStream σ] (budget : Nat) (place : Place) :
    ReadsDynamic kind (Decode.dynamic budget kind place : Reading σ Value) := by
  cases kind with
  | any => exact .here fun _ => readsDynamic_map (ReadsSentence.node _ place) fun _ => rfl
  | object =>
    exact .here fun _ =>
      readsDynamic_map (ReadsSentence.nodeObject (ReadsSentence.node budget) budget place) fun _ => rfl
  | array =>
    exact .here fun _ =>
      readsDynamic_map (ReadsSentence.nodeArray (ReadsSentence.node budget) budget place) fun _ => rfl

variable {c : Context} (hc : c.registry.Consistent c.schema)
include hc

theorem Decode.value_dynamic [TokenSource σ] (budget : Nat) (place : Place) :
    (Decode.value c (budget + 1) (.dynamic kind) place : Reading σ Value) =
      Reading.atPlace place (Decode.dynamic budget kind place) := by
  unfold Decode.value Decode.level Decode.byStrategy
  rw [Context.strategy_dynamic hc]
  rfl

/-- From any source: only sentences are read, and what refuses them is a token that does not fit. -/
theorem readsDynamic_root [TokenSource σ] : ReadsDynamic kind (Decode.root c (.dynamic kind) : Reading σ Value) := by
  intro s
  refine Consumes.bind (P := fun v ts => ∃ n, Denotes ts n ∧ kind.value? n = some v) ?_ ?_ s
  · rw [Decode.value_dynamic hc]
    exact (readsDynamic_dynamic _ _).atPlace _ fun _ he => he.at? _
  · rintro v ts ⟨n, hn, hv⟩
    rw [DynamicKind.ofType_value? hv]
    refine .pure ⟨n, ?_, hv⟩
    rwa [List.append_nil]

theorem Tree.root_dynamic {n : Node} {v : Value} (h : kind.value? n.collapse = some v) :
    Tree.root c n (.dynamic kind) = .ok v := by
  have hlevel : ∀ (itemParts : List Part) (entryParts : List (String × Node × Part)) (place : Place),
      level c n itemParts entryParts place (.dynamic kind) = .ok v := by
    intro itemParts entryParts place
    rw [level, byStrategy, Context.strategy_dynamic hc]
    exact dynamic_value? h
  rw [root, value_eq, hlevel]
  exact DynamicKind.ofType_value? h

end Dynamic

/-! ## Tapes -/

namespace TapeReader

/-- From one place of a tape to another: there stand these tokens, with separators before them but none behind. -/
def Passes (r : TapeReader) (ts : List Token) (r' : TapeReader) : Prop :=
  ∃ taken, r.rest = taken ++ r'.rest ∧ r'.consumed = r.consumed + taken.length ∧
    Tape.plain taken = Tape.ofTokens ts ∧ ∀ e ∈ taken.getLast?, ¬ e.isSeparator

/-- A step of the reader passes one token. -/
theorem exists_seps {r : TapeReader} {t : Token} (h : front r = .token t) :
    ∃ seps : List TapeEntry, (∀ e ∈ seps, e.isSeparator) ∧
      r.rest = seps ++ .mark (.token t) :: (advance r).rest ∧
      (advance r).consumed = r.consumed + seps.length + 1 := by
  have hsplit := List.takeWhile_append_dropWhile (p := (·.isSeparator)) (l := r.rest)
  refine ⟨r.rest.takeWhile (·.isSeparator), List.all_eq_true.1 List.all_takeWhile, ?_⟩
  simp only [front, advance, current, position] at h ⊢
  split at h
  · next t' rest hrest =>
    cases h
    rw [hrest] at hsplit ⊢
    exact ⟨hsplit.symm, rfl⟩
  · cases h
  · cases h

theorem passes_of_walks {ts : List Token} : ∀ {r r' : TapeReader}, Walks r ts r' → r.Passes ts r' := by
  induction ts with
  | nil =>
    rintro r _ rfl
    exact ⟨[], rfl, rfl, rfl, by simp⟩
  | cons t ts ih =>
    rintro r r' ⟨hf, hw⟩
    obtain ⟨seps, hseps, hrest, hconsumed⟩ := exists_seps hf
    obtain ⟨taken, hrest', hconsumed', hplain, hlast⟩ := ih hw
    refine ⟨seps ++ .mark (.token t) :: taken, ?_, ?_, ?_, ?_⟩
    · rw [hrest, hrest', List.append_assoc, List.cons_append]
    · rw [hconsumed', hconsumed, List.length_append, List.length_cons]
      omega
    · have hnone : seps.filter (fun e => !e.isSeparator) = [] := List.filter_eq_nil_iff.2 (by simpa using hseps)
      rw [Tape.plain, List.filter_append, hnone, List.nil_append]
      change Tape.plain (.mark (.token t) :: taken) = _
      rw [Tape.plain_cons_of_not_sep (by simp [TapeEntry.isSeparator]), hplain]
      rfl
    · intro e he
      rw [List.getLast?_append, List.getLast?_cons, Option.some_or, Option.mem_some_iff] at he
      subst he
      cases htaken : taken.getLast? with
      | none => simp [TapeEntry.isSeparator]
      | some e => exact hlast e htaken

theorem walks_of_prefix {ts : List Token} {r : TapeReader} (h : Tape.ofTokens ts <+: r.plain) :
    ∃ r', Walks r ts r' ∧ ts.length ≤ TokenStream.length r := by
  obtain ⟨after, hafter⟩ := h
  obtain ⟨r', hw, -⟩ := walks hafter.symm
  refine ⟨r', hw, Nat.le_trans ?_ r.plain_length_le⟩
  rw [← hafter, List.length_append, Tape.ofTokens, List.length_map]
  exact Nat.le_add_right ..

end TapeReader

namespace Binder

variable {b : Binder} (hb : b.registry.Consistent b.schema) {kind : DynamicKind} {r : TapeReader}
include hb

/-- A sentence at the front is read as what it denotes, and no further. -/
theorem read_sentence {ts : List Token} {n : Node} {v : Value} (h : Denotes ts n)
    (hbegins : Tape.ofTokens ts <+: r.plain) (hv : kind.value? n = some v) :
    ∃ r', b.read (.dynamic kind) r = (.ok v, r') ∧ r.Passes ts r' := by
  obtain ⟨m, rfl, rfl⟩ := h.exists_node
  obtain ⟨r', hw, hlength⟩ := TapeReader.walks_of_prefix hbegins
  have htree : Tree.root b.toContext m (.dynamic kind) = .ok v := Tree.root_dynamic hb hv
  unfold read Reading.run
  rcases Reads.root (c := b.toContext) (.dynamic kind) hw (Nat.le_succ_of_le hlength) with ⟨w, hw', hr⟩ | ⟨e, _, he, _⟩
  · rw [htree] at hw'
    cases hw'
    rw [hr]
    exact ⟨r', rfl, TapeReader.passes_of_walks hw⟩
  · rw [htree] at he
    cases he

/-- Where no sentence of the type is at the front, a token does not fit. -/
theorem read_no_sentence
    (h : ∀ ts n, Denotes ts n → Tape.ofTokens ts <+: r.plain → kind.value? n = none) :
    ∃ e r', b.read (.dynamic kind) r = (.error e, r') ∧ e.IsMismatch := by
  have hroot : ReadsDynamic kind (Decode.root b.toContext (.dynamic kind) : Reading TapeReader Value) :=
    readsDynamic_root hb
  unfold read Reading.run
  cases hr : Decode.root b.toContext (.dynamic kind) r with
  | error e r' => exact ⟨e, r', rfl, hroot.error hr⟩
  | ok v r' =>
    obtain ⟨ts, hw, n, hn, hv⟩ := hroot.ok hr
    rw [h ts n hn ⟨_, (TapeReader.plain_of_walks hw).symm⟩] at hv
    cases hv

/-- Registering the type first shows nowhere. -/
theorem decode_dynamic : b.decode (.dynamic kind) r =
    ((b.read (.dynamic kind) r).1, (b.read (.dynamic kind) r).2, b.register (.dynamic kind)) := by
  have hregister : (b.register (.dynamic kind)).registry.Consistent (b.register (.dynamic kind)).schema :=
    hb.register _
  have hroot : Decode.root (b.register (.dynamic kind)).toContext (.dynamic kind) r =
      Decode.root b.toContext (.dynamic kind) r := by
    change Decode.rootWithin _ (TokenStream.length r + 1) (.dynamic kind) r =
      Decode.rootWithin _ (TokenStream.length r + 1) (.dynamic kind) r
    unfold Decode.rootWithin
    rw [Decode.value_dynamic hb, Decode.value_dynamic hregister]
    rfl
  rw [decode_eq]
  unfold read Reading.run
  rw [hroot]

end Binder

/-- Whatever stands on a tape from wherever a reader is. If the tokens from there begin with a sentence of a
document that opens as the dynamic type says, the document is read and the reader has moved over this sentence
and no further. If they begin with none, a token does not fit. It makes no difference whether the type is
registered first. -/
theorem dynamic_read (b : Binder) (h : b.registry.Reachable b.schema) (kind : DynamicKind) (r : TapeReader) :
    (∀ ts n v, Denotes ts n → Tape.ofTokens ts <+: r.plain → kind.value? n = some v →
      ∃ r', b.read (.dynamic kind) r = (.ok v, r') ∧ r.Passes ts r') ∧
    ((∀ ts n, Denotes ts n → Tape.ofTokens ts <+: r.plain → kind.value? n = none) →
      ∃ e r', b.read (.dynamic kind) r = (.error e, r') ∧ e.IsMismatch) ∧
    b.decode (.dynamic kind) r =
      ((b.read (.dynamic kind) r).1, (b.read (.dynamic kind) r).2, b.register (.dynamic kind)) :=
  ⟨fun _ _ _ hn hbegins hv => Binder.read_sentence h.consistent hn hbegins hv,
    fun hnone => Binder.read_no_sentence h.consistent hnone, Binder.decode_dynamic h.consistent⟩

/-- Behind a stray separator an object with a repeated key and a bracket too many after it; and an entry that no
token fits. -/
theorem dynamic_read_repeated :
    let b : Binder := { schema := { records := [] }, registry := {} }
    let ts : List Token := [.startObject, .name "a", .number (.ofInt 1), .name "b", .startArray, .null, .endArray,
      .name "a", .bool true, .endObject]
    let n : Node := .object [("a", .bool true), ("b", .array [.null])]
    let r : TapeReader := ⟨.mark .arrayComma :: Tape.ofTokens (ts ++ [.endArray]), 7⟩
    b.registry.Reachable b.schema ∧ Denotes ts n ∧ Tape.ofTokens ts <+: r.plain ∧
      (∃ r', b.read (.dynamic .any) r = (.ok (.node n), r') ∧ r.Passes ts r') ∧
      ∃ e r', b.read (.dynamic .array) (⟨[.unknown], 0⟩ : TapeReader) = (.error e, r') ∧ e.IsMismatch := by
  intro b ts n r
  have hreachable : b.registry.Reachable b.schema := .empty
  have hitems : ∀ p ∈ [([Token.null], Node.null)], Denotes p.1 p.2 := by
    simp only [List.mem_singleton, forall_eq]
    exact .null
  have hn : Denotes ts n := by
    refine @Denotes.object [("a", [.number (.ofInt 1)], .number (.ofInt 1)),
      ("b", [.startArray, .null, .endArray], .array [.null]), ("a", [.bool true], .bool true)] ?_
    simp only [List.mem_cons, List.not_mem_nil, or_false, forall_eq_or_imp, forall_eq]
    exact ⟨.number _, .array hitems, .bool true⟩
  have hbegins : Tape.ofTokens ts <+: r.plain := ⟨[.mark (.token .endArray)], rfl⟩
  have hnone : ∀ ts n, Denotes ts n → Tape.ofTokens ts <+: (⟨[.unknown], 0⟩ : TapeReader).plain →
      DynamicKind.array.value? n = none := by
    rintro ts n hn ⟨after, hafter⟩
    cases hn <;> cases hafter
  exact ⟨hreachable, hn, hbegins, (dynamic_read b hreachable .any r).1 ts n _ hn hbegins rfl,
    (dynamic_read b hreachable .array _).2.1 hnone⟩

end Bindery
