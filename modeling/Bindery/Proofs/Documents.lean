import Bindery.Proofs.Keys
import Bindery.Proofs.Tree
import Mathlib.Data.List.Forall2
/-!
# What is written is a document

`Emission.Puts a ts` says that an emission was not cut short and put down the tokens `ts`, whatever
the separators. An array or an object that is written in full puts down the tokens of a node, made of
what its parts put down (`array_puts`, `members_puts`). A builder that is handed the tokens of a node
makes the node (`takes_node`), and so an encoder hands on the node it wrote (`Binder.toNode_puts`).
-/

namespace Bindery

/-! ## Lists that are related item by item -/

theorem exists_forall₂ {α β : Type} {R : α → β → Prop} {as : List α} (h : ∀ a ∈ as, ∃ b, R a b) :
    ∃ bs, List.Forall₂ R as bs := by
  induction as with
  | nil => exact ⟨[], .nil⟩
  | cons a as ih =>
    obtain ⟨b, hb⟩ := h a (by simp)
    obtain ⟨bs, hbs⟩ := ih fun a' ha' => h a' (by simp [ha'])
    exact ⟨b :: bs, .cons hb hbs⟩

theorem forall₂_exists_left {α β : Type} {R : α → β → Prop} {as : List α} {bs : List β} (h : List.Forall₂ R as bs)
    {b : β} (hb : b ∈ bs) : ∃ a ∈ as, R a b := by
  induction h with
  | nil => cases hb
  | cons hr _ ih =>
    rcases List.mem_cons.1 hb with rfl | hb
    · exact ⟨_, List.mem_cons_self, hr⟩
    · obtain ⟨a, ha, hr⟩ := ih hb
      exact ⟨a, List.mem_cons_of_mem _ ha, hr⟩

theorem forall₂_append_left {α β : Type} {R : α → β → Prop} {as as' : List α} {bs : List β}
    (h : List.Forall₂ R (as ++ as') bs) :
    ∃ cs cs', bs = cs ++ cs' ∧ List.Forall₂ R as cs ∧ List.Forall₂ R as' cs' := by
  induction as generalizing bs with
  | nil => exact ⟨[], bs, rfl, .nil, h⟩
  | cons a as ih =>
    cases h with
    | cons hr h =>
      obtain ⟨cs, cs', rfl, hcs, hcs'⟩ := ih h
      exact ⟨_ :: cs, cs', rfl, .cons hr hcs, hcs'⟩

/-! ## Tokens of an emission -/

/-- The token of a mark that is no separator. -/
def Mark.token? : Mark → Option Token
  | .token t => some t
  | .objectComma | .arrayComma => none

namespace Emission

/-- The tokens that are put down. -/
def tokens (a : Emission) : List Token := a.marks.filterMap fun m => m.2.token?

/-- Not cut short, with exactly these tokens. -/
def Puts (a : Emission) (ts : List Token) : Prop := a.failure = none ∧ a.tokens = ts

variable {a b : Emission} {ts us : List Token}

theorem puts_token (place : Place) (t : Token) : (token place t).Puts [t] := ⟨rfl, rfl⟩

theorem puts_separator (place : Place) {m : Mark} (h : m.token? = none) : (mark place m).Puts [] :=
  ⟨rfl, by simp [tokens, mark, h]⟩

theorem append_failure : (a ++ b).failure = none ↔ a.failure = none ∧ b.failure = none := by
  change (a.andThen b).failure = none ↔ _
  unfold andThen
  cases ha : a.failure <;> simp [ha]

theorem Puts.append (ha : a.Puts ts) (hb : b.Puts us) : (a ++ b).Puts (ts ++ us) := by
  change (a.andThen b).Puts _
  unfold andThen
  rw [ha.1]
  refine ⟨hb.1, ?_⟩
  rw [← ha.2, ← hb.2]
  simp [tokens]

theorem atPlace_failure (place : Place) : (a.atPlace place).failure = none ↔ a.failure = none := by
  simp [atPlace]

theorem Puts.atPlace (place : Place) (h : a.Puts ts) : (a.atPlace place).Puts ts :=
  ⟨(atPlace_failure place).2 h.1, h.2⟩

theorem plain_tape (a : Emission) : Tape.plain a.tape = Tape.ofTokens a.tokens := by
  unfold Tape.plain tape Tape.ofTokens tokens
  induction a.marks with
  | nil => rfl
  | cons m ms ih =>
    obtain ⟨place, m⟩ := m
    cases m with
    | token t => simpa [TapeEntry.isSeparator, Mark.token?] using ih
    | objectComma | arrayComma => simpa [TapeEntry.isSeparator, Mark.token?] using ih

/-! ## Emissions in a row -/

theorem separated_cons (s : Emission) (a b : Emission) (as : List Emission) :
    separated s (a :: b :: as) = a ++ (s ++ separated s (b :: as)) := rfl

theorem separated_failure {s : Emission} {as : List Emission} (h : (separated s as).failure = none) :
    ∀ a ∈ as, a.failure = none := by
  induction as with
  | nil => simp
  | cons a as ih =>
    cases as with
    | nil => simpa [separated] using h
    | cons b as =>
      rw [separated_cons, append_failure, append_failure] at h
      intro c hc
      rcases List.mem_cons.1 hc with rfl | hc
      · exact h.1
      · exact ih h.2.2 c hc

theorem separated_puts {s : Emission} (hs : s.Puts []) {as : List Emission} {tss : List (List Token)}
    (h : List.Forall₂ Puts as tss) : (separated s as).Puts tss.flatten := by
  induction h with
  | nil => exact ⟨rfl, rfl⟩
  | @cons a ts as tss ha has ih =>
    cases has with
    | nil => simpa [separated] using ha
    | cons => exact ha.append (hs.append ih)

/-! ## Arrays and objects -/

/-- Every part that is written in full puts down a node that the relation holds of. -/
def Part {α : Type} (f : α → Place → Emission) (R : α → Node → Prop) (a : α) : Prop :=
  ∀ place, (f a place).failure = none → ∃ n : Node, (f a place).Puts n.tokens ∧ R a n

variable {α : Type} {f : α → Place → Emission} {R : α → Node → Prop}

theorem items_puts {as : List α} (h : ∀ a ∈ as, Part f R a) (place : Place) (owner : String)
    (hok : (items place owner (as.map f)).failure = none) :
    ∃ ns, (items place owner (as.map f)).Puts (ns.flatMap Node.tokens) ∧ List.Forall₂ R as ns := by
  unfold items at hok ⊢
  rw [List.zipIdx_map, List.map_map] at hok ⊢
  have hpart : ∀ p ∈ as.zipIdx, ∃ n : Node,
      (((fun p : (Place → Emission) × Nat => (p.1 (place.item owner p.2)).atPlace (place.item owner p.2))
        ∘ Prod.map f id) p).Puts n.tokens ∧ R p.1 n := by
    intro p hp
    have hfail := separated_failure hok _ (List.mem_map_of_mem hp)
    obtain ⟨n, hn, hr⟩ := h p.1 (List.fst_mem_of_mem_zipIdx hp) _ ((atPlace_failure _).1 hfail)
    exact ⟨n, hn.atPlace _, hr⟩
  obtain ⟨ns, hns⟩ := exists_forall₂ hpart
  refine ⟨ns, ?_, ?_⟩
  · rw [List.flatMap_def]
    refine separated_puts (puts_separator place rfl) ?_
    rw [List.forall₂_map_left_iff, List.forall₂_map_right_iff]
    exact hns.imp fun p n hn => hn.1
  · rw [← List.zipIdx_map_fst 0 as, List.forall₂_map_left_iff]
    exact hns.imp fun p n hn => hn.2

/-- An array that is written in full puts down a node of the nodes that its items put down. -/
theorem array_puts {as : List α} (h : ∀ a ∈ as, Part f R a) (place : Place) (owner : String)
    (hok : (array place owner (as.map f)).failure = none) :
    ∃ ns, (array place owner (as.map f)).Puts (Node.array ns).tokens ∧ List.Forall₂ R as ns := by
  unfold array at hok ⊢
  obtain ⟨ns, hns, hr⟩ := items_puts h place owner (append_failure.1 (append_failure.1 hok).2).1
  refine ⟨ns, ?_, hr⟩
  rw [Node.array_tokens]
  exact (puts_token place _).append (hns.append (puts_token place _))

/-- Members that are written in full put down the entries that their values put down. -/
theorem members_puts {as : List (String × α)} (h : ∀ e ∈ as, Part f R e.2) (place : Place) (owner : String)
    (hok : (members place owner (as.map fun e => (e.1, f e.2))).failure = none) :
    ∃ es : List (String × Node), (members place owner (as.map fun e => (e.1, f e.2))).Puts
        (es.flatMap fun e => .name e.1 :: e.2.tokens) ∧
      List.Forall₂ (fun a e => e.1 = a.1 ∧ R a.2 e.2) as es := by
  unfold members at hok ⊢
  rw [List.map_map] at hok ⊢
  have hpart : ∀ e ∈ as, ∃ m : String × Node,
      (((fun p : String × (Place → Emission) => token place (.name p.1)
        ++ (p.2 (place.member owner p.1)).atPlace (place.member owner p.1)) ∘ fun e => (e.1, f e.2)) e).Puts
          (.name m.1 :: m.2.tokens) ∧ m.1 = e.1 ∧ R e.2 m.2 := by
    intro e he
    have hfail := separated_failure hok _ (List.mem_map_of_mem he)
    obtain ⟨n, hn, hr⟩ := h e he _ ((atPlace_failure _).1 (append_failure.1 hfail).2)
    exact ⟨(e.1, n), (puts_token place _).append (hn.atPlace _), rfl, hr⟩
  obtain ⟨ms, hms⟩ := exists_forall₂ hpart
  refine ⟨ms, ?_, hms.imp fun a m hm => hm.2⟩
  rw [List.flatMap_def]
  refine separated_puts (puts_separator place rfl) ?_
  rw [List.forall₂_map_left_iff, List.forall₂_map_right_iff]
  exact hms.imp fun a m hm => hm.1

/-- An object that is written in full puts down a node of the entries that its members put down. -/
theorem object_puts {as : List (String × α)} (h : ∀ e ∈ as, Part f R e.2) (place : Place) (owner : String)
    (hok : (object place owner (as.map fun e => (e.1, f e.2))).failure = none) :
    ∃ es, (object place owner (as.map fun e => (e.1, f e.2))).Puts (Node.object es).tokens ∧
      List.Forall₂ (fun a e => e.1 = a.1 ∧ R a.2 e.2) as es := by
  unfold object at hok ⊢
  obtain ⟨es, hes, hr⟩ := members_puts h place owner (append_failure.1 (append_failure.1 hok).2).1
  refine ⟨es, ?_, hr⟩
  rw [Node.object_tokens]
  exact (puts_token place _).append (hes.append (puts_token place _))

end Emission

/-! ## Nodes -/

namespace Encode

theorem nodeItems_eq (ns : List Node) : nodeItems ns = ns.map node := by
  induction ns with
  | nil => rfl
  | cons n ns ih => rw [nodeItems, ih, List.map_cons]

theorem nodeEntries_eq (es : List (String × Node)) : nodeEntries es = es.map fun e => (e.1, node e.2) := by
  induction es with
  | nil => rfl
  | cons e es ih => rw [nodeEntries, ih, List.map_cons]

theorem forms_eq (c : Context) (vs : List Value) : forms c vs = vs.map (form c) := by
  induction vs with
  | nil => rfl
  | cons v vs ih => rw [forms, ih, List.map_cons]

theorem entryForms_eq (c : Context) (es : List (String × Value)) :
    entryForms c es = es.map fun e => (e.1, form c e.2) := by
  induction es with
  | nil => rfl
  | cons e es ih => rw [entryForms, ih, List.map_cons]

mutual

/-- A node that is written in full is put down as its tokens. -/
theorem node_part : ∀ n : Node, Emission.Part node Eq n
  | .null => fun place _ => ⟨.null, Emission.puts_token place _, rfl⟩
  | .bool b => fun place _ => ⟨.bool b, Emission.puts_token place _, rfl⟩
  | .number x => fun place _ => ⟨.number x, Emission.puts_token place _, rfl⟩
  | .string s => fun place _ => ⟨.string s, Emission.puts_token place _, rfl⟩
  | .array ns => by
    intro place hok
    rw [node, nodeItems_eq] at hok ⊢
    obtain ⟨ms, hms, heq⟩ := Emission.array_puts (node_parts ns) place _ hok
    rw [List.forall₂_eq_eq_eq] at heq
    exact ⟨.array ms, hms, by rw [heq]⟩
  | .object es => by
    intro place hok
    rw [node, nodeEntries_eq] at hok ⊢
    obtain ⟨fs, hfs, heq⟩ := Emission.object_puts (node_entryParts es) place _ hok
    have heq : List.Forall₂ Eq es fs := heq.imp fun e f h => Prod.ext h.1.symm h.2
    rw [List.forall₂_eq_eq_eq] at heq
    exact ⟨.object fs, hfs, by rw [heq]⟩

theorem node_parts : ∀ (ns : List Node), ∀ n ∈ ns, Emission.Part node Eq n
  | [] => by simp
  | n :: ns => List.forall_mem_cons.2 ⟨node_part n, node_parts ns⟩

theorem node_entryParts : ∀ (es : List (String × Node)), ∀ e ∈ es, Emission.Part node Eq e.2
  | [] => by simp
  | (_, n) :: es => List.forall_mem_cons.2 ⟨node_part n, node_entryParts es⟩

end

end Encode

/-! ## Nodes without repeated keys -/

theorem Entries.keys_of_forall₂ {α β : Type} {R : α → β → Prop} {es : List (String × α)} {fs : List (String × β)}
    (h : List.Forall₂ (fun e f => f.1 = e.1 ∧ R e.2 f.2) es fs) : Entries.keys fs = Entries.keys es := by
  induction h with
  | nil => rfl
  | cons hf _ ih => exact congrArg₂ List.cons hf.1 ih

namespace Node

/-- No object inside repeats a key. -/
inductive Distinct : Node → Prop
  | null : Distinct .null
  | bool (b : Bool) : Distinct (.bool b)
  | number (n : Number) : Distinct (.number n)
  | string (s : String) : Distinct (.string s)
  | array {ns : List Node} (h : ∀ n ∈ ns, Distinct n) : Distinct (.array ns)
  | object {es : List (String × Node)} (hkeys : (Entries.keys es).Nodup) (h : ∀ e ∈ es, Distinct e.2) :
    Distinct (.object es)

theorem Distinct.of_leaf {n : Node} (h : n.tokens = [n.head]) : n.Distinct := by
  cases n with
  | null => exact .null
  | bool b => exact .bool b
  | number n => exact .number n
  | string s => exact .string s
  | array | object => simp [tokens, head] at h

theorem map_collapse {es : List (String × Node)} (h : ∀ e ∈ es, e.2.collapse = e.2) :
    es.map (fun e => (e.1, e.2.collapse)) = es := by
  conv_rhs => rw [← List.map_id es]
  exact List.map_congr_left fun e he => by rw [h e he]; rfl

/-- Such a node is read as it is. -/
theorem Distinct.collapse {n : Node} (h : n.Distinct) : n.collapse = n := by
  induction h with
  | null | bool | number | string => rfl
  | array _ ih =>
    rw [Node.collapse, collapseItems_eq, List.map_congr_left ih, List.map_id']
  | object hkeys _ ih =>
    rw [Node.collapse, collapseEntries_eq, map_collapse ih, Entries.ofList_of_nodup hkeys]

end Node

/-! ## Builders -/

namespace NodeBuilder

/-- The tokens are taken in turn, and leave the other builder. -/
def Takes : NodeBuilder → List Token → NodeBuilder → Prop
  | b, [], b' => b = b'
  | b, t :: ts, b' => ∃ c, b.token t = (.ok (), c) ∧ Takes c ts b'

theorem takes_append {b b' c : NodeBuilder} {ts us : List Token} (h : Takes b ts b') (h' : Takes b' us c) :
    Takes b (ts ++ us) c := by
  induction ts generalizing b with
  | nil => cases h; exact h'
  | cons t ts ih =>
    obtain ⟨d, hd, h⟩ := h
    exact ⟨d, hd, ih h⟩

mutual

/-- A builder that is handed the tokens of a node puts the node in its place. -/
theorem takes_node : ∀ (n : Node) {b b' : NodeBuilder}, b.put n.collapse = (.ok (), b') → Takes b n.tokens b'
  | .null, _, b', h | .bool _, _, b', h | .number _, _, b', h | .string _, _, b', h => ⟨b', h, rfl⟩
  | .array ns, b, b', h =>
    ⟨_, rfl, takes_append (takes_items ns #[] b.stack b.root) ⟨b', by simpa [token, Node.collapse] using h, rfl⟩⟩
  | .object es, b, b', h =>
    ⟨_, rfl, takes_append (takes_entries es [] b.stack b.root) ⟨b', h, rfl⟩⟩

theorem takes_items : ∀ (ns : List Node) (items : Array Node) (stack : List BuilderFrame) (root : Option Node),
    Takes ⟨.array items :: stack, root⟩ (Node.itemTokens ns)
      ⟨.array (items ++ (Node.collapseItems ns).toArray) :: stack, root⟩
  | [], items, _, _ => by simp [Takes, Node.itemTokens, Node.collapseItems]
  | n :: ns, items, stack, root => by
    have h := takes_items ns (items.push n.collapse) stack root
    have hitems : items.push n.collapse ++ (Node.collapseItems ns).toArray =
        items ++ (Node.collapseItems (n :: ns)).toArray := by
      simp [Node.collapseItems]
    rw [hitems] at h
    exact takes_append (takes_node n rfl) h

theorem takes_entries : ∀ (es entries : List (String × Node)) (stack : List BuilderFrame) (root : Option Node),
    Takes ⟨.object entries none :: stack, root⟩ (Node.entryTokens es)
      ⟨.object (Entries.insertAll entries (Node.collapseEntries es)) none :: stack, root⟩
  | [], _, _, _ => rfl
  | (key, n) :: es, entries, stack, root =>
    ⟨_, rfl, takes_append (takes_node n rfl) (takes_entries es (Entries.insert entries key n.collapse) stack root)⟩

end

theorem feed_takes {marks : List (Place × Mark)} : ∀ {b b' : NodeBuilder},
    Takes b (marks.filterMap fun m => m.2.token?) b' → Emission.feed NodeBuilder.mark marks b = (.ok (), b') := by
  induction marks with
  | nil => intro b b' h; cases h; rfl
  | cons m marks ih =>
    intro b b' h
    obtain ⟨place, m⟩ := m
    cases m with
    | token t =>
      obtain ⟨c, hc, h⟩ := h
      simp only [Emission.feed, NodeBuilder.mark, hc]
      exact ih h
    | objectComma | arrayComma => exact ih h

end NodeBuilder

/-- An emission that puts down the tokens of a node is a node to whoever builds it. -/
theorem Binder.toNode_puts {b : Binder} {v : Value} {n : Node} (h : (b.encode v).Puts n.tokens) :
    b.toNode v = .ok n.collapse := by
  have htakes : NodeBuilder.Takes {} n.tokens { root := some n.collapse } := NodeBuilder.takes_node n rfl
  rw [← h.2] at htakes
  unfold toNode Emission.writeTo
  rw [NodeBuilder.feed_takes htakes, h.1]
  rfl

end Bindery
