import Bindery.Proofs.JsonText
import Bindery.Proofs.Writers
/-!
# JSON text there and back

The text that is written for a value is the spelling of one document, mark by mark (`Node.written`). It is a text
of the grammar, which announces the document (`Json.value_written`), and what is announced makes the document
again, its numbers in normal form (`Node.announced_node`). So JSON text is read back as the node that the value is
written as, by every library that keeps to the grammar (`json_round_trip`).
-/

namespace Bindery

/-! ## Nesting -/

/-- The most containers that are open at once among some tokens, before which `opened` are open. -/
def Token.deepest : Nat → List Token → Nat
  | opened, [] => opened
  | opened, .startObject :: ts => deepest (opened + 1) ts
  | opened, .startArray :: ts => deepest (opened + 1) ts
  | opened, .endObject :: ts => max opened (deepest (opened - 1) ts)
  | opened, .endArray :: ts => max opened (deepest (opened - 1) ts)
  | opened, _ :: ts => deepest opened ts

theorem Token.le_deepest : ∀ (ts : List Token) (opened : Nat), opened ≤ deepest opened ts
  | [], _ => Nat.le_refl _
  | .startObject :: ts, opened | .startArray :: ts, opened => Nat.le_of_succ_le (le_deepest ts (opened + 1))
  | .endObject :: _, _ | .endArray :: _, _ => Nat.le_max_left _ _
  | .name _ :: ts, opened | .string _ :: ts, opened | .number _ :: ts, opened | .bool _ :: ts, opened
  | .null :: ts, opened => le_deepest ts opened

namespace Node

mutual

/-- How deeply containers are nested in a node. -/
def depth : Node → Nat
  | .array ns => itemsDepth ns + 1
  | .object es => entriesDepth es + 1
  | _ => 0

/-- The depth of the deepest item. -/
def itemsDepth : List Node → Nat
  | [] => 0
  | n :: ns => max n.depth (itemsDepth ns)

/-- The depth of the deepest entry. -/
def entriesDepth : List (String × Node) → Nat
  | [] => 0
  | (_, n) :: es => max n.depth (entriesDepth es)

end

mutual

/-- The tokens of a node open as many containers at once as the node is deep. -/
theorem deepest_tokens : ∀ (n : Node) (opened : Nat) (ts : List Token),
    Token.deepest opened (n.tokens ++ ts) = max (opened + n.depth) (Token.deepest opened ts)
  | .null, opened, ts | .bool _, opened, ts | .number _, opened, ts | .string _, opened, ts =>
    (Nat.max_eq_right (Token.le_deepest ts opened)).symm
  | .array ns, opened, ts => by
    rw [tokens, List.cons_append, List.append_assoc, Token.deepest, deepest_itemTokens, depth]
    simp only [List.cons_append, List.nil_append, Token.deepest, Nat.add_sub_cancel]
    have := Token.le_deepest ts opened
    omega
  | .object es, opened, ts => by
    rw [tokens, List.cons_append, List.append_assoc, Token.deepest, deepest_entryTokens, depth]
    simp only [List.cons_append, List.nil_append, Token.deepest, Nat.add_sub_cancel]
    have := Token.le_deepest ts opened
    omega

theorem deepest_itemTokens : ∀ (ns : List Node) (opened : Nat) (ts : List Token),
    Token.deepest opened (itemTokens ns ++ ts) = max (opened + itemsDepth ns) (Token.deepest opened ts)
  | [], opened, ts => (Nat.max_eq_right (Token.le_deepest ts opened)).symm
  | n :: ns, opened, ts => by
    rw [itemTokens, List.append_assoc, deepest_tokens, deepest_itemTokens, itemsDepth]
    omega

theorem deepest_entryTokens : ∀ (es : List (String × Node)) (opened : Nat) (ts : List Token),
    Token.deepest opened (entryTokens es ++ ts) = max (opened + entriesDepth es) (Token.deepest opened ts)
  | [], opened, ts => (Nat.max_eq_right (Token.le_deepest ts opened)).symm
  | (_, n) :: es, opened, ts => by
    rw [entryTokens, List.cons_append, List.append_assoc, Token.deepest, deepest_tokens, deepest_entryTokens,
      entriesDepth]
    · omega
    all_goals exact nofun

end

end Node

/-! ## Nodes in normal form -/

/-- The number as it is read from its text: one that is not negative is a non-negative word. -/
def Number.normal : Number → Number
  | .negInt v => .ofInt64 v
  | n => n

namespace Node

mutual

/-- The node with all its numbers in normal form. -/
def normal : Node → Node
  | .number x => .number x.normal
  | .array ns => .array (normalItems ns)
  | .object es => .object (normalEntries es)
  | n => n

/-- The items with all their numbers in normal form. -/
def normalItems : List Node → List Node
  | [] => []
  | n :: ns => normal n :: normalItems ns

/-- The entries with all their numbers in normal form. -/
def normalEntries : List (String × Node) → List (String × Node)
  | [] => []
  | (k, n) :: es => (k, normal n) :: normalEntries es

end

theorem normalItems_eq (ns : List Node) : normalItems ns = ns.map normal := by
  induction ns with
  | nil => rfl
  | cons n ns ih => rw [normalItems, ih, List.map_cons]

theorem normalEntries_eq (es : List (String × Node)) : normalEntries es = es.map fun e => (e.1, e.2.normal) := by
  induction es with
  | nil => rfl
  | cons e es ih => rw [normalEntries, ih, List.map_cons]

theorem normal_object (es : List (String × Node)) : (object es).collapse.normal =
    .object (Entries.ofList (es.map fun e => (e.1, e.2.collapse.normal))) := by
  rw [collapse, normal, normalEntries_eq, ← Entries.ofList_map, collapseEntries_eq, List.map_map]
  rfl

theorem normal_array (ns : List Node) : (array ns).collapse.normal = .array (ns.map fun n => n.collapse.normal) := by
  rw [collapse, normal, normalItems_eq, collapseItems_eq, List.map_map]
  rfl

end Node

/-! ## What a document announces -/

/-- What a reader announces of the text of a number. -/
def Number.announced : Number → Visit
  | .posInt v => .unsigned v
  | .negInt v => if 0 ≤ v.toInt then .unsigned (UInt64.ofNat v.toInt.toNat) else .signed v
  | .float x => .double x

namespace Node

mutual

/-- What a reader announces of the text of a node. -/
def announced : Node → Visit
  | .null => .unit
  | .bool b => .bool b
  | .number x => x.announced
  | .string s => .text s
  | .array ns => .sequence (announcedItems ns)
  | .object es => .entries (announcedEntries es)

/-- What a reader announces of the texts of some items. -/
def announcedItems : List Node → List Visit
  | [] => []
  | n :: ns => announced n :: announcedItems ns

/-- What a reader announces of the texts of some entries. -/
def announcedEntries : List (String × Node) → List (String × Visit)
  | [] => []
  | (k, n) :: es => (k, announced n) :: announcedEntries es

end

mutual

/-- What is announced of a node makes the node that is built of its tokens, its numbers in normal form. -/
theorem announced_node : ∀ n : Node, n.announced.node = .ok n.collapse.normal
  | .null | .bool _ | .string _ | .number (.posInt _) | .number (.float _) => rfl
  | .number (.negInt v) => by
    simp only [announced, Number.announced, collapse, normal, Number.normal, Number.ofInt64]
    split
    · rfl
    · next hv => simp [Visit.node, Number.ofInt64, hv]
  | .array ns => by
    rw [normal_array, announced, Visit.node, announced_nodes ns]
    rfl
  | .object es => by
    rw [normal_object, announced, Visit.node, announced_entryNodes es]
    rfl

theorem announced_nodes : ∀ ns : List Node,
    Visit.nodes (announcedItems ns) = .ok (ns.map fun n => n.collapse.normal)
  | [] => rfl
  | n :: ns => by
    rw [announcedItems, Visit.nodes, announced_node n, announced_nodes ns]
    rfl

theorem announced_entryNodes : ∀ es : List (String × Node),
    Visit.entryNodes (announcedEntries es) = .ok (es.map fun e => (e.1, e.2.collapse.normal))
  | [] => rfl
  | (k, n) :: es => by
    rw [announcedEntries, Visit.entryNodes, announced_node n, announced_entryNodes es]
    rfl

end

end Node

/-! ## Spellings of documents -/

section Spellings
variable (numerals : Json.Numerals)

/-- The characters of a mark; none if it has no spelling. -/
def Mark.chars (m : Mark) : List Char :=
  match Json.spell numerals m with
  | .ok text => text.toList
  | .error _ => []

namespace Node

/-- The characters of a document, mark by mark. -/
def written (n : Node) : List Char := n.marks.flatMap (Mark.chars numerals)

theorem written_array (ns : List Node) :
    (array ns).written numerals = '[' :: ([','].intercalate (ns.map (written numerals)) ++ [']']) := by
  rw [written, marks_array, List.flatMap_cons, List.flatMap_append, flatMap_intercalate, List.map_map]
  rfl

/-- The characters of an entry. -/
def writtenEntry (e : String × Node) : List Char :=
  '"' :: (Quoted.body e.1 ++ '"' :: ':' :: e.2.written numerals)

theorem written_object (es : List (String × Node)) :
    (object es).written numerals = '{' :: ([','].intercalate (es.map (writtenEntry numerals)) ++ ['}']) := by
  have hentries : (es.map fun e => Mark.token (.name e.1) :: e.2.marks).map (·.flatMap (Mark.chars numerals)) =
      es.map (writtenEntry numerals) := by
    rw [List.map_map]
    refine List.map_congr_left fun e _ => ?_
    simp [Mark.chars, Json.spell, Json.spellToken, Quoted.write, writtenEntry, written]
  rw [written, marks_object, List.flatMap_cons, List.flatMap_append, flatMap_intercalate, hentries]
  rfl

end Node
end Spellings

namespace Json

/-! ### Strings -/

theorem hex4_digits : ∀ n < 0x20, Hex4 (Hex.digits 4 n) n := by
  unfold Hex4
  decide

/-- Characters are escaped as the grammar allows. -/
theorem charText_escape (c : Char) : CharText (Quoted.escape c) c := by
  unfold Quoted.escape
  split
  all_goals try exact .short (by decide)
  next hquote hbackslash _ _ _ _ _ =>
    split
    · next hcontrol => exact .unicode (hex4_digits _ hcontrol)
    · next hcontrol => exact .plain hquote hbackslash (by omega)

theorem charsText_escape : ∀ cs : List Char, CharsText (cs.flatMap Quoted.escape ++ ['"']) cs
  | [] => .close
  | c :: cs => by
    rw [List.flatMap_cons, List.append_assoc]
    exact .char (charText_escape c) (charsText_escape cs)

theorem stringText_body (s : String) : StringText ('"' :: (Quoted.body s ++ ['"'])) s :=
  .quoted (charsText_escape s.toList)

/-! ### Numbers -/

section Numbers
variable {numerals : Numerals} {double? : Numeral → Option Binary64}

/-- The literal of an integer. -/
def integerNumeral (i : Int) : Numeral := { negative := i < 0, whole := Nat.toDigits 10 i.natAbs }

theorem integerNumeral_chars (i : Int) : (integerNumeral i).chars = (Number.intText i).toList := by
  unfold Numeral.chars integerNumeral Number.intText DecimalLayout.signedDigits
  by_cases hi : i < 0 <;> simp [hi]

theorem integerNumeral_wellFormed (i : Int) : (integerNumeral i).WellFormed := by
  refine wellFormed_of ?_ nofun nofun
  rcases Nat.eq_zero_or_pos i.natAbs with h | h
  · exact .inl (by rw [integerNumeral, h]; rfl)
  · exact .inr (Decimal.leading_toDigits h)

variable (double?) in
theorem integerNumeral_unsigned {n : Nat} (hn : n < UInt64.size) :
    (integerNumeral n).announce? double? = some (.unsigned (UInt64.ofNat n)) := by
  have : ¬ (n : Int) < 0 := by omega
  simp [Numeral.announce?, integerNumeral, Numeral.isInteger, this, Nat.ofDigitChars_ten_toDigits, hn]

variable (double?) in
theorem integerNumeral_signed {i : Int} (hi : i < 0) (hleast : -2 ^ 63 ≤ i) :
    (integerNumeral i).announce? double? = some (.signed (Int64.ofInt i)) := by
  have habs : -(i.natAbs : Int) = i := by omega
  have hword : IntType.i64.least = -2 ^ 63 := rfl
  simp only [Numeral.announce?, integerNumeral, Nat.ofDigitChars_ten_toDigits, habs, hword, hi, decide_true]
  rw [if_neg (by simp), if_pos ⟨rfl, trivial, by omega, hleast⟩]

/-- The text of a number is a literal that announces the number. -/
theorem number_written (hinteger : ∀ i, numerals.integer i = Number.intText i) {x : Number}
    (hdouble : ∀ d, x = .float d → d.isFinite ∧ ∃ l : Numeral, l.WellFormed ∧ l.isInteger = false ∧
      numerals.double d = String.ofList l.chars ∧ double? l = some d) :
    ScalarText double? ((Node.number x).written numerals) x.announced := by
  have hinteger : ∀ {i : Int} {v : Visit}, (integerNumeral i).announce? double? = some v →
      ScalarText double? (numerals.integer i).toList v := by
    intro i v hv
    rw [hinteger, ← integerNumeral_chars]
    exact .number (integerNumeral_wellFormed i) hv
  cases x with
  | posInt v =>
    have hv := hinteger (integerNumeral_unsigned double? v.toNat_lt)
    rw [UInt64.ofNat_toNat] at hv
    simpa [Node.written, Node.marks, Node.laid, Mark.chars, spell, spellToken, Number.announced] using hv
  | negInt v =>
    have htext : (Node.number (.negInt v)).written numerals = (numerals.integer v.toInt).toList := by
      simp [Node.written, Node.marks, Node.laid, Mark.chars, spell, spellToken]
    rw [htext, Number.announced]
    split
    · next hv =>
      have hlt := v.toInt_lt
      have hnat : ((v.toInt.toNat : Nat) : Int) = v.toInt := Int.toNat_of_nonneg hv
      have hunsigned := integerNumeral_unsigned double? (show v.toInt.toNat < 2 ^ 64 by omega)
      rw [hnat] at hunsigned
      exact hinteger hunsigned
    · next hv =>
      have hsigned := integerNumeral_signed double? (by omega) v.le_toInt
      rw [Int64.ofInt_toInt] at hsigned
      exact hinteger hsigned
  | float d =>
    obtain ⟨hfinite, l, hl, hno, htext, hback⟩ := hdouble d rfl
    have hannounce : l.announce? double? = some (.double d) := by
      simp [Numeral.announce?, hno, hback]
    have hwritten : (Node.number (.float d)).written numerals = l.chars := by
      simp [Node.written, Node.marks, Node.laid, Mark.chars, spell, spellToken, hfinite, htext]
    rw [hwritten]
    exact .number hl hannounce

end Numbers

/-! ### Values -/

section Values
variable {numerals : Numerals} {double? : Numeral → Option Binary64}

/-- Texts with a comma between each two, up to the bracket behind the last. -/
theorem items_written {Value : List Char → Visit → Prop} {ts : List (List Char)} {vs : List Visit}
    (h : List.Forall₂ Value ts vs) (hne : ts ≠ []) : ItemsText Value ([','].intercalate ts ++ [']']) vs := by
  induction h with
  | nil => exact absurd rfl hne
  | @cons t v ts vs ht hts ih =>
    cases hts with
    | nil =>
      rw [List.intercalate_singleton]
      simpa using ItemsText.last .nil ht .nil
    | cons _ _ =>
      rw [List.intercalate_cons_cons]
      simpa using ItemsText.more .nil ht .nil (ih (List.cons_ne_nil _ _))

/-- Members with a comma between each two, up to the brace behind the last. -/
theorem members_written {Value : List Char → Visit → Prop} {ts : List (List Char)} {ms : List (String × Visit)}
    (h : List.Forall₂ (MemberText Value) ts ms) (hne : ts ≠ []) :
    MembersText Value ([','].intercalate ts ++ ['}']) ms := by
  induction h with
  | nil => exact absurd rfl hne
  | @cons t m ts ms ht hts ih =>
    cases hts with
    | nil =>
      rw [List.intercalate_singleton]
      simpa using MembersText.last .nil ht .nil
    | cons _ _ =>
      rw [List.intercalate_cons_cons]
      simpa using MembersText.more .nil ht .nil (ih (List.cons_ne_nil _ _))

theorem sequence_written {Value : List Char → Visit → Prop} {ts : List (List Char)} {vs : List Visit}
    (h : List.Forall₂ Value ts vs) :
    ContainerText Value ('[' :: ([','].intercalate ts ++ [']'])) (.sequence vs) := by
  cases h with
  | nil => exact .emptyArray .nil
  | cons ht hts => exact .array (items_written (.cons ht hts) (List.cons_ne_nil _ _))

theorem entries_written {Value : List Char → Visit → Prop} {ts : List (List Char)} {ms : List (String × Visit)}
    (h : List.Forall₂ (MemberText Value) ts ms) :
    ContainerText Value ('{' :: ([','].intercalate ts ++ ['}'])) (.entries ms) := by
  cases h with
  | nil => exact .emptyObject .nil
  | cons ht hts => exact .object (members_written (.cons ht hts) (List.cons_ne_nil _ _))

theorem writtenEntry_member {Value : List Char → Visit → Prop} {e : String × Node} {v : Visit}
    (h : Value (e.2.written numerals) v) : MemberText Value (Node.writtenEntry numerals e) (e.1, v) := by
  simpa [Node.writtenEntry] using MemberText.keyed (stringText_body e.1) .nil .nil h

theorem ScalarText.value {t : List Char} {v : Visit} (h : ScalarText double? t v) (depth : Nat) :
    ValueText double? depth t v := by
  cases depth with
  | zero => exact h
  | succ depth => exact .inl h

/-- Every number among these tokens is written as a literal that announces it. -/
def WritesNumbers (numerals : Numerals) (double? : Numeral → Option Binary64) (ts : List Token) : Prop :=
  ∀ x, Token.number x ∈ ts → ScalarText double? ((Node.number x).written numerals) x.announced

theorem WritesNumbers.mono {ts us : List Token} (h : WritesNumbers numerals double? ts) (hus : ∀ t ∈ us, t ∈ ts) :
    WritesNumbers numerals double? us := fun x hx => h x (hus _ hx)

mutual

/-- The spelling of a document is a text of the grammar, which announces the document. -/
theorem value_written : ∀ (n : Node) (depth : Nat), WritesNumbers numerals double? n.tokens → n.depth ≤ depth →
    ValueText double? depth (n.written numerals) n.announced
  | .null, depth, _, _ => ScalarText.null.value depth
  | .bool true, depth, _, _ => ScalarText.true.value depth
  | .bool false, depth, _, _ => ScalarText.false.value depth
  | .number x, depth, hnumbers, _ => (hnumbers x List.mem_cons_self).value depth
  | .string s, depth, _, _ => by
    have htext : (Node.string s).written numerals = '"' :: (Quoted.body s ++ ['"']) := by
      simp [Node.written, Node.marks, Node.laid, Mark.chars, spell, spellToken, Quoted.write]
    rw [htext]
    exact (ScalarText.string (stringText_body s)).value depth
  | .array ns, 0, _, hdepth => absurd hdepth (Nat.not_succ_le_zero _)
  | .array ns, depth + 1, hnumbers, hdepth => by
    rw [Node.array_tokens] at hnumbers
    rw [Node.written_array]
    refine .inr (sequence_written (itemValues_written ns depth (hnumbers.mono fun t ht => ?_) ?_))
    · exact List.mem_cons_of_mem _ (List.mem_append_left _ ht)
    · exact Nat.le_of_succ_le_succ hdepth
  | .object es, 0, _, hdepth => absurd hdepth (Nat.not_succ_le_zero _)
  | .object es, depth + 1, hnumbers, hdepth => by
    rw [Node.object_tokens] at hnumbers
    rw [Node.written_object]
    refine .inr (entries_written (entryValues_written es depth (hnumbers.mono fun t ht => ?_) ?_))
    · exact List.mem_cons_of_mem _ (List.mem_append_left _ ht)
    · exact Nat.le_of_succ_le_succ hdepth

theorem itemValues_written : ∀ (ns : List Node) (depth : Nat), WritesNumbers numerals double? (ns.flatMap Node.tokens) →
    Node.itemsDepth ns ≤ depth →
      List.Forall₂ (ValueText double? depth) (ns.map (Node.written numerals)) (Node.announcedItems ns)
  | [], _, _, _ => .nil
  | n :: ns, depth, hnumbers, hdepth => .cons
    (value_written n depth (hnumbers.mono fun t ht => by rw [List.flatMap_cons]; exact List.mem_append_left _ ht)
      (Nat.le_trans (Nat.le_max_left _ _) hdepth))
    (itemValues_written ns depth (hnumbers.mono fun t ht => by rw [List.flatMap_cons]; exact List.mem_append_right _ ht)
      (Nat.le_trans (Nat.le_max_right _ _) hdepth))

theorem entryValues_written : ∀ (es : List (String × Node)) (depth : Nat),
    WritesNumbers numerals double? (es.flatMap fun e => .name e.1 :: e.2.tokens) → Node.entriesDepth es ≤ depth →
      List.Forall₂ (MemberText (ValueText double? depth)) (es.map (Node.writtenEntry numerals))
        (Node.announcedEntries es)
  | [], _, _, _ => .nil
  | (_, n) :: es, depth, hnumbers, hdepth => .cons
    (writtenEntry_member (value_written n depth
      (hnumbers.mono fun t ht => by
        rw [List.flatMap_cons]
        exact List.mem_append_left _ (List.mem_cons_of_mem _ ht))
      (Nat.le_trans (Nat.le_max_left _ _) hdepth)))
    (entryValues_written es depth
      (hnumbers.mono fun t ht => by rw [List.flatMap_cons]; exact List.mem_append_right _ ht)
      (Nat.le_trans (Nat.le_max_right _ _) hdepth))

end

theorem join_chars {ms : List (Place × Mark)} {texts : List String}
    (h : (ms.mapM fun m => spell numerals m.2) = .ok texts) :
    (String.join texts).toList = (ms.map (·.2)).flatMap (Mark.chars numerals) := by
  induction ms generalizing texts with
  | nil =>
    cases h
    rfl
  | cons m ms ih =>
    rw [List.mapM_cons] at h
    cases hm : spell numerals m.2 with
    | error e => rw [hm] at h; cases h
    | ok text =>
      cases hms : ms.mapM fun m => spell numerals m.2 with
      | error e => rw [hm, hms] at h; cases h
      | ok texts' =>
        rw [hm, hms] at h
        cases h
        rw [String.join_cons, String.toList_append, ih hms, List.map_cons, List.flatMap_cons, Mark.chars, hm]

end Values
end Json

namespace Binder

variable {numerals : Json.Numerals} {b : Binder} {v : Value} {text : String}

/-- A text that is written is the spelling of the document that is laid down, all of whose numbers are finite. -/
theorem toJson_ok (h : b.toJson numerals v = .ok text) : ∃ n : Node, (b.encode v).Puts n.tokens ∧
    (∀ t ∈ n.tokens, (Mark.token t).isFinite) ∧ text.toList = n.written numerals := by
  have hfailure : (b.encode v).failure = none := by
    cases hf : (b.encode v).failure with
    | none => rfl
    | some e =>
      obtain ⟨e', he'⟩ := toJson_error numerals hf
      rw [he'] at h
      cases h
  have hfinite : ∀ m ∈ (b.encode v).marks, m.2.isFinite := by
    cases hfind : (b.encode v).marks.find? (fun m => !m.2.isFinite) with
    | none =>
      intro m hm
      simpa using List.find?_eq_none.1 hfind m hm
    | some p =>
      obtain ⟨x, -, hx⟩ := toJson_not_finite numerals hfind
      rw [hx] at h
      cases h
  obtain ⟨n, hlaid⟩ := encode_laid hfailure
  have hputs := Emission.puts_of_laid hfailure hlaid
  refine ⟨n, hputs, ?_, ?_⟩
  · intro t ht
    rw [← hputs.2] at ht
    obtain ⟨⟨place, m⟩, hm, hmt⟩ := List.mem_filterMap.1 ht
    cases m with
    | token u =>
      cases hmt
      exact hfinite _ hm
    | objectComma | arrayComma => cases hmt
  · obtain ⟨texts, htexts, hjson⟩ := toJson_finite numerals hfailure hfinite
    rw [hjson] at h
    cases h
    rw [Json.join_chars htexts, Node.written, ← n.laid_marks, ← hlaid, Emission.laid, List.map_map]
    rfl

end Binder

/-- JSON text is read back as the node that the value is written as, every number that is not negative as a
non-negative word: whatever the strings and the keys, the entries in order, and of a repeated key the last
value at the first place. It is so with all libraries that spell integers in decimal and read the documents of
the grammar, if they restore the doubles of the value. -/
theorem json_round_trip (L : Json.Library) {double? : Json.Numeral → Option Binary64} (hL : L.Lawful double?)
    (b : Binder) (v : Value) {text : String} (h : b.toJson L.toNumerals v = .ok text)
    (hdoubles : ∀ x, .number (.float x) ∈ (b.encode v).tokens → L.Restores double? x)
    (hdepth : Token.deepest 0 (b.encode v).tokens ≤ 127) :
    ∃ n, b.toNode v = .ok n ∧ Binder.parseJson L text = .ok n.normal := by
  obtain ⟨n, hputs, hfinite, htext⟩ := Binder.toJson_ok h
  refine ⟨n.collapse, Binder.toNode_puts hputs, ?_⟩
  have hnested := n.deepest_tokens 0 []
  rw [List.append_nil, ← hputs.2] at hnested
  have hnumbers : Json.WritesNumbers L.toNumerals double? n.tokens := by
    intro x hx
    refine Json.number_written hL.integer ?_
    rintro d rfl
    exact ⟨hfinite _ hx, hdoubles d (hputs.2 ▸ hx)⟩
  have hvalue := Json.value_written n Json.maxDepth hnumbers (by change _ ≤ 127; omega)
  have hread := hL.read (.value .nil hvalue .nil (by simpa using htext))
  unfold Binder.parseJson
  simp only [hread, n.announced_node]

/-- A repeated key, a negative word that is not negative, a tenth, and a string of characters that are escaped. -/
theorem json_round_trip_escaped :
    let b : Binder := { schema := { records := [] }, registry := {} }
    let s : String := String.ofList ['"', '\\', '\n', '\x01', 'é']
    let v : Value := .array [.object [("k", .null), ("a", .bool true), ("k", .number (.negInt 5))],
      .number (.float ⟨0x3fb999999999999a⟩), .string s]
    let text : String := "[\x7b\"k\":null,\"a\":true,\"k\":5\x7d,0.1,\"\\\"\\\\\\n\\u0001é\"]"
    Json.standard.Lawful Json.Numeral.nearest? ∧ b.toJson Json.standard.toNumerals v = .ok text ∧
      (∀ x, .number (.float x) ∈ (b.encode v).tokens → Json.standard.Restores Json.Numeral.nearest? x) ∧
      Token.deepest 0 (b.encode v).tokens ≤ 127 ∧
      b.toNode v = .ok (.array [.object [("k", .number (.negInt 5)), ("a", .bool true)],
        .number (.float ⟨0x3fb999999999999a⟩), .string s]) ∧
      Binder.parseJson Json.standard text = .ok (.array [.object [("k", .number (.posInt 5)), ("a", .bool true)],
        .number (.float ⟨0x3fb999999999999a⟩), .string s]) := by
  intro b s v text
  have hjson : b.toJson Json.standard.toNumerals v = .ok text := by
    dsimp only [b, v, s, text]
    rfl
  have htokens : (b.encode v).tokens = [.startArray, .startObject, .name "k", .null, .name "a", .bool true,
      .name "k", .number (.negInt 5), .endObject, .number (.float ⟨0x3fb999999999999a⟩), .string s, .endArray] := rfl
  have hdoubles : ∀ x, .number (.float x) ∈ (b.encode v).tokens →
      Json.standard.Restores Json.Numeral.nearest? x := by
    intro x hx
    rw [htokens] at hx
    simp only [List.mem_cons, List.not_mem_nil, or_false, reduceCtorEq, false_or, Token.number.injEq,
      Number.float.injEq] at hx
    rw [hx]
    exact Json.standard_restores (by decide)
  have hdepth : Token.deepest 0 (b.encode v).tokens ≤ 127 := by
    decide
  obtain ⟨n, hn, hparse⟩ := json_round_trip Json.standard Json.standard_lawful b v hjson hdoubles hdepth
  have hnode : b.toNode v = .ok (.array [.object [("k", .number (.negInt 5)), ("a", .bool true)],
      .number (.float ⟨0x3fb999999999999a⟩), .string s]) := by
    rfl
  cases hn.symm.trans hnode
  exact ⟨Json.standard_lawful, hjson, hdoubles, hdepth, hnode, hparse⟩

end Bindery
