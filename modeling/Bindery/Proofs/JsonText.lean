import Bindery.Proofs.JsonNumbers
/-!
# The parser accepts the grammar

Every text of the grammar is read for what it announces: strings whatever their escapes (`Json.string_accepts`),
arrays and objects from a reader of their parts (`Json.array_accepts`, `Json.object_accepts`), and by induction on
the nesting all values (`Json.value_reads`). So the standard library is lawful (`Json.standard_lawful`).
-/

namespace Bindery.Json

/-! ## Blanks -/

theorem skipSpace_blank {before : List Char} (h : Blank before) (cs : List Char) :
    skipSpace (before ++ cs) = skipSpace cs := List.dropWhile_append_of_pos h

theorem skipSpace_cons {c : Char} (hc : isSpace c = false) (cs : List Char) : skipSpace (c :: cs) = c :: cs := by
  rw [skipSpace, List.dropWhile_cons, hc, if_neg Bool.false_ne_true]

/-- Blanks do not go on with a number. -/
theorem space_ends {c : Char} (h : isSpace c) : c.isDigit = false ∧ c ≠ '.' ∧ c ≠ 'e' ∧ c ≠ 'E' := by
  simp only [isSpace, Bool.or_eq_true, beq_iff_eq] at h
  obtain ((rfl | rfl) | rfl) | rfl := h <;> decide

theorem Blank.ends {behind : List Char} (h : Blank behind) : Ends behind := fun c hc =>
  space_ends (h c (List.mem_of_head? hc))

/-- Separators and closing brackets do not go on with a number, nor do blanks before them. -/
theorem ends_blank {behind : List Char} (h : Blank behind) {c : Char} (rest : List Char)
    (hc : c.isDigit = false ∧ c ≠ '.' ∧ c ≠ 'e' ∧ c ≠ 'E') : Ends (behind ++ c :: rest) := by
  cases behind with
  | nil =>
    rintro _ ⟨⟩
    exact hc
  | cons b behind =>
    rintro _ ⟨⟩
    exact space_ends (h b List.mem_cons_self)

/-! ## Strings -/

variable {t rest : List Char}

theorem length_le_utf8ByteSize (cs : List Char) : cs.length ≤ (String.ofList cs).utf8ByteSize := by
  induction cs with
  | nil => exact Nat.le_refl _
  | cons c cs ih =>
    have hpos := c.utf8Size_pos
    rw [String.ofList_cons, String.utf8ByteSize_append, String.utf8ByteSize_singleton, List.length_cons]
    omega

theorem hex4_append {ds : List Char} {n : Nat} (h : Hex4 ds n) (rest : List Char) :
    hex4 (ds ++ rest) = .ok (n, rest) := by
  obtain ⟨hlength, hnumber⟩ := h
  have hsize := length_le_utf8ByteSize ds
  unfold hex4
  simp only [List.take_left' hlength, List.drop_left' hlength, hnumber]
  rw [if_neg (by omega)]

theorem escaped_unicode {ds : List Char} {c : Char} (h : Hex4 ds c.toNat) (cs : List Char) :
    escaped ('u' :: (ds ++ cs)) = .ok (c, cs) := by
  have hscalar : c.toNat < 0xD800 ∨ 0xDFFF < c.toNat := by
    rcases c.valid with h | h
    · exact .inl h
    · exact .inr h.1
  simp only [escaped, hex4_append h cs, bind, Except.bind]
  rw [if_neg (by omega), if_neg (by omega), Char.ofNat_toNat]
  rfl

theorem escaped_pair {ds es : List Char} {high low : Nat} {c : Char} (hhigh : Hex4 ds high) (hlow : Hex4 es low)
    (hleading : 0xD800 ≤ high ∧ high ≤ 0xDBFF) (htrailing : 0xDC00 ≤ low ∧ low ≤ 0xDFFF)
    (hc : c.toNat = (high - 0xD800) * 0x400 + (low - 0xDC00) + 0x10000) (cs : List Char) :
    escaped ('u' :: (ds ++ '\\' :: 'u' :: (es ++ cs))) = .ok (c, cs) := by
  simp only [escaped, hex4_append hhigh, bind, Except.bind]
  rw [if_neg (by omega), if_pos hleading]
  simp only [trailingSurrogate, hex4_append hlow, bind, Except.bind]
  rw [if_pos htrailing, ← hc, Char.ofNat_toNat]
  rfl

/-- A character is read back from each of its spellings between quotes. -/
theorem stringChars_char {c : Char} (h : CharText t c) (budget : Nat) (cs : List Char) :
    stringChars (budget + 1) (t ++ cs) = (stringChars budget cs).map fun p => (c :: p.1, p.2) := by
  have hbind : ∀ x : Except Problem (List Char × List Char),
      (x >>= fun p => pure (c :: p.1, p.2)) = x.map fun p => (c :: p.1, p.2) := by
    intro x
    cases x <;> rfl
  have hescape : ∀ {more : List Char}, escaped (more ++ cs) = .ok (c, cs) →
      stringChars (budget + 1) ('\\' :: more ++ cs) = (stringChars budget cs).map fun p => (c :: p.1, p.2) := by
    intro more hmore
    rw [List.cons_append, stringChars, if_neg (by decide), if_pos rfl, hmore]
    exact hbind _
  cases h with
  | plain hquote hbackslash hcontrol =>
    rw [List.cons_append, List.nil_append, stringChars, if_neg hquote, if_neg hbackslash, if_neg (by omega)]
    exact hbind _
  | short h =>
    refine hescape ?_
    simp only [shortEscapes, List.mem_cons, Prod.mk.injEq, List.not_mem_nil, or_false] at h
    rcases h with ⟨rfl, rfl⟩ | ⟨rfl, rfl⟩ | ⟨rfl, rfl⟩ | ⟨rfl, rfl⟩ | ⟨rfl, rfl⟩ | ⟨rfl, rfl⟩ | ⟨rfl, rfl⟩ |
      ⟨rfl, rfl⟩ <;> rfl
  | unicode h => exact hescape (escaped_unicode h cs)
  | pair hhigh hlow hleading htrailing hc =>
    refine hescape ?_
    rw [List.cons_append, List.append_assoc]
    exact escaped_pair hhigh hlow hleading htrailing hc cs

theorem CharText.length_pos {c : Char} (h : CharText t c) : 0 < t.length := by
  cases h <;> exact Nat.succ_pos _

theorem CharsText.length_le {cs : List Char} (h : CharsText t cs) : cs.length < t.length := by
  induction h with
  | close => exact Nat.one_pos
  | char h _ ih =>
    have := h.length_pos
    rw [List.length_append, List.length_cons]
    omega

theorem stringChars_accepts {cs : List Char} (h : CharsText t cs) (rest : List Char) :
    ∀ {budget : Nat}, cs.length < budget → stringChars budget (t ++ rest) = .ok (cs, rest) := by
  induction h with
  | close =>
    intro budget hbudget
    cases budget with
    | zero => exact absurd hbudget (Nat.not_lt_zero _)
    | succ budget => rfl
  | char h _ ih =>
    intro budget hbudget
    cases budget with
    | zero => exact absurd hbudget (Nat.not_lt_zero _)
    | succ budget =>
      rw [List.append_assoc, stringChars_char h, ih (Nat.lt_of_succ_lt_succ hbudget)]
      rfl

/-- A string is read back from its characters, up to the closing quote. -/
theorem string_accepts {s : String} (h : CharsText t s.toList) (rest : List Char) :
    string (t ++ rest) = .ok (s, rest) := by
  have hlength := h.length_le
  unfold string
  rw [stringChars_accepts h rest (by rw [List.length_append]; omega)]
  change Except.ok (String.ofList s.toList, rest) = _
  rw [String.ofList_toList]

/-! ## Containers -/

/-- The text is neither empty nor does it begin with a blank or with a bracket that closes a list. -/
def Begins (t : List Char) : Prop := ∃ c cs, t = c :: cs ∧ isSpace c = false ∧ c ≠ ']'

/-- The reader passes over blanks, and then takes each of these texts for what it announces, whatever it is that
follows, if it does not go on with a number. -/
structure Reads (item : Parse Visit) (Value : List Char → Visit → Prop) : Prop where
  blank : ∀ {before : List Char} (cs : List Char), Blank before → item (before ++ cs) = item cs
  begins : ∀ {t : List Char} {v : Visit}, Value t v → Begins t
  reads : ∀ {t : List Char} {v : Visit} {rest : List Char}, Value t v → Ends rest → item (t ++ rest) = .ok (v, rest)

theorem Begins.skipSpace (h : Begins t) (cs : List Char) : skipSpace (t ++ cs) = t ++ cs := by
  obtain ⟨c, t, rfl, hspace, -⟩ := h
  exact skipSpace_cons hspace _

theorem Begins.ne (h : Begins t) (cs : List Char) : t ++ cs ≠ [] ∧ ∀ cs', t ++ cs ≠ ']' :: cs' := by
  obtain ⟨c, t, rfl, -, hclose⟩ := h
  exact ⟨List.cons_ne_nil _ _, fun cs' heq => hclose (List.cons.inj heq).1⟩

variable {item : Parse Visit} {Value : List Char → Visit → Prop} (hitem : Reads item Value)
include hitem

/-- Items begin as the first of them does. -/
theorem items_begin {vs : List Visit} (h : ItemsText Value t vs) (rest : List Char) :
    skipSpace (t ++ rest) ≠ [] ∧ ∀ cs, skipSpace (t ++ rest) ≠ ']' :: cs := by
  cases h with
  | last hbefore h hbehind | more hbefore h hbehind _ =>
    have hbegins := hitem.begins h
    rw [List.append_assoc, List.append_assoc, List.append_assoc, skipSpace_blank hbefore, hbegins.skipSpace]
    exact hbegins.ne _

theorem length_le_items {vs : List Visit} (h : ItemsText Value t vs) (rest : List Char) :
    vs.length ≤ (skipSpace (t ++ rest)).length := by
  induction h with
  | last hbefore h _ =>
    have hbegins := hitem.begins h
    rw [List.append_assoc, List.append_assoc, List.append_assoc, skipSpace_blank hbefore, hbegins.skipSpace]
    exact List.length_pos_iff.2 (hbegins.ne _).1
  | @more before t behind ts v vs hbefore h _ _ ih =>
    have hshorter : (skipSpace (ts ++ rest)).length ≤ (ts ++ rest).length := List.length_dropWhile_le _ _
    rw [List.append_assoc, List.append_assoc, List.append_assoc, skipSpace_blank hbefore,
      (hitem.begins h).skipSpace]
    simp only [List.length_append, List.length_cons, List.cons_append] at ih hshorter ⊢
    omega

theorem items_accepts {vs : List Visit} (h : ItemsText Value t vs) (rest : List Char) :
    ∀ {budget : Nat}, vs.length ≤ budget → items item budget (skipSpace (t ++ rest)) = .ok (vs, rest) := by
  induction h with
  | @last before t behind v hbefore h hbehind =>
    intro budget hbudget
    obtain ⟨budget, rfl⟩ := Nat.exists_eq_add_of_le' hbudget
    have hread := hitem.reads h (ends_blank hbehind rest (c := ']') (by decide))
    have hclose : skipSpace (behind ++ ']' :: rest) = ']' :: rest := skipSpace_blank hbehind _
    rw [List.append_assoc, List.append_assoc, List.append_assoc, List.singleton_append, skipSpace_blank hbefore,
      (hitem.begins h).skipSpace]
    simp only [List.length_singleton, items, hread, hclose, bind, Except.bind]
    rfl
  | @more before t behind ts v vs hbefore h hbehind hs ih =>
    intro budget hbudget
    obtain ⟨budget, rfl⟩ := Nat.exists_eq_add_of_le' (Nat.le_of_add_left_le hbudget)
    have hread := hitem.reads h (ends_blank hbehind (ts ++ rest) (c := ',') (by decide))
    have hcomma : skipSpace (behind ++ ',' :: (ts ++ rest)) = ',' :: (ts ++ rest) := skipSpace_blank hbehind _
    have hmore := @ih budget (by rw [List.length_cons] at hbudget; omega)
    obtain ⟨hne, hopen⟩ := items_begin hitem hs rest
    rw [List.append_assoc, List.append_assoc, List.append_assoc, List.cons_append, skipSpace_blank hbefore,
      (hitem.begins h).skipSpace]
    -- Neither the end nor a closing bracket follows the comma, `hne` and `hopen`.
    simp only [items, hread, hcomma, bind, Except.bind]
    rw [hmore]
    rfl

/-- An array is read item by item. -/
theorem array_accepts {vs : List Visit} (h : ItemsText Value t vs) (rest : List Char) :
    array item (t ++ rest) = .ok (.sequence vs, rest) := by
  obtain ⟨hne, hopen⟩ := items_begin hitem h rest
  have hitems := items_accepts hitem h rest (Nat.le_succ_of_le (length_le_items hitem h rest))
  unfold array
  split
  · next heq => exact absurd heq hne
  · next heq => exact absurd heq (hopen _)
  · rw [hitems]
    rfl

theorem member_accepts {m : String × Visit} (h : MemberText Value t m) (hrest : Ends rest) :
    ∃ k, t = '"' :: k ∧ member item (k ++ rest) = .ok (m, rest) := by
  cases h with
  | @keyed _ colon before t key v hkey hcolon hbefore h =>
    cases hkey with
    | @quoted k _ hkey =>
      refine ⟨k ++ colon ++ ':' :: (before ++ t), by simp, ?_⟩
      have hread := hitem.reads h hrest
      have hskip : skipSpace (colon ++ ':' :: (before ++ (t ++ rest))) = ':' :: (before ++ (t ++ rest)) :=
        skipSpace_blank hcolon _
      have hblank := hitem.blank (t ++ rest) hbefore
      simp only [List.append_assoc, List.cons_append, member, string_accepts hkey, hskip, hblank, hread, bind,
        Except.bind]
      rfl

/-- Members begin with the quote of the first key. -/
theorem members_begin {ms : List (String × Visit)} (h : MembersText Value t ms) (rest : List Char) :
    ∃ cs, skipSpace (t ++ rest) = '"' :: cs ∧ ms.length ≤ cs.length := by
  have hquote : ∀ {before t : List Char} {m : String × Visit} (cs : List Char), Blank before →
      MemberText Value t m → ∃ k, skipSpace (before ++ t ++ cs) = '"' :: (k ++ cs) := by
    intro before t m cs hbefore h
    obtain ⟨k, rfl, -⟩ := member_accepts hitem h (nofun : Ends [])
    exact ⟨k, by rw [List.append_assoc, skipSpace_blank hbefore]; rfl⟩
  induction h with
  | @last before t behind m hbefore h _ =>
    obtain ⟨k, hk⟩ := hquote (behind ++ '}' :: rest) hbefore h
    refine ⟨_, by simpa using hk, ?_⟩
    simp
    omega
  | @more before t behind ts m ms hbefore h _ _ ih =>
    obtain ⟨k, hk⟩ := hquote (behind ++ ',' :: (ts ++ rest)) hbefore h
    obtain ⟨cs, hcs, hlength⟩ := ih
    have hshorter : (skipSpace (ts ++ rest)).length ≤ (ts ++ rest).length := List.length_dropWhile_le _ _
    refine ⟨_, by simpa using hk, ?_⟩
    rw [hcs] at hshorter
    simp only [List.length_append, List.length_cons] at hlength hshorter ⊢
    omega

theorem members_accepts {ms : List (String × Visit)} (h : MembersText Value t ms) (rest : List Char) :
    ∀ {budget : Nat} {cs : List Char}, ms.length ≤ budget → skipSpace (t ++ rest) = '"' :: cs →
      members item budget cs = .ok (ms, rest) := by
  have hmember : ∀ {before t more cs : List Char} {m : String × Visit}, Blank before → MemberText Value t m →
      Ends more → skipSpace (before ++ (t ++ more)) = '"' :: cs → member item cs = .ok (m, more) := by
    intro before t more cs m hbefore h hmore hcs
    obtain ⟨k, rfl, hk⟩ := member_accepts hitem h hmore
    rw [skipSpace_blank hbefore] at hcs
    cases hcs
    exact hk
  induction h with
  | @last before t behind m hbefore h hbehind =>
    intro budget cs hbudget hcs
    obtain ⟨budget, rfl⟩ := Nat.exists_eq_add_of_le' hbudget
    have hclose : skipSpace (behind ++ '}' :: rest) = '}' :: rest := skipSpace_blank hbehind _
    rw [List.append_assoc, List.append_assoc, List.append_assoc] at hcs
    have hread := hmember hbefore h (ends_blank hbehind rest (c := '}') (by decide)) hcs
    simp only [List.length_singleton, members, hread, hclose, bind, Except.bind]
    rfl
  | @more before t behind ts m ms hbefore h hbehind hs ih =>
    intro budget cs hbudget hcs
    obtain ⟨budget, rfl⟩ := Nat.exists_eq_add_of_le' (Nat.le_of_add_left_le hbudget)
    have hcomma : skipSpace (behind ++ ',' :: (ts ++ rest)) = ',' :: (ts ++ rest) := skipSpace_blank hbehind _
    obtain ⟨cs', hquote, -⟩ := members_begin hitem hs rest
    have hmore := @ih budget _ (by rw [List.length_cons] at hbudget; omega) hquote
    rw [List.append_assoc, List.append_assoc, List.append_assoc, List.cons_append] at hcs
    have hread := hmember hbefore h (ends_blank hbehind (ts ++ rest) (c := ',') (by decide)) hcs
    simp only [members, hread, hcomma, hquote, hmore, bind, Except.bind]
    rfl

/-- An object is read member by member. -/
theorem object_accepts {ms : List (String × Visit)} (h : MembersText Value t ms) (rest : List Char) :
    object item (t ++ rest) = .ok (.entries ms, rest) := by
  obtain ⟨cs, hcs, hlength⟩ := members_begin hitem h rest
  have hmembers := members_accepts hitem h rest (Nat.le_succ_of_le hlength) hcs
  simp only [object, hcs, hmembers, bind, Except.bind]
  rfl

omit hitem

/-! ## Documents -/

theorem value_blank (depth : Nat) {before : List Char} (cs : List Char) (h : Blank before) :
    value depth (before ++ cs) = value depth cs := by
  unfold value
  rw [skipSpace_blank h]

theorem value_array (depth : Nat) (cs : List Char) : value (depth + 1) ('[' :: cs) = array (value depth) cs := by
  conv_lhs => unfold value
  rfl

theorem value_object (depth : Nat) (cs : List Char) : value (depth + 1) ('\x7b' :: cs) = object (value depth) cs := by
  conv_lhs => unfold value
  rfl

theorem value_string (depth : Nat) (cs : List Char) :
    value depth ('"' :: cs) = (string cs).map fun p => (.text p.1, p.2) := by
  unfold value
  change (string cs >>= fun p => pure (Visit.text p.1, p.2)) = _
  cases string cs <;> rfl

theorem scalar_begins {v : Visit} (h : ScalarText Numeral.nearest? t v) : Begins t := by
  cases h with
  | null => exact ⟨'n', _, rfl, rfl, by decide⟩
  | true => exact ⟨'t', _, rfl, rfl, by decide⟩
  | false => exact ⟨'f', _, rfl, rfl, by decide⟩
  | number h _ =>
    obtain ⟨c, cs, hcs, hc⟩ := Numeral.chars_first h
    refine ⟨c, cs, hcs, ?_⟩
    rcases hc with rfl | hc
    · exact ⟨rfl, by decide⟩
    · exact ⟨isSpace_digit hc, ne_of_isDigit hc rfl⟩
  | string h =>
    cases h with
    | quoted _ => exact ⟨'"', _, rfl, rfl, by decide⟩

theorem scalar_accepts {v : Visit} (h : ScalarText Numeral.nearest? t v) (depth : Nat) (hrest : Ends rest) :
    value depth (t ++ rest) = .ok (v, rest) := by
  cases h with
  | null | true | false =>
    unfold value
    rfl
  | number h hv => exact value_number h hv depth hrest
  | string h =>
    cases h with
    | quoted h =>
      rw [List.cons_append, value_string, string_accepts h rest]
      rfl

theorem container_begins {v : Visit} (h : ContainerText Value t v) : Begins t := by
  cases h with
  | emptyArray _ | array _ => exact ⟨'[', _, rfl, rfl, by decide⟩
  | emptyObject _ | object _ => exact ⟨'\x7b', _, rfl, rfl, by decide⟩

theorem container_accepts {v : Visit} {depth : Nat} (hitem : Reads (value depth) Value)
    (h : ContainerText Value t v) (rest : List Char) : value (depth + 1) (t ++ rest) = .ok (v, rest) := by
  cases h with
  | @emptyArray inside h =>
    have hclose : skipSpace (inside ++ ']' :: rest) = ']' :: rest := skipSpace_blank h _
    rw [List.cons_append, List.append_assoc, value_array]
    simp only [List.singleton_append, array, hclose]
  | array h =>
    rw [List.cons_append, value_array]
    exact array_accepts hitem h rest
  | @emptyObject inside h =>
    have hclose : skipSpace (inside ++ '}' :: rest) = '}' :: rest := skipSpace_blank h _
    rw [List.cons_append, List.append_assoc, value_object]
    simp only [List.singleton_append, object, hclose]
  | object h =>
    rw [List.cons_append, value_object]
    exact object_accepts hitem h rest

/-- Values are read, however deeply they are nested below the bound. -/
theorem value_reads (depth : Nat) : Reads (value depth) (ValueText Numeral.nearest? depth) := by
  induction depth with
  | zero => exact ⟨fun cs h => value_blank 0 cs h, scalar_begins, fun h hrest => scalar_accepts h 0 hrest⟩
  | succ depth ih =>
    refine ⟨fun cs h => value_blank _ cs h, fun h => ?_, fun {t v rest} h hrest => ?_⟩
    · exact h.elim scalar_begins container_begins
    · rcases h with h | h
      · exact scalar_accepts h (depth + 1) hrest
      · exact container_accepts ih h rest

/-- The parser reads every document of the grammar. -/
theorem parse_document {text : String} {v : Visit} (h : Document Numeral.nearest? text v) : parse text = .ok v := by
  cases h with
  | @value before t behind _ hbefore h hbehind htext =>
    have hvalue : document text.toList = .ok (v, behind) := by
      rw [htext, List.append_assoc]
      exact (value_blank maxDepth _ hbefore).trans ((value_reads maxDepth).reads h hbehind.ends)
    have hending := skipSpace_blank hbehind []
    rw [List.append_nil] at hending
    simp only [parse, hvalue, ending, hending, bind, Except.bind]
    rfl

/-- Integers are spelled in decimal, and documents are read. -/
theorem standard_lawful : standard.Lawful Numeral.nearest? where
  integer _ := rfl
  read {text v} h := by
    change (parse text).mapError Problem.text = _
    rw [parse_document h]
    rfl

end Bindery.Json
