import Bindery.Json.Standard
import Bindery.Proofs.Shortest
/-!
# Numbers in JSON text

The parser takes a literal apart into the parts that it is made of, whatever follows it in a document
(`Json.number_chars`), and announces what the grammar says (`Json.value_number`). Integers, and the shortest digits
of a finite double in every layout, are literals (`Json.integerNumeral_chars`, `Json.write_spells`); the double is
the one nearest to its literal, so the standard library restores it (`Json.standard_restores`).
-/

namespace Bindery.Json

open Decimal (Leading)

/-! ## Digits -/

/-- What follows a number does not go on with it. -/
def Ends (rest : List Char) : Prop :=
  ∀ c, rest.head? = some c → c.isDigit = false ∧ c ≠ '.' ∧ c ≠ 'e' ∧ c ≠ 'E'

/-- What follows some digits is no digit. -/
def NoDigit (rest : List Char) : Prop := ∀ c, rest.head? = some c → c.isDigit = false

theorem Ends.noDigit {rest : List Char} (h : Ends rest) : NoDigit rest := fun c hc => (h c hc).1

theorem digits_append {ds rest : List Char} (h : ∀ c ∈ ds, c.isDigit) (hrest : NoDigit rest) :
    digits (ds ++ rest) = (ds, rest) := by
  have hnone : rest.takeWhile Char.isDigit = [] ∧ rest.dropWhile Char.isDigit = rest := by
    cases rest with
    | nil => exact ⟨rfl, rfl⟩
    | cons c cs => simp [hrest c rfl]
  unfold digits
  rw [List.takeWhile_append_of_pos h, List.dropWhile_append_of_pos h, hnone.1, hnone.2, List.append_nil]

theorem wholePart_append {ds rest : List Char} (h : Digits ds) (hleading : ∀ cs, ds = '0' :: cs → cs = [])
    (hrest : NoDigit rest) : wholePart (ds ++ rest) = .ok (ds, rest) := by
  have hdigits := digits_append h.2 hrest
  cases ds with
  | nil => exact absurd rfl h.1
  | cons c cs =>
    have hdigit : c.isDigit = true := h.2 c List.mem_cons_self
    by_cases hc : c = '0'
    · subst hc
      rw [hleading cs rfl]
      cases rest with
      | nil => rfl
      | cons d _ => simp [wholePart, hrest d rfl]
    · rw [List.cons_append] at hdigits ⊢
      unfold wholePart
      split
      · next heq => cases heq
      · next heq => cases heq; exact absurd rfl hc
      · next heq =>
        cases heq
        rw [if_pos hdigit, hdigits]

theorem fractionPart_point {ds rest : List Char} (h : Digits ds) (hrest : NoDigit rest) :
    fractionPart ('.' :: (ds ++ rest)) = .ok (some ds, rest) := by
  cases ds with
  | nil => exact absurd rfl h.1
  | cons c cs => simp only [fractionPart, digits_append h.2 hrest]

theorem fractionPart_none {rest : List Char} (h : ∀ c, rest.head? = some c → c ≠ '.') :
    fractionPart rest = .ok (none, rest) := by
  unfold fractionPart
  split
  · exact absurd rfl (h '.' rfl)
  · rfl

theorem exponentDigits_append (mark : List Char) {ds rest : List Char} (h : Digits ds) (hrest : NoDigit rest) :
    exponentDigits mark (ds ++ rest) = .ok (some (mark, ds), rest) := by
  unfold exponentDigits
  rw [digits_append h.2 hrest]
  cases ds with
  | nil => exact absurd rfl h.1
  | cons c cs => rfl

theorem ne_of_isDigit {c d : Char} (hc : c.isDigit) (hd : d.isDigit = false) : c ≠ d := by
  rintro rfl
  exact Bool.false_ne_true (hd.symm.trans hc)

/-- Digits do not begin with a sign. -/
theorem digits_ne_sign {ds rest cs : List Char} {c : Char} (h : Digits ds) (hc : c.isDigit = false) :
    ds ++ rest ≠ c :: cs := by
  obtain ⟨hne, hall⟩ := h
  cases ds with
  | nil => exact absurd rfl hne
  | cons d ds =>
    intro heq
    exact ne_of_isDigit (hall d List.mem_cons_self) hc (List.cons.inj heq).1

theorem exponentPart_unsigned {c : Char} {ds rest : List Char} (hc : c = 'e' ∨ c = 'E') (h : Digits ds)
    (hrest : NoDigit rest) : exponentPart (c :: (ds ++ rest)) = .ok (some ([c], ds), rest) := by
  simp only [exponentPart, if_pos hc]
  split
  · next heq => exact absurd heq (digits_ne_sign h rfl)
  · next heq => exact absurd heq (digits_ne_sign h rfl)
  · exact exponentDigits_append [c] h hrest

theorem exponentPart_mark {mark ds rest : List Char} (hmark : mark ∈ exponentMarks) (h : Digits ds)
    (hrest : NoDigit rest) : exponentPart (mark ++ (ds ++ rest)) = .ok (some (mark, ds), rest) := by
  simp only [exponentMarks, List.mem_cons, List.not_mem_nil, or_false] at hmark
  rcases hmark with rfl | rfl | rfl | rfl | rfl | rfl
  · exact exponentPart_unsigned (.inl rfl) h hrest
  · exact exponentPart_unsigned (.inr rfl) h hrest
  all_goals exact exponentDigits_append _ h hrest

theorem exponentPart_none {rest : List Char} (h : Ends rest) : exponentPart rest = .ok (none, rest) := by
  cases rest with
  | nil => rfl
  | cons c cs =>
    obtain ⟨-, -, he, hE⟩ := h c rfl
    simp [exponentPart, he, hE]

/-! ## Literals -/

/-- The characters of an exponent, none if there is none. -/
def exponentChars (exponent : Option (List Char × List Char)) : List Char :=
  (exponent.map fun e => e.1 ++ e.2).getD []

variable {l : Numeral} {v : Visit} {rest : List Char}

/-- An exponent, or what follows a number, does not go on with digits before it. -/
theorem exponentChars_ends (h : l.WellFormed) (hrest : Ends rest) :
    NoDigit (exponentChars l.exponent ++ rest) ∧
      ∀ c, (exponentChars l.exponent ++ rest).head? = some c → c ≠ '.' := by
  unfold exponentChars
  cases hexponent : l.exponent with
  | none => exact ⟨hrest.noDigit, fun c hc => (hrest c hc).2.1⟩
  | some e =>
    obtain ⟨mark, ds⟩ := e
    obtain ⟨hmark, -⟩ := h.exponent _ hexponent
    simp only [exponentMarks, List.mem_cons, List.not_mem_nil, or_false] at hmark
    rcases hmark with rfl | rfl | rfl | rfl | rfl | rfl
    all_goals
      constructor
      · rintro c ⟨⟩
        rfl
      · rintro c ⟨⟩
        decide

/-- A literal is taken apart into its parts. -/
theorem number_chars (h : l.WellFormed) (hv : l.announce? Numeral.nearest? = some v) (hrest : Ends rest) :
    number l.negative (l.whole ++ ((l.fraction.map ('.' :: ·)).getD [] ++ (exponentChars l.exponent ++ rest))) =
      .ok (v, rest) := by
  obtain ⟨hafter, hpoint⟩ := exponentChars_ends h hrest
  have hexponent : exponentPart (exponentChars l.exponent ++ rest) = .ok (l.exponent, rest) := by
    unfold exponentChars
    cases he : l.exponent with
    | none => exact exponentPart_none hrest
    | some e =>
      obtain ⟨hmark, hdigits⟩ := h.exponent e he
      rw [Option.map_some, Option.getD_some, List.append_assoc]
      exact exponentPart_mark hmark hdigits hrest.noDigit
  generalize exponentChars l.exponent ++ rest = after at *
  have hfraction : fractionPart ((l.fraction.map ('.' :: ·)).getD [] ++ after) = .ok (l.fraction, after) := by
    cases hf : l.fraction with
    | none => exact fractionPart_none hpoint
    | some ds => exact fractionPart_point (h.fraction ds hf) hafter
  have hbehind : NoDigit ((l.fraction.map ('.' :: ·)).getD [] ++ after) := by
    cases l.fraction with
    | none => exact hafter
    | some ds =>
      rintro c ⟨⟩
      rfl
  have hwhole := wholePart_append h.whole h.leading hbehind
  simp only [number, hwhole, hfraction, hexponent, bind, Except.bind, hv]
  rfl

theorem isSpace_digit {c : Char} (hc : c.isDigit) : isSpace c = false := by
  have hne : ∀ d : Char, d.isDigit = false → c ≠ d := fun d hd => ne_of_isDigit hc hd
  simp [isSpace, hne]

theorem value_minus (depth : Nat) (cs : List Char) : value depth ('-' :: cs) = number true cs := by
  unfold value
  rfl

theorem value_digit (depth : Nat) {c : Char} (cs : List Char) (hc : c.isDigit) :
    value depth (c :: cs) = number false (c :: cs) := by
  have hspace : skipSpace (c :: cs) = c :: cs := by
    rw [skipSpace, List.dropWhile_cons, isSpace_digit hc, if_neg Bool.false_ne_true]
  unfold value
  rw [hspace]
  split
  case h_9 heq =>
    cases heq
    rw [if_pos hc]
  all_goals
    next heq =>
      cases heq
      try exact absurd rfl (ne_of_isDigit hc rfl)

theorem Numeral.chars_append (l : Numeral) (rest : List Char) : l.chars ++ rest = (if l.negative then ['-'] else []) ++
    (l.whole ++ ((l.fraction.map ('.' :: ·)).getD [] ++ (exponentChars l.exponent ++ rest))) := by
  simp [chars, exponentChars, List.append_assoc]

/-- A literal begins with its sign or with a digit. -/
theorem Numeral.chars_first (h : l.WellFormed) : ∃ c cs, l.chars = c :: cs ∧ (c = '-' ∨ c.isDigit) := by
  rw [← List.append_nil l.chars, chars_append]
  cases l.negative with
  | true => exact ⟨_, _, rfl, .inl rfl⟩
  | false =>
    obtain ⟨hne, hall⟩ := h.whole
    cases hwhole : l.whole with
    | nil => exact absurd hwhole hne
    | cons c cs => exact ⟨c, _, rfl, .inr (hall c (hwhole ▸ List.mem_cons_self))⟩

/-- What is announced of a literal. -/
theorem value_number (h : l.WellFormed) (hv : l.announce? Numeral.nearest? = some v) (depth : Nat)
    (hrest : Ends rest) : value depth (l.chars ++ rest) = .ok (v, rest) := by
  have hnumber := number_chars h hv hrest
  rw [Numeral.chars_append]
  cases hnegative : l.negative with
  | true =>
    rw [hnegative] at hnumber
    exact (value_minus depth _).trans hnumber
  | false =>
    rw [hnegative] at hnumber
    obtain ⟨hne, hall⟩ := h.whole
    cases hwhole : l.whole with
    | nil => exact absurd hwhole hne
    | cons c cs =>
      rw [hwhole] at hnumber hall
      exact (value_digit depth _ (hall c List.mem_cons_self)).trans hnumber

/-! ## Layouts -/

theorem ofDigitChars_append_zeros (ds : List Char) (k : Nat) :
    Nat.ofDigitChars 10 (ds ++ List.replicate k '0') 0 = 10 ^ k * Nat.ofDigitChars 10 ds 0 := by
  rw [Nat.ofDigitChars_append, Nat.ofDigitChars_replicate_zero]

theorem isDigit_zeros (k : Nat) : ∀ c ∈ List.replicate k '0', c.isDigit := by
  intro c hc
  rw [List.eq_of_mem_replicate hc]
  rfl

theorem digits_toDigits (n : Nat) : Digits (Nat.toDigits 10 n) :=
  ⟨Nat.toDigits_ne_nil, fun _ hc => Nat.isDigit_of_mem_toDigits (by decide) (by decide) hc⟩

theorem leading_append {ds es : List Char} (h : Leading ds) (hes : ∀ c ∈ es, c.isDigit) : Leading (ds ++ es) := by
  obtain ⟨hall, c, cs, rfl, hc⟩ := h
  refine ⟨?_, c, cs ++ es, rfl, hc⟩
  intro x hx
  rcases List.mem_append.1 hx with hx | hx
  · exact hall x hx
  · exact hes x hx

theorem leading_take {ds : List Char} (h : Leading ds) {k : Nat} (hk : 0 < k) : Leading (ds.take k) := by
  obtain ⟨hall, c, cs, rfl, hc⟩ := h
  refine ⟨fun x hx => hall x (List.mem_of_mem_take hx), c, cs.take (k - 1), ?_, hc⟩
  rw [List.take_cons hk]

/-- A literal whose whole part is a zero, or digits that do not begin with one. -/
theorem wellFormed_of {l : Numeral} (hwhole : l.whole = ['0'] ∨ Leading l.whole)
    (hfraction : ∀ ds, l.fraction = some ds → Digits ds)
    (hexponent : ∀ e, l.exponent = some e → e.1 ∈ exponentMarks ∧ Digits e.2) : l.WellFormed where
  whole := by
    rcases hwhole with hzero | ⟨hall, c, cs, hcs, -⟩
    · rw [hzero]
      exact ⟨List.cons_ne_nil _ _, isDigit_zeros 1⟩
    · exact ⟨hcs ▸ List.cons_ne_nil _ _, hall⟩
  leading ds hds := by
    rcases hwhole with hzero | ⟨-, c, cs, hcs, hc⟩
    · rw [hzero] at hds
      exact (List.cons.inj hds).2.symm
    · exact absurd (List.cons.inj (hcs.symm.trans hds)).1 hc
  fraction := hfraction
  exponent := hexponent

/-- An exponent as it is written: a minus if it is negative, and digits. -/
def exponentOf (i : Int) : List Char × List Char :=
  (if i < 0 then ['e', '-'] else ['e'], Nat.toDigits 10 i.natAbs)

theorem exponentOf_chars (i : Int) : (exponentOf i).1 ++ (exponentOf i).2 = 'e' :: DecimalLayout.signedDigits i := by
  unfold exponentOf DecimalLayout.signedDigits
  split <;> rfl

theorem exponentOf_wellFormed (i : Int) : (exponentOf i).1 ∈ exponentMarks ∧ Digits (exponentOf i).2 := by
  refine ⟨?_, digits_toDigits _⟩
  unfold exponentOf
  split <;> simp [exponentMarks]

theorem Numeral.scale_none (negative : Bool) (whole : List Char) (fraction : Option (List Char)) :
    Numeral.scale { negative, whole, fraction } = 0 := rfl

theorem exponentOf_scale (negative : Bool) (whole : List Char) (fraction : Option (List Char)) (i : Int) :
    Numeral.scale { negative, whole, fraction, exponent := some (exponentOf i) } = i := by
  simp only [Numeral.scale, exponentOf, Nat.ofDigitChars_ten_toDigits]
  split
  · rw [if_pos (by decide)]
    omega
  · rw [if_neg (by decide)]
    omega

/-- The characters are those of an unsigned literal of this value, which is no integer literal. -/
structure Spells (cs : List Char) (l : Numeral) (x : ℚ) : Prop where
  negative : l.negative = false
  chars : cs = l.chars
  wellFormed : l.WellFormed
  noInteger : l.isInteger = false
  value : (Nat.ofDigitChars 10 (l.whole ++ l.fraction.getD []) 0 : ℚ) *
    10 ^ (l.scale - (l.fraction.getD []).length) = x

section Layouts

variable {d : Decimal} {k : Nat} (h : Leading d.digits)
include h

/-- `0.`, zeros up to the first digit, and the digits. -/
theorem spells_below (hk : d.point = -(k : Int)) :
    Spells ('0' :: '.' :: (List.replicate k '0' ++ d.digits))
      { negative := false, whole := ['0'], fraction := some (List.replicate k '0' ++ d.digits) } d.value where
  negative := rfl
  chars := by simp [Numeral.chars]
  wellFormed := by
    refine wellFormed_of (.inl rfl) ?_ nofun
    rintro _ ⟨⟩
    obtain ⟨hall, c, cs, hcs, -⟩ := h
    refine ⟨by simp [hcs], fun x hx => ?_⟩
    rcases List.mem_append.1 hx with hx | hx
    · exact isDigit_zeros k x hx
    · exact hall x hx
  noInteger := rfl
  value := by
    have hspelled : Nat.ofDigitChars 10 (['0'] ++ (List.replicate k '0' ++ d.digits)) 0 = d.spelled := by
      rw [Nat.ofDigitChars_append, Nat.ofDigitChars_append, Nat.ofDigitChars_replicate_zero]
      rfl
    rw [Option.getD_some, hspelled, Decimal.value]
    congr 2
    rw [Numeral.scale_none, List.length_append, List.length_replicate]
    omega

/-- All digits, zeros up to the point, and `.0`. -/
theorem spells_whole (hk : d.point = d.digits.length + (k : Int)) :
    Spells (d.digits ++ List.replicate k '0' ++ ['.', '0'])
      { negative := false, whole := d.digits ++ List.replicate k '0', fraction := some ['0'] } d.value where
  negative := rfl
  chars := by simp [Numeral.chars]
  wellFormed := by
    refine wellFormed_of (.inr (leading_append h (isDigit_zeros k))) ?_ nofun
    rintro _ ⟨⟩
    exact ⟨by simp, isDigit_zeros 1⟩
  noInteger := rfl
  value := by
    have hspelled : Nat.ofDigitChars 10 (d.digits ++ List.replicate k '0' ++ ['0']) 0 = 10 ^ (k + 1) * d.spelled := by
      rw [List.append_assoc, ← List.replicate_succ', ofDigitChars_append_zeros]
      rfl
    rw [Option.getD_some, hspelled, Decimal.value]
    push_cast
    rw [← zpow_natCast, mul_right_comm, ← zpow_add₀ (by norm_num), mul_comm]
    congr 2
    simp only [Numeral.scale_none, List.length_cons, List.length_nil]
    omega

/-- The digits with the point inside. -/
theorem spells_split (hk : d.point = (k : Int)) (hpos : 0 < k) (hlength : k < d.digits.length) :
    Spells (d.digits.take k ++ '.' :: d.digits.drop k)
      { negative := false, whole := d.digits.take k, fraction := some (d.digits.drop k) } d.value where
  negative := rfl
  chars := by simp [Numeral.chars]
  wellFormed := by
    refine wellFormed_of (.inr (leading_take h hpos)) ?_ nofun
    rintro _ ⟨⟩
    refine ⟨fun hnil => ?_, fun c hc => h.1 c (List.mem_of_mem_drop hc)⟩
    exact absurd (List.drop_eq_nil_iff.1 hnil) (Nat.not_le_of_lt hlength)
  noInteger := rfl
  value := by
    rw [Option.getD_some, List.take_append_drop, Decimal.value, Decimal.spelled]
    congr 2
    rw [Numeral.scale_none, List.length_drop]
    omega

/-- One digit and an exponent. -/
theorem spells_digit {c : Char} (hc : d.digits = [c]) :
    Spells (c :: 'e' :: DecimalLayout.signedDigits (d.point - 1))
      { negative := false, whole := [c], exponent := some (exponentOf (d.point - 1)) } d.value where
  negative := rfl
  chars := by simp [Numeral.chars, ← exponentOf_chars]
  wellFormed := by
    refine wellFormed_of (.inr (hc ▸ h)) nofun ?_
    rintro _ ⟨⟩
    exact exponentOf_wellFormed _
  noInteger := rfl
  value := by
    rw [exponentOf_scale]
    simp [Decimal.value, Decimal.spelled, hc]

/-- One digit, the others behind the point, and an exponent. -/
theorem spells_scientific {c c' : Char} {cs : List Char} (hc : d.digits = c :: c' :: cs) :
    Spells (c :: '.' :: (c' :: cs ++ 'e' :: DecimalLayout.signedDigits (d.point - 1)))
      { negative := false, whole := [c], fraction := some (c' :: cs), exponent := some (exponentOf (d.point - 1)) }
      d.value where
  negative := rfl
  chars := by simp [Numeral.chars, ← exponentOf_chars]
  wellFormed := by
    refine wellFormed_of (.inr ?_) ?_ ?_
    · have := leading_take h (k := 1) (by decide)
      rwa [hc] at this
    · rintro _ ⟨⟩
      exact ⟨by simp, fun x hx => h.1 x (hc ▸ List.mem_cons_of_mem _ hx)⟩
    · rintro _ ⟨⟩
      exact exponentOf_wellFormed _
  noInteger := rfl
  value := by
    rw [exponentOf_scale]
    simp only [Option.getD_some, Decimal.value, Decimal.spelled, hc, List.cons_append, List.nil_append]
    congr 2
    simp only [List.length_cons]
    omega

/-- A decimal is written as a literal of its value. -/
theorem write_spells : ∃ l, Spells (DecimalLayout.json.write d) l d.value := by
  unfold DecimalLayout.write
  simp only
  split
  · split
    · exact ⟨_, spells_below h (by omega)⟩
    · next hpoint =>
      split
      · next hdrop =>
        have hlength := List.drop_eq_nil_iff.1 hdrop
        rw [List.take_of_length_le hlength]
        exact ⟨_, spells_whole h (by omega)⟩
      · next hdrop =>
        have hlength : d.point.toNat < d.digits.length :=
          Nat.lt_of_not_le fun hle => hdrop (List.drop_eq_nil_iff.2 hle)
        rw [Nat.sub_eq_zero_of_le (Nat.le_of_lt hlength), List.replicate_zero, List.append_nil]
        exact ⟨_, spells_split h (by omega) (by omega) hlength⟩
  · obtain ⟨-, c, cs, hc, -⟩ := id h
    rw [hc]
    cases cs with
    | nil => exact ⟨_, spells_digit h hc⟩
    | cons c' cs => exact ⟨_, spells_scientific h hc⟩

end Layouts

/-! ## Numbers of the standard library -/

/-- A double is the one nearest to a literal. -/
theorem nearest?_eq {l : Numeral} {x : Binary64} (hfinite : x.isFinite)
    (h : Binary64.ofDecimal l.negative (Nat.ofDigitChars 10 (l.whole ++ l.fraction.getD []) 0)
      (l.scale - (l.fraction.getD []).length) = x) : l.nearest? = some x := by
  unfold Numeral.nearest?
  simp only
  rw [h, if_pos hfinite]

/-- Every finite double is restored. -/
theorem standard_restores {x : Binary64} (hfinite : x.isFinite) : standard.Restores Numeral.nearest? x := by
  have hmagnitude : x.magnitude < Binary64.format.infinity := by simpa [Binary64.isFinite] using hfinite
  change ∃ l : Numeral, _ ∧ _ ∧ x.finiteText .json = _ ∧ _
  unfold Binary64.finiteText
  simp only [String.ofList_inj]
  by_cases hzero : x.magnitude = 0
  · refine ⟨{ negative := x.negative, whole := ['0'], fraction := some ['0'] }, ?_, rfl, ?_, ?_⟩
    · refine wellFormed_of (.inl rfl) ?_ (by simp)
      intro ds hds
      rw [← Option.some.inj hds]
      exact ⟨List.cons_ne_nil _ _, isDigit_zeros 1⟩
    · rw [if_pos hzero]
      cases x.negative <;> rfl
    · refine nearest?_eq hfinite ?_
      have := x.ofParts_parts
      rw [hzero] at this
      exact this
  · rw [if_neg hzero]
    have hpos : 0 < x.magnitude := Nat.pos_of_ne_zero hzero
    obtain ⟨hnear, hleading⟩ := Decimal.shortest_near .even hpos
    obtain ⟨l, hspells⟩ := write_spells hleading
    rw [← hspells.value] at hnear
    have hdecimal := Binary64.ofDecimal_near x.negative hpos hmagnitude hnear
    rw [x.ofParts_parts] at hdecimal
    have hwell := hspells.wellFormed
    refine ⟨{ l with negative := x.negative }, ⟨hwell.whole, hwell.leading, hwell.fraction, hwell.exponent⟩,
      hspells.noInteger, ?_, nearest?_eq hfinite hdecimal⟩
    have hchars : DecimalLayout.json.write (Decimal.shortest Binary64.format DecimalLayout.json.tie x.magnitude) =
        l.chars := hspells.chars
    rw [hchars]
    simp only [Numeral.chars, hspells.negative]
    cases x.negative <;> rfl

end Bindery.Json
