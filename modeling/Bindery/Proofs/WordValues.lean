import Bindery.Proofs.Rounding
/-!
# What words stand for

`Binary64.value?` is the rational number that the 64 bits of a word denote. The magnitudes of a format stand for ever
larger numbers (`FloatFormat.value_strictMono`), so the numeric comparisons of words, which look at bits, compare what
the words stand for (`Binary64.numEq_iff`, `Binary64.numLe_iff`, `Binary64.numLt_iff`). An integer that some word
stands for is rounded to a word that stands for it (`Binary64.value?_ofInt`), and every integer of at most 53 leading
bits is one (`Binary64.exists_magnitude`).
-/

namespace Bindery

-- Powers are those of the core library, whatever else is in scope.
attribute [local instance (5000)] instPowNat

/-! ## Magnitudes -/

namespace FloatFormat

variable (f : FloatFormat)

/-- The number that a finite magnitude stands for. -/
def value (magnitude : Nat) : ℚ := f.significand magnitude * 2 ^ f.exponent magnitude

theorem value_eq_ratio (magnitude : Nat) :
    ((f.ratio magnitude).1 : ℚ) / (f.ratio magnitude).2 = f.value magnitude := by
  have := quotient_scaled (f.significand magnitude) 1 2 (by decide) (f.exponent magnitude)
  rw [Nat.one_mul, Nat.cast_one, div_one, Nat.cast_ofNat] at this
  exact this

theorem value_zero : f.value 0 = 0 := by
  simp [value, significand, f.hidden_pos]

/-- A larger magnitude stands for a larger number: either it has the same exponent and a larger significand, or a
larger exponent, and then its significand has a leading bit. -/
theorem value_strictMono : StrictMono f.value := by
  intro m n h
  have hm := f.magnitude_eq m
  have hn := f.magnitude_eq n
  have hmlt := f.significand_lt m
  have hmleast := f.leastExponent_le_exponent m
  have hnleast := f.leastExponent_le_exponent n
  have hunit : ∀ k : Int, (0 : ℚ) < 2 ^ k := fun k => zpow_pos (by norm_num) k
  have hle : f.exponent m ≤ f.exponent n := by
    unfold exponent
    have := Nat.div_le_div_right (c := f.hidden) (Nat.le_of_lt h)
    omega
  unfold value
  rcases Int.lt_or_eq_of_le hle with hlt | heq
  · have hleading : f.hidden ≤ f.significand n := f.hidden_le_significand (by omega)
    have hdouble : (f.significand m : ℚ) < f.significand n * 2 := by
      exact_mod_cast (by omega : f.significand m < f.significand n * 2)
    calc (f.significand m : ℚ) * 2 ^ f.exponent m
        < f.significand n * 2 * 2 ^ f.exponent m := mul_lt_mul_of_pos_right hdouble (hunit _)
      _ = f.significand n * 2 ^ (f.exponent m + 1) := by rw [zpow_add₀ (by norm_num), zpow_one]; ring
      _ ≤ f.significand n * 2 ^ f.exponent n :=
          mul_le_mul_of_nonneg_left (zpow_le_zpow_right₀ (by norm_num) hlt) (Nat.cast_nonneg _)
  · rw [heq] at hm ⊢
    have hsig : f.significand m < f.significand n := by omega
    exact mul_lt_mul_of_pos_right (by exact_mod_cast hsig) (hunit _)

theorem value_nonneg (magnitude : Nat) : 0 ≤ f.value magnitude := by
  have hunit : (0 : ℚ) < 2 ^ f.exponent magnitude := zpow_pos (by norm_num) _
  exact mul_nonneg (Nat.cast_nonneg _) hunit.le

variable {f} {magnitude : Nat}

theorem value_near : f.Near magnitude (f.value magnitude) := by
  have hunit : (0 : ℚ) < 2 ^ f.exponent magnitude := zpow_pos (by norm_num) _
  unfold value
  constructor
  · nlinarith
  · nlinarith
  · intro _
    constructor <;> nlinarith
  · intro _ _
    nlinarith

/-- What a magnitude stands for is rounded to it. -/
theorem roundRatio_value {num den : Nat} (hfinite : magnitude < f.infinity) (hd : 0 < den)
    (h : (num : ℚ) / den = f.value magnitude) : f.roundRatio num den = magnitude := by
  rcases Nat.eq_zero_or_pos magnitude with rfl | hpos
  · have hden : (den : ℚ) ≠ 0 := by exact_mod_cast Nat.ne_of_gt hd
    rw [value_zero, div_eq_zero_iff, or_iff_left hden] at h
    have hnum : num = 0 := by exact_mod_cast h
    exact if_pos hnum
  · exact roundRatio_near hpos hfinite hd (h ▸ value_near)

end FloatFormat

/-! ## Words -/

namespace Binary64

/-- The rational number that the 64 bits of a word denote: a sign, eleven bits of exponent and 52 of fraction. A
fraction without exponent has no leading bit, and the greatest exponent is that of the infinities and NaNs. -/
def value? (x : Binary64) : Option ℚ :=
  let sign : ℚ := if x.bits.toNat < 2 ^ 63 then 1 else -1
  let exponent : Nat := x.bits.toNat / 2 ^ 52 % 2 ^ 11
  let fraction : Nat := x.bits.toNat % 2 ^ 52
  if exponent = 2047 then none
  else if exponent = 0 then some (sign * fraction * 2 ^ (-1074 : Int))
  else some (sign * (2 ^ 52 + fraction) * 2 ^ ((exponent : Int) - 1075))

/-- The number at a place in numeric order. -/
def atPlace (p : Int) : ℚ := if p < 0 then -format.value p.natAbs else format.value p.natAbs

section Places

variable {p q : Int}

theorem atPlace_lt (h : p < q) : atPlace p < atPlace q := by
  have hmono := format.value_strictMono
  unfold atPlace
  rcases Int.lt_or_le p 0 with hp | hp
  · have hpos : 0 < format.value p.natAbs := format.value_zero ▸ hmono (by omega)
    rw [if_pos hp]
    split
    · exact neg_lt_neg (hmono (by omega))
    · linarith [format.value_nonneg q.natAbs]
  · rw [if_neg (by omega), if_neg (by omega)]
    exact hmono (by omega)

theorem atPlace_lt_iff : atPlace p < atPlace q ↔ p < q := StrictMono.lt_iff_lt fun _ _ => atPlace_lt

theorem atPlace_le_iff : atPlace p ≤ atPlace q ↔ p ≤ q := StrictMono.le_iff_le fun _ _ => atPlace_lt

theorem atPlace_inj : atPlace p = atPlace q ↔ p = q := (StrictMono.injective fun _ _ => atPlace_lt).eq_iff

end Places

theorem atPlace_place (x : Binary64) :
    atPlace x.place = (if x.negative then -1 else 1) * format.value x.magnitude := by
  unfold atPlace place
  cases x.negative with
  | false => simp
  | true =>
    rcases Nat.eq_zero_or_pos x.magnitude with h | h
    · simp [h, format.value_zero]
    · simp [h]

theorem abs_atPlace (x : Binary64) : |atPlace x.place| = format.value x.magnitude := by
  rw [atPlace_place, abs_mul, abs_of_nonneg (format.value_nonneg _)]
  cases x.negative <;> simp

/-- A word denotes what stands at its place. -/
theorem value?_eq (x : Binary64) : x.value? = if x.isFinite then some (atPlace x.place) else none := by
  have hlt := x.bits.toNat_lt
  have hexponent : x.bits.toNat / 2 ^ 52 % 2 ^ 11 = x.bits.toNat % 2 ^ 63 / 2 ^ 52 := by omega
  have hfraction : x.bits.toNat % 2 ^ 52 = x.bits.toNat % 2 ^ 63 % 2 ^ 52 := by omega
  have hnegative : (x.negative = true) ↔ 2 ^ 63 ≤ x.bits.toNat := decide_eq_true_iff
  have hfinite : (x.isFinite = true) ↔ x.bits.toNat % 2 ^ 63 < 2047 * 2 ^ 52 := decide_eq_true_iff
  have hsign : (if x.bits.toNat < 2 ^ 63 then 1 else -1 : ℚ) = if x.negative then -1 else 1 := by
    rcases Nat.lt_or_ge x.bits.toNat (2 ^ 63) with h | h
    · rw [if_pos h, if_neg (by rw [hnegative]; omega)]
    · rw [if_neg (by omega), if_pos (hnegative.2 h)]
  rw [atPlace_place]
  unfold value? magnitude FloatFormat.value FloatFormat.significand FloatFormat.exponent
  rw [hsign, hexponent, hfraction, show format.signWeight = 2 ^ 63 from rfl,
    show format.hidden = 2 ^ 52 from rfl, show format.leastExponent = -1074 from rfl]
  generalize x.bits.toNat % 2 ^ 63 = m at *
  simp only
  by_cases hspecial : m / 2 ^ 52 = 2047
  · rw [if_pos hspecial, if_neg (by rw [hfinite]; omega)]
  · rw [if_neg hspecial, if_pos (hfinite.2 (by omega))]
    by_cases hsmall : m / 2 ^ 52 = 0
    · have hm : m < 2 ^ 52 := by omega
      rw [if_pos hsmall, if_pos hm, hsmall, Nat.mod_eq_of_lt hm, mul_assoc]
      rfl
    · have hm : ¬ m < 2 ^ 52 := by omega
      rw [if_neg hsmall, if_neg hm]
      have hexp : ((m / 2 ^ 52 : Nat) : Int) - 1075 = -1074 + ((m / 2 ^ 52 - 1 : Nat) : Int) := by omega
      rw [hexp]
      push_cast
      ring_nf

theorem value?_eq_some_iff {x : Binary64} {q : ℚ} : x.value? = some q ↔ x.isFinite ∧ atPlace x.place = q := by
  rw [value?_eq]
  split <;> simp_all

/-! ## Comparisons -/

theorem not_isNaN {x : Binary64} (h : x.isFinite) : x.isNaN = false := by
  simp only [isFinite, isNaN, decide_eq_true_eq, decide_eq_false_iff_not] at h ⊢
  omega

theorem natAbs_place (x : Binary64) : x.place.natAbs = x.magnitude := by
  unfold place
  split <;> omega

theorem place_neg_iff {x : Binary64} (h : x.magnitude ≠ 0) : x.place < 0 ↔ x.negative := by
  unfold place
  cases x.negative with
  | false => simp
  | true =>
    simp only [if_true, iff_true]
    omega

/-- Two words share a place if they are one word or both zero. -/
theorem place_eq_iff (x y : Binary64) : x.place = y.place ↔ x = y ∨ x.magnitude = 0 ∧ y.magnitude = 0 := by
  constructor
  · intro h
    have hmagnitude : x.magnitude = y.magnitude := by rw [← natAbs_place, ← natAbs_place, h]
    by_cases hzero : x.magnitude = 0
    · exact .inr ⟨hzero, hmagnitude ▸ hzero⟩
    · have hnegative : x.negative = y.negative := by
        rw [Bool.eq_iff_iff, ← place_neg_iff hzero, ← place_neg_iff (hmagnitude ▸ hzero), h]
      rw [← ofParts_parts x, ← ofParts_parts y, hnegative, hmagnitude]
      exact .inl rfl
  · rintro (rfl | ⟨hx, hy⟩)
    · rfl
    · simp [place, hx, hy]

variable {x y : Binary64} {a b : ℚ}

theorem numEq_iff (hx : x.value? = some a) (hy : y.value? = some b) : x.numEq y ↔ a = b := by
  obtain ⟨hx, rfl⟩ := value?_eq_some_iff.1 hx
  obtain ⟨hy, rfl⟩ := value?_eq_some_iff.1 hy
  rw [atPlace_inj, place_eq_iff]
  simp [numEq, not_isNaN ‹x.isFinite›, not_isNaN ‹y.isFinite›]

theorem numLe_iff (hx : x.value? = some a) (hy : y.value? = some b) : x.numLe y ↔ a ≤ b := by
  obtain ⟨hx, rfl⟩ := value?_eq_some_iff.1 hx
  obtain ⟨hy, rfl⟩ := value?_eq_some_iff.1 hy
  rw [atPlace_le_iff]
  simp [numLe, not_isNaN ‹x.isFinite›, not_isNaN ‹y.isFinite›]

theorem numLt_iff (hx : x.value? = some a) (hy : y.value? = some b) : x.numLt y ↔ a < b := by
  obtain ⟨hx, rfl⟩ := value?_eq_some_iff.1 hx
  obtain ⟨hy, rfl⟩ := value?_eq_some_iff.1 hy
  rw [atPlace_lt_iff]
  simp [numLt, not_isNaN ‹x.isFinite›, not_isNaN ‹y.isFinite›]

/-- A word between finite words is finite. -/
theorem isFinite_of_between {low high : Binary64} (hlow : low.isFinite) (hhigh : high.isFinite) (h : low.numLe x)
    (h' : x.numLt high) : x.isFinite := by
  simp only [numLe, numLt, Bool.and_eq_true, decide_eq_true_eq] at h h'
  simp only [isFinite, decide_eq_true_eq, ← natAbs_place] at hlow hhigh ⊢
  omega

/-! ## Integers as words -/

/-- An integer of at most 53 leading bits is what some word stands for. -/
theorem exists_magnitude {s e : Nat} (hs : s < 2 ^ 53) (he : e ≤ 64) :
    ∃ m < format.infinity, format.value m = ((s * 2 ^ e : Nat) : ℚ) := by
  rcases Nat.eq_zero_or_pos s with rfl | hpos
  · exact ⟨0, by decide, by rw [format.value_zero, Nat.zero_mul, Nat.cast_zero]⟩
  have hlog : s.log2 ≤ 52 := Nat.le_of_lt_succ ((Nat.log2_lt (Nat.ne_of_gt hpos)).2 hs)
  have hhidden : format.hidden = 2 ^ 52 := rfl
  obtain ⟨hlow, hup⟩ := leading_bit hpos hlog
  obtain ⟨hsignificand, hexponent⟩ := format.parts_of_leading (n := s * 2 ^ (52 - s.log2)) (s.log2 + e + 1022)
    (by omega) (by omega)
  refine ⟨(s.log2 + e + 1022) * format.hidden + s * 2 ^ (52 - s.log2), ?_, ?_⟩
  · rw [hhidden, show format.infinity = 2047 * 2 ^ 52 from rfl]
    omega
  · have hunit : format.leastExponent + ((s.log2 + e + 1022 : Nat) : Int) = e - ((52 - s.log2 : Nat) : Int) := by
      rw [show format.leastExponent = -1074 from rfl]
      omega
    rw [FloatFormat.value, hsignificand, hexponent, hunit, zpow_sub₀ (by norm_num), zpow_natCast, zpow_natCast]
    push_cast
    field_simp

/-- An integer that some word stands for is written as a word that stands for it. -/
theorem value?_ofInt {i : Int} {m : Nat} (hm : m < format.infinity) (h : format.value m = (i.natAbs : ℚ)) :
    (ofInt i).value? = some (i : ℚ) := by
  have hweight : format.infinity < format.signWeight := by decide
  have hround : format.roundRatio i.natAbs 1 = m := by
    refine FloatFormat.roundRatio_value hm Nat.one_pos ?_
    rw [Nat.cast_one, div_one, h]
  obtain ⟨hnegative, hmagnitude⟩ := parts_ofParts (decide (i < 0)) (Nat.lt_trans hm hweight)
  have hword : ofInt i = ofParts (decide (i < 0)) m := by rw [ofInt, ofRatio, hround]
  rw [value?_eq_some_iff, atPlace_place, hword, isFinite, hnegative, hmagnitude, h]
  refine ⟨decide_eq_true hm, ?_⟩
  rw [← Int.cast_natCast, Int.natCast_natAbs]
  rcases Int.lt_or_le i 0 with hi | hi
  · simp [hi, abs_of_neg hi]
  · simp [not_lt.2 hi, abs_of_nonneg hi]

end Binary64
end Bindery
