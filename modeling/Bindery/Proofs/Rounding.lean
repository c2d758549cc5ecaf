import Bindery.Proofs.Numbers
import Mathlib.Algebra.Order.Field.Rat
import Mathlib.Algebra.Order.Field.Power
import Mathlib.Data.Rat.Cast.Order
import Mathlib.Tactic.Linarith
import Mathlib.Tactic.FieldSimp
import Mathlib.Tactic.Ring
import Mathlib.Tactic.NormNum
/-!
# What rounds to a word

`FloatFormat.Near f g x` says that the number `x` lies between the midpoints around the magnitude `g`, at
one of them only if the significand of `g` is even. Every quotient near a finite magnitude is rounded to it
(`FloatFormat.roundRatio_near`).
-/

namespace Bindery

-- Powers are those of the core library, whatever else is in scope.
attribute [local instance (5000)] instPowNat

/-! ## Quotients and powers -/

/-- A power with an exponent of either sign, as a quotient of naturals. -/
theorem zpow_eq_toNat {a : Nat} (ha : 0 < a) (k : Int) :
    (a : ℚ) ^ k = ((a ^ k.toNat : Nat) : ℚ) / ((a ^ (-k).toNat : Nat) : ℚ) := by
  have ha : (a : ℚ) ≠ 0 := by exact_mod_cast Nat.ne_of_gt ha
  rw [Nat.cast_pow, Nat.cast_pow, ← zpow_natCast, ← zpow_natCast, ← zpow_sub₀ ha]
  congr 1
  omega

theorem quotient_scaled (num den a : Nat) (ha : 0 < a) (k : Int) :
    ((num * a ^ k.toNat : Nat) : ℚ) / ((den * a ^ (-k).toNat : Nat) : ℚ) = num / den * (a : ℚ) ^ k := by
  rw [zpow_eq_toNat ha, Nat.cast_mul, Nat.cast_mul, mul_div_mul_comm]

/-- A positive natural lies between two neighbouring powers of two. -/
theorem log2_spec {n : Nat} (hn : 0 < n) :
    (2 : ℚ) ^ (n.log2 : Int) ≤ n ∧ (n : ℚ) < 2 ^ ((n.log2 : Int) + 1) := by
  have hlow := Nat.log2_self_le (Nat.ne_of_gt hn)
  have hup := Nat.lt_log2_self (n := n)
  constructor
  · rw [zpow_natCast]
    exact_mod_cast hlow
  · rw [← Int.natCast_succ, zpow_natCast]
    exact_mod_cast hup

theorem floorLog2_spec {num den : Nat} (hn : 0 < num) (hd : 0 < den) :
    (2 : ℚ) ^ floorLog2 num den ≤ num / den ∧ (num : ℚ) / den < 2 ^ (floorLog2 num den + 1) := by
  have hd' : (0 : ℚ) < den := by exact_mod_cast hd
  have hpow : ∀ k : Int, (0 : ℚ) < 2 ^ k := fun k => zpow_pos (by norm_num) k
  obtain ⟨hnlow, hnup⟩ := log2_spec hn
  obtain ⟨hdlow, hdup⟩ := log2_spec hd
  unfold floorLog2
  simp only
  generalize (num.log2 : Int) = a at *
  generalize (den.log2 : Int) = b at *
  have hlow : (2 : ℚ) ^ (a - b - 1) ≤ num / den := by
    rw [le_div_iff₀ hd']
    calc (2 : ℚ) ^ (a - b - 1) * den ≤ 2 ^ (a - b - 1) * 2 ^ (b + 1) := by
          exact mul_le_mul_of_nonneg_left hdup.le (hpow _).le
      _ = 2 ^ a := by rw [← zpow_add₀ (by norm_num)]; congr 1; omega
      _ ≤ num := hnlow
  have hup : (num : ℚ) / den < 2 ^ (a - b + 1) := by
    rw [div_lt_iff₀ hd']
    calc (num : ℚ) < 2 ^ (a + 1) := hnup
      _ = 2 ^ (a - b + 1) * 2 ^ b := by rw [← zpow_add₀ (by norm_num)]; congr 1; omega
      _ ≤ 2 ^ (a - b + 1) * den := mul_le_mul_of_nonneg_left hdlow (hpow _).le
  have htest : den * 2 ^ (a - b).toNat ≤ num * 2 ^ (-(a - b)).toNat ↔ (2 : ℚ) ^ (a - b) ≤ num / den := by
    have hpos : (0 : ℚ) < ((2 ^ (-(a - b)).toNat : Nat) : ℚ) := by exact_mod_cast Nat.two_pow_pos _
    have := zpow_eq_toNat (a := 2) (by decide) (a - b)
    rw [Nat.cast_ofNat] at this
    rw [this, div_le_div_iff₀ hpos hd', mul_comm]
    exact_mod_cast Iff.rfl
  split
  · next h => exact ⟨htest.1 h, hup⟩
  · next h =>
    rw [sub_add_cancel]
    exact ⟨hlow, lt_of_not_ge fun hle => h (htest.2 hle)⟩

theorem floorLog2_eq {num den : Nat} (hn : 0 < num) (hd : 0 < den) {k : Int} (hlow : (2 : ℚ) ^ k ≤ num / den)
    (hup : (num : ℚ) / den < 2 ^ (k + 1)) : floorLog2 num den = k := by
  obtain ⟨hlow', hup'⟩ := floorLog2_spec hn hd
  have h₁ := (zpow_lt_zpow_iff_right₀ (by norm_num : (1 : ℚ) < 2)).1 (hlow.trans_lt hup')
  have h₂ := (zpow_lt_zpow_iff_right₀ (by norm_num : (1 : ℚ) < 2)).1 (hlow'.trans_lt hup)
  omega

/-- What lies within half a unit of a natural is rounded to it; at a midpoint, if it is even. -/
theorem roundHalfEven_near {num den m : Nat} (hd : 0 < den) (hlow : (m : ℚ) - 1 / 2 ≤ num / den)
    (hup : (num : ℚ) / den ≤ m + 1 / 2)
    (hodd : m % 2 = 1 → (m : ℚ) - 1 / 2 < num / den ∧ (num : ℚ) / den < m + 1 / 2) :
    roundHalfEven num den = m := by
  have hd' : (0 : ℚ) < den := by exact_mod_cast hd
  have hleast : 2 * (m * den) ≤ 2 * num + den := by
    rw [le_div_iff₀ hd'] at hlow
    have : (2 : ℚ) * (m * den) ≤ 2 * num + den := by linarith
    exact_mod_cast this
  have hmost : 2 * num ≤ 2 * (m * den) + den := by
    rw [div_le_iff₀ hd'] at hup
    have : (2 : ℚ) * num ≤ 2 * (m * den) + den := by linarith
    exact_mod_cast this
  have hmiddle : m % 2 = 1 → 2 * (m * den) < 2 * num + den ∧ 2 * num < 2 * (m * den) + den := by
    intro hm
    obtain ⟨h₁, h₂⟩ := hodd hm
    rw [lt_div_iff₀ hd'] at h₁
    rw [div_lt_iff₀ hd'] at h₂
    have h₁ : (2 : ℚ) * (m * den) < 2 * num + den := by linarith
    have h₂ : (2 : ℚ) * num < 2 * (m * den) + den := by linarith
    exact ⟨by exact_mod_cast h₁, by exact_mod_cast h₂⟩
  have hmod := Nat.mod_lt num hd
  have hdiv := Nat.div_add_mod' num den
  unfold roundHalfEven
  simp only
  generalize num / den = q at *
  generalize num % den = r at *
  -- The quotient is `m`, or `m - 1` if what is left over is at least half.
  have hle : q ≤ m := by
    by_contra hlt
    have := Nat.mul_le_mul_right den (Nat.succ_le_of_lt (Nat.lt_of_not_le hlt))
    rw [Nat.succ_mul] at this
    omega
  have hge : m ≤ q + 1 := by
    by_contra hlt
    have := Nat.mul_le_mul_right den (Nat.succ_le_of_lt (Nat.lt_of_not_le hlt))
    rw [Nat.succ_mul, Nat.succ_mul] at this
    omega
  rcases Nat.lt_or_ge q m with hlt | hge'
  · obtain rfl : m = q + 1 := by omega
    rw [Nat.succ_mul q] at hleast hmost hmiddle
    rw [if_pos]
    omega
  · obtain rfl : m = q := by omega
    rw [if_neg]
    omega

/-! ## Near a word -/

namespace FloatFormat

variable (f : FloatFormat)

theorem significand_pos {magnitude : Nat} (h : 0 < magnitude) : 0 < f.significand magnitude := by
  have := f.hidden_pos
  unfold significand
  split <;> omega

/-- The numbers that round to a magnitude. Below a power of two the spacing halves, so the midpoint below it
is nearer. -/
structure Near (magnitude : Nat) (x : ℚ) : Prop where
  above : ((f.significand magnitude : ℚ) - 1 / 2) * 2 ^ f.exponent magnitude ≤ x
  below : x ≤ ((f.significand magnitude : ℚ) + 1 / 2) * 2 ^ f.exponent magnitude
  strict : f.significand magnitude % 2 = 1 →
    ((f.significand magnitude : ℚ) - 1 / 2) * 2 ^ f.exponent magnitude < x ∧
      x < ((f.significand magnitude : ℚ) + 1 / 2) * 2 ^ f.exponent magnitude
  power : f.significand magnitude = f.hidden → 2 ≤ magnitude / f.hidden →
    ((f.significand magnitude : ℚ) - 1 / 4) * 2 ^ f.exponent magnitude ≤ x

variable {f} {magnitude num den : Nat}

theorem Near.pos {x : ℚ} (h : f.Near magnitude x) (hpos : 0 < magnitude) : 0 < x := by
  have hm : (1 : ℚ) ≤ f.significand magnitude := by exact_mod_cast f.significand_pos hpos
  exact lt_of_lt_of_le (mul_pos (by linarith) (zpow_pos (by norm_num) _)) h.above

/-- Zero times anything is not near a positive magnitude. -/
theorem Near.factor_pos {n : Nat} {x : ℚ} (h : f.Near magnitude (n * x)) (hpos : 0 < magnitude) : 0 < n := by
  refine Nat.pos_of_ne_zero ?_
  rintro rfl
  simpa using h.pos hpos

/-- Rounding a quotient in units of `2 ^ unit`. -/
theorem roundRatio_eq (unit : Int) (n : Nat) (hn : 0 < num)
    (hunit : max (floorLog2 num den - f.mantissaBits) f.leastExponent = unit)
    (hround : roundHalfEven (num * 2 ^ (-unit).toNat) (den * 2 ^ unit.toNat) = n)
    (hmagnitude : (unit - f.leastExponent).toNat * f.hidden + n = magnitude) (hfinite : magnitude < f.infinity) :
    f.roundRatio num den = magnitude := by
  unfold roundRatio
  rw [if_neg (Nat.ne_of_gt hn)]
  simp only [hunit, hround, hmagnitude]
  exact Nat.min_eq_left (Nat.le_of_lt hfinite)

/-- A quotient in units of `2 ^ unit`. -/
theorem quotient_units (num den : Nat) (unit : Int) :
    ((num * 2 ^ (-unit).toNat : Nat) : ℚ) / ((den * 2 ^ unit.toNat : Nat) : ℚ) = num / den / 2 ^ unit := by
  have := quotient_scaled num den 2 (by decide) (-unit)
  rw [Int.neg_neg, Nat.cast_ofNat, zpow_neg, ← div_eq_mul_inv] at this
  exact this

theorem hidden_cast : (f.hidden : ℚ) = 2 ^ (f.mantissaBits : Int) := by
  rw [zpow_natCast, hidden]
  exact_mod_cast rfl

/-- A quotient just below the power of two that a magnitude stands for is rounded up to it, in halves of the
magnitude's unit. -/
theorem roundRatio_below_power (hn : 0 < num) (hd : 0 < den) (hhidden : f.hidden ≤ f.significand magnitude)
    (hnormal : f.leastExponent < f.exponent magnitude) (hfinite : magnitude < f.infinity)
    (hup : (num : ℚ) / den < 2 ^ ((f.mantissaBits : Int) + f.exponent magnitude))
    (h : f.Near magnitude (num / den)) : f.roundRatio num den = magnitude := by
  have hmag := f.magnitude_eq magnitude
  have hunit : (0 : ℚ) < 2 ^ f.exponent magnitude := zpow_pos (by norm_num) _
  have hhalf : (2 : ℚ) ^ (f.exponent magnitude - 1) = 2 ^ f.exponent magnitude / 2 := by
    rw [zpow_sub₀ (by norm_num), zpow_one]
  have hone : (1 : ℚ) ≤ f.hidden := by exact_mod_cast f.hidden_pos
  rw [zpow_add₀ (by norm_num), ← hidden_cast] at hup
  have hsig : f.significand magnitude = f.hidden := by
    refine Nat.le_antisymm ?_ hhidden
    by_contra hlt
    have hlt : (f.hidden : ℚ) + 1 ≤ f.significand magnitude := by exact_mod_cast Nat.lt_of_not_le hlt
    have := h.above
    nlinarith
  have hpower := h.power hsig (by unfold exponent at hnormal; omega)
  rw [hsig] at hpower hmag
  have hlog : floorLog2 num den = (f.mantissaBits : Int) + (f.exponent magnitude - 1) := by
    refine floorLog2_eq hn hd ?_ ?_
    · rw [zpow_add₀ (by norm_num), ← hidden_cast, hhalf]
      nlinarith
    · have hnext : (f.mantissaBits : Int) + (f.exponent magnitude - 1) + 1 =
          f.mantissaBits + f.exponent magnitude := by omega
      rw [hnext, zpow_add₀ (by norm_num), ← hidden_cast]
      exact hup
  have hunits : (f.exponent magnitude - 1 - f.leastExponent).toNat + 1 =
      (f.exponent magnitude - f.leastExponent).toNat := by
    omega
  have hhalfpos : (0 : ℚ) < 2 ^ (f.exponent magnitude - 1) := zpow_pos (by norm_num) _
  refine roundRatio_eq (f.exponent magnitude - 1) (2 * f.hidden) hn (by omega)
    (roundHalfEven_near (Nat.mul_pos hd (Nat.two_pow_pos _)) ?_ ?_ (by omega)) ?_ hfinite
  · rw [quotient_units, le_div_iff₀ hhalfpos, hhalf]
    push_cast
    linarith
  · rw [quotient_units, div_le_iff₀ hhalfpos, hhalf]
    push_cast
    linarith
  · rw [← hunits, Nat.succ_mul] at hmag
    omega

/-- A quotient near a finite magnitude is rounded to it. -/
theorem roundRatio_near (hpos : 0 < magnitude) (hfinite : magnitude < f.infinity)
    (hd : 0 < den) (h : f.Near magnitude (num / den)) : f.roundRatio num den = magnitude := by
  have hn : 0 < num := by
    rw [div_eq_mul_inv] at h
    exact h.factor_pos hpos
  have hmag := f.magnitude_eq magnitude
  have hlt : (f.significand magnitude : ℚ) + 1 ≤ 2 * f.hidden := by exact_mod_cast f.significand_lt magnitude
  have hleast := f.leastExponent_le_exponent magnitude
  have hunit : (0 : ℚ) < 2 ^ f.exponent magnitude := zpow_pos (by norm_num) _
  -- The quotient is below the next power of two in any case.
  have hup : (num : ℚ) / den < 2 ^ ((f.mantissaBits : Int) + f.exponent magnitude + 1) := by
    refine h.below.trans_lt ?_
    rw [zpow_add₀ (by norm_num), zpow_add₀ (by norm_num), zpow_one, ← hidden_cast]
    nlinarith
  have hsame : max (floorLog2 num den - f.mantissaBits) f.leastExponent = f.exponent magnitude →
      f.roundRatio num den = magnitude := by
    intro hmax
    have hden : 0 < den * 2 ^ (f.exponent magnitude).toNat := Nat.mul_pos hd (Nat.two_pow_pos _)
    refine roundRatio_eq _ _ hn hmax (roundHalfEven_near hden ?_ ?_ ?_) hmag hfinite
    · rw [quotient_units, le_div_iff₀ hunit]
      exact h.above
    · rw [quotient_units, div_le_iff₀ hunit]
      exact h.below
    · intro hodd
      rw [quotient_units, lt_div_iff₀ hunit, div_lt_iff₀ hunit]
      exact h.strict hodd
  obtain ⟨hlow, -⟩ := floorLog2_spec hn hd
  have hlog := (zpow_lt_zpow_iff_right₀ (by norm_num : (1 : ℚ) < 2)).1 (hlow.trans_lt hup)
  rcases lt_or_ge f.leastExponent (f.exponent magnitude) with hnormal | hsubnormal
  · have hhidden := f.hidden_le_significand (Int.ne_of_gt hnormal)
    by_cases hpower : (2 : ℚ) ^ ((f.mantissaBits : Int) + f.exponent magnitude) ≤ num / den
    · have := floorLog2_eq hn hd hpower hup
      exact hsame (by omega)
    · exact roundRatio_below_power hn hd hhidden hnormal hfinite (lt_of_not_ge hpower) h
  · exact hsame (by omega)

end FloatFormat

end Bindery
