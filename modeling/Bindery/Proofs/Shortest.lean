import Bindery.Decimal.Layout
import Bindery.Proofs.Rounding
import Mathlib.Data.List.DropRight
/-!
# Shortest decimals read back

The interval in which a decimal is looked for is that of the numbers that round to the magnitude
(`Decimal.Interval.Inside.near`). Seventeen digits always suffice, since a grid of that many is finer than
the interval is long (`Decimal.shortest_inside`). So the shortest decimal of a finite magnitude, read as a
double, is the magnitude (`Binary64.ofDecimal_near`, `Decimal.shortest_near`).
-/

namespace Bindery

-- Powers are those of the core library, whatever else is in scope.
attribute [local instance (5000)] instPowNat

namespace Decimal

/-! ## The point of a decimal -/

/-- A positive natural has as many digits as powers of ten it reaches. -/
theorem width_spec {n : Nat} (hn : 0 < n) : 10 ^ (width n - 1) ≤ n ∧ n < 10 ^ width n := by
  have hwidth : 0 < width n := Nat.length_toDigits_pos
  refine ⟨?_, (Nat.length_toDigits_le_iff (by decide) hwidth).1 (Nat.le_refl _)⟩
  rcases Nat.eq_or_lt_of_le hwidth with h | h
  · rw [← h]
    exact hn
  · by_contra hlt
    have := (Nat.length_toDigits_le_iff (n := n) (b := 10) (by decide) (by omega)).2 (Nat.lt_of_not_le hlt)
    unfold width at this hwidth h
    omega

/-- The first digit of a quotient stands right behind its point. -/
theorem pointOf_le {num den : Nat} (hn : 0 < num) (hd : 0 < den) :
    (10 : ℚ) ^ (pointOf num den - 1) ≤ num / den := by
  have hd' : (0 : ℚ) < den := by exact_mod_cast hd
  rw [le_div_iff₀ hd']
  unfold pointOf
  split
  · next h =>
    have hq : 0 < num / den := Nat.div_pos h hd
    have hwidth : 0 < width (num / den) := Nat.length_toDigits_pos
    have hle : 10 ^ (width (num / den) - 1) * den ≤ num :=
      (Nat.mul_le_mul_right _ (width_spec hq).1).trans (Nat.div_mul_le_self _ _)
    rw [show (width (num / den) : Int) - 1 = ((width (num / den) - 1 : Nat) : Int) by omega, zpow_natCast]
    exact_mod_cast hle
  · next h =>
    have hq : 0 < (den - 1) / num := Nat.div_pos (by omega) hn
    have hlt := (width_spec hq).2
    generalize width ((den - 1) / num) = w at *
    have hle : den ≤ num * 10 ^ w := by
      have := Nat.lt_mul_div_succ (den - 1) hn
      have := Nat.mul_le_mul_left num (Nat.succ_le_of_lt hlt)
      rw [Nat.succ_eq_add_one] at this
      omega
    rw [show (1 : Int) - w - 1 = -w by omega, zpow_neg, zpow_natCast, inv_mul_le_iff₀ (by positivity), mul_comm]
    exact_mod_cast hle

/-! ## Grids -/

/-- A multiple of a power of ten that lies in an interval, compared as `nearestOnGrid?` compares it. -/
def Interval.Inside (r : Interval) (exponent : Int) (d : Nat) : Prop :=
  let num := r.unitNum * 10 ^ (-exponent).toNat
  let den := r.unitDen * 10 ^ exponent.toNat
  (r.lower * num ≤ d * den ∧ d * den ≤ r.upper * num) ∧
    (r.closed = false → r.lower * num < d * den ∧ d * den < r.upper * num)

theorem Interval.inside_iff (r : Interval) (exponent : Int) (d : Nat) : r.Inside exponent d ↔
    (if r.closed then
      decide (r.lower * (r.unitNum * 10 ^ (-exponent).toNat) ≤ d * (r.unitDen * 10 ^ exponent.toNat)) &&
        decide (d * (r.unitDen * 10 ^ exponent.toNat) ≤ r.upper * (r.unitNum * 10 ^ (-exponent).toNat))
    else decide (r.lower * (r.unitNum * 10 ^ (-exponent).toNat) < d * (r.unitDen * 10 ^ exponent.toNat)) &&
      decide (d * (r.unitDen * 10 ^ exponent.toNat) < r.upper * (r.unitNum * 10 ^ (-exponent).toNat))) = true := by
  unfold Inside
  cases r.closed with
  | true => simp
  | false => simp; omega

/-- What a grid gives: a multiple in the interval, or nothing if neither neighbour of the value is in it. -/
theorem Interval.nearest_cases (r : Interval) (tie : TieRule) (exponent : Int) :
    let below := r.value * (r.unitNum * 10 ^ (-exponent).toNat) / (r.unitDen * 10 ^ exponent.toNat)
    (∃ d, r.nearestOnGrid? tie exponent = some d ∧ r.Inside exponent d) ∨
      r.nearestOnGrid? tie exponent = none ∧ ¬ r.Inside exponent below ∧ ¬ r.Inside exponent (below + 1) := by
  intro below
  have hbelow := r.inside_iff exponent below
  have habove := r.inside_iff exponent (below + 1)
  have heither : r.Inside exponent below → r.Inside exponent (below + 1) →
      ∀ up : Bool, r.Inside exponent (if up then below + 1 else below) := by
    intro h h' up
    cases up
    · exact h
    · exact h'
  unfold nearestOnGrid?
  simp only
  split
  · next h h' => exact .inl ⟨_, rfl, heither (hbelow.2 h) (habove.2 h') _⟩
  · next h _ => exact .inl ⟨_, rfl, hbelow.2 h⟩
  · next _ h => exact .inl ⟨_, rfl, habove.2 h⟩
  · next h h' => exact .inr ⟨rfl, fun hin => Bool.false_ne_true (h.symm.trans (hbelow.1 hin)),
      fun hin => Bool.false_ne_true (h'.symm.trans (habove.1 hin))⟩

/-- A grid that is finer than the interval is long has a multiple in it. -/
theorem Interval.exists_nearest {r : Interval} {exponent : Int} (tie : TieRule) (hunit : 0 < r.unitNum)
    (hden : 0 < r.unitDen) (hlower : r.lower ≤ r.value) (hupper : r.value < r.upper)
    (hfine : r.lower * (r.unitNum * 10 ^ (-exponent).toNat) + r.unitDen * 10 ^ exponent.toNat <
      r.upper * (r.unitNum * 10 ^ (-exponent).toNat)) :
    ∃ d, r.nearestOnGrid? tie exponent = some d := by
  rcases r.nearest_cases tie exponent with ⟨d, hd, -⟩ | ⟨-, hbelow, habove⟩
  · exact ⟨d, hd⟩
  exfalso
  have hnum : 0 < r.unitNum * 10 ^ (-exponent).toNat := Nat.mul_pos hunit (Nat.pow_pos (by decide))
  have hden : 0 < r.unitDen * 10 ^ exponent.toNat := Nat.mul_pos hden (Nat.pow_pos (by decide))
  unfold Inside at hbelow habove
  simp only at hbelow habove
  generalize r.unitNum * 10 ^ (-exponent).toNat = num at *
  generalize r.unitDen * 10 ^ exponent.toNat = den at *
  have hle := Nat.div_mul_le_self (r.value * num) den
  have hlt := Nat.lt_div_mul_add (a := r.value * num) hden
  have hvalue := Nat.mul_le_mul_right num hlower
  have hroom := Nat.mul_lt_mul_of_pos_right hupper hnum
  rw [Nat.succ_mul] at habove
  cases hclosed : r.closed <;> simp only [hclosed] at hbelow habove <;> grind

/-- The comparison of a quotient with a multiple of a power of ten, without division. -/
theorem scaled_le {num den : Nat} (hd : 0 < den) (exponent : Int) (a b : Nat) :
    (a * (num * 10 ^ (-exponent).toNat) ≤ b * (den * 10 ^ exponent.toNat) ↔
      (a : ℚ) * (num / den) ≤ b * 10 ^ exponent) ∧
    (b * (den * 10 ^ exponent.toNat) ≤ a * (num * 10 ^ (-exponent).toNat) ↔
      (b : ℚ) * 10 ^ exponent ≤ a * (num / den)) := by
  have hd' : (0 : ℚ) < den := by exact_mod_cast hd
  have hup : (0 : ℚ) < 10 ^ (-exponent).toNat := by positivity
  have hpow := zpow_eq_toNat (a := 10) (by decide) exponent
  push_cast at hpow
  rw [hpow, ← mul_div_assoc, ← mul_div_assoc, div_le_div_iff₀ hd' hup, div_le_div_iff₀ hup hd']
  constructor
  · rw [mul_assoc, mul_assoc, mul_comm (10 ^ exponent.toNat : ℚ)]
    exact_mod_cast Iff.rfl
  · rw [mul_assoc, mul_assoc, mul_comm (10 ^ exponent.toNat : ℚ)]
    exact_mod_cast Iff.rfl

variable {f : FloatFormat} {magnitude : Nat} {exponent : Int}

/-- A quarter of the unit in the last place. -/
theorem Interval.quarter (f : FloatFormat) (magnitude : Nat) :
    ((Interval.of f magnitude).unitNum : ℚ) / (Interval.of f magnitude).unitDen = 2 ^ f.exponent magnitude / 4 := by
  have := zpow_eq_toNat (a := 2) (by decide) (f.exponent magnitude - 2)
  unfold Interval.of
  simp only
  rw [← this, Nat.cast_ofNat, zpow_sub₀ (by norm_num)]
  norm_num

/-- The interval is that of the numbers that round to the magnitude. -/
theorem Interval.Inside.near {d : Nat} (hpos : 0 < magnitude) (h : (Interval.of f magnitude).Inside exponent d) :
    f.Near magnitude (d * 10 ^ exponent) := by
  have hden : 0 < (Interval.of f magnitude).unitDen := Nat.two_pow_pos _
  obtain ⟨⟨hlow, hup⟩, hopen⟩ := h
  rw [(scaled_le hden exponent _ _).1, quarter] at hlow
  rw [(scaled_le hden exponent _ _).2, quarter] at hup
  rw [← Nat.not_le, ← Nat.not_le, (scaled_le hden exponent _ _).1, (scaled_le hden exponent _ _).2, quarter,
    not_le, not_le] at hopen
  have hm := f.significand_pos hpos
  have hunit : (0 : ℚ) < 2 ^ f.exponent magnitude := zpow_pos (by norm_num) _
  have hupper : ((Interval.of f magnitude).upper : ℚ) = 4 * f.significand magnitude + 2 := by
    unfold Interval.of
    push_cast
    rfl
  have hlower : 4 * (f.significand magnitude : ℚ) - 2 ≤ (Interval.of f magnitude).lower := by
    have : 4 * f.significand magnitude ≤ (Interval.of f magnitude).lower + 2 := by
      unfold Interval.of
      simp only
      split <;> omega
    have : 4 * (f.significand magnitude : ℚ) ≤ (Interval.of f magnitude).lower + 2 := by exact_mod_cast this
    linarith
  rw [hupper] at hup hopen
  refine ⟨?_, ?_, ?_, ?_⟩
  · nlinarith
  · linarith
  · intro hodd
    obtain ⟨hlow, hup⟩ := hopen (by unfold Interval.of; simp [hodd])
    constructor
    · nlinarith
    · linarith
  · intro hpower hnormal
    have : (Interval.of f magnitude).lower + 1 = 4 * f.significand magnitude := by
      unfold Interval.of
      simp only
      rw [if_pos ⟨hpower, hnormal⟩]
      omega
    have : ((Interval.of f magnitude).lower : ℚ) + 1 = 4 * f.significand magnitude := by exact_mod_cast this
    nlinarith

theorem exists_findSome?_getD {α β : Type} {l : List α} {g : α → Option β} {x : α} (hx : x ∈ l) {b : β}
    (hb : g x = some b) (default : β) : ∃ a ∈ l, g a = some ((l.findSome? g).getD default) := by
  cases h : l.findSome? g with
  | none => simp [List.findSome?_eq_none_iff.1 h x hx] at hb
  | some b' => exact List.exists_of_findSome?_eq_some h

/-- With seventeen digits there is always a decimal in the interval of a double: the points of that grid are at
most a `10 ^ 16`th part of the value apart, and with significands below `2 ^ 53` the interval is longer. -/
theorem exists_seventeen (tie : TieRule) (hpos : 0 < magnitude) :
    let r := Interval.of .binary64 magnitude
    ∃ d, r.nearestOnGrid? tie (pointOf (r.value * r.unitNum) r.unitDen - (17 : Nat)) = some d := by
  intro r
  have hm := FloatFormat.binary64.significand_pos hpos
  have hlt := FloatFormat.binary64.significand_lt magnitude
  have hhidden : FloatFormat.binary64.hidden = 2 ^ 52 := rfl
  rw [hhidden] at hlt
  have hvalue : r.value = 4 * FloatFormat.binary64.significand magnitude := rfl
  have hupper : r.upper = 4 * FloatFormat.binary64.significand magnitude + 2 := rfl
  have hnum : 0 < r.unitNum := Nat.two_pow_pos _
  have hden : 0 < r.unitDen := Nat.two_pow_pos _
  have hlower : r.lower = 4 * FloatFormat.binary64.significand magnitude - 1 ∧
        FloatFormat.binary64.significand magnitude = 2 ^ 52 ∨
      r.lower = 4 * FloatFormat.binary64.significand magnitude - 2 := by
    change (if _ then _ else _) = _ ∧ _ ∨ (if _ then _ else _) = _
    split
    · next h => exact .inl ⟨rfl, h.1⟩
    · exact .inr rfl
  have hpoint := pointOf_le (Nat.mul_pos (show 0 < r.value by omega) hnum) hden
  generalize pointOf (r.value * r.unitNum) r.unitDen = point at *
  have hfine : 10 ^ 16 * (r.unitDen * 10 ^ (point - (17 : Nat)).toNat) ≤
      r.value * (r.unitNum * 10 ^ (-(point - (17 : Nat))).toNat) := by
    rw [(scaled_le hden _ _ _).2]
    calc ((10 ^ 16 : Nat) : ℚ) * 10 ^ (point - (17 : Nat)) = 10 ^ (point - 1) := by
          rw [show point - 1 = ((16 : Nat) : Int) + (point - (17 : Nat)) by omega, zpow_add₀ (by norm_num),
            zpow_natCast]
          norm_num
      _ ≤ r.value * (r.unitNum / r.unitDen) := by
          rw [← mul_div_assoc]
          exact_mod_cast hpoint
  refine Interval.exists_nearest tie hnum hden (by omega) (by omega) ?_
  have hpos : 0 < r.unitNum * 10 ^ (-(point - (17 : Nat))).toNat := Nat.mul_pos hnum (Nat.pow_pos (by decide))
  rw [hvalue] at hfine
  rw [hupper]
  generalize r.unitNum * 10 ^ (-(point - (17 : Nat))).toNat = num at *
  generalize r.unitDen * 10 ^ (point - (17 : Nat)).toNat = den at *
  generalize r.lower = lower at *
  generalize FloatFormat.binary64.significand magnitude = m at *
  rcases hlower with ⟨rfl, rfl⟩ | rfl
  · omega
  · have hmost : m * num ≤ (2 ^ 53 - 1) * num := Nat.mul_le_mul_right num (by omega)
    have hlow : (4 * m - 2) * num + 2 * num = 4 * (m * num) := by
      rw [← Nat.add_mul, ← Nat.mul_assoc]
      congr 1
      omega
    rw [Nat.mul_assoc] at hfine
    rw [Nat.add_mul, Nat.mul_assoc 4]
    omega

/-- The shortest decimal of a double comes from a multiple that lies in the interval. -/
theorem shortest_inside (tie : TieRule) (hpos : 0 < magnitude) :
    ∃ exponent d, (Interval.of .binary64 magnitude).Inside exponent d ∧
      shortest .binary64 tie magnitude = ofScaled d exponent := by
  obtain ⟨d, hd⟩ := exists_seventeen tie hpos
  let r := Interval.of .binary64 magnitude
  let point := pointOf (r.value * r.unitNum) r.unitDen
  let onGrid (n : Nat) : Option Decimal := (r.nearestOnGrid? tie (point - n)).map (ofScaled · (point - n))
  have hseventeen : onGrid 17 = some (ofScaled d (point - (17 : Nat))) := Option.map_eq_some_iff.2 ⟨d, hd, rfl⟩
  obtain ⟨n, -, hn⟩ := exists_findSome?_getD (l := List.range' 1 17) (by decide) hseventeen zero
  obtain ⟨d, hd, heq⟩ := Option.map_eq_some_iff.1 hn
  refine ⟨point - n, d, ?_, heq.symm⟩
  rcases r.nearest_cases tie (point - n) with ⟨d', hd', hin⟩ | ⟨hnone, -⟩
  · cases hd.symm.trans hd'
    exact hin
  · rw [hnone] at hd
    cases hd

/-! ## Digits -/

/-- The natural that the digits spell. -/
def spelled (d : Decimal) : Nat := Nat.ofDigitChars 10 d.digits 0

/-- The number a decimal stands for. -/
def value (d : Decimal) : ℚ := d.spelled * 10 ^ (d.point - d.digits.length)

/-- Digits of which the first is not zero. -/
def Leading (digits : List Char) : Prop := (∀ c ∈ digits, c.isDigit) ∧ ∃ c rest, digits = c :: rest ∧ c ≠ '0'

theorem leading_toDigits {n : Nat} (hn : 0 < n) : Leading (Nat.toDigits 10 n) := by
  refine ⟨fun c hc => Nat.isDigit_of_mem_toDigits (by decide) (by decide) hc, ?_⟩
  induction n using Nat.strong_induction_on with
  | _ n ih =>
    rcases Nat.lt_or_ge n 10 with h | h
    · refine ⟨n.digitChar, [], Nat.toDigits_of_lt_base h, ?_⟩
      have : ∀ m < 10, 0 < m → m.digitChar ≠ '0' := by decide
      exact this n h hn
    · obtain ⟨c, rest, hrest, hc⟩ := ih (n / 10) (by omega) (by omega)
      exact ⟨c, rest ++ [(n % 10).digitChar], by rw [Nat.toDigits_of_base_le (by decide) h, hrest]; rfl, hc⟩

/-- Only zeros are dropped behind the last digit. -/
theorem trailing_zeros (digits : List Char) :
    ∃ k, digits = (digits.reverse.dropWhile (· == '0')).reverse ++ List.replicate k '0' := by
  refine ⟨(digits.rtakeWhile (· == '0')).length, ?_⟩
  have hzeros : digits.rtakeWhile (· == '0') = List.replicate _ '0' :=
    List.eq_replicate_iff.2 ⟨rfl, fun c hc => by simpa using List.mem_rtakeWhile_imp hc⟩
  rw [← hzeros]
  exact List.rdropWhile_append_rtakeWhile.symm

theorem ofScaled_digits (n : Nat) (exponent : Int) :
    ∃ k, Nat.toDigits 10 n = (ofScaled n exponent).digits ++ List.replicate k '0' :=
  trailing_zeros (Nat.toDigits 10 n)

theorem ofScaled_value (n : Nat) (exponent : Int) : (ofScaled n exponent).value = n * 10 ^ exponent := by
  obtain ⟨k, hk⟩ := ofScaled_digits n exponent
  have hspelled : n = 10 ^ k * (ofScaled n exponent).spelled := by
    have := congrArg (Nat.ofDigitChars 10 · 0) hk
    simp only [Nat.ofDigitChars_ten_toDigits, Nat.ofDigitChars_append, Nat.ofDigitChars_replicate_zero] at this
    exact this
  have hpoint : (ofScaled n exponent).point = exponent + ((ofScaled n exponent).digits.length + k) := by
    have := congrArg List.length hk
    rw [List.length_append, List.length_replicate] at this
    change exponent + (Nat.toDigits 10 n).length = _
    omega
  have hn : (n : ℚ) = 10 ^ k * (ofScaled n exponent).spelled := by exact_mod_cast hspelled
  rw [value, hpoint, show exponent + (((ofScaled n exponent).digits.length : Int) + k) -
    (ofScaled n exponent).digits.length = exponent + k by omega, zpow_add₀ (by norm_num), zpow_natCast, hn]
  ring

theorem leading_ofScaled {n : Nat} (hn : 0 < n) (exponent : Int) : Leading (ofScaled n exponent).digits := by
  obtain ⟨k, hk⟩ := ofScaled_digits n exponent
  obtain ⟨hdigits, c, rest, hrest, hc⟩ := leading_toDigits hn
  refine ⟨fun x hx => hdigits x (hk ▸ List.mem_append_left _ hx), ?_⟩
  cases hs : (ofScaled n exponent).digits with
  | cons x xs =>
    rw [hs, hrest] at hk
    cases hk
    exact ⟨c, xs, rfl, hc⟩
  | nil =>
    -- There is a digit that is not zero, so not all of them are dropped.
    rw [hs, hrest, List.nil_append] at hk
    exact absurd (List.eq_of_mem_replicate (hk ▸ List.mem_cons_self)) hc

/-- The shortest decimal of a double rounds to it. -/
theorem shortest_near (tie : TieRule) (hpos : 0 < magnitude) :
    FloatFormat.binary64.Near magnitude (shortest .binary64 tie magnitude).value ∧
      Leading (shortest .binary64 tie magnitude).digits := by
  obtain ⟨exponent, d, hin, heq⟩ := shortest_inside tie hpos
  have hnear := hin.near hpos
  rw [heq, ofScaled_value]
  exact ⟨hnear, leading_ofScaled (hnear.factor_pos hpos) exponent⟩

end Decimal

/-! ## Decimals read as doubles -/

namespace Binary64

variable {magnitude : Nat} {x : ℚ}

/-- What rounds to a positive double is far from the powers of ten at which rounding is cut off. -/
theorem near_bounds (hpos : 0 < magnitude) (hfinite : magnitude < format.infinity) (h : format.Near magnitude x) :
    (10 : ℚ) ^ (-400 : Int) < x ∧ x < 10 ^ (400 : Int) := by
  have hm : (1 : ℚ) ≤ format.significand magnitude := by exact_mod_cast format.significand_pos hpos
  have hlt : (format.significand magnitude : ℚ) < 2 ^ (53 : Int) := by
    have := format.significand_lt magnitude
    rw [show 2 * format.hidden = 2 ^ 53 from rfl] at this
    exact_mod_cast this
  have hleast := format.leastExponent_le_exponent magnitude
  have hmost : format.exponent magnitude ≤ 971 := by
    have hmag := format.magnitude_eq magnitude
    rw [show format.hidden = 2 ^ 52 from rfl, show format.leastExponent = -1074 from rfl] at hmag
    rw [show format.infinity = 2047 * 2 ^ 52 from rfl] at hfinite
    by_contra hlarge
    have hne : format.exponent magnitude ≠ format.leastExponent := by
      rw [show format.leastExponent = -1074 from rfl]
      omega
    have hleading := format.hidden_le_significand hne
    rw [show format.hidden = 2 ^ 52 from rfl] at hleading
    omega
  rw [show format.leastExponent = -1074 from rfl] at hleast
  have hten : (2 : ℚ) ^ (1200 : Int) < 10 ^ (400 : Int) := by
    rw [show (1200 : Int) = 3 * 400 from rfl, zpow_mul]
    exact zpow_lt_zpow_left₀ (by norm_num) (by norm_num) (by decide)
  have hsmall : (2 : ℚ) ^ (-1074 : Int) ≤ 2 ^ format.exponent magnitude := zpow_le_zpow_right₀ (by norm_num) hleast
  have hlarge : (2 : ℚ) ^ format.exponent magnitude ≤ 2 ^ (971 : Int) := zpow_le_zpow_right₀ (by norm_num) hmost
  constructor
  · calc (10 : ℚ) ^ (-400 : Int) < 2 ^ (-1075 : Int) := by
          have : (2 : ℚ) ^ (1075 : Int) < 10 ^ (400 : Int) :=
            (zpow_le_zpow_right₀ (by norm_num) (by decide)).trans_lt hten
          rw [zpow_neg, zpow_neg]
          exact inv_strictAnti₀ (zpow_pos (by norm_num) _) this
      _ = 1 / 2 * 2 ^ (-1074 : Int) := by
          rw [show (-1075 : Int) = -1 + -1074 from rfl, zpow_add₀ (by norm_num), zpow_neg_one, one_div]
      _ ≤ (format.significand magnitude - 1 / 2) * 2 ^ format.exponent magnitude := by
          refine mul_le_mul (by linarith) hsmall (by positivity) (by linarith)
      _ ≤ x := h.above
  · calc x ≤ (format.significand magnitude + 1 / 2) * 2 ^ format.exponent magnitude := h.below
      _ ≤ 2 ^ (54 : Int) * 2 ^ (971 : Int) := by
          refine mul_le_mul ?_ hlarge (by positivity) (by positivity)
          rw [show (54 : Int) = 53 + 1 from rfl, zpow_add₀ (by norm_num), zpow_one]
          linarith
      _ ≤ 2 ^ (1200 : Int) := by
          rw [← zpow_add₀ (by norm_num)]
          exact zpow_le_zpow_right₀ (by norm_num) (by decide)
      _ < 10 ^ (400 : Int) := hten

/-- Digits that stand for a number near a positive finite double are read as it. -/
theorem ofDecimal_near (negative : Bool) {digits : Nat} {exponent : Int} (hpos : 0 < magnitude)
    (hfinite : magnitude < format.infinity) (h : format.Near magnitude (digits * 10 ^ exponent)) :
    ofDecimal negative digits exponent = ofParts negative magnitude := by
  obtain ⟨hlow, hup⟩ := near_bounds hpos hfinite h
  have hdigits : 0 < digits := h.factor_pos hpos
  obtain ⟨hfirst, hlast⟩ := Decimal.width_spec hdigits
  have hwidth : 0 < Decimal.width digits := Nat.length_toDigits_pos
  have hpow : (0 : ℚ) < 10 ^ exponent := zpow_pos (by norm_num) _
  have hfirst : (10 : ℚ) ^ (exponent + Decimal.width digits - 1) ≤ digits * 10 ^ exponent := by
    rw [show exponent + Decimal.width digits - 1 = ((Decimal.width digits - 1 : Nat) : Int) + exponent by omega,
      zpow_add₀ (by norm_num), zpow_natCast]
    exact mul_le_mul_of_nonneg_right (by exact_mod_cast hfirst) hpow.le
  have hlast : (digits : ℚ) * 10 ^ exponent < 10 ^ (exponent + Decimal.width digits) := by
    rw [add_comm, zpow_add₀ (by norm_num), zpow_natCast]
    exact mul_lt_mul_of_pos_right (by exact_mod_cast hlast) hpow
  have hless := (zpow_lt_zpow_iff_right₀ (by norm_num : (1 : ℚ) < 10)).1 (hlow.trans hlast)
  have hmore := (zpow_lt_zpow_iff_right₀ (by norm_num : (1 : ℚ) < 10)).1 (hfirst.trans_lt hup)
  unfold ofDecimal
  simp only
  unfold Decimal.width at hless hmore
  rw [if_neg (by omega), if_neg (by omega), ofRatio]
  congr 1
  refine FloatFormat.roundRatio_near hpos hfinite (Nat.pow_pos (by decide)) ?_
  have := quotient_scaled digits 1 10 (by decide) exponent
  rw [Nat.one_mul, Nat.cast_one, div_one, Nat.cast_ofNat] at this
  rw [this]
  exact h

end Binary64

end Bindery
