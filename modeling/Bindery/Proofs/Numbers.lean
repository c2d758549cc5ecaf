import Bindery.Number
/-!
# Numbers that survive

Rounding does nothing to a quotient that the format has a word for (`FloatFormat.roundRatio_exact`).
So a single that is written as a double is read back (`Binary32.narrow_widen`), and an integer of a
type is read back from its number (`Number.narrow_ofInt`).
-/

namespace Bindery

-- Powers are those of the core library, whatever else is in scope.
attribute [local instance (5000)] instPowNat

/-! ## Rounding what needs no rounding -/

theorem log2_mul_two_pow {m : Nat} (hm : 0 < m) (a : Nat) : (m * 2 ^ a).log2 = m.log2 + a := by
  have hne : m * 2 ^ a ≠ 0 := Nat.ne_of_gt (Nat.mul_pos hm (Nat.two_pow_pos a))
  rw [Nat.log2_eq_iff hne]
  constructor
  · rw [Nat.pow_add]
    exact Nat.mul_le_mul_right _ (Nat.log2_self_le (by omega))
  · rw [show m.log2 + a + 1 = m.log2 + 1 + a by omega, Nat.pow_add]
    exact Nat.mul_lt_mul_of_pos_right Nat.lt_log2_self (Nat.two_pow_pos a)

/-- Moving the leading bit up to a higher place. -/
theorem leading_bit {m p : Nat} (hm : 0 < m) (hp : m.log2 ≤ p) :
    2 ^ p ≤ m * 2 ^ (p - m.log2) ∧ m * 2 ^ (p - m.log2) < 2 ^ (p + 1) := by
  constructor
  · calc 2 ^ p = 2 ^ m.log2 * 2 ^ (p - m.log2) := by rw [← Nat.pow_add]; congr 1; omega
      _ ≤ m * 2 ^ (p - m.log2) := Nat.mul_le_mul_right _ (Nat.log2_self_le (by omega))
  · calc m * 2 ^ (p - m.log2) < 2 ^ (m.log2 + 1) * 2 ^ (p - m.log2) :=
          Nat.mul_lt_mul_of_pos_right Nat.lt_log2_self (Nat.two_pow_pos _)
      _ = 2 ^ (p + 1) := by rw [← Nat.pow_add]; congr 1; omega

theorem floorLog2_two_pow {m : Nat} (hm : 0 < m) (a b : Nat) :
    floorLog2 (m * 2 ^ a) (2 ^ b) = (m.log2 : Int) + a - b := by
  have hb : (2 ^ b).log2 = b := Nat.log2_two_pow
  unfold floorLog2
  simp only [log2_mul_two_pow hm, hb]
  generalize he : ((m.log2 + a : Nat) : Int) - b = e
  have hexp : b + e.toNat = m.log2 + (a + (-e).toNat) := by omega
  have hnum : m * 2 ^ a * 2 ^ (-e).toNat = m * 2 ^ (a + (-e).toNat) := by
    rw [Nat.mul_assoc, ← Nat.pow_add]
  rw [hnum, ← Nat.pow_add, hexp, Nat.pow_add, if_pos]
  · omega
  · exact Nat.mul_le_mul_right _ (Nat.log2_self_le (by omega))

theorem roundHalfEven_mul {n d : Nat} (hd : 0 < d) : roundHalfEven (n * d) d = n := by
  unfold roundHalfEven
  simp only [Nat.mul_div_cancel n hd, Nat.mul_mod_left]
  rw [if_neg]
  omega

/-- A quotient that is a whole number `n` of units needs no rounding. -/
theorem FloatFormat.roundRatio_exact (f : FloatFormat) {m : Nat} (hm : 0 < m) (e unit : Int) (n : Nat)
    (hunit : unit = max (m.log2 + e - f.mantissaBits) f.leastExponent)
    (hn : m * 2 ^ (e - unit).toNat = n * 2 ^ (unit - e).toNat) :
    f.roundRatio (m * 2 ^ e.toNat) (2 ^ (-e).toNat) =
      min ((unit - f.leastExponent).toNat * f.hidden + n) f.infinity := by
  have hlog : floorLog2 (m * 2 ^ e.toNat) (2 ^ (-e).toNat) = m.log2 + e := by
    rw [floorLog2_two_pow hm]
    omega
  have hne : m * 2 ^ e.toNat ≠ 0 := Nat.ne_of_gt (Nat.mul_pos hm (Nat.two_pow_pos _))
  unfold roundRatio
  rw [if_neg hne, hlog, ← hunit]
  have hscaled : m * 2 ^ e.toNat * 2 ^ (-unit).toNat = n * (2 ^ (-e).toNat * 2 ^ unit.toNat) := by
    refine Nat.eq_of_mul_eq_mul_right (Nat.two_pow_pos (unit - e).toNat) ?_
    calc m * 2 ^ e.toNat * 2 ^ (-unit).toNat * 2 ^ (unit - e).toNat
        = m * 2 ^ (e - unit).toNat * 2 ^ ((-e).toNat + unit.toNat) := by
          rw [Nat.mul_assoc, Nat.mul_assoc, Nat.mul_assoc, ← Nat.pow_add, ← Nat.pow_add, ← Nat.pow_add]
          congr 2
          omega
      _ = n * (2 ^ (-e).toNat * 2 ^ unit.toNat) * 2 ^ (unit - e).toNat := by
          rw [hn, Nat.pow_add, Nat.mul_assoc, Nat.mul_assoc, Nat.mul_comm (2 ^ (unit - e).toNat)]
  simp only [hscaled]
  rw [roundHalfEven_mul (Nat.mul_pos (Nat.two_pow_pos _) (Nat.two_pow_pos _))]

namespace FloatFormat

variable (f : FloatFormat)

theorem hidden_pos : 0 < f.hidden := Nat.two_pow_pos _

/-- A magnitude is made of the exponent and the significand it stands for. -/
theorem magnitude_eq (magnitude : Nat) :
    (f.exponent magnitude - f.leastExponent).toNat * f.hidden + f.significand magnitude = magnitude := by
  have hpos := f.hidden_pos
  have hexp : (f.exponent magnitude - f.leastExponent).toNat = magnitude / f.hidden - 1 := by
    unfold exponent
    omega
  rw [hexp]
  unfold significand
  split
  · next h => rw [Nat.div_eq_of_lt h]; omega
  · next h =>
    have hq : 1 ≤ magnitude / f.hidden := (Nat.le_div_iff_mul_le hpos).2 (by omega)
    have hmul : (magnitude / f.hidden - 1) * f.hidden + f.hidden = magnitude / f.hidden * f.hidden := by
      rw [← Nat.succ_mul]
      congr 1
      omega
    have hdiv := Nat.div_add_mod' magnitude f.hidden
    omega

theorem significand_lt (magnitude : Nat) : f.significand magnitude < 2 * f.hidden := by
  have hmod := Nat.mod_lt magnitude f.hidden_pos
  unfold significand
  split <;> omega

/-- Only the least exponent has significands without a leading bit. -/
theorem hidden_le_significand {magnitude : Nat} (h : f.exponent magnitude ≠ f.leastExponent) :
    f.hidden ≤ f.significand magnitude := by
  unfold significand
  split
  · next hlt =>
    refine absurd ?_ h
    unfold exponent
    rw [Nat.div_eq_of_lt hlt]
    omega
  · omega

theorem leastExponent_le_exponent (magnitude : Nat) : f.leastExponent ≤ f.exponent magnitude := by
  unfold exponent
  omega

/-- What the magnitude of a significand with a leading bit stands for. -/
theorem parts_of_leading {n : Nat} (k : Nat) (hn : f.hidden ≤ n) (hlt : n < 2 * f.hidden) :
    f.significand (k * f.hidden + n) = n ∧ f.exponent (k * f.hidden + n) = f.leastExponent + k := by
  have hpos := f.hidden_pos
  have hmod : (k * f.hidden + n) % f.hidden = n - f.hidden := by
    rw [Nat.mul_add_mod', Nat.mod_eq_sub_mod hn, Nat.mod_eq_of_lt (by omega)]
  have hdiv : (k * f.hidden + n) / f.hidden = k + 1 := by
    rw [Nat.mul_comm, Nat.mul_add_div hpos]
    congr 1
    exact Nat.div_eq_of_lt_le (by omega) (by omega)
  constructor
  · unfold significand
    rw [if_neg (by have := Nat.le_add_left n (k * f.hidden); omega), hmod]
    omega
  · unfold exponent
    rw [hdiv]
    omega

end FloatFormat

/-! ## Singles as doubles -/

namespace Binary64

/-- The sign and the magnitude that a word is made of. -/
theorem parts_ofParts (negative : Bool) {magnitude : Nat} (h : magnitude < format.signWeight) :
    (ofParts negative magnitude).negative = negative ∧ (ofParts negative magnitude).magnitude = magnitude := by
  have hw : format.signWeight = 2 ^ 63 := rfl
  rw [hw] at h
  have hbits : (ofParts negative magnitude).bits.toNat =
      if negative then 2 ^ 63 + magnitude else magnitude := by
    unfold ofParts
    rw [hw, UInt64.toNat_ofNat', Nat.mod_eq_of_lt]
    split <;> omega
  unfold Binary64.negative Binary64.magnitude
  rw [hbits, hw]
  cases negative <;> simp <;> omega

/-- A word is made of its sign and its magnitude. -/
theorem ofParts_parts (x : Binary64) : ofParts x.negative x.magnitude = x := by
  have hw : format.signWeight = 2 ^ 63 := rfl
  have hlt := x.bits.toNat_lt
  obtain ⟨bits⟩ := x
  unfold ofParts negative magnitude
  rw [hw]
  simp only [mk.injEq, ← UInt64.toNat_inj, UInt64.toNat_ofNat', decide_eq_true_eq]
  simp only at hlt
  split <;> omega

end Binary64

namespace Binary32

/-- A word is made of its sign and its magnitude. -/
theorem ofParts_parts (x : Binary32) : ofParts x.negative x.magnitude = x := by
  have hw : format.signWeight = 2 ^ 31 := rfl
  have hlt := x.bits.toNat_lt
  obtain ⟨bits⟩ := x
  unfold ofParts negative magnitude
  rw [hw]
  simp only [mk.injEq, ← UInt32.toNat_inj, UInt32.toNat_ofNat', decide_eq_true_eq]
  simp only at hlt
  split <;> omega

theorem log2_significand_le (magnitude : Nat) : (format.significand magnitude).log2 ≤ 23 := by
  have hlt := format.significand_lt magnitude
  rw [show 2 * format.hidden = 2 ^ 24 from rfl] at hlt
  rcases Nat.eq_zero_or_pos (format.significand magnitude) with h | h
  · rw [h]
    decide
  · have := (Nat.log2_lt (by omega)).2 hlt
    omega

theorem exponent_le {magnitude : Nat} (h : magnitude < format.infinity) : format.exponent magnitude ≤ 105 := by
  have hmag := format.magnitude_eq magnitude
  rw [show format.hidden = 2 ^ 23 from rfl, show format.leastExponent = -149 from rfl] at hmag
  rw [show format.infinity = 255 * 2 ^ 23 from rfl] at h
  omega

/-- The double that a positive finite single is written as: its leading bit moves up to the place of
the leading bit of doubles. -/
theorem roundRatio_ratio {magnitude : Nat} (h : magnitude < format.infinity)
    (hpos : 0 < format.significand magnitude) :
    Binary64.format.roundRatio (format.ratio magnitude).1 (format.ratio magnitude).2 =
      ((format.significand magnitude).log2 + format.exponent magnitude + 1022).toNat * Binary64.format.hidden +
        format.significand magnitude * 2 ^ (52 - (format.significand magnitude).log2) := by
  have hlog := log2_significand_le magnitude
  have he := exponent_le h
  have hleast := format.leastExponent_le_exponent magnitude
  rw [show format.leastExponent = -149 from rfl] at hleast
  unfold FloatFormat.ratio
  generalize format.significand magnitude = m at *
  generalize format.exponent magnitude = e at *
  -- Doubles reach below the least exponent of singles, so there is room for the leading bit.
  have hlead := leading_bit (p := 52) hpos (by omega)
  rw [Binary64.format.roundRatio_exact hpos e (m.log2 + e - 52) (m * 2 ^ (52 - m.log2))]
  · rw [show Binary64.format.hidden = 2 ^ 52 from rfl, show Binary64.format.leastExponent = -1074 from rfl,
      show Binary64.format.infinity = 2047 * 2 ^ 52 from rfl,
      show (m.log2 + e - 52 - -1074).toNat = (m.log2 + e + 1022).toNat by omega]
    omega
  · rw [show Binary64.format.mantissaBits = 52 from rfl, show Binary64.format.leastExponent = -1074 from rfl]
    omega
  · rw [show (e - (m.log2 + e - 52)).toNat = 52 - m.log2 by omega,
      show (m.log2 + e - 52 - e).toNat = 0 by omega, Nat.pow_zero, Nat.mul_one]

/-- The single nearest to that double is the one it came from. -/
theorem roundRatio_back {magnitude k n : Nat} (h : magnitude < format.infinity)
    (hpos : 0 < format.significand magnitude)
    (hk : k = ((format.significand magnitude).log2 + format.exponent magnitude + 1022).toNat)
    (hn : n = format.significand magnitude * 2 ^ (52 - (format.significand magnitude).log2)) :
    format.roundRatio (Binary64.format.ratio (k * Binary64.format.hidden + n)).1
      (Binary64.format.ratio (k * Binary64.format.hidden + n)).2 = magnitude := by
  have hmag := format.magnitude_eq magnitude
  have hlog := log2_significand_le magnitude
  have hleast := format.leastExponent_le_exponent magnitude
  have hleading : format.exponent magnitude ≠ format.leastExponent → _ := format.hidden_le_significand
  generalize format.significand magnitude = m at *
  generalize format.exponent magnitude = e at *
  rw [show format.leastExponent = -149 from rfl] at hleast hleading
  -- The double stands for `n * 2 ^ unit`, and `n` is `m` with its leading bit moved up.
  have hunit : Binary64.format.leastExponent + (k : Int) = m.log2 + e - 52 := by
    rw [show Binary64.format.leastExponent = -1074 from rfl]
    omega
  have hlog52 : n.log2 = 52 := by
    rw [hn, log2_mul_two_pow hpos]
    omega
  have hmax : e = max ((52 : Nat) + (m.log2 + e - 52) - format.mantissaBits) format.leastExponent := by
    rw [show format.mantissaBits = 23 from rfl, show format.leastExponent = -149 from rfl]
    by_cases he : e = -149
    · omega
    · have : 23 ≤ m.log2 := (Nat.le_log2 (Nat.ne_of_gt hpos)).2 (hleading he)
      omega
  have hdown : ((m.log2 : Int) + e - 52 - e).toNat = 0 := by omega
  have hup : (e - ((m.log2 : Int) + e - 52)).toNat = 52 - m.log2 := by omega
  have hlead := leading_bit (p := 52) hpos (by omega)
  rw [← hn] at hlead
  have hhidden : Binary64.format.hidden = 2 ^ 52 := rfl
  obtain ⟨hsig, hexp⟩ := Binary64.format.parts_of_leading (n := n) k (by omega) (by omega)
  unfold FloatFormat.ratio
  rw [hsig, hexp, hunit, format.roundRatio_exact (Nat.lt_of_lt_of_le (Nat.two_pow_pos 52) hlead.1) _ e m]
  · rw [hmag]
    exact Nat.min_eq_left (Nat.le_of_lt h)
  · rw [hlog52]
    exact hmax
  · rw [hdown, hup, Nat.pow_zero, Nat.mul_one, hn]

theorem narrow_ofParts (negative : Bool) {magnitude : Nat} (h : magnitude < Binary64.format.infinity) :
    narrow (.ofParts negative magnitude) = ofParts negative
      (format.roundRatio (Binary64.format.ratio magnitude).1 (Binary64.format.ratio magnitude).2) := by
  have hweight : Binary64.format.infinity < Binary64.format.signWeight := by decide
  obtain ⟨hn, hm⟩ := Binary64.parts_ofParts negative (Nat.lt_trans h hweight)
  have hnan : ¬ (Binary64.ofParts negative magnitude).isNaN := by
    simp only [Binary64.isNaN, hm, decide_eq_true_eq]
    omega
  have hinfinite : ¬ (Binary64.ofParts negative magnitude).isInfinite := by
    simp only [Binary64.isInfinite, hm, decide_eq_true_eq]
    omega
  rw [narrow, if_neg hnan, if_neg hinfinite, hm, hn]

/-- A finite single is read back from the double it is written as. -/
theorem narrow_widen_finite {x : Binary32} (h : x.magnitude < format.infinity) : narrow x.widen = x := by
  have hnan : ¬ x.isNaN := by
    simp only [isNaN, decide_eq_true_eq]
    omega
  have hinfinite : ¬ x.isInfinite := by
    simp only [isInfinite, decide_eq_true_eq]
    omega
  have hwiden : x.widen = .ofParts x.negative
      (Binary64.format.roundRatio (format.ratio x.magnitude).1 (format.ratio x.magnitude).2) := by
    rw [widen, if_neg hnan, if_neg hinfinite]
    rfl
  rw [hwiden]
  -- Zero has no leading bit that could move up.
  rcases Nat.eq_zero_or_pos (format.significand x.magnitude) with hzero | hpos
  · have hmag : x.magnitude = 0 := by
      have := format.magnitude_eq x.magnitude
      by_cases he : format.exponent x.magnitude = format.leastExponent
      · rw [he, hzero, Int.sub_self, Int.toNat_zero, Nat.zero_mul] at this
        omega
      · have := format.hidden_le_significand he
        have := format.hidden_pos
        omega
    have hround : ∀ f g : FloatFormat, f.roundRatio (g.ratio 0).1 (g.ratio 0).2 = 0 := by
      intro f g
      simp [FloatFormat.roundRatio, FloatFormat.ratio, FloatFormat.significand, g.hidden_pos]
    have hback : narrow (.ofParts x.negative 0) = _ := narrow_ofParts x.negative (by decide)
    rw [hround, ← hmag, ofParts_parts] at hback
    rw [hmag, hround]
    rw [hmag] at hback
    exact hback
  · have hlog := log2_significand_le x.magnitude
    have he := exponent_le h
    have hlead := leading_bit (p := 52) hpos (by omega)
    have hhidden : Binary64.format.hidden = 2 ^ 52 := rfl
    have hinfinity : Binary64.format.infinity = 2047 * 2 ^ 52 := rfl
    rw [roundRatio_ratio h hpos, narrow_ofParts, roundRatio_back h hpos rfl rfl]
    · exact ofParts_parts x
    · rw [hhidden, hinfinity]
      omega

/-- A single is read back from the double it is written as. -/
theorem narrow_widen {x : Binary32} (h : ¬ x.isNaN) : narrow x.widen = x := by
  by_cases hinfinite : x.isInfinite
  · have hweight : Binary64.format.infinity < Binary64.format.signWeight := by decide
    obtain ⟨hn, hm⟩ := Binary64.parts_ofParts x.negative hweight
    have hmag : x.magnitude = format.infinity := by simpa [isInfinite] using hinfinite
    have hwide : (Binary64.ofParts x.negative Binary64.format.infinity).isInfinite := by
      simp [Binary64.isInfinite, hm]
    have hnan : ¬ (Binary64.ofParts x.negative Binary64.format.infinity).isNaN := by
      simp [Binary64.isNaN, hm]
    rw [widen, if_neg h, if_pos hinfinite, narrow, if_neg hnan, if_pos hwide, hn, ← hmag]
    exact ofParts_parts x
  · refine narrow_widen_finite ?_
    simp only [isNaN, isInfinite, decide_eq_true_eq] at h hinfinite
    omega

end Binary32

/-! ## Numbers of a type -/

namespace Number

/-- The single that the number of a single is read as: all NaNs are one. -/
theorem toBinary32?_widen (x : Binary32) :
    (Number.float x.widen).toBinary32? = some (if x.isNaN then .nan else x) := by
  unfold toBinary32? toBinary64
  by_cases hnan : x.isNaN
  · rw [if_pos hnan, Binary32.widen, if_pos hnan]
    rfl
  · simp only [if_neg hnan, Binary32.narrow_widen hnan]
    by_cases hinfinite : x.isInfinite
    · have hwide : ¬ x.widen.isFinite := by
        have hweight : Binary64.format.infinity < Binary64.format.signWeight := by decide
        rw [Binary32.widen, if_neg hnan, if_pos hinfinite, Binary64.isFinite,
          (Binary64.parts_ofParts x.negative hweight).2]
        simp
      simp [hwide]
    · simp [hinfinite]

/-- The number of a member of a type is a member of the widest type of its kind. -/
theorem wide_ofInt {t : IntType} {i : Int} (hleast : t.least ≤ i) (hgreatest : i ≤ t.greatest) :
    (if t.signed then (ofInt i).toI64? else (ofInt i).toU64?) = some i := by
  rcases Int.lt_or_le i 0 with hi | hi
  · have hbottom : -2 ^ 63 ≤ t.least := by cases t <;> decide
    -- A negative integer is in the range of signed types only.
    have hsigned : t.signed = true := by
      cases hs : t.signed with
      | true => rfl
      | false =>
        simp only [IntType.least, hs] at hleast
        simp at hleast
        omega
    have hword : (Int64.ofInt i).toInt = i := Int64.toInt_ofInt_of_le (by omega) (by omega)
    rw [if_pos hsigned, ofInt, if_neg (by omega), toI64?, hword]
  · have htop : t.greatest < 2 ^ 64 := by cases t <;> decide
    have hword : ((UInt64.ofNat i.toNat).toNat : Int) = i := by
      rw [UInt64.toNat_ofNat', Nat.mod_eq_of_lt (by omega)]
      omega
    cases hs : t.signed with
    | true =>
      have hwide : t.greatest ≤ IntType.i64.greatest := by cases t <;> first | decide | cases hs
      have hbottom : IntType.i64.least ≤ 0 := by decide
      rw [if_pos rfl, ofInt, if_pos hi, toI64?, hword]
      exact if_pos ⟨by omega, by omega⟩
    | false =>
      rw [if_neg Bool.false_ne_true, ofInt, if_pos hi, toU64?, hword]

/-- An integer of a type is read back from its number. -/
theorem narrow_ofInt {t : IntType} {i : Int} (h : t.check i = some i) : narrow t (ofInt i) = some i := by
  have hrange : t.least ≤ i ∧ i ≤ t.greatest := by
    unfold IntType.check at h
    split at h
    · assumption
    · cases h
  rw [narrow, wide_ofInt hrange.1 hrange.2]
  exact h

end Number

end Bindery
