import Bindery.Proofs.Reads
import Bindery.Proofs.WordValues
import Mathlib.Data.Nat.Cast.Order.Field
/-!
# Narrowing is exact

A cast to an integer type stops at the ends of the type and cuts off the fraction, and never goes further from zero than
the word it casts (`Binary64.abs_saturate_le`). Within the range of the type, and if undoing it gives the word back, it
is exact: a word with a fraction is so small that the integer it is cast to has a word of its own
(`Binary64.cast?_eq_some_iff`). So a number is narrowed exactly if it is an integer of the type, and then to that
integer (`Number.narrow_eq_some_iff`).
-/

namespace Bindery

-- Powers are those of the core library, whatever else is in scope.
attribute [local instance (5000)] instPowNat

namespace Binary64

variable {x : Binary64} {t : IntType} {q : ℚ}

/-! ## Casts -/

/-- The whole part of a word, with its sign. -/
def whole (x : Binary64) : Int :=
  if x.negative then -(((format.ratio x.magnitude).1 / (format.ratio x.magnitude).2 : Nat) : Int)
  else ((format.ratio x.magnitude).1 / (format.ratio x.magnitude).2 : Nat)

theorem saturate_eq (h : x.isFinite) (t : IntType) : x.saturate t = max t.least (min x.whole t.greatest) := by
  have hinfinite : ¬ x.isInfinite := by
    simp only [isFinite, isInfinite, decide_eq_true_eq] at h ⊢
    omega
  rw [saturate, if_neg (by rw [not_isNaN h]; decide), if_neg hinfinite]
  rfl

theorem natAbs_whole (x : Binary64) :
    x.whole.natAbs = (format.ratio x.magnitude).1 / (format.ratio x.magnitude).2 := by
  unfold whole
  generalize (format.ratio x.magnitude).1 / (format.ratio x.magnitude).2 = part
  split <;> omega

/-- A cast goes toward zero. -/
theorem abs_saturate_le (h : x.value? = some q) (t : IntType) : |(x.saturate t : ℚ)| ≤ |q| := by
  obtain ⟨hfinite, rfl⟩ := value?_eq_some_iff.1 h
  have hbottom : t.least ≤ 0 := by cases t <;> decide
  have htop : 0 ≤ t.greatest := by cases t <;> decide
  have hclamp : (x.saturate t).natAbs ≤ x.whole.natAbs := by
    rw [saturate_eq hfinite]
    omega
  calc |(x.saturate t : ℚ)| = ((x.saturate t).natAbs : ℚ) := by
        rw [← Int.cast_abs, Int.abs_eq_natAbs, Int.cast_natCast]
    _ ≤ (x.whole.natAbs : ℚ) := by exact_mod_cast hclamp
    _ ≤ format.value x.magnitude := by
        rw [natAbs_whole, ← format.value_eq_ratio]
        exact Nat.cast_div_le
    _ = |atPlace x.place| := (abs_atPlace x).symm

/-- An integer of the type is cast to itself. -/
theorem saturate_of_value {k : Int} (h : x.value? = some (k : ℚ)) (hleast : t.least ≤ k) (hgreatest : k ≤ t.greatest) :
    x.saturate t = k := by
  obtain ⟨hfinite, hplace⟩ := value?_eq_some_iff.1 h
  have hvalue : format.value x.magnitude = (k.natAbs : ℚ) := by
    rw [← abs_atPlace, hplace, ← Int.cast_abs, Int.abs_eq_natAbs, Int.cast_natCast]
  have hden : 0 < (format.ratio x.magnitude).2 := Nat.two_pow_pos _
  have hpart : (format.ratio x.magnitude).1 / (format.ratio x.magnitude).2 = k.natAbs := by
    rw [← format.value_eq_ratio, div_eq_iff (by exact_mod_cast Nat.ne_of_gt hden)] at hvalue
    have hnum : (format.ratio x.magnitude).1 = k.natAbs * (format.ratio x.magnitude).2 := by exact_mod_cast hvalue
    rw [hnum, Nat.mul_div_cancel _ hden]
  have hwhole : x.whole = k := by
    have hsigned : (x.whole : ℚ) = k := by
      rw [← hplace, atPlace_place, hvalue, whole, hpart]
      cases x.negative <;> simp
    exact_mod_cast hsigned
  rw [saturate_eq hfinite, hwhole]
  omega

/-- A magnitude with a fraction stands for less than `2 ^ 52`. -/
theorem integer_or_small (m : Nat) : (∃ n : Nat, format.value m = n) ∨ format.value m < 2 ^ 52 := by
  have hsignificand : (format.significand m : ℚ) < 2 ^ 53 := by exact_mod_cast format.significand_lt m
  unfold FloatFormat.value
  rcases Int.lt_or_le (format.exponent m) 0 with h | h
  · right
    calc (format.significand m : ℚ) * 2 ^ format.exponent m ≤ format.significand m * 2 ^ (-1 : Int) :=
          mul_le_mul_of_nonneg_left (zpow_le_zpow_right₀ (by norm_num) (by omega)) (Nat.cast_nonneg _)
      _ < 2 ^ 53 * 2 ^ (-1 : Int) := mul_lt_mul_of_pos_right hsignificand (by norm_num)
      _ = 2 ^ 52 := by norm_num
  · left
    refine ⟨format.significand m * 2 ^ (format.exponent m).toNat, ?_⟩
    rw [Nat.cast_mul, Nat.cast_pow, Nat.cast_ofNat, ← zpow_natCast, Int.toNat_of_nonneg h]

/-! ## Exact casts -/

/-- The integers that some word stands for, up to 53 leading bits. -/
theorem value?_ofInt_scaled {i : Int} {s e : Nat} (h : i.natAbs = s * 2 ^ e) (hs : s < 2 ^ 53) (he : e ≤ 64) :
    (ofInt i).value? = some (i : ℚ) := by
  obtain ⟨m, hm, hvalue⟩ := exists_magnitude hs he
  exact value?_ofInt hm (by rw [hvalue, h])

/-- The ends of the range that is looked at before a cast. -/
theorem value?_ends (ht : t = .i64 ∨ t = .u64) :
    (ofInt t.least).value? = some (t.least : ℚ) ∧
      (ofInt (t.greatest + 1)).value? = some ((t.greatest + 1 : Int) : ℚ) := by
  rcases ht with rfl | rfl
  · exact ⟨value?_ofInt_scaled (s := 1) (e := 63) rfl (by decide) (by decide),
      value?_ofInt_scaled (s := 1) (e := 63) rfl (by decide) (by decide)⟩
  · exact ⟨value?_ofInt_scaled (s := 0) (e := 0) rfl (by decide) (by decide),
      value?_ofInt_scaled (s := 1) (e := 64) rfl (by decide) (by decide)⟩

/-- Looking at the range of a word first leaves the numbers of the range. -/
theorem in_range_iff (ht : t = .i64 ∨ t = .u64) :
    ((ofInt t.least).numLe x && x.numLt (ofInt (t.greatest + 1))) = true ↔
      ∃ q, x.value? = some q ∧ (t.least : ℚ) ≤ q ∧ q < (t.greatest + 1 : Int) := by
  obtain ⟨hleast, hgreatest⟩ := value?_ends ht
  rw [Bool.and_eq_true]
  constructor
  · rintro ⟨hle, hlt⟩
    have hfinite := isFinite_of_between (value?_eq_some_iff.1 hleast).1 (value?_eq_some_iff.1 hgreatest).1 hle hlt
    have hvalue : x.value? = some (atPlace x.place) := value?_eq_some_iff.2 ⟨hfinite, rfl⟩
    exact ⟨_, hvalue, (numLe_iff hleast hvalue).1 hle, (numLt_iff hvalue hgreatest).1 hlt⟩
  · rintro ⟨q, hvalue, hle, hlt⟩
    exact ⟨(numLe_iff hleast hvalue).2 hle, (numLt_iff hvalue hgreatest).2 hlt⟩

/-- A cast that is undone has lost nothing. -/
theorem eq_of_cast_undone (h : x.value? = some q) (hleast : (t.least : ℚ) ≤ q) (hgreatest : q < (t.greatest + 1 : Int))
    (hundone : (ofInt (x.saturate t)).numEq x) : q = x.saturate t := by
  obtain ⟨hfinite, hplace⟩ := value?_eq_some_iff.1 h
  have habs : |q| = format.value x.magnitude := by rw [← hplace, abs_atPlace]
  rcases integer_or_small x.magnitude with ⟨n, hn⟩ | hsmall
  · obtain ⟨k, rfl⟩ : ∃ k : Int, q = k := by
      rcases abs_eq (Nat.cast_nonneg n) |>.1 (habs.trans hn) with hq | hq
      · exact ⟨n, by rw [hq, Int.cast_natCast]⟩
      · exact ⟨-n, by rw [hq, Int.cast_neg, Int.cast_natCast]⟩
    have hlow : t.least ≤ k := by exact_mod_cast hleast
    have hup : k < t.greatest + 1 := by exact_mod_cast hgreatest
    rw [saturate_of_value h hlow (by omega)]
  · -- The integer that such a word is cast to has a word of its own.
    have hcast : (((x.saturate t).natAbs : Nat) : ℚ) < 2 ^ 52 := by
      rw [← Int.cast_natCast, ← Int.abs_eq_natAbs, Int.cast_abs]
      exact (abs_saturate_le h t).trans_lt (habs ▸ hsmall)
    have hcast : (x.saturate t).natAbs < 2 ^ 52 := by exact_mod_cast hcast
    have hvalue := value?_ofInt_scaled (i := x.saturate t) (e := 0) (Nat.mul_one _).symm (by omega) (by decide)
    exact ((numEq_iff hvalue h).1 hundone).symm

/-- What a word is cast to: the integer that it stands for, if that is one of the type. -/
theorem cast?_eq_some_iff (ht : t = .i64 ∨ t = .u64) {k : Int} :
    x.cast? t = some k ↔ x.value? = some (k : ℚ) ∧ t.least ≤ k ∧ k ≤ t.greatest := by
  unfold cast?
  constructor
  · intro h
    split at h
    · next hrange =>
      obtain ⟨q, hvalue, hleast, hgreatest⟩ := (in_range_iff ht).1 hrange
      simp only at h
      split at h
      · next hundone =>
        obtain rfl := Option.some.inj h
        have hq := eq_of_cast_undone hvalue hleast hgreatest hundone
        rw [hq] at hvalue hleast hgreatest
        have hlow : t.least ≤ x.saturate t := by exact_mod_cast hleast
        have hup : x.saturate t < t.greatest + 1 := by exact_mod_cast hgreatest
        exact ⟨hvalue, hlow, by omega⟩
      · cases h
    · cases h
  · rintro ⟨hvalue, hleast, hgreatest⟩
    obtain ⟨hfinite, hplace⟩ := value?_eq_some_iff.1 hvalue
    have hword : (ofInt k).value? = some (k : ℚ) := by
      refine value?_ofInt (m := x.magnitude) (of_decide_eq_true hfinite) ?_
      rw [← abs_atPlace, hplace, ← Int.cast_abs, Int.abs_eq_natAbs, Int.cast_natCast]
    have hrange := (in_range_iff (x := x) ht).2 ⟨_, hvalue, by exact_mod_cast hleast,
      by exact_mod_cast (by omega : k < t.greatest + 1)⟩
    rw [if_pos hrange]
    simp only [saturate_of_value hvalue hleast hgreatest]
    exact if_pos ((numEq_iff hword hvalue).2 rfl)

end Binary64

/-! ## Numbers -/

namespace IntType

theorem check_eq_some_iff {t : IntType} {i k : Int} : t.check i = some k ↔ i = k ∧ t.least ≤ k ∧ k ≤ t.greatest := by
  unfold check
  split <;> simp <;> grind

/-- Every type is within the widest of its kind. -/
theorem widest (t : IntType) : let w := if t.signed then IntType.i64 else .u64
    w.least ≤ t.least ∧ t.greatest ≤ w.greatest := by
  cases t <;> decide

end IntType

namespace Number

variable {n : Number} {t : IntType} {k : Int}

/-- The exact value of a number; infinities and NaNs have none. -/
def value? : Number → Option ℚ
  | posInt v => some ((v.toNat : Int) : ℚ)
  | negInt v => some (v.toInt : ℚ)
  | float x => x.value?

/-- A `negInt` holds a negative integer. -/
def IsNormal : Number → Prop
  | negInt v => v.toInt < 0
  | _ => True

theorem toI64?_eq_some_iff :
    n.toI64? = some k ↔ n.value? = some (k : ℚ) ∧ IntType.i64.least ≤ k ∧ k ≤ IntType.i64.greatest := by
  cases n with
  | posInt v =>
    rw [toI64?, IntType.check_eq_some_iff, value?, Option.some_inj, Int.cast_inj]
  | negInt v =>
    have hleast : IntType.i64.least ≤ v.toInt := Int64.le_toInt v
    have hgreatest : v.toInt ≤ IntType.i64.greatest := Int64.toInt_le v
    rw [toI64?, value?, Option.some_inj, Option.some_inj, Int.cast_inj]
    constructor
    · rintro rfl
      exact ⟨rfl, hleast, hgreatest⟩
    · exact fun h => h.1
  | float x => exact Binary64.cast?_eq_some_iff (.inl rfl)

theorem toU64?_eq_some_iff (h : n.IsNormal) :
    n.toU64? = some k ↔ n.value? = some (k : ℚ) ∧ IntType.u64.least ≤ k ∧ k ≤ IntType.u64.greatest := by
  cases n with
  | posInt v =>
    have hword := v.toNat_lt
    have hgreatest : IntType.u64.greatest = 2 ^ 64 - 1 := rfl
    rw [toU64?, value?, Option.some_inj, Option.some_inj, Int.cast_inj, hgreatest]
    constructor
    · rintro rfl
      exact ⟨rfl, Int.natCast_nonneg _, by omega⟩
    · exact fun h => h.1
  | negInt v =>
    have hleast : IntType.u64.least = 0 := rfl
    have hnegative : v.toInt < 0 := h
    rw [toU64?, value?, Option.some_inj, Int.cast_inj, hleast]
    constructor
    · intro h
      cases h
    · rintro ⟨rfl, hnonneg, -⟩
      omega
  | float x => exact Binary64.cast?_eq_some_iff (.inr rfl)

/-- A number is narrowed to its value if that is an integer of the type, and else not at all. -/
theorem narrow_eq_some_iff (h : n.IsNormal) :
    n.narrow t = some k ↔ n.value? = some (k : ℚ) ∧ t.least ≤ k ∧ k ≤ t.greatest := by
  have hwide : (if t.signed then n.toI64? else n.toU64?) = some k ↔ n.value? = some (k : ℚ) ∧
      (if t.signed then IntType.i64 else .u64).least ≤ k ∧ k ≤ (if t.signed then IntType.i64 else .u64).greatest := by
    split
    · exact toI64?_eq_some_iff
    · exact toU64?_eq_some_iff h
  obtain ⟨hleast, hgreatest⟩ := t.widest
  rw [narrow, Option.bind_eq_some_iff]
  constructor
  · rintro ⟨i, hi, hcheck⟩
    obtain ⟨rfl, hrange⟩ := IntType.check_eq_some_iff.1 hcheck
    exact ⟨(hwide.1 hi).1, hrange⟩
  · rintro ⟨hvalue, hlow, hup⟩
    exact ⟨k, hwide.2 ⟨hvalue, hleast.trans hlow, hup.trans hgreatest⟩, IntType.check_eq_some_iff.2 ⟨rfl, hlow, hup⟩⟩

end Number

/-- Reading an integer takes the number in front if it is narrowed. -/
theorem Reading.int_eq_ok_iff {σ : Type} [TokenStream σ] {s s' : σ} {n : Number}
    (hfront : TokenStream.front s = .token (.number n)) {t : IntType} {k : Int} :
    Reading.int t s = .ok k s' ↔ n.narrow t = some k ∧ s' = TokenStream.advance s := by
  have hnumber : Reading.number s = .ok n (TokenStream.advance s) := by
    simp only [Reading.number, Reading.take, hfront]
  have hint : Reading.int t s = (n.narrow t).elim
      (.error (.invalidValue t.name (.doesNotFit n t.name)) (TokenStream.advance s))
      fun a => .ok a (TokenStream.advance s) := by
    rw [Reading.int, Reading.narrowed, Reading.bind_ok hnumber]
    cases n.narrow t <;> rfl
  rw [hint]
  cases n.narrow t with
  | some a => simp [eq_comm]
  | none => simp

/-- A number in normal form is narrowed to an integer exactly if that is its value and a member of the type, a double
standing for the rational that its bits denote. Just those numbers are read as the type, from any source, and every
member of the type is narrowed back from its number. -/
theorem narrowing_exact {n : Number} (h : n.IsNormal) (t : IntType) :
    (∀ k, n.narrow t = some k ↔ n.value? = some (k : ℚ) ∧ t.least ≤ k ∧ k ≤ t.greatest) ∧
    (∀ (σ : Type) [TokenStream σ] (s s' : σ) (k : Int), TokenStream.front s = .token (.number n) →
      (Reading.int t s = .ok k s' ↔
        (n.value? = some (k : ℚ) ∧ t.least ≤ k ∧ k ≤ t.greatest) ∧ s' = TokenStream.advance s)) ∧
    ∀ i, t.least ≤ i → i ≤ t.greatest → (Number.ofInt i).narrow t = some i := by
  refine ⟨fun k => Number.narrow_eq_some_iff h, ?_, ?_⟩
  · intro σ _ s s' k hfront
    rw [Reading.int_eq_ok_iff hfront, Number.narrow_eq_some_iff h]
  · intro i hleast hgreatest
    exact Number.narrow_ofInt (IntType.check_eq_some_iff.2 ⟨rfl, hleast, hgreatest⟩)

/-- The double `-2 ^ 63` is the least `i64`, and is read as it from a tape. -/
theorem narrowing_exact_least :
    let n : Number := .float ⟨0xc3e0000000000000⟩
    let s : TapeReader := TapeReader.ofTape (Tape.ofTokens [.number n])
    n.IsNormal ∧ n.narrow .i64 = some (-9223372036854775808) ∧
      Reading.int .i64 s = .ok (-9223372036854775808) (TokenStream.advance s) ∧
      (Number.ofInt (-128)).narrow .i8 = some (-128) := by
  intro n s
  have hvalue : n.value? = some ((-9223372036854775808 : Int) : ℚ) := by
    have hbits : (0xc3e0000000000000 : UInt64).toNat = 0xc3e0000000000000 := rfl
    simp only [n, Number.value?, Binary64.value?, hbits]
    norm_num
  have hrange : IntType.i64.least ≤ -9223372036854775808 ∧ -9223372036854775808 ≤ IntType.i64.greatest := by decide
  obtain ⟨hnarrow, hread, -⟩ := narrowing_exact (n := n) trivial .i64
  obtain ⟨-, -, hback⟩ := narrowing_exact (n := n) trivial .i8
  exact ⟨trivial, (hnarrow _).2 ⟨hvalue, hrange⟩, (hread TapeReader s _ _ rfl).2 ⟨⟨hvalue, hrange⟩, rfl⟩,
    hback _ (by decide) (by decide)⟩

end Bindery
