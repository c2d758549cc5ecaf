import Bindery.Proofs.Offsets
import Mathlib.Algebra.GroupWithZero.Nat
import Mathlib.Data.List.ReduceOption
/-!
# The grammar of durations

A `Duration.Spelling` is a text `P[nD][T[nH][nM][n[.f]S]]` by its parts, and says how many seconds and nanoseconds they
come to. Reading goes through the parts behind the `T` one by one, each of a higher rank than the last; what one step
reads is in `Duration.timeParts?_cons`. So every spelling is read as what it comes to (`Duration.parse?_spelling`), and
what is read is spelled (`Duration.spelling_of_parse?`).

`n` is one or more digits and `f` at most nine. There may be none: a point may stand alone before the `S`.
-/

namespace Bindery

-- Powers are those of the core library, whatever else is in scope.
attribute [local instance (5000)] instPowNat

namespace Duration

/-! ## Spellings -/

/-- One or more decimal digits. -/
structure Digits where
  chars : List Char
  digits : chars.all Char.isDigit
  ne_nil : chars ≠ []

/-- The number that digits spell. -/
def Digits.value (n : Digits) : Nat := Nat.ofDigitChars 10 n.chars 0

/-- At most nine decimal digits, as they stand behind a point. -/
structure Fraction where
  chars : List Char
  digits : chars.all Char.isDigit
  length_le : chars.length ≤ 9

/-- A fraction of a second in nanoseconds. -/
def Fraction.nanos (f : Fraction) : Nat := Nat.ofDigitChars 10 f.chars 0 * 10 ^ (9 - f.chars.length)

/-- A part behind the `T`. -/
inductive Part
  | hours (n : Digits)
  | minutes (n : Digits)
  | seconds (n : Digits) (fraction : Option Fraction)

namespace Part

/-- The place of a part among the others. -/
def rank : Part → Nat
  | hours _ => 1
  | minutes _ => 2
  | seconds _ _ => 3

/-- The letter behind a part. -/
def unit : Part → Char
  | hours _ => 'H'
  | minutes _ => 'M'
  | seconds _ _ => 'S'

/-- What stands before the letter. -/
def amount : Part → List Char
  | hours n => n.chars
  | minutes n => n.chars
  | seconds n none => n.chars
  | seconds n (some f) => n.chars ++ '.' :: f.chars

/-- A part with its letter. -/
def chars (p : Part) : List Char := p.amount ++ [p.unit]

/-- The whole seconds of a part. -/
def secs : Part → Nat
  | hours n => n.value * 3600
  | minutes n => n.value * 60
  | seconds n _ => n.value

/-- The nanoseconds of a part. -/
def nanos : Part → Nat
  | seconds _ (some f) => f.nanos
  | _ => 0

end Part

/-- `[nH][nM][n[.f]S]`. -/
structure Time where
  hours : Option Digits := none
  minutes : Option Digits := none
  seconds : Option (Digits × Option Fraction) := none

/-- The parts that are there, in their order. -/
def Time.parts (t : Time) : List Part :=
  [t.hours.map .hours, t.minutes.map .minutes, t.seconds.map fun (n, f) => .seconds n f].reduceOption

/-- `P[nD][T[nH][nM][n[.f]S]]`, with something behind the `P` and something behind the `T`. -/
structure Spelling where
  days : Option Digits
  time : Option Time
  some_part : days.isSome ∨ time.isSome
  some_time : ∀ t ∈ time, t.parts ≠ []

/-- `[nD]`. -/
def daysChars (days : Option Digits) : List Char := days.elim [] fun n => n.chars ++ ['D']

/-- The seconds of some days. -/
def daysSecs (days : Option Digits) : Nat := days.elim 0 fun n => n.value * 86400

namespace Spelling

/-- The parts behind the `T`. -/
def parts (s : Spelling) : List Part := s.time.elim [] Time.parts

/-- The text in capitals. -/
def chars (s : Spelling) : List Char :=
  'P' :: (daysChars s.days ++ s.time.elim [] fun t => 'T' :: t.parts.flatMap Part.chars)

/-- The exact number of seconds that the parts come to. -/
def secs (s : Spelling) : Nat := daysSecs s.days + (s.parts.map Part.secs).sum

/-- The nanoseconds of the fraction. -/
def nanos (s : Spelling) : Nat := (s.parts.map Part.nanos).sum

end Spelling

/-! ## Characters -/

theorem not_alpha_of_digit {c : Char} (h : c.isDigit) : c.isAlpha = false := by
  unfold Char.isDigit at h
  unfold Char.isAlpha Char.isUpper Char.isLower
  grind

theorem isAlpha_toUpper (c : Char) : c.toUpper.isAlpha = c.isAlpha := by
  unfold Char.isAlpha Char.isUpper Char.isLower Char.toUpper
  split
  · grind
  · rfl

theorem toUpper_of_not_alpha {c : Char} (h : c.isAlpha = false) : c.toUpper = c := by
  unfold Char.toUpper
  rw [dif_neg]
  intro hlower
  unfold Char.isAlpha Char.isLower at h
  simp only [ge_iff_le, hlower.1, hlower.2, decide_true, Bool.and_true, Bool.or_true, Bool.true_eq_false] at h

/-- What has no letters when put in capitals had none, and is the same. -/
theorem map_toUpper_eq_iff {cs ds : List Char} (h : ∀ c ∈ ds, c.isAlpha = false) :
    cs.map Char.toUpper = ds ↔ cs = ds := by
  induction cs generalizing ds with
  | nil => rfl
  | cons c cs ih =>
    cases ds with
    | nil => simp
    | cons d ds =>
      obtain ⟨hd, hds⟩ := List.forall_mem_cons.1 h
      have hc : c.toUpper = d ↔ c = d := by
        constructor
        · rintro rfl
          rw [isAlpha_toUpper] at hd
          exact (toUpper_of_not_alpha hd).symm
        · rintro rfl
          exact toUpper_of_not_alpha hd
      rw [List.map_cons, List.cons.injEq, List.cons.injEq, hc, ih hds]

/-- What has no letter before a capital, when put in capitals, has none before that letter. -/
theorem map_toUpper_append_cons {cs front back : List Char} {unit : Char} (hfront : ∀ c ∈ front, c.isAlpha = false) :
    cs.map Char.toUpper = front ++ unit :: back ↔
      ∃ letter rest, cs = front ++ letter :: rest ∧ letter.toUpper = unit ∧ rest.map Char.toUpper = back := by
  constructor
  · intro h
    obtain ⟨front', tail, rfl, hfront', htail⟩ := List.map_eq_append_iff.1 h
    obtain ⟨letter, rest, rfl, hletter, hrest⟩ := List.map_eq_cons_iff.1 htail
    rw [(map_toUpper_eq_iff hfront).1 hfront']
    exact ⟨letter, rest, rfl, hletter, hrest⟩
  · rintro ⟨letter, rest, rfl, rfl, rfl⟩
    rw [List.map_append, (map_toUpper_eq_iff hfront).2 rfl, List.map_cons]

theorem Digits.not_alpha (n : Digits) : ∀ c ∈ n.chars, c.isAlpha = false :=
  fun c hc => not_alpha_of_digit (List.all_eq_true.1 n.digits c hc)

theorem Digits.no_point (n : Digits) : '.' ∉ n.chars := by
  intro h
  cases List.all_eq_true.1 n.digits _ h

theorem Fraction.not_alpha (f : Fraction) : ∀ c ∈ f.chars, c.isAlpha = false :=
  fun c hc => not_alpha_of_digit (List.all_eq_true.1 f.digits c hc)

theorem Part.not_alpha (p : Part) : ∀ c ∈ p.amount, c.isAlpha = false := by
  cases p with
  | hours n => exact n.not_alpha
  | minutes n => exact n.not_alpha
  | seconds n fraction =>
    cases fraction with
    | none => exact n.not_alpha
    | some f => exact List.forall_mem_append.2 ⟨n.not_alpha, List.forall_mem_cons.2 ⟨rfl, f.not_alpha⟩⟩

/-! ## Cuts and numbers -/

theorem cut_append {p : Char → Bool} {front back : List Char} {c : Char} (hfront : ∀ x ∈ front, p x = false)
    (hc : p c) : cut p (front ++ c :: back) = some (front, c, back) := by
  induction front with
  | nil => rw [List.nil_append, cut_cons, if_pos hc]
  | cons x front ih =>
    obtain ⟨hx, hfront⟩ := List.forall_mem_cons.1 hfront
    rw [List.cons_append, cut_cons, hx, ih hfront]
    rfl

theorem cut_eq_none {p : Char → Bool} {cs : List Char} (h : ∀ x ∈ cs, p x = false) : cut p cs = none := by
  induction cs with
  | nil => rfl
  | cons x cs ih =>
    obtain ⟨hx, hcs⟩ := List.forall_mem_cons.1 h
    rw [cut_cons, hx, ih hcs]
    rfl

theorem checked_eq_some_iff {m n : Nat} : checked m = some n ↔ m < UInt64.size ∧ m = n := by
  unfold checked
  split
  · next h => simp [h]
  · next h => simp [h]

/-- A number is what some digits spell, unless it is too large for a word. -/
theorem number?_eq_some_iff {cs : List Char} {v : Nat} :
    number? cs = some v ↔ ∃ n : Digits, n.chars = cs ∧ n.value = v ∧ v < UInt64.size := by
  constructor
  · intro h
    unfold number? at h
    split at h
    · cases h
    · next hcs =>
      dsimp only at h
      split at h
      · next hlt =>
        cases h
        rw [Bool.not_eq_true, Bool.or_eq_false_iff, Bool.not_eq_false', List.isEmpty_eq_false_iff] at hcs
        exact ⟨⟨cs, hcs.2, hcs.1⟩, rfl, rfl, hlt⟩
      · cases h
  · rintro ⟨n, rfl, rfl, hlt⟩
    have hempty : n.chars.isEmpty = false := List.isEmpty_eq_false_iff.2 n.ne_nil
    unfold number?
    rw [hempty, n.digits]
    exact if_pos hlt

theorem nanos?_eq_some_iff {cs : List Char} {v : Nat} :
    nanos? cs = some v ↔ ∃ f : Fraction, f.chars = cs ∧ f.nanos = v := by
  constructor
  · intro h
    unfold nanos? at h
    split at h
    · next hcs =>
      cases h
      rw [Bool.and_eq_true, decide_eq_true_eq] at hcs
      exact ⟨⟨cs, hcs.2, hcs.1⟩, rfl, rfl⟩
    · cases h
  · rintro ⟨f, rfl, rfl⟩
    unfold nanos?
    rw [f.digits, decide_eq_true f.length_le]
    rfl

theorem nanos?_nil : nanos? [] = some 0 := by decide

/-! ## Parts -/

theorem Part.rank_le (p : Part) : p.rank ≤ 3 := by
  cases p with
  | hours n => exact (by decide : 1 ≤ 3)
  | minutes n => exact (by decide : 2 ≤ 3)
  | seconds n fraction => exact Nat.le_refl 3

/-- Only seconds have a fraction. -/
theorem Part.nanos_eq_zero {p : Part} (h : p.rank < 3) : p.nanos = 0 := by
  cases p with
  | hours n => rfl
  | minutes n => rfl
  | seconds n fraction => exact absurd h (Nat.lt_irrefl 3)

/-- What stands before a point and behind it. -/
def pointed (value : List Char) : List Char × List Char :=
  match cut (· == '.') value with
  | some (whole, _, frac) => (whole, frac)
  | none => (value, [])

theorem pointed_amount (n : Digits) (fraction : Option Fraction) :
    pointed (Part.seconds n fraction).amount = (n.chars, fraction.elim [] Fraction.chars) := by
  have hpoint : ∀ c ∈ n.chars, (c == '.') = false := by
    intro c hc
    apply beq_false_of_ne
    rintro rfl
    exact n.no_point hc
  unfold pointed Part.amount
  cases fraction with
  | none =>
    rw [cut_eq_none hpoint]
    rfl
  | some f =>
    rw [cut_append hpoint (by rfl)]
    rfl

theorem pointed_cases (value : List Char) :
    value = (pointed value).1 ++ '.' :: (pointed value).2 ∨ value = (pointed value).1 ∧ (pointed value).2 = [] := by
  unfold pointed
  split
  · next hcut =>
    obtain ⟨hvalue, hpoint⟩ := cut_spec hcut
    rw [beq_iff_eq] at hpoint
    exact .inl (hpoint ▸ hvalue)
  · exact .inr ⟨rfl, rfl⟩

/-- A number of seconds behind its point is a number, and a fraction if there is a point. -/
theorem pointed_iff {value : List Char} {v f : Nat} :
    (number? (pointed value).1 = some v ∧ nanos? (pointed value).2 = some f) ↔
      ∃ (n : Digits) (fraction : Option Fraction), (Part.seconds n fraction).amount = value ∧ n.value = v ∧
        v < UInt64.size ∧ (Part.seconds n fraction).nanos = f := by
  constructor
  · rintro ⟨hv, hf⟩
    obtain ⟨n, hn, rfl, hlt⟩ := number?_eq_some_iff.1 hv
    rcases pointed_cases value with hvalue | ⟨hvalue, hnone⟩
    · obtain ⟨g, hg, rfl⟩ := nanos?_eq_some_iff.1 hf
      rw [← hn, ← hg] at hvalue
      exact ⟨n, some g, hvalue.symm, rfl, hlt, rfl⟩
    · rw [hnone, nanos?_nil] at hf
      cases hf
      exact ⟨n, none, hn.trans hvalue.symm, rfl, hlt, rfl⟩
  · rintro ⟨n, fraction, rfl, rfl, hlt, rfl⟩
    rw [pointed_amount]
    refine ⟨number?_eq_some_iff.2 ⟨n, rfl, rfl, hlt⟩, ?_⟩
    cases fraction with
    | none => exact nanos?_nil
    | some f => exact nanos?_eq_some_iff.2 ⟨f, rfl, rfl⟩

theorem unit?_cases {c : Char} {unit : Nat × Nat} (h : unit? c = some unit) :
    c = 'H' ∧ unit = (1, 3600) ∨ c = 'M' ∧ unit = (2, 60) ∨ c = 'S' ∧ unit = (3, 1) := by
  unfold unit? at h
  split at h
  · exact .inl ⟨rfl, Option.some.inj h.symm⟩
  · exact .inr (.inl ⟨rfl, Option.some.inj h.symm⟩)
  · exact .inr (.inr ⟨rfl, Option.some.inj h.symm⟩)
  · cases h

section Step

variable {budget last secs nanos rank scale : Nat} {cs value rest : List Char} {letter : Char} {r : Nat × Nat}

/-- Hours and minutes are a number, with room for what it comes to. -/
theorem timeParts?_scaled (hcut : cut Char.isAlpha cs = some (value, letter, rest))
    (hunit : unit? letter.toUpper = some (rank, scale)) (hletter : letter.toUpper ≠ 'S') (hscale : 0 < scale) :
    timeParts? (budget + 1) cs last secs nanos = some r ↔
      last < rank ∧ ∃ n : Digits, n.chars = value ∧ secs + n.value * scale < UInt64.size ∧
        timeParts? budget rest rank (secs + n.value * scale) nanos = some r := by
  have hcs : timeParts? (budget + 1) cs last secs nanos =
      if rank ≤ last then none else (number? value).bind fun n => (checked (n * scale)).bind fun amount =>
        (checked (secs + amount)).bind fun total => timeParts? budget rest rank total nanos := by
    cases cs with
    | nil => cases hcut
    | cons c cs =>
      conv_lhs => unfold timeParts?
      simp only [hcut, hunit, bind, Option.bind_some, if_neg hletter]
  rw [hcs]
  split
  · next hrank => simp [Nat.not_lt.2 hrank]
  · next hrank =>
    simp only [Option.bind_eq_some_iff, number?_eq_some_iff, checked_eq_some_iff]
    constructor
    · rintro ⟨_, ⟨n, rfl, rfl, -⟩, _, ⟨-, rfl⟩, _, ⟨htotal, rfl⟩, h⟩
      exact ⟨Nat.lt_of_not_le hrank, n, rfl, htotal, h⟩
    · rintro ⟨-, n, rfl, htotal, h⟩
      have hn : n.value ≤ n.value * scale := Nat.le_mul_of_pos_right _ hscale
      exact ⟨_, ⟨n, rfl, rfl, by omega⟩, _, ⟨by omega, rfl⟩, _, ⟨htotal, rfl⟩, h⟩

/-- Seconds are a number with room for it, and perhaps a fraction. -/
theorem timeParts?_seconds (hcut : cut Char.isAlpha cs = some (value, letter, rest)) (hletter : letter.toUpper = 'S') :
    timeParts? (budget + 1) cs last secs nanos = some r ↔
      last < 3 ∧ ∃ (n : Digits) (fraction : Option Fraction), (Part.seconds n fraction).amount = value ∧
        secs + n.value < UInt64.size ∧
        timeParts? budget rest 3 (secs + n.value) (Part.seconds n fraction).nanos = some r := by
  have hcs : timeParts? (budget + 1) cs last secs nanos =
      if 3 ≤ last then none else (number? (pointed value).1).bind fun n => (checked (secs + n)).bind fun total =>
        (nanos? (pointed value).2).bind fun f => timeParts? budget rest 3 total f := by
    cases cs with
    | nil => cases hcut
    | cons c cs =>
      conv_lhs => unfold timeParts?
      simp only [hcut, hletter, unit?, bind, Option.bind_some, if_true]
      rfl
  rw [hcs]
  split
  · next hlast => simp [Nat.not_lt.2 hlast]
  · next hlast =>
    simp only [Option.bind_eq_some_iff, checked_eq_some_iff]
    constructor
    · rintro ⟨_, hn, _, ⟨htotal, rfl⟩, _, hf, h⟩
      obtain ⟨n, fraction, hvalue, rfl, -, rfl⟩ := pointed_iff.1 ⟨hn, hf⟩
      exact ⟨Nat.lt_of_not_le hlast, n, fraction, hvalue, htotal, h⟩
    · rintro ⟨-, n, fraction, hvalue, htotal, h⟩
      obtain ⟨hn, hf⟩ := pointed_iff.2 ⟨n, fraction, hvalue, rfl, by omega, rfl⟩
      exact ⟨_, hn, _, ⟨htotal, rfl⟩, _, hf, h⟩

/-- What is read begins with a part of a higher rank that there is room for. -/
theorem timeParts?_cons {c : Char} (hnanos : last < 3 → nanos = 0) :
    timeParts? (budget + 1) (c :: cs) last secs nanos = some r ↔
      ∃ (p : Part) (letter : Char) (rest : List Char), c :: cs = p.amount ++ letter :: rest ∧
        letter.toUpper = p.unit ∧ last < p.rank ∧ secs + p.secs < UInt64.size ∧
        timeParts? budget rest p.rank (secs + p.secs) p.nanos = some r := by
  constructor
  · intro h
    cases hcut : cut Char.isAlpha (c :: cs) with
    | none =>
      unfold timeParts? at h
      rw [hcut] at h
      cases h
    | some parts =>
      obtain ⟨value, letter, rest⟩ := parts
      obtain ⟨hcs, -⟩ := cut_spec hcut
      rw [hcs]
      cases hunit : unit? letter.toUpper with
      | none =>
        unfold timeParts? at h
        rw [hcut] at h
        simp [hunit] at h
      | some unit =>
        obtain ⟨rank, scale⟩ := unit
        -- Before a part there are no nanoseconds yet: those of a fraction come last.
        rcases unit?_cases hunit with ⟨hletter, ⟨⟩⟩ | ⟨hletter, ⟨⟩⟩ | ⟨hletter, ⟨⟩⟩
        · obtain ⟨hrank, n, rfl, hsecs, h⟩ := (timeParts?_scaled hcut hunit (hletter ▸ by decide) (by decide)).1 h
          rw [hnanos (Nat.lt_trans hrank (by decide))] at h
          exact ⟨.hours n, letter, rest, rfl, hletter, hrank, hsecs, h⟩
        · obtain ⟨hrank, n, rfl, hsecs, h⟩ := (timeParts?_scaled hcut hunit (hletter ▸ by decide) (by decide)).1 h
          rw [hnanos (Nat.lt_trans hrank (by decide))] at h
          exact ⟨.minutes n, letter, rest, rfl, hletter, hrank, hsecs, h⟩
        · obtain ⟨hrank, n, fraction, rfl, hsecs, h⟩ := (timeParts?_seconds hcut hletter).1 h
          exact ⟨.seconds n fraction, letter, rest, rfl, hletter, hrank, hsecs, h⟩
  · rintro ⟨p, letter, rest, hcs, hletter, hrank, hsecs, h⟩
    have halpha : letter.isAlpha := by
      rw [← isAlpha_toUpper, hletter]
      cases p <;> rfl
    have hcut : cut Char.isAlpha (c :: cs) = some (p.amount, letter, rest) := hcs ▸ cut_append p.not_alpha halpha
    cases p with
    | hours n =>
      have hletter : letter.toUpper = 'H' := hletter
      have hrank : last < 1 := hrank
      rw [hnanos (Nat.lt_trans hrank (by decide))]
      exact (timeParts?_scaled hcut (hletter ▸ rfl) (hletter ▸ by decide) (by decide)).2 ⟨hrank, n, rfl, hsecs, h⟩
    | minutes n =>
      have hletter : letter.toUpper = 'M' := hletter
      have hrank : last < 2 := hrank
      rw [hnanos (Nat.lt_trans hrank (by decide))]
      exact (timeParts?_scaled hcut (hletter ▸ rfl) (hletter ▸ by decide) (by decide)).2 ⟨hrank, n, rfl, hsecs, h⟩
    | seconds n fraction => exact (timeParts?_seconds hcut hletter).2 ⟨hrank, n, fraction, rfl, hsecs, h⟩

end Step

/-- Parts in their order are read as what they come to, if it is less than 2^64 seconds. -/
theorem timeParts?_parts (ps : List Part) : ∀ {budget : Nat} {cs : List Char} {last secs nanos : Nat},
    cs.length ≤ budget → (last < 3 → nanos = 0) → (last :: ps.map Part.rank).IsChain (· < ·) →
    cs.map Char.toUpper = ps.flatMap Part.chars → secs + (ps.map Part.secs).sum < UInt64.size →
    timeParts? budget cs last secs nanos = some (secs + (ps.map Part.secs).sum, nanos + (ps.map Part.nanos).sum) := by
  induction ps with
  | nil =>
    intro budget cs last secs nanos hlength hnanos hchain hcs hsum
    rw [List.map_eq_nil_iff.1 hcs]
    cases budget <;> rfl
  | cons p ps ih =>
    intro budget cs last secs nanos hlength hnanos hchain hcs hsum
    obtain ⟨hrank, hchain⟩ := List.isChain_cons_cons.1 hchain
    rw [List.flatMap_cons, Part.chars, List.append_assoc, List.singleton_append,
      map_toUpper_append_cons p.not_alpha] at hcs
    obtain ⟨letter, rest, hcs, hletter, hrest⟩ := hcs
    rw [List.map_cons, List.sum_cons, ← Nat.add_assoc] at hsum ⊢
    cases budget with
    | zero =>
      rw [hcs, List.length_append, List.length_cons] at hlength
      omega
    | succ budget =>
      have hbudget : rest.length ≤ budget := by
        rw [hcs, List.length_append, List.length_cons] at hlength
        omega
      have hpart : secs + p.secs < UInt64.size := Nat.lt_of_le_of_lt (Nat.le_add_right _ _) hsum
      have hread := ih hbudget Part.nanos_eq_zero hchain hrest hsum
      obtain ⟨c, tail, htail⟩ := List.exists_cons_of_ne_nil (List.append_ne_nil_of_right_ne_nil p.amount
        (List.cons_ne_nil letter rest))
      rw [hcs, htail, timeParts?_cons hnanos, hnanos (Nat.lt_of_lt_of_le hrank p.rank_le), Nat.zero_add, List.map_cons,
        List.sum_cons]
      exact ⟨p, letter, rest, htail.symm, hletter, hrank, hpart, hread⟩

/-- What is read is parts in their order, and comes to what they come to, which is less than 2^64 seconds. -/
theorem parts_of_timeParts? (budget : Nat) : ∀ {cs : List Char} {last secs nanos : Nat} {r : Nat × Nat},
    timeParts? budget cs last secs nanos = some r → secs < UInt64.size → (last < 3 → nanos = 0) →
    ∃ ps : List Part, (last :: ps.map Part.rank).IsChain (· < ·) ∧ cs.map Char.toUpper = ps.flatMap Part.chars ∧
      r = (secs + (ps.map Part.secs).sum, nanos + (ps.map Part.nanos).sum) := by
  induction budget with
  | zero =>
    intro cs last secs nanos r h hsecs hnanos
    cases cs with
    | nil => exact ⟨[], .singleton _, rfl, (Option.some.inj h).symm⟩
    | cons c cs => cases h
  | succ budget ih =>
    intro cs last secs nanos r h hsecs hnanos
    cases cs with
    | nil => exact ⟨[], .singleton _, rfl, (Option.some.inj h).symm⟩
    | cons c cs =>
      obtain ⟨p, letter, rest, hcs, hletter, hrank, hpart, h⟩ := (timeParts?_cons hnanos).1 h
      obtain ⟨ps, hchain, hps, rfl⟩ := ih h hpart Part.nanos_eq_zero
      refine ⟨p :: ps, List.isChain_cons_cons.2 ⟨hrank, hchain⟩, ?_, ?_⟩
      · rw [hcs, (map_toUpper_append_cons p.not_alpha).2 ⟨letter, rest, rfl, hletter, hps⟩]
        simp [Part.chars]
      · rw [hnanos (Nat.lt_of_lt_of_le hrank p.rank_le), Nat.zero_add, List.map_cons, List.sum_cons, List.map_cons,
          List.sum_cons, Nat.add_assoc]

/-! ## Times -/

theorem flatMap_chars_eq_nil {ps : List Part} : ps.flatMap Part.chars = [] ↔ ps = [] := by
  cases ps <;> simp [Part.chars]

theorem Time.ascending (t : Time) : (0 :: t.parts.map Part.rank).IsChain (· < ·) := by
  obtain ⟨hours, minutes, seconds⟩ := t
  cases hours <;> cases minutes <;> cases seconds <;> simp [Time.parts, List.reduceOption, Part.rank]

/-- Parts of ascending ranks are the parts of a time. -/
theorem exists_time (ps : List Part) : ∀ {last : Nat}, (last :: ps.map Part.rank).IsChain (· < ·) →
    ∃ t : Time, t.parts = ps ∧ (1 ≤ last → t.hours = none) ∧ (2 ≤ last → t.minutes = none) ∧
      (3 ≤ last → t.seconds = none) := by
  induction ps with
  | nil =>
    intro last _
    exact ⟨{}, rfl, fun _ => rfl, fun _ => rfl, fun _ => rfl⟩
  | cons p ps ih =>
    intro last h
    obtain ⟨hrank, h⟩ := List.isChain_cons_cons.1 h
    obtain ⟨t, rfl, hhours, hminutes, hseconds⟩ := ih h
    -- The parts behind this one leave its own place free, and those before it.
    cases p with
    | hours n =>
      have hrank : last < 1 := hrank
      refine ⟨{ t with hours := some n }, ?_, by omega, by omega, by omega⟩
      simp [Time.parts, List.reduceOption, hhours (by decide : 1 ≤ 1)]
    | minutes n =>
      have hrank : last < 2 := hrank
      refine ⟨{ t with minutes := some n }, ?_, fun _ => hhours (by decide : 1 ≤ 2), by omega, by omega⟩
      simp [Time.parts, List.reduceOption, hhours (by decide : 1 ≤ 2), hminutes (by decide : 2 ≤ 2)]
    | seconds n fraction =>
      have hrank : last < 3 := hrank
      refine ⟨{ t with seconds := some (n, fraction) }, ?_, fun _ => hhours (by decide : 1 ≤ 3),
        fun _ => hminutes (by decide : 2 ≤ 3), by omega⟩
      simp [Time.parts, List.reduceOption, hhours (by decide : 1 ≤ 3), hminutes (by decide : 2 ≤ 3),
        hseconds (by decide : 3 ≤ 3)]

/-! ## Days -/

theorem daysChars_eq_nil {days : Option Digits} : daysChars days = [] ↔ days = none := by
  cases days <;> simp [daysChars]

theorem days?_concat (front : List Char) (letter : Char) : days? (front ++ [letter]) =
    if letter.toUpper = 'D' then (number? front).bind fun n => checked (n * 86400) else none := by
  simp [days?, bind]

/-- What stands before the `T` is read as days, if they are less than 2^64 seconds. -/
theorem days?_eq_some_iff {cs : List Char} {secs : Nat} :
    days? cs = some secs ↔
      ∃ days : Option Digits, cs.map Char.toUpper = daysChars days ∧ daysSecs days = secs ∧ secs < UInt64.size := by
  constructor
  · intro h
    rcases List.eq_nil_or_concat' cs with rfl | ⟨front, letter, rfl⟩
    · cases h
      exact ⟨none, rfl, rfl, by decide⟩
    · rw [days?_concat] at h
      split at h
      · next hletter =>
        obtain ⟨_, hn, h⟩ := Option.bind_eq_some_iff.1 h
        obtain ⟨n, rfl, rfl, -⟩ := number?_eq_some_iff.1 hn
        obtain ⟨hlt, rfl⟩ := checked_eq_some_iff.1 h
        refine ⟨some n, ?_, rfl, hlt⟩
        exact (map_toUpper_append_cons n.not_alpha).2 ⟨letter, [], rfl, hletter, rfl⟩
      · cases h
  · rintro ⟨days, hcs, rfl, hlt⟩
    cases days with
    | none =>
      rw [List.map_eq_nil_iff.1 hcs]
      rfl
    | some n =>
      obtain ⟨letter, rest, rfl, hletter, hrest⟩ := (map_toUpper_append_cons n.not_alpha).1 hcs
      have hn : n.value ≤ n.value * 86400 := Nat.le_mul_of_pos_right _ (by decide)
      have hvalue : number? n.chars = some n.value :=
        number?_eq_some_iff.2 ⟨n, rfl, rfl, Nat.lt_of_le_of_lt hn hlt⟩
      rw [List.map_eq_nil_iff.1 hrest, days?_concat, if_pos hletter, hvalue, Option.bind_some]
      exact checked_eq_some_iff.2 ⟨hlt, rfl⟩

theorem daysChars_no_time {cs : List Char} {days : Option Digits} (h : cs.map Char.toUpper = daysChars days) :
    ∀ c ∈ cs, (c.toUpper == 'T') = false := by
  intro c hc
  apply beq_false_of_ne
  intro htime
  have hmem : 'T' ∈ daysChars days := h ▸ htime ▸ List.mem_map_of_mem hc
  cases days with
  | none => cases hmem
  | some n =>
    rcases List.mem_append.1 hmem with hmem | hmem
    · cases n.not_alpha _ hmem
    · simp at hmem

/-! ## Reading a spelling -/

theorem ofParts?_eq_some_iff {secs nanos : Nat} {d : Duration} :
    ofParts? secs nanos = some d ↔ secs = d.secs.toNat ∧ nanos = d.nanos := by
  obtain ⟨secs', nanos', hlt⟩ := d
  unfold ofParts?
  constructor
  · intro h
    split at h
    · split at h
      · next hsecs =>
        cases h
        exact ⟨(UInt64.toNat_ofNat_of_lt' hsecs).symm, rfl⟩
      · cases h
    · cases h
  · rintro ⟨rfl, rfl⟩
    rw [dif_pos hlt, if_pos secs'.toNat_lt, UInt64.ofNat_toNat]

/-- A text is read if there are days, or a time that may have days before it. -/
theorem parse?_iff_days_or_time {text : String} {d : Duration} :
    parse? text = some d ↔ ∃ p rest, text.toList = p :: rest ∧ p.toUpper = 'P' ∧
      ((cut (·.toUpper == 'T') rest = none ∧ rest ≠ [] ∧ ∃ secs, days? rest = some secs ∧ ofParts? secs 0 = some d) ∨
        ∃ days letter time, cut (·.toUpper == 'T') rest = some (days, letter, time) ∧ ∃ secs, days? days = some secs ∧
          time ≠ [] ∧ ∃ total nanos, timeParts? time.length time 0 secs 0 = some (total, nanos) ∧
            ofParts? total nanos = some d) := by
  unfold parse?
  cases text.toList with
  | nil => simp
  | cons p rest =>
    by_cases hp : p.toUpper = 'P'
    · cases hcut : cut (·.toUpper == 'T') rest with
      | none => simp [hp, hcut, Option.bind_eq_some_iff]
      | some parts =>
        obtain ⟨days, letter, time⟩ := parts
        simp [hp, hcut, Option.bind_eq_some_iff]
    · simp [hp]

/-- Every spelling is read as what it comes to. -/
theorem parse?_spelling (s : Spelling) {text : String} {d : Duration} (htext : text.toList.map Char.toUpper = s.chars)
    (hsecs : s.secs = d.secs.toNat) (hnanos : s.nanos = d.nanos) : parse? text = some d := by
  obtain ⟨p, rest, hp_rest, hp, hrest⟩ := List.map_eq_cons_iff.1 htext
  have hlt : s.secs < UInt64.size := hsecs ▸ d.secs.toNat_lt
  have hd := ofParts?_eq_some_iff.2 ⟨hsecs, hnanos⟩
  refine parse?_iff_days_or_time.2 ⟨p, rest, hp_rest, hp, ?_⟩
  obtain ⟨days, time, hsome, htime⟩ := s
  -- The first `T` is the one behind the days, which have none.
  cases time with
  | none =>
    rw [Option.elim_none, List.append_nil] at hrest
    refine .inl ⟨cut_eq_none (daysChars_no_time hrest), ?_, _, days?_eq_some_iff.2 ⟨days, hrest, rfl, hlt⟩, hd⟩
    rintro rfl
    have hdays : days = none := daysChars_eq_nil.1 hrest.symm
    simp [hdays] at hsome
  | some t =>
    obtain ⟨front, tail, rfl, hfront, htail⟩ := List.map_eq_append_iff.1 hrest
    obtain ⟨letter, cs, rfl, hletter, hcs⟩ := List.map_eq_cons_iff.1 htail
    have hdays : days? front = some (daysSecs days) :=
      days?_eq_some_iff.2 ⟨days, hfront, rfl, Nat.lt_of_le_of_lt (Nat.le_add_right _ _) hlt⟩
    have hparts := timeParts?_parts t.parts (Nat.le_refl cs.length) (fun _ => rfl) t.ascending hcs hlt
    rw [Nat.zero_add] at hparts
    refine .inr ⟨front, letter, cs, cut_append (daysChars_no_time hfront) (beq_iff_eq.2 hletter), _, hdays, ?_, _, _,
      hparts, hd⟩
    rintro rfl
    exact htime t rfl (flatMap_chars_eq_nil.1 hcs.symm)

/-- What is read is spelled. -/
theorem spelling_of_parse? {text : String} {d : Duration} (h : parse? text = some d) :
    ∃ s : Spelling, text.toList.map Char.toUpper = s.chars ∧ s.secs = d.secs.toNat ∧ s.nanos = d.nanos := by
  obtain ⟨p, rest, htext, hp, ⟨-, hne, secs, hdays, hd⟩ | ⟨front, letter, cs, hcut, secs, hdays, hne, total, nanos,
    hparts, hd⟩⟩ := parse?_iff_days_or_time.1 h
  · obtain ⟨days, hrest, rfl, -⟩ := days?_eq_some_iff.1 hdays
    have hsome : days.isSome := by
      cases days with
      | none => exact absurd (List.map_eq_nil_iff.1 hrest) hne
      | some n => rfl
    refine ⟨⟨days, none, .inl hsome, fun t ht => nomatch ht⟩, ?_, ofParts?_eq_some_iff.1 hd⟩
    rw [htext, List.map_cons, hp, hrest]
    exact congrArg _ (List.append_nil _).symm
  · obtain ⟨days, hfront, rfl, hlt⟩ := days?_eq_some_iff.1 hdays
    obtain ⟨ps, hchain, hcs, hpair⟩ := parts_of_timeParts? _ hparts hlt fun _ => rfl
    cases hpair
    obtain ⟨t, rfl, -⟩ := exists_time ps hchain
    have htime : t.parts ≠ [] := by
      intro hnil
      rw [hnil] at hcs
      exact hne (List.map_eq_nil_iff.1 hcs)
    obtain ⟨hrest, hletter⟩ := cut_spec hcut
    refine ⟨⟨days, some t, .inr rfl, by rintro _ ⟨⟩; exact htime⟩, ?_, ?_⟩
    · rw [htext, hrest, List.map_cons, hp, List.map_append, hfront, List.map_cons, beq_iff_eq.1 hletter, hcs]
      rfl
    · rw [Nat.zero_add] at hd
      exact ofParts?_eq_some_iff.1 hd

/-- A text is read if and only if it is spelled, and as what its spelling comes to: a total below 2^64 seconds. -/
theorem parse?_iff_spelled (text : String) (d : Duration) :
    parse? text = some d ↔
      ∃ s : Spelling, text.toList.map Char.toUpper = s.chars ∧ s.secs = d.secs.toNat ∧ s.nanos = d.nanos := by
  constructor
  · exact spelling_of_parse?
  · rintro ⟨s, htext, hsecs, hnanos⟩
    exact parse?_spelling s htext hsecs hnanos

example : parse? "p1dt1.5s" = some ⟨86401, 500000000, by decide⟩ := by decide

example : parse? "PT1S1M" = none := by decide

/-- A spelling in which every point has a digit behind it. -/
def Spelling.Pointed (s : Spelling) : Prop := ∀ n f, Part.seconds n (some f) ∈ s.parts → f.chars ≠ []

theorem Part.point_mem {p : Part} (h : '.' ∈ p.chars) : ∃ n f, p = .seconds n (some f) := by
  cases p with
  | hours n => simp [chars, amount, unit, n.no_point] at h
  | minutes n => simp [chars, amount, unit, n.no_point] at h
  | seconds n fraction =>
    cases fraction with
    | none => simp [chars, amount, unit, n.no_point] at h
    | some f => exact ⟨n, f, rfl⟩

theorem Time.seconds_last {t : Time} {n : Digits} {fraction : Option Fraction} (h : .seconds n fraction ∈ t.parts) :
    ∃ front, t.parts = front ++ [.seconds n fraction] := by
  have hseconds : (t.seconds.map fun (n, f) => Part.seconds n f) = some (.seconds n fraction) := by
    have hmem := List.reduceOption_mem_iff.1 h
    simp only [List.mem_cons, List.not_mem_nil, or_false] at hmem
    rcases hmem with hhours | hminutes | hseconds
    · obtain ⟨_, -, ⟨⟩⟩ := Option.map_eq_some_iff.1 hhours.symm
    · obtain ⟨_, -, ⟨⟩⟩ := Option.map_eq_some_iff.1 hminutes.symm
    · exact hseconds.symm
  refine ⟨[t.hours.map Part.hours, t.minutes.map Part.minutes].reduceOption, ?_⟩
  rw [parts, hseconds]
  exact List.reduceOption_append [t.hours.map Part.hours, t.minutes.map Part.minutes] [some (.seconds n fraction)]

/-- A point stands in the last part. -/
theorem Spelling.ends_with_fraction {s : Spelling} (h : '.' ∈ s.chars) :
    ∃ front n f, .seconds n (some f) ∈ s.parts ∧ s.chars = front ++ (Part.seconds n (some f)).chars := by
  obtain ⟨days, time, hsome, htime⟩ := s
  have hdays : '.' ∉ daysChars days := by
    cases days with
    | none => exact List.not_mem_nil
    | some n => simp [daysChars, n.no_point]
  cases time with
  | none => simp [chars, hdays] at h
  | some t =>
    have hparts : '.' ∈ t.parts.flatMap Part.chars := by simpa [chars, hdays] using h
    obtain ⟨p, hp, hmem⟩ := List.mem_flatMap.1 hparts
    obtain ⟨n, f, rfl⟩ := Part.point_mem hmem
    obtain ⟨front, hfront⟩ := Time.seconds_last hp
    refine ⟨'P' :: (daysChars days ++ 'T' :: front.flatMap Part.chars), n, f, hp, ?_⟩
    simp [chars, hfront]

/-- What is read is not always spelled with a digit behind its point: a point may stand alone before the `S`. -/
theorem bare_point_read :
    ¬ ∀ (text : String) (d : Duration), parse? text = some d ↔
      ∃ s : Spelling, s.Pointed ∧ text.toList.map Char.toUpper = s.chars ∧ s.secs = d.secs.toNat ∧
        s.nanos = d.nanos := by
  intro hall
  obtain ⟨s, hpointed, hchars, -⟩ := (hall "PT1.S" ⟨1, 0, by decide⟩).1 (by decide)
  have htext : s.chars = ['P', 'T', '1'] ++ ['.'] ++ ['S'] := hchars.symm
  obtain ⟨front, n, f, hmem, hend⟩ := Spelling.ends_with_fraction (s := s) (by rw [htext]; decide)
  obtain ⟨digits, c, hf⟩ := (List.eq_nil_or_concat' f.chars).resolve_left (hpointed n f hmem)
  have hlast : ['P', 'T', '1'] ++ ['.'] ++ ['S'] = (front ++ n.chars ++ '.' :: digits) ++ [c] ++ ['S'] := by
    rw [← htext, hend, Part.chars, Part.amount, hf]
    simp [Part.unit]
  obtain ⟨hlast, -⟩ := List.append_inj' hlast rfl
  obtain ⟨-, hpoint⟩ := List.append_inj' hlast rfl
  obtain rfl : '.' = c := List.head_eq_of_cons_eq hpoint
  cases List.all_eq_true.1 f.digits '.' (hf ▸ List.mem_append_right _ (List.mem_singleton_self _))

end Duration
end Bindery
