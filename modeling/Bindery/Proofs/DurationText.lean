import Bindery.Proofs.DurationGrammar
import Bindery.Proofs.JsonNumbers
/-!
# Durations there and back

The text of a duration is a spelling of it (`Duration.Spelling.of`): hours, minutes and seconds come to the same total
when those that are zero are left out, and so does a fraction without the zeros at its end. So it is read as the
duration that was written.
-/

namespace Bindery

-- Powers are those of the core library, whatever else is in scope.
attribute [local instance (5000)] instPowNat

namespace Duration

/-! ## Numbers -/

/-- The digits of a number. -/
def Digits.ofNat (n : Nat) : Digits where
  chars := Nat.toDigits 10 n
  digits := List.all_eq_true.2 fun _ hc => Nat.isDigit_of_mem_toDigits (by decide) (by decide) hc
  ne_nil := Nat.toDigits_ne_nil

@[simp] theorem Digits.value_ofNat (n : Nat) : (Digits.ofNat n).value = n := Nat.ofDigitChars_ten_toDigits

/-- With zeros behind it a fraction is nine digits, those of its nanoseconds. -/
theorem fraction_zeros {nanos : Nat} (h : nanos < 1000000000) :
    ∃ k, (fraction nanos).length + k = 9 ∧ (fraction nanos).all Char.isDigit ∧
      Nat.ofDigitChars 10 (fraction nanos) 0 * 10 ^ k = nanos := by
  have hlength : (Nat.toDigits 10 nanos).length ≤ 9 := (Nat.length_toDigits_le_iff (by decide) (by decide)).2 h
  let padded := List.replicate (9 - (Nat.toDigits 10 nanos).length) '0' ++ Nat.toDigits 10 nanos
  obtain ⟨k, hk⟩ : ∃ k, padded = fraction nanos ++ List.replicate k '0' := Decimal.trailing_zeros padded
  have hpadded : padded.all Char.isDigit := by
    rw [List.all_append, Bool.and_eq_true, List.all_eq_true]
    exact ⟨Json.isDigit_zeros _, (Digits.ofNat nanos).digits⟩
  refine ⟨k, ?_, ?_, ?_⟩
  · have hnine : padded.length = 9 := by
      rw [List.length_append, List.length_replicate]
      omega
    rw [← hnine, hk, List.length_append, List.length_replicate]
  · rw [hk, List.all_append, Bool.and_eq_true] at hpadded
    exact hpadded.1
  · calc Nat.ofDigitChars 10 (fraction nanos) 0 * 10 ^ k
        = Nat.ofDigitChars 10 padded 0 := by rw [hk, Json.ofDigitChars_append_zeros, Nat.mul_comm]
      _ = nanos := by
        rw [Nat.ofDigitChars_append, Nat.ofDigitChars_replicate_zero, Nat.mul_zero, Nat.ofDigitChars_ten_toDigits]

/-- The fraction that is written for some nanoseconds. -/
def Fraction.ofNanos (nanos : Nat) (h : nanos < 1000000000) : Fraction where
  chars := fraction nanos
  digits := by
    obtain ⟨k, -, hdigits, -⟩ := fraction_zeros h
    exact hdigits
  length_le := by
    obtain ⟨k, hlength, -, -⟩ := fraction_zeros h
    omega

@[simp] theorem Fraction.nanos_ofNanos {nanos : Nat} (h : nanos < 1000000000) : (ofNanos nanos h).nanos = nanos := by
  obtain ⟨k, hlength, -, hnanos⟩ := fraction_zeros h
  have hk : 9 - (fraction nanos).length = k := by omega
  unfold Fraction.nanos
  rw [ofNanos, hk, hnanos]

/-- The digits of a part that is written unless it is zero. -/
def Digits.ofPart? (n : Nat) : Option Digits := if n = 0 then none else some (ofNat n)

theorem part_eq (n : Nat) (unit : Char) : part n unit = (Digits.ofPart? n).elim [] fun m => m.chars ++ [unit] := by
  unfold part Digits.ofPart?
  split <;> rfl

theorem value_ofPart? (n scale : Nat) : ((Digits.ofPart? n).elim 0 fun m => m.value * scale) = n * scale := by
  unfold Digits.ofPart?
  split
  · next h => rw [h, Nat.zero_mul, Option.elim_none]
  · rw [Option.elim_some, Digits.value_ofNat]

section Seconds

variable (total : Nat) {nanos : Nat} (h : nanos < 1000000000)

/-- The seconds of a minute that are written, with their fraction. -/
def Time.secondsOf? : Option (Digits × Option Fraction) :=
  if total % 60 = 0 ∧ nanos = 0 ∧ total ≠ 0 then none
  else some (.ofNat (total % 60), if nanos = 0 then none else some (.ofNanos nanos h))

theorem seconds_eq : seconds total nanos =
    (Time.secondsOf? total h).elim [] fun (n, fraction) => (Part.seconds n fraction).chars := by
  unfold seconds Time.secondsOf?
  split
  · rfl
  · split
    · rfl
    · exact (List.append_assoc (Nat.toDigits 10 (total % 60)) ('.' :: fraction nanos) ['S']).symm

theorem Time.secs_secondsOf? : ((Time.secondsOf? total h).elim 0 fun (n, _) => n.value) = total % 60 := by
  unfold Time.secondsOf?
  split
  · next hzero => rw [Option.elim_none, hzero.1]
  · exact Digits.value_ofNat _

theorem Time.nanos_secondsOf? :
    ((Time.secondsOf? total h).elim 0 fun (n, fraction) => (Part.seconds n fraction).nanos) = nanos := by
  unfold Time.secondsOf?
  split
  · next hzero => rw [Option.elim_none, hzero.2.1]
  · split
    · next hzero => exact hzero.symm
    · exact Fraction.nanos_ofNanos h

end Seconds

theorem Time.flatMap_parts (t : Time) : t.parts.flatMap Part.chars =
    (t.hours.elim [] fun n => n.chars ++ ['H']) ++ ((t.minutes.elim [] fun n => n.chars ++ ['M']) ++
      t.seconds.elim [] fun (n, fraction) => (Part.seconds n fraction).chars) := by
  obtain ⟨hours, minutes, seconds⟩ := t
  cases hours <;> cases minutes <;> cases seconds <;> simp [parts, List.reduceOption, Part.chars, Part.amount,
    Part.unit]

theorem Time.secs_parts (t : Time) : (t.parts.map Part.secs).sum =
    (t.hours.elim 0 fun n => n.value * 3600) + (t.minutes.elim 0 fun n => n.value * 60) +
      t.seconds.elim 0 fun (n, _) => n.value := by
  obtain ⟨hours, minutes, seconds⟩ := t
  cases hours <;> cases minutes <;> cases seconds <;> simp [parts, List.reduceOption, Part.secs, Nat.add_assoc]

theorem Time.nanos_parts (t : Time) : (t.parts.map Part.nanos).sum =
    t.seconds.elim 0 fun (n, fraction) => (Part.seconds n fraction).nanos := by
  obtain ⟨hours, minutes, seconds⟩ := t
  cases hours <;> cases minutes <;> cases seconds <;> simp [parts, List.reduceOption, Part.nanos]

/-- The time that is written for some seconds and nanoseconds. -/
def Time.of (total nanos : Nat) (h : nanos < 1000000000) : Time where
  hours := Digits.ofPart? (total / 3600)
  minutes := Digits.ofPart? (total % 3600 / 60)
  seconds := secondsOf? total h

theorem Time.secs_of (total nanos : Nat) (h : nanos < 1000000000) :
    ((Time.of total nanos h).parts.map Part.secs).sum = total := by
  unfold Time.of
  rw [Time.secs_parts, value_ofPart?, value_ofPart?, Time.secs_secondsOf?]
  omega

/-- Only a time of zero has no other part, and its seconds are written. -/
theorem Time.of_ne_nil (total nanos : Nat) (h : nanos < 1000000000) : (Time.of total nanos h).parts ≠ [] := by
  intro hparts
  have htotal := Time.secs_of total nanos h
  rw [hparts] at htotal
  obtain rfl : 0 = total := htotal
  simp [Time.of, Time.parts, Time.secondsOf?, List.reduceOption] at hparts

/-- The spelling that is written. -/
def Spelling.of (d : Duration) : Spelling where
  days := none
  time := some (.of d.secs.toNat d.nanos d.nanos_lt)
  some_part := .inr rfl
  some_time := by
    rintro _ ⟨⟩
    exact Time.of_ne_nil _ _ _

theorem Spelling.chars_of (d : Duration) : (Spelling.of d).chars = d.chars := by
  unfold Duration.chars
  dsimp only
  rw [List.append_assoc, part_eq, part_eq, seconds_eq _ d.nanos_lt]
  exact congrArg (fun cs => 'P' :: 'T' :: cs) (Time.flatMap_parts _)

theorem Spelling.secs_of (d : Duration) : (Spelling.of d).secs = d.secs.toNat :=
  (Nat.zero_add _).trans (Time.secs_of d.secs.toNat d.nanos d.nanos_lt)

theorem Spelling.nanos_of (d : Duration) : (Spelling.of d).nanos = d.nanos :=
  (Time.nanos_parts _).trans (Time.nanos_secondsOf? _ d.nanos_lt)

theorem Part.toUpper_chars (p : Part) : p.chars.map Char.toUpper = p.chars := by
  rw [Part.chars, List.map_append, (map_toUpper_eq_iff p.not_alpha).2 rfl]
  cases p <;> rfl

theorem text_toUpper (d : Duration) : d.text.toList.map Char.toUpper = (Spelling.of d).chars := by
  rw [text, String.toList_ofList, ← Spelling.chars_of]
  change Char.toUpper 'P' :: Char.toUpper 'T' :: List.map Char.toUpper (List.flatMap Part.chars _) = _
  rw [List.map_flatMap]
  simp only [Part.toUpper_chars]
  rfl

/-- What was written is read as it was. -/
theorem parse?_text (d : Duration) : parse? d.text = some d :=
  parse?_spelling (.of d) (text_toUpper d) (Spelling.secs_of d) (Spelling.nanos_of d)

theorem ofValue?_toValue (d : Duration) : ofValue? d.toValue = some d := by
  simp only [toValue, ofValue?, if_true]
  exact ofParts?_eq_some_iff.2 ⟨rfl, rfl⟩

/-- Reading gives back every duration that was written, and so does the codec. -/
theorem written_and_read (d : Duration) :
    parse? d.text = some d ∧ ∃ n, codec.write d.toValue = .ok n ∧ codec.read n = .ok d.toValue := by
  refine ⟨parse?_text d, .string d.text, ?_, ?_⟩
  · simp only [codec, ofValue?_toValue]
  · simp only [codec, parse?_text]

example : (⟨3601, 1, by decide⟩ : Duration).text = "PT1H1.000000001S" := by decide

end Duration
end Bindery
