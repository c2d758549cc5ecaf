import Bindery.Codec.Duration
import Mathlib.Algebra.Group.Nat.Defs
import Mathlib.Data.List.TakeDrop
/-!
# Durations by offsets

To a program a text is bytes. To read a duration it finds the offsets of letters, cuts the text there and counts in
machine words. A cut crashes inside of a character and behind the end, and so does a word that a number does not fit
into. `Duration.scan` takes each of these steps as it is, crashes included; it reads what `Duration.parse?` reads, and
there is no text that makes it crash (`Duration.scan_eq`).
-/

namespace Bindery

-- Powers are those of the core library, whatever else is in scope.
attribute [local instance (5000)] instPowNat

/-! ## Steps that can crash -/

/-- Why a program cannot go on. -/
inductive Crash
  /-- A text is cut inside of a character or behind its end. -/
  | cut
  /-- A text has no byte at an offset. -/
  | index
  /-- A number does not fit into a machine word. -/
  | overflow
  /-- A loop does not stop. -/
  | endless
  deriving DecidableEq

/-- A computation that may crash, and that may have no answer. -/
abbrev Scan := OptionT (Except Crash)

namespace Scan

variable {α β : Type}

/-- An answer, or none. -/
def answer (x : Option α) : Scan α := OptionT.mk (.ok x)

/-- No way to go on. -/
def crash (c : Crash) : Scan α := OptionT.mk (.error c)

@[simp] theorem answer_some_bind (a : α) (k : α → Scan β) : answer (some a) >>= k = k a := rfl

theorem answer_bind_answer (x : Option α) (f : α → Option β) :
    (answer x >>= fun a => answer (f a)) = answer (x >>= f) := by
  cases x <;> rfl

theorem ite_answer (p : Prop) [Decidable p] (x y : Option α) :
    (if p then answer x else answer y) = answer (if p then x else y) := by
  split <;> rfl

/-- A difference of words. -/
def minus (m n : Nat) : Scan Nat := if n ≤ m then answer (some (m - n)) else crash .overflow

/-- A number as a word of some number of bits. -/
def word (bits n : Nat) : Scan Nat := if n < 2 ^ bits then answer (some n) else crash .overflow

end Scan

/-! ## Texts -/

namespace Offsets

open Scan (answer crash)

/-- The bytes of some characters. -/
def bytes (cs : List Char) : List UInt8 := cs.flatMap String.utf8EncodeChar

/-- The offset of the first character with a property. -/
def find? (p : Char → Bool) : List Char → Option Nat
  | [] => none
  | c :: cs => if p c then some 0 else (find? p cs).map (c.utf8Size + ·)

/-- The parts of a text before and after an offset. -/
def split : List Char → Nat → Scan (List Char × List Char)
  | cs, 0 => answer (some ([], cs))
  | [], _ + 1 => crash .cut
  | c :: cs, offset + 1 =>
    if c.utf8Size ≤ offset + 1 then do
      let (front, back) ← split cs (offset + 1 - c.utf8Size)
      answer (some (c :: front, back))
    else crash .cut

/-- The byte at an offset. -/
def byte (cs : List Char) (offset : Nat) : Scan UInt8 :=
  match (bytes cs)[offset]? with
  | some b => answer (some b)
  | none => crash .index

theorem bytes_cons (c : Char) (cs : List Char) : bytes (c :: cs) = String.utf8EncodeChar c ++ bytes cs := rfl

theorem bytes_append (cs more : List Char) : bytes (cs ++ more) = bytes cs ++ bytes more := List.flatMap_append

theorem length_bytes_cons (c : Char) (cs : List Char) :
    (bytes (c :: cs)).length = c.utf8Size + (bytes cs).length := by
  rw [bytes_cons, List.length_append, String.length_utf8EncodeChar]

theorem length_bytes_of_single {cs : List Char} (h : ∀ c ∈ cs, c.utf8Size = 1) : (bytes cs).length = cs.length := by
  induction cs with
  | nil => rfl
  | cons c cs ih =>
    obtain ⟨hc, hcs⟩ := List.forall_mem_cons.1 h
    rw [length_bytes_cons, hc, ih hcs, List.length_cons, Nat.add_comm]

/-- A text can be cut between characters. -/
theorem split_append (front back : List Char) :
    split (front ++ back) (bytes front).length = answer (some (front, back)) := by
  induction front with
  | nil => cases back <;> rfl
  | cons c front ih =>
    have hpos := c.utf8Size_pos
    have hlength := length_bytes_cons c front
    obtain ⟨n, hn⟩ : ∃ n, (bytes (c :: front)).length = n + 1 := ⟨_, (Nat.succ_pred (by omega)).symm⟩
    have hrest : n + 1 - c.utf8Size = (bytes front).length := by omega
    rw [hn, List.cons_append, split, if_pos (by omega), hrest, ih]
    rfl

example : split ['é'] 1 = crash .cut := by rfl

/-- A text can be cut one byte behind the offset of a character of one byte. -/
theorem split_behind {c : Char} (hc : c.utf8Size = 1) (front back : List Char) :
    split (front ++ c :: back) ((bytes front).length + 1) = answer (some (front ++ [c], back)) := by
  have hlength : (bytes (front ++ [c])).length = (bytes front).length + 1 := by
    rw [bytes_append, List.length_append, length_bytes_cons, hc]
    rfl
  rw [← hlength, ← split_append (front ++ [c]) back, List.append_assoc]
  rfl

/-- A character of one byte is its byte. -/
theorem byte_append {c : Char} (hc : c.utf8Size = 1) (front back : List Char) :
    byte (front ++ c :: back) (bytes front).length = answer (some c.val.toUInt8) := by
  unfold byte
  rw [bytes_append, bytes_cons, String.utf8EncodeChar_eq_singleton hc, List.getElem?_append_right (Nat.le_refl _),
    Nat.sub_self]
  rfl

theorem ofUInt8_toUInt8 {c : Char} (hc : c.utf8Size = 1) : Char.ofUInt8 c.val.toUInt8 = c := by
  have hle : c.val.toNat ≤ 127 := UInt32.le_iff_toNat_le.1 (Char.utf8Size_eq_one_iff.1 hc)
  apply Char.ext
  apply UInt32.toNat_inj.1
  change c.val.toUInt8.toUInt32.toNat = c.val.toNat
  simp only [UInt8.toNat_toUInt32, UInt32.toNat_toUInt8]
  omega

end Offsets

/-! ## Cuts -/

namespace Duration

open Offsets
open Scan (answer crash minus word)

theorem cut_cons (p : Char → Bool) (c : Char) (cs : List Char) :
    cut p (c :: cs) = if p c then some ([], c, cs) else (cut p cs).map fun (front, rest) => (c :: front, rest) := by
  unfold cut
  rw [List.span_eq_takeWhile_dropWhile, List.span_eq_takeWhile_dropWhile, List.takeWhile_cons, List.dropWhile_cons]
  cases p c with
  | true => rfl
  | false =>
    simp only [Bool.not_false, if_true]
    cases cs.dropWhile fun c => !p c <;> rfl

/-- Cutting takes nothing away but the character that it looks for. -/
theorem cut_spec {p : Char → Bool} {cs front back : List Char} {c : Char} (h : cut p cs = some (front, c, back)) :
    cs = front ++ c :: back ∧ p c := by
  induction cs generalizing front with
  | nil => cases h
  | cons d cs ih =>
    rw [cut_cons] at h
    split at h
    · next hd =>
      cases h
      exact ⟨rfl, hd⟩
    · obtain ⟨⟨rest, c', back'⟩, hrest, heq⟩ := Option.map_eq_some_iff.1 h
      cases heq
      obtain ⟨rfl, hc⟩ := ih hrest
      exact ⟨rfl, hc⟩

/-- The offset that is found is the one where the text is cut. -/
theorem find?_eq_cut (p : Char → Bool) (cs : List Char) :
    Offsets.find? p cs = (cut p cs).map fun (front, _) => (bytes front).length := by
  induction cs with
  | nil => rfl
  | cons c cs ih =>
    rw [Offsets.find?, cut_cons, ih]
    split
    · rfl
    · cases cut p cs with
      | none => rfl
      | some x => simp [length_bytes_cons]

/-! ## Scanning -/

/-- As `nanos?`, in words of 32 bits. -/
def scanNanos (digits : List Char) : Scan Nat :=
  if digits.isEmpty then answer (some 0)
  else if 9 < (bytes digits).length || !digits.all Char.isDigit then answer none
  else do
    let n := Nat.ofDigitChars 10 digits 0
    let n ← answer (if n < 2 ^ 32 then some n else none)
    let scale ← word 32 (10 ^ (← minus 9 (bytes digits).length))
    word 32 (n * scale)

/-- As `timeParts?`. -/
def scanParts : Nat → List Char → (rank secs nanos : Nat) → Scan (Nat × Nat)
  | _, [], _, secs, nanos => answer (some (secs, nanos))
  | 0, _ :: _, _, _, _ => crash .endless
  | budget + 1, cs, last, secs, nanos => do
    let stop ← answer (Offsets.find? Char.isAlpha cs)
    let (value, _) ← split cs stop
    let letter := (Char.ofUInt8 (← byte cs stop)).toUpper
    let (_, rest) ← split cs (stop + 1)
    let (rank, scale) ← answer (unit? letter)
    if rank ≤ last then answer none
    else if letter = 'S' then
      let (whole, frac) :=
        match cut (· == '.') value with
        | some (whole, _, frac) => (whole, frac)
        | none => (value, [])
      let n ← answer (number? whole)
      let secs ← answer (checked (secs + n))
      scanParts budget rest rank secs (← scanNanos frac)
    else
      let n ← answer (number? value)
      let amount ← answer (checked (n * scale))
      let secs ← answer (checked (secs + amount))
      scanParts budget rest rank secs nanos

/-- The duration of some seconds and nanoseconds, which carry over into seconds. -/
def carry (secs nanos : Nat) : Scan Duration :=
  if h : nanos < 1000000000 then answer (some ⟨UInt64.ofNat secs, nanos, h⟩)
  else do
    let secs ← word 64 (secs + nanos / 1000000000)
    answer (some ⟨UInt64.ofNat secs, nanos % 1000000000, Nat.mod_lt _ (by decide)⟩)

/-- As `parse?`. -/
def scan (text : String) : Scan Duration :=
  match text.toList with
  | [] => answer none
  | p :: rest =>
    if p.toUpper ≠ 'P' then answer none
    else
      match Offsets.find? (fun c => c.toUpper == 'T') rest with
      | none => if rest.isEmpty then answer none else do carry (← answer (days? rest)) 0
      | some stop => do
        let (days, _) ← split rest stop
        let (_, time) ← split rest (stop + 1)
        let secs ← answer (days? days)
        if time.isEmpty then answer none
        else
          let (secs, nanos) ← scanParts time.length time 0 secs 0
          carry secs nanos

/-! ## Scanning is reading -/

theorem digits_single {digits : List Char} (h : digits.all Char.isDigit) : ∀ c ∈ digits, c.utf8Size = 1 := by
  intro c hc
  have hdigit := List.all_eq_true.1 h c hc
  simp only [Char.isDigit, Bool.and_eq_true, decide_eq_true_eq] at hdigit
  exact Char.utf8Size_eq_one_iff.2 (UInt32.le_trans hdigit.2 (by decide))

theorem alpha_single {c : Char} (h : c.isAlpha) : c.utf8Size = 1 := by
  apply Char.utf8Size_eq_one_iff.2
  unfold Char.isAlpha Char.isUpper Char.isLower at h
  simp only [Bool.or_eq_true, Bool.and_eq_true, decide_eq_true_eq] at h
  rcases h with ⟨-, h⟩ | ⟨-, h⟩
  · exact UInt32.le_trans h (by decide)
  · exact UInt32.le_trans h (by decide)

theorem ofDigitChars_lt {digits : List Char} (h : digits.all Char.isDigit) :
    Nat.ofDigitChars 10 digits 0 < 10 ^ digits.length := by
  induction digits with
  | nil => decide
  | cons c digits ih =>
    rw [List.all_cons, Bool.and_eq_true] at h
    obtain ⟨hc, hdigits⟩ := h
    have hlt := ih hdigits
    have hvalue : c.toNat - '0'.toNat ≤ 9 := by
      simp only [Char.isDigit, Bool.and_eq_true, decide_eq_true_eq, UInt32.le_iff_toNat_le] at hc
      have : c.toNat ≤ 57 := hc.2
      have : '0'.toNat = 48 := rfl
      omega
    rw [Nat.ofDigitChars_cons, Nat.ofDigitChars_eq_ofDigitChars_zero, List.length_cons, Nat.pow_succ,
      Nat.mul_zero, Nat.zero_add]
    have := Nat.mul_le_mul_left (10 ^ digits.length) hvalue
    omega

theorem nanos?_lt {digits : List Char} {n : Nat} (h : nanos? digits = some n) : n < 1000000000 := by
  unfold nanos? at h
  split at h
  · next hdigits =>
    cases h
    rw [Bool.and_eq_true, decide_eq_true_eq] at hdigits
    obtain ⟨hlength, hdigits⟩ := hdigits
    calc Nat.ofDigitChars 10 digits 0 * 10 ^ (9 - digits.length)
        < 10 ^ digits.length * 10 ^ (9 - digits.length) :=
          Nat.mul_lt_mul_of_pos_right (ofDigitChars_lt hdigits) (Nat.pow_pos (by decide))
      _ = 10 ^ 9 := by rw [← Nat.pow_add, Nat.add_sub_cancel' hlength]
  · cases h

/-- At most nine digits are a word, and so are the nanoseconds that they stand for. -/
theorem scanNanos_eq (digits : List Char) : scanNanos digits = answer (nanos? digits) := by
  cases hdigits : digits.all Char.isDigit with
  | false =>
    have hne : digits ≠ [] := by
      rintro rfl
      cases hdigits
    simp [scanNanos, nanos?, hdigits, hne]
  | true =>
    have hbytes := length_bytes_of_single (digits_single hdigits)
    by_cases hlength : digits.length ≤ 9
    · have hnanos : nanos? digits = some (Nat.ofDigitChars 10 digits 0 * 10 ^ (9 - digits.length)) := by
        simp [nanos?, hdigits, hlength]
      have hn : Nat.ofDigitChars 10 digits 0 < 2 ^ 32 :=
        calc Nat.ofDigitChars 10 digits 0 < 10 ^ digits.length := ofDigitChars_lt hdigits
          _ ≤ 10 ^ 9 := Nat.pow_le_pow_right (by decide) hlength
          _ < 2 ^ 32 := by decide
      have hscale : 10 ^ (9 - digits.length) < 2 ^ 32 :=
        calc 10 ^ (9 - digits.length) ≤ 10 ^ 9 := Nat.pow_le_pow_right (by decide) (Nat.sub_le _ _)
          _ < 2 ^ 32 := by decide
      have hproduct := Nat.lt_trans (nanos?_lt hnanos) (by decide : 1000000000 < 2 ^ 32)
      rw [hnanos]
      cases digits with
      | nil => rfl
      | cons c digits =>
        simp only [scanNanos, List.isEmpty_cons, Bool.false_eq_true, if_false, hbytes, hdigits, Bool.not_true,
          Bool.or_false, decide_eq_true_eq, if_neg (Nat.not_lt.2 hlength), if_pos hn, Scan.answer_some_bind,
          minus, if_pos hlength, word, if_pos hscale, if_pos hproduct]
    · have hne : digits ≠ [] := by
        rintro rfl
        exact hlength (by decide)
      simp [scanNanos, nanos?, hdigits, hne, hbytes, hlength, Nat.lt_of_not_le hlength]

theorem scanParts_eq (budget : Nat) : ∀ (cs : List Char) (last secs nanos : Nat), cs.length ≤ budget →
    scanParts budget cs last secs nanos = answer (timeParts? budget cs last secs nanos) := by
  induction budget with
  | zero =>
    intro cs last secs nanos hlength
    rw [List.length_eq_zero_iff.1 (Nat.le_zero.1 hlength)]
    rfl
  | succ budget ih =>
    intro cs last secs nanos hlength
    cases cs with
    | nil => rfl
    | cons c cs =>
      unfold scanParts timeParts?
      rw [find?_eq_cut]
      cases hcut : cut Char.isAlpha (c :: cs) with
      | none => rfl
      | some parts =>
        obtain ⟨value, letter, rest⟩ := parts
        obtain ⟨hcs, hletter⟩ := cut_spec hcut
        have hsingle := alpha_single hletter
        have hrest : rest.length ≤ budget := by
          have := congrArg List.length hcs
          simp only [List.length_cons, List.length_append] at this hlength
          omega
        rw [hcs]
        simp only [Option.map_some, Scan.answer_some_bind, split_append, byte_append hsingle, ofUInt8_toUInt8 hsingle,
          split_behind hsingle]
        -- What is left takes the same steps, none of which can crash.
        simp only [scanNanos_eq, ih rest _ _ _ hrest, Scan.answer_bind_answer, Scan.ite_answer]
        rfl

theorem checked_lt {n secs : Nat} (h : checked n = some secs) : secs < UInt64.size := by
  unfold checked at h
  split at h
  · cases h
    assumption
  · cases h

theorem days?_lt {cs : List Char} {secs : Nat} (h : days? cs = some secs) : secs < UInt64.size := by
  unfold days? at h
  split at h
  · cases h
    decide
  · split at h
    · obtain ⟨n, -, h⟩ := Option.bind_eq_some_iff.1 h
      exact checked_lt h
    · cases h

/-- Time parts leave seconds in a word, and less than a second of nanoseconds. -/
theorem timeParts?_lt (budget : Nat) : ∀ {cs : List Char} {last secs nanos secs' nanos' : Nat},
    timeParts? budget cs last secs nanos = some (secs', nanos') → secs < UInt64.size → nanos < 1000000000 →
    secs' < UInt64.size ∧ nanos' < 1000000000 := by
  induction budget with
  | zero =>
    intro cs last secs nanos secs' nanos' h hsecs hnanos
    cases cs with
    | nil =>
      cases h
      exact ⟨hsecs, hnanos⟩
    | cons c cs => cases h
  | succ budget ih =>
    intro cs last secs nanos secs' nanos' h hsecs hnanos
    cases cs with
    | nil =>
      cases h
      exact ⟨hsecs, hnanos⟩
    | cons c cs =>
      unfold timeParts? at h
      obtain ⟨⟨value, letter, rest⟩, -, h⟩ := Option.bind_eq_some_iff.1 h
      obtain ⟨⟨rank, scale⟩, -, h⟩ := Option.bind_eq_some_iff.1 h
      dsimp only at h
      split at h
      · cases h
      · split at h
        · obtain ⟨n, -, h⟩ := Option.bind_eq_some_iff.1 h
          obtain ⟨total, htotal, h⟩ := Option.bind_eq_some_iff.1 h
          obtain ⟨fraction, hfraction, h⟩ := Option.bind_eq_some_iff.1 h
          exact ih h (checked_lt htotal) (nanos?_lt hfraction)
        · obtain ⟨n, -, h⟩ := Option.bind_eq_some_iff.1 h
          obtain ⟨amount, -, h⟩ := Option.bind_eq_some_iff.1 h
          obtain ⟨total, htotal, h⟩ := Option.bind_eq_some_iff.1 h
          exact ih h (checked_lt htotal) hnanos

/-- Nothing carries over from parts that are in range. -/
theorem carry_eq {x : Option (Nat × Nat)}
    (h : ∀ secs nanos, x = some (secs, nanos) → secs < UInt64.size ∧ nanos < 1000000000) :
    (answer x >>= fun p => carry p.1 p.2) = answer (x >>= fun p => ofParts? p.1 p.2) := by
  cases x with
  | none => rfl
  | some p =>
    obtain ⟨hsecs, hnanos⟩ := h p.1 p.2 rfl
    simp [carry, ofParts?, hsecs, hnanos]

theorem single_of_toUpper {c upper : Char} (hupper : upper.utf8Size = 1) (h : c.toUpper = upper) : c.utf8Size = 1 := by
  unfold Char.toUpper at h
  split at h
  · next hlower => exact Char.utf8Size_eq_one_iff.2 (UInt32.le_trans hlower.2 (by decide))
  · rw [h]
    exact hupper

/-- Reading a duration by offsets never crashes, and reads what there is to read. -/
theorem scan_eq (text : String) : scan text = answer (parse? text) := by
  unfold scan parse?
  cases text.toList with
  | nil => rfl
  | cons p rest =>
    dsimp only
    split
    · rfl
    · rw [find?_eq_cut]
      cases hcut : cut (fun c => c.toUpper == 'T') rest with
      | none =>
        dsimp only [Option.map_none]
        split
        · rfl
        · cases hdays : days? rest with
          | none => rfl
          | some secs =>
            have hrange : ∀ secs' nanos', some (secs, 0) = some (secs', nanos') →
                secs' < UInt64.size ∧ nanos' < 1000000000 := by
              rintro _ _ ⟨⟩
              exact ⟨days?_lt hdays, by decide⟩
            exact carry_eq hrange
      | some parts =>
        obtain ⟨days, letter, time⟩ := parts
        obtain ⟨rfl, hletter⟩ := cut_spec hcut
        have hsingle := single_of_toUpper (by decide) (beq_iff_eq.1 hletter)
        simp only [Option.map_some, Scan.answer_some_bind, split_append, split_behind hsingle]
        cases hdays : days? days with
        | none => rfl
        | some secs =>
          simp only [Scan.answer_some_bind, scanParts_eq time.length time 0 secs 0 (Nat.le_refl _)]
          rw [carry_eq fun _ _ hparts => timeParts?_lt _ hparts (days?_lt hdays) (by decide)]
          exact Scan.ite_answer _ _ _

end Duration
end Bindery
