import Bindery.Codec.Instant
import Bindery.Proofs.JsonNumbers
import Bindery.Proofs.Narrowing
/-!
# Instants there and back

On either side of the epoch the number written for an instant is the floor of its milliseconds (`Instant.wire?_eq`): a
begun millisecond counts before the epoch and is dropped after it. A node is read as the milliseconds it gives
(`Instant.decode_eq_ok_iff`), and there is an instant for each of them. So reading what was written goes to the latest
whole millisecond that is not after the instant. What is written and what is read differ at both ends of the range:
after the epoch milliseconds are written up to `2 ^ 64`, of which those from `2 ^ 63` on are not read, and `-2 ^ 63` is
read but not written.
-/

namespace Bindery

-- Powers are those of the core library, whatever else is in scope.
attribute [local instance (5000)] instPowNat

theorem Number.ofInt64_eq_ofInt {m : Int} (hleast : -2 ^ 63 ≤ m) (hgreatest : m < 2 ^ 63) :
    ofInt64 (Int64.ofInt m) = ofInt m := by
  rw [ofInt64, Int64.toInt_ofInt_of_le hleast hgreatest, ofInt]

theorem IntType.check_i64_eq_some_iff {i m : Int} : i64.check i = some m ↔ i = m ∧ -2 ^ 63 ≤ m ∧ m < 2 ^ 63 := by
  have hends : i64.least = -2 ^ 63 ∧ i64.greatest = 2 ^ 63 - 1 := by decide
  rw [check_eq_some_iff]
  omega

namespace Instant

variable {t u : Instant} {m : Int}

/-! ## Milliseconds -/

/-- The milliseconds from the epoch to an instant, rounded toward the past. -/
def millis (t : Instant) : Int := t.toNanos / 1000000

/-- An instant a whole number of milliseconds from the epoch. -/
def Aligned (t : Instant) : Prop := 1000000 ∣ t.toNanos

/-- The latest instant not after `t` that is a whole number of milliseconds from the epoch. -/
structure IsFloor (u t : Instant) : Prop where
  aligned : u.Aligned
  not_after : u.toNanos ≤ t.toNanos
  latest : ∀ s : Instant, s.Aligned → s.toNanos ≤ t.toNanos → s.toNanos ≤ u.toNanos

theorem toNanos_injective (h : t.toNanos = u.toNanos) : t = u := by
  obtain ⟨secs, nanos, hlt⟩ := t
  obtain ⟨secs', nanos', hlt'⟩ := u
  simp only [toNanos] at h
  obtain rfl : secs = secs' := Int64.toInt_inj.1 (by omega)
  obtain rfl : nanos = nanos' := by omega
  rfl

theorem millis_of_toNanos (h : t.toNanos = m * 1000000) : t.millis = m ∧ t.Aligned := by
  unfold millis Aligned
  omega

theorem Aligned.toNanos_eq (h : t.Aligned) : t.toNanos = t.millis * 1000000 := by
  unfold Aligned at h
  unfold millis
  omega

theorem isFloor_of_millis (h : u.toNanos = t.millis * 1000000) : u.IsFloor t where
  aligned := (millis_of_toNanos h).2
  not_after := by
    unfold millis at h
    omega
  latest s hs hle := by
    have hs := hs.toNanos_eq
    unfold millis at h hs
    omega

/-! ## Instants from their parts -/

theorem ofParts?_eq_some_iff {secs : Int} {nanos : Nat} :
    ofParts? secs nanos = some t ↔ t.secs.toInt = secs ∧ t.nanos = nanos := by
  unfold ofParts?
  constructor
  · intro h
    split at h
    · obtain ⟨word, hword, rfl⟩ := Option.map_eq_some_iff.1 h
      obtain ⟨rfl, hleast, hgreatest⟩ := IntType.check_i64_eq_some_iff.1 hword
      exact ⟨Int64.toInt_ofInt_of_le hleast hgreatest, rfl⟩
    · cases h
  · rintro ⟨rfl, rfl⟩
    have hword : IntType.i64.check t.secs.toInt = some t.secs.toInt :=
      IntType.check_i64_eq_some_iff.2 ⟨rfl, Int64.le_toInt _, Int64.toInt_lt _⟩
    rw [dif_pos t.nanos_lt, hword, Option.map_some, Int64.ofInt_toInt]

theorem ofNanos?_eq_some_iff {n : Int} : ofNanos? n = some t ↔ t.toNanos = n := by
  have hlt := t.nanos_lt
  rw [ofNanos?, ofParts?_eq_some_iff, Int.fdiv_eq_ediv_of_nonneg _ (by decide),
    Int.fmod_eq_emod_of_nonneg _ (by decide), toNanos]
  omega

theorem ofMillis?_eq_some_iff : ofMillis? m = some t ↔ t.toNanos = m * 1000000 := by
  rw [ofMillis?, ofOffset?, ofNanos?_eq_some_iff]
  simp only [decide_eq_true_eq]
  split <;> omega

/-- There is an instant for every word of milliseconds. -/
theorem exists_toNanos_eq (hleast : -2 ^ 63 ≤ m) (hgreatest : m < 2 ^ 63) :
    ∃ t : Instant, t.toNanos = m * 1000000 := by
  have hsecs : (Int64.ofInt (m / 1000)).toInt = m / 1000 := Int64.toInt_ofInt_of_le (by omega) (by omega)
  refine ⟨⟨Int64.ofInt (m / 1000), (m % 1000 * 1000000).toNat, by omega⟩, ?_⟩
  simp only [toNanos, hsecs]
  omega

theorem ofValue?_toValue (t : Instant) : ofValue? t.toValue = some t := by
  simp only [toValue, ofValue?, if_true]
  exact ofParts?_eq_some_iff.2 ⟨rfl, rfl⟩

theorem toValue_injective (h : t.toValue = u.toValue) : t = u := by
  have hu := ofValue?_toValue u
  rw [← h, ofValue?_toValue] at hu
  exact Option.some.inj hu

/-! ## What is written -/

/-- The number for an instant is that of its milliseconds on both sides of the epoch. -/
theorem wire?_eq (t : Instant) :
    t.wire? = if -2 ^ 63 < t.millis ∧ t.millis < 2 ^ 64 then some (.ofInt t.millis) else none := by
  unfold wire? offset
  rcases Int.lt_or_le t.toNanos 0 with h | h
  · have hnegative : t.millis < 0 := by
      unfold millis
      omega
    have hbegun : ((wholeMillis (t.toNanos.natAbs / 1000000000) (t.toNanos.natAbs % 1000000000) +
        if t.toNanos.natAbs % 1000000000 % 1000000 = 0 then 0 else 1 : Nat) : Int) = -t.millis := by
      unfold wholeMillis millis
      split <;> omega
    simp only [decide_eq_true h, hbegun, IntType.check]
    have hends : IntType.i64.least = -2 ^ 63 ∧ IntType.i64.greatest = 2 ^ 63 - 1 := by decide
    by_cases hleast : -2 ^ 63 < t.millis
    · rw [if_pos (by omega), if_pos (by omega), Option.map_some, Int.neg_neg,
        Number.ofInt64_eq_ofInt (by omega) (by omega)]
    · rw [if_neg (by omega), if_neg (by omega), Option.map_none]
  · have hwhole : (wholeMillis (t.toNanos.natAbs / 1000000000) (t.toNanos.natAbs % 1000000000) : Int) = t.millis := by
      unfold wholeMillis millis
      omega
    simp only [decide_eq_false (Int.not_lt.2 h)]
    generalize wholeMillis (t.toNanos.natAbs / 1000000000) (t.toNanos.natAbs % 1000000000) = after at hwhole ⊢
    have hsize : UInt64.size = 2 ^ 64 := rfl
    rw [← hwhole, Number.ofInt, if_pos (Int.natCast_nonneg _), Int.toNat_natCast]
    by_cases hgreatest : after < 2 ^ 64
    · rw [if_pos (by omega), if_pos (by omega)]
    · rw [if_neg (by omega), if_neg (by omega)]

/-- Writing succeeds in the range of milliseconds that have a number, and then gives that number. -/
theorem encode_eq (t : Instant) : codec.encode t.toValue =
    if -2 ^ 63 < t.millis ∧ t.millis < 2 ^ 64 then .ok (.number (.ofInt t.millis))
    else .error (.invalidValue path .beyondMillis) := by
  have hencode : codec.encode t.toValue = codec.write t.toValue := if_pos rfl
  rw [hencode]
  by_cases hrange : -2 ^ 63 < t.millis ∧ t.millis < 2 ^ 64
  · simp only [codec, ofValue?_toValue, wire?_eq, if_pos hrange]
  · simp only [codec, ofValue?_toValue, wire?_eq, if_neg hrange]

theorem encode_eq_ok_iff {w : Node} : codec.encode t.toValue = .ok w ↔
    (-2 ^ 63 < t.millis ∧ t.millis < 2 ^ 64) ∧ w = .number (.ofInt t.millis) := by
  rw [encode_eq]
  split
  · next hrange => exact ⟨fun h => ⟨hrange, (Except.ok.inj h).symm⟩, fun h => by rw [h.2]⟩
  · next hrange => exact iff_of_false (fun h => by cases h) fun h => hrange h.1

/-! ## What is read -/

/-- The milliseconds that a node gives: a number in the range of signed words, or a text that spells one. -/
def nodeMillis? : Node → Option Int
  | .number n => n.narrow .i64
  | .string text => decimal? text
  | _ => none

theorem decimal?_range {text : String} (h : decimal? text = some m) : -2 ^ 63 ≤ m ∧ m < 2 ^ 63 := by
  unfold decimal? at h
  dsimp only at h
  -- Whatever the sign is, the digits are checked.
  split at h <;> split at h
  all_goals first | cases h | exact (IntType.check_i64_eq_some_iff.1 h).2

/-- The text of a signed word spells it. -/
theorem decimal?_intText (hleast : -2 ^ 63 ≤ m) (hgreatest : m < 2 ^ 63) :
    decimal? (Number.intText m) = some m := by
  have hdigits (n : Nat) : ((Nat.toDigits 10 n).isEmpty || !(Nat.toDigits 10 n).all Char.isDigit) = false := by
    rw [Bool.or_eq_false_iff, Bool.not_eq_false', List.all_eq_true, List.isEmpty_eq_false_iff]
    exact ⟨Nat.toDigits_ne_nil, fun c hc => Nat.isDigit_of_mem_toDigits (by decide) (by decide) hc⟩
  have hcheck : IntType.i64.check m = some m := IntType.check_i64_eq_some_iff.2 ⟨rfl, hleast, hgreatest⟩
  unfold decimal? Number.intText DecimalLayout.signedDigits
  rw [String.toList_ofList]
  by_cases hm : m < 0
  · have hnegative : -(m.natAbs : Int) = m := by omega
    simp only [if_pos hm, hdigits, Nat.ofDigitChars_ten_toDigits, if_true, hnegative]
    exact hcheck
  · have hpositive : (m.natAbs : Int) = m := by omega
    have hsign {c : Char} {cs : List Char} (hc : c.isDigit = false) : Nat.toDigits 10 m.natAbs ≠ c :: cs :=
      fun h => Json.digits_ne_sign (Json.digits_toDigits _) hc ((List.append_nil _).trans h)
    simp only [if_neg hm]
    split
    · next heq => exact absurd heq (hsign rfl)
    · next heq => exact absurd heq (hsign rfl)
    · simp only [hdigits, Nat.ofDigitChars_ten_toDigits, Bool.false_eq_true, if_false, hpositive]
      exact hcheck

theorem nodeMillis?_range {w : Node} (h : nodeMillis? w = some m) : -2 ^ 63 ≤ m ∧ m < 2 ^ 63 := by
  unfold nodeMillis? at h
  split at h
  · obtain ⟨i, -, hi⟩ := Option.bind_eq_some_iff.1 h
    exact (IntType.check_i64_eq_some_iff.1 hi).2
  · exact decimal?_range h
  · cases h

theorem decode_of_millis {w : Node} (h : nodeMillis? w = some m) :
    ∃ t : Instant, t.toNanos = m * 1000000 ∧ codec.decode w = .ok t.toValue := by
  obtain ⟨hleast, hgreatest⟩ := nodeMillis?_range h
  obtain ⟨t, ht⟩ := exists_toNanos_eq hleast hgreatest
  have hmillis := ofMillis?_eq_some_iff.2 ht
  refine ⟨t, ht, ?_⟩
  cases w with
  | number n =>
    have hn : n.narrow .i64 = some m := h
    simp only [Codec.decode, codec, hn, Except.bind, bind, hmillis]
    rfl
  | string text =>
    have htext : decimal? text = some m := h
    simp only [Codec.decode, codec, htext, Except.bind, bind, hmillis]
    rfl
  | _ => cases h

theorem decode_of_no_millis {w : Node} (h : nodeMillis? w = none) : ∃ e, codec.decode w = .error e := by
  cases w with
  | number n =>
    have hn : n.narrow .i64 = none := h
    simp only [Codec.decode, codec, hn]
    exact ⟨_, rfl⟩
  | string text =>
    have htext : decimal? text = none := h
    simp only [Codec.decode, codec, htext]
    exact ⟨_, rfl⟩
  | _ => exact ⟨_, rfl⟩

/-- What is read is the instant of the milliseconds that the node gives. -/
theorem decode_eq_ok_iff {w : Node} {v : Value} : codec.decode w = .ok v ↔
    ∃ (m : Int) (t : Instant), nodeMillis? w = some m ∧ t.toNanos = m * 1000000 ∧ v = t.toValue := by
  constructor
  · intro h
    cases hm : nodeMillis? w with
    | none =>
      obtain ⟨e, he⟩ := decode_of_no_millis hm
      rw [he] at h
      cases h
    | some m =>
      obtain ⟨t, ht, hread⟩ := decode_of_millis hm
      rw [hread] at h
      exact ⟨m, t, rfl, ht, (Except.ok.inj h).symm⟩
  · rintro ⟨m, t, hm, ht, rfl⟩
    obtain ⟨u, hu, hread⟩ := decode_of_millis hm
    rw [hread, toNanos_injective (hu.trans ht.symm)]

/-- The number of a signed word gives it back. -/
theorem nodeMillis?_ofInt (hleast : -2 ^ 63 ≤ m) (hgreatest : m < 2 ^ 63) :
    nodeMillis? (.number (.ofInt m)) = some m :=
  Number.narrow_ofInt (IntType.check_i64_eq_some_iff.2 ⟨rfl, hleast, hgreatest⟩)

/-- The other numbers that are written give nothing. -/
theorem nodeMillis?_beyond (hleast : 2 ^ 63 ≤ m) (hgreatest : m < 2 ^ 64) :
    nodeMillis? (.number (.ofInt m)) = none := by
  have hword : ((UInt64.ofNat m.toNat).toNat : Int) = m := by
    rw [UInt64.toNat_ofNat', Nat.mod_eq_of_lt (by omega), Int.toNat_of_nonneg (by omega)]
  have hwide : (Number.ofInt m).toI64? = none := by
    have hends : IntType.i64.greatest = 2 ^ 63 - 1 := rfl
    rw [Number.ofInt, if_pos (by omega), Number.toI64?, hword]
    exact if_neg (by omega)
  have hnarrow : (Number.ofInt m).narrow .i64 = (Number.ofInt m).toI64?.bind IntType.i64.check := rfl
  rw [nodeMillis?, hnarrow, hwide, Option.bind_none]

/-! ## There and back -/

/-- An instant is written as the floor of its milliseconds, and that number and its decimal text are read as the latest
whole millisecond not after it, on both sides of the epoch. -/
theorem rounds_toward_past (hleast : -2 ^ 63 < t.millis) (hgreatest : t.millis < 2 ^ 63) :
    ∃ (n : Number) (u : Instant),
      n = (if 0 ≤ t.millis then .posInt (UInt64.ofNat t.millis.toNat) else .negInt (Int64.ofInt t.millis)) ∧
      codec.encode t.toValue = .ok (.number n) ∧
      codec.decode (.number n) = .ok u.toValue ∧
      codec.decode (.string (Number.intText t.millis)) = .ok u.toValue ∧
      u.IsFloor t ∧ (t.Aligned → u = t) := by
  obtain ⟨u, hu⟩ := exists_toNanos_eq (Int.le_of_lt hleast) hgreatest
  have hnumber : nodeMillis? (.number (.ofInt t.millis)) = some t.millis :=
    nodeMillis?_ofInt (Int.le_of_lt hleast) hgreatest
  have htext : nodeMillis? (.string (Number.intText t.millis)) = some t.millis :=
    decimal?_intText (Int.le_of_lt hleast) hgreatest
  refine ⟨.ofInt t.millis, u, rfl, ?_, ?_, ?_, isFloor_of_millis hu, ?_⟩
  · exact encode_eq_ok_iff.2 ⟨⟨hleast, by omega⟩, rfl⟩
  · exact decode_eq_ok_iff.2 ⟨_, u, hnumber, hu, rfl⟩
  · exact decode_eq_ok_iff.2 ⟨_, u, htext, hu, rfl⟩
  · intro h
    exact toNanos_injective (hu.trans h.toNanos_eq.symm)

/-- A nanosecond before the epoch is written as a whole millisecond before it. -/
theorem rounds_toward_past_begun :
    let t : Instant := ⟨-1, 999999999, by decide⟩
    (-2 ^ 63 < t.millis ∧ t.millis < 2 ^ 63) ∧ codec.encode t.toValue = .ok (.number (.negInt (-1))) ∧
      ∃ u : Instant, codec.decode (.number (.negInt (-1))) = .ok u.toValue ∧
        codec.decode (.string "-1") = .ok u.toValue ∧ u.IsFloor t := by
  intro t
  have hm : t.millis = -1 := by decide
  have htext : Number.intText (-1) = "-1" := by decide
  obtain ⟨n, u, rfl, hwrite, hread, hspelled, hfloor, -⟩ := rounds_toward_past (t := t) (by decide) (by decide)
  rw [hm] at hwrite hread hspelled
  exact ⟨by decide, hwrite, u, hread, htext ▸ hspelled, hfloor⟩

theorem exists_encode_iff : (∃ w, codec.encode t.toValue = .ok w) ↔ -2 ^ 63 < t.millis ∧ t.millis < 2 ^ 64 := by
  simp only [encode_eq_ok_iff]
  exact ⟨fun ⟨_, hrange, _⟩ => hrange, fun hrange => ⟨_, hrange, rfl⟩⟩

theorem exists_encode_decode_iff : (∃ w v, codec.encode t.toValue = .ok w ∧ codec.decode w = .ok v) ↔
    -2 ^ 63 < t.millis ∧ t.millis < 2 ^ 63 := by
  constructor
  · rintro ⟨w, v, hwrite, hread⟩
    obtain ⟨⟨hleast, hgreatest⟩, rfl⟩ := encode_eq_ok_iff.1 hwrite
    obtain ⟨m, u, hm, -, -⟩ := decode_eq_ok_iff.1 hread
    refine ⟨hleast, Int.lt_of_not_ge fun hbeyond => ?_⟩
    rw [nodeMillis?_beyond hbeyond hgreatest] at hm
    cases hm
  · rintro ⟨hleast, hgreatest⟩
    obtain ⟨u, -, hread⟩ := decode_of_millis (nodeMillis?_ofInt (Int.le_of_lt hleast) hgreatest)
    exact ⟨_, _, encode_eq_ok_iff.2 ⟨⟨hleast, by omega⟩, rfl⟩, hread⟩

theorem exists_decode_iff {v : Value} : (∃ w, codec.decode w = .ok v) ↔
    ∃ t : Instant, v = t.toValue ∧ t.Aligned ∧ -2 ^ 63 ≤ t.millis ∧ t.millis < 2 ^ 63 := by
  constructor
  · rintro ⟨w, h⟩
    obtain ⟨m, t, hm, ht, rfl⟩ := decode_eq_ok_iff.1 h
    obtain ⟨rfl, haligned⟩ := millis_of_toNanos ht
    exact ⟨t, rfl, haligned, nodeMillis?_range hm⟩
  · rintro ⟨t, rfl, haligned, hleast, hgreatest⟩
    exact ⟨_, decode_eq_ok_iff.2 ⟨_, t, nodeMillis?_ofInt hleast hgreatest, haligned.toNanos_eq, rfl⟩⟩

/-- When an instant is written, when it is written and read back, when a value is read, and when an instant is read and
can be written again. After the epoch the milliseconds that are written go up to `2 ^ 64`, and those that are read only
to `2 ^ 63`; before it `-2 ^ 63` is read and not written. -/
theorem written_and_read_ranges (t : Instant) (v : Value) :
    ((∃ w, codec.encode t.toValue = .ok w) ↔ -2 ^ 63 < t.millis ∧ t.millis < 2 ^ 64) ∧
    ((∃ w v, codec.encode t.toValue = .ok w ∧ codec.decode w = .ok v) ↔ -2 ^ 63 < t.millis ∧ t.millis < 2 ^ 63) ∧
    ((∃ w, codec.decode w = .ok v) ↔
      ∃ u : Instant, v = u.toValue ∧ u.Aligned ∧ -2 ^ 63 ≤ u.millis ∧ u.millis < 2 ^ 63) ∧
    ((∃ w w', codec.decode w = .ok t.toValue ∧ codec.encode t.toValue = .ok w') ↔
      t.Aligned ∧ -2 ^ 63 < t.millis ∧ t.millis < 2 ^ 63) := by
  refine ⟨exists_encode_iff, exists_encode_decode_iff, exists_decode_iff, ?_⟩
  constructor
  · rintro ⟨w, w', hread, hwrite⟩
    obtain ⟨u, hu, haligned, -, hgreatest⟩ := exists_decode_iff.1 ⟨w, hread⟩
    obtain rfl := toValue_injective hu
    exact ⟨haligned, (exists_encode_iff.1 ⟨w', hwrite⟩).1, hgreatest⟩
  · rintro ⟨haligned, hleast, hgreatest⟩
    obtain ⟨w, hread⟩ := exists_decode_iff.2 ⟨t, rfl, haligned, Int.le_of_lt hleast, hgreatest⟩
    obtain ⟨w', hwrite⟩ := exists_encode_iff.2 ⟨hleast, by omega⟩
    exact ⟨w, w', hread, hwrite⟩

/-- The first millisecond after the epoch that is written and not read, and the one before it that is read and not
written. -/
theorem ends_differ :
    let late : Instant := ⟨9223372036854775, 808000000, by decide⟩
    let early : Instant := ⟨-9223372036854776, 192000000, by decide⟩
    codec.encode late.toValue = .ok (.number (.posInt 9223372036854775808)) ∧
      codec.decode (.number (.posInt 9223372036854775808)) =
        .error (.invalidValue path (.notEpochMillis (.number (.posInt 9223372036854775808)))) ∧
      codec.decode (.number (.negInt (-9223372036854775808))) = .ok early.toValue ∧
      codec.encode early.toValue = .error (.invalidValue path .beyondMillis) :=
  ⟨rfl, rfl, rfl, rfl⟩

end Instant
end Bindery
