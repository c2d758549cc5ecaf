import Bindery.Path
import Mathlib.Data.List.TakeWhile
/-!
# Paths can be told from their text

Each step of a rendered path shows where it ends: a plain name at the first character that no plain name has, a
quoted one at the first quote without a backslash, a position at its bracket. So a text that begins with a step begins
with no other (`Step.chars_append_inj`), and two paths are rendered alike only if they take the same steps
(`Path.render_eq_render_iff`).
-/

namespace Bindery

/-! ## Where a run of characters ends -/

/-- Two runs of characters with a property, each followed by something else, are told apart by what comes first. -/
theorem run_append_inj {p : Char → Bool} {a b r r' : List Char} (ha : ∀ c ∈ a, p c) (hb : ∀ c ∈ b, p c)
    (hr : ∀ c ∈ r.head?, ¬ p c) (hr' : ∀ c ∈ r'.head?, ¬ p c) (h : a ++ r = b ++ r') : a = b ∧ r = r' := by
  have hrun : ∀ {a r : List Char}, (∀ c ∈ a, p c) → (∀ c ∈ r.head?, ¬ p c) → (a ++ r).takeWhile p = a := by
    intro a r ha hr
    have hnil : r.takeWhile p = [] := by
      cases r with
      | nil => rfl
      | cons c r => exact List.takeWhile_cons_of_neg (hr c rfl)
    rw [List.takeWhile_append_of_pos ha, hnil, List.append_nil]
  have hab : a = b := by rw [← hrun ha hr, h, hrun hb hr']
  subst hab
  exact ⟨rfl, List.append_cancel_left h⟩

namespace Step

/-! ## Quoted names -/

theorem quoteChar_append_inj {c d : Char} {r r' : List Char} (h : quoteChar c ++ r = quoteChar d ++ r') :
    c = d ∧ r = r' := by
  unfold quoteChar at h
  split at h <;> split at h <;> simp only [List.cons_append, List.nil_append, List.cons.injEq] at h <;> grind

/-- No quoted character begins like the closing quote. -/
theorem quoteChar_append_ne (c : Char) (r r' : List Char) : quoteChar c ++ r ≠ '\'' :: r' := by
  unfold quoteChar
  split <;> simp_all

/-- A quoted name ends at the first quote that no backslash stands before. -/
theorem quoted_append_inj {a b r r' : List Char}
    (h : a.flatMap quoteChar ++ '\'' :: r = b.flatMap quoteChar ++ '\'' :: r') : a = b ∧ r = r' := by
  induction a generalizing b with
  | nil =>
    cases b with
    | nil => exact ⟨rfl, List.tail_eq_of_cons_eq h⟩
    | cons d b =>
      rw [List.flatMap_cons, List.append_assoc] at h
      exact absurd h.symm (quoteChar_append_ne d _ _)
  | cons c a ih =>
    cases b with
    | nil =>
      rw [List.flatMap_cons, List.append_assoc] at h
      exact absurd h (quoteChar_append_ne c _ _)
    | cons d b =>
      rw [List.flatMap_cons, List.flatMap_cons, List.append_assoc, List.append_assoc] at h
      obtain ⟨rfl, hrest⟩ := quoteChar_append_inj h
      obtain ⟨rfl, rfl⟩ := ih hrest
      exact ⟨rfl, rfl⟩

/-! ## Positions -/

theorem isDigit_toDigits (i : Nat) : ∀ c ∈ Nat.toDigits 10 i, c.isDigit := fun _ hc =>
  Nat.isDigit_of_mem_toDigits (by decide) (by decide) hc

/-- A position ends at its bracket. -/
theorem index_append_inj {i j : Nat} {r r' : List Char}
    (h : Nat.toDigits 10 i ++ ']' :: r = Nat.toDigits 10 j ++ ']' :: r') : i = j ∧ r = r' := by
  have hstop : ∀ r : List Char, ∀ c ∈ (']' :: r).head?, ¬ c.isDigit := by
    intro r c hc
    obtain rfl : ']' = c := Option.some.inj hc
    decide
  obtain ⟨hdigits, hrest⟩ := run_append_inj (isDigit_toDigits i) (isDigit_toDigits j) (hstop r) (hstop r') h
  refine ⟨?_, List.tail_eq_of_cons_eq hrest⟩
  calc i = Nat.ofDigitChars 10 (Nat.toDigits 10 i) 0 := Nat.ofDigitChars_ten_toDigits.symm
    _ = Nat.ofDigitChars 10 (Nat.toDigits 10 j) 0 := by rw [hdigits]
    _ = j := Nat.ofDigitChars_ten_toDigits

/-- Behind a bracket, a position does not begin like a quoted name. -/
theorem index_append_ne (i : Nat) (r r' : List Char) : Nat.toDigits 10 i ++ r ≠ '\'' :: r' := by
  have hne : Nat.toDigits 10 i ≠ [] := Nat.toDigits_ne_nil
  have hdigit := isDigit_toDigits i
  cases hi : Nat.toDigits 10 i with
  | nil => exact absurd hi hne
  | cons d ds =>
    intro h
    have hd : d.isDigit := hdigit d (hi ▸ List.mem_cons_self)
    obtain rfl : d = '\'' := List.head_eq_of_cons_eq h
    exact absurd hd (by decide)

/-! ## Steps -/

/-- A character that a plain name may have. -/
def isPlainChar (c : Char) : Bool := isAlphanumeric c || c == '_'

theorem isPlainChar_of_isPlain {name : String} (h : isPlain name) : ∀ c ∈ name.toList, isPlainChar c := by
  unfold isPlain at h
  exact List.all_eq_true.1 (Bool.and_eq_true_iff.1 h).2

theorem chars_plain {name : String} (h : isPlain name) : (key name).chars = '.' :: name.toList := if_pos h

theorem chars_quoted {name : String} (h : ¬ isPlain name) :
    (key name).chars = '[' :: '\'' :: (name.toList.flatMap quoteChar ++ ['\'', ']']) := if_neg h

/-- What may stand behind a step: nothing, or another step. -/
def Ends (r : List Char) : Prop := ∀ c ∈ r.head?, c = '.' ∨ c = '['

theorem Ends.not_plain {r : List Char} (h : Ends r) : ∀ c ∈ r.head?, ¬ isPlainChar c := by
  intro c hc
  rcases h c hc with rfl | rfl <;> decide +kernel

/-- Every step begins with a point or a bracket. -/
theorem exists_chars_eq (s : Step) : ∃ c r, s.chars = c :: r ∧ (c = '.' ∨ c = '[') := by
  cases s with
  | key name =>
    by_cases hname : isPlain name
    · exact ⟨_, _, chars_plain hname, .inl rfl⟩
    · exact ⟨_, _, chars_quoted hname, .inr rfl⟩
  | index i => exact ⟨_, _, rfl, .inr rfl⟩

theorem ends_steps (steps : List Step) : Ends (steps.flatMap chars) := by
  intro c hc
  cases steps with
  | nil => cases hc
  | cons s steps =>
    obtain ⟨d, r, hs, hd⟩ := s.exists_chars_eq
    rw [List.flatMap_cons, hs] at hc
    obtain rfl : d = c := Option.some.inj hc
    exact hd

/-- A name's text, with what may stand behind it, is the text of no other name. -/
theorem key_append_inj {a b : String} {r r' : List Char} (hr : Ends r) (hr' : Ends r')
    (h : (key a).chars ++ r = (key b).chars ++ r') : a = b ∧ r = r' := by
  by_cases ha : isPlain a <;> by_cases hb : isPlain b
  · rw [chars_plain ha, chars_plain hb, List.cons_append, List.cons_append] at h
    obtain ⟨hname, hrest⟩ := run_append_inj (isPlainChar_of_isPlain ha) (isPlainChar_of_isPlain hb) hr.not_plain
      hr'.not_plain (List.tail_eq_of_cons_eq h)
    exact ⟨String.toList_inj.1 hname, hrest⟩
  · rw [chars_plain ha, chars_quoted hb] at h
    exact absurd (List.head_eq_of_cons_eq h) (by decide)
  · rw [chars_quoted ha, chars_plain hb] at h
    exact absurd (List.head_eq_of_cons_eq h) (by decide)
  · rw [chars_quoted ha, chars_quoted hb] at h
    simp only [List.cons_append, List.append_assoc, List.nil_append, List.cons.injEq, true_and] at h
    obtain ⟨hname, hrest⟩ := quoted_append_inj h
    exact ⟨String.toList_inj.1 hname, List.tail_eq_of_cons_eq hrest⟩

/-- No name's text begins like that of a position. -/
theorem key_append_ne (name : String) (i : Nat) (r r' : List Char) :
    (key name).chars ++ r ≠ (index i).chars ++ r' := by
  intro h
  have hindex : (index i).chars ++ r' = '[' :: (Nat.toDigits 10 i ++ (']' :: r')) := by
    rw [chars, List.cons_append, List.append_assoc]
    rfl
  rw [hindex] at h
  by_cases hname : isPlain name
  · rw [chars_plain hname] at h
    exact absurd (List.head_eq_of_cons_eq h) (by decide)
  · rw [chars_quoted hname] at h
    exact index_append_ne i _ _ (List.tail_eq_of_cons_eq h).symm

/-- A text that begins with a step, and goes on with further steps if it goes on, begins with no other step. -/
theorem chars_append_inj {s t : Step} {r r' : List Char} (hr : Ends r) (hr' : Ends r')
    (h : s.chars ++ r = t.chars ++ r') : s = t ∧ r = r' := by
  cases s with
  | key a =>
    cases t with
    | key b =>
      obtain ⟨rfl, hrest⟩ := key_append_inj hr hr' h
      exact ⟨rfl, hrest⟩
    | index j => exact absurd h (key_append_ne a j r r')
  | index i =>
    cases t with
    | key b => exact absurd h.symm (key_append_ne b i r' r)
    | index j =>
      simp only [chars, List.cons_append, List.append_assoc, List.nil_append, List.cons.injEq, true_and] at h
      obtain ⟨rfl, hrest⟩ := index_append_inj h
      exact ⟨rfl, hrest⟩

/-- Steps in a row are told from their text. -/
theorem flatMap_chars_inj {ss ts : List Step} (h : ss.flatMap chars = ts.flatMap chars) : ss = ts := by
  have hnil : ∀ (s : Step) (r : List Char), s.chars ++ r ≠ [] := by
    intro s r
    obtain ⟨c, cs, hs, -⟩ := s.exists_chars_eq
    rw [hs]
    exact List.cons_ne_nil c _
  induction ss generalizing ts with
  | nil =>
    cases ts with
    | nil => rfl
    | cons t ts => exact absurd h.symm (hnil t _)
  | cons s ss ih =>
    cases ts with
    | nil => exact absurd h (hnil s _)
    | cons t ts =>
      rw [List.flatMap_cons, List.flatMap_cons] at h
      obtain ⟨rfl, hrest⟩ := chars_append_inj (ends_steps ss) (ends_steps ts) h
      rw [ih hrest]

end Step

/-- Two paths have one text exactly if they take the same steps from the root, whatever containers own them. -/
theorem Path.render_eq_render_iff (p q : List Segment) :
    Path.render p = Path.render q ↔ p.map (·.step) = q.map (·.step) := by
  have hsteps : ∀ path : List Segment, path.flatMap (·.step.chars) = (path.map (·.step)).flatMap Step.chars := by
    intro path
    rw [List.flatMap_map]
  unfold Path.render
  rw [hsteps, hsteps, String.ofList_inj, List.cons_inj_right]
  exact ⟨Step.flatMap_chars_inj, fun h => by rw [h]⟩

-- A name with a point in it is no two names.
example : Path.render [⟨"Map", .key "a.b"⟩] ≠ Path.render [⟨"Map", .key "a"⟩, ⟨"Map", .key "b"⟩] := by
  decide +kernel

end Bindery
