import Bindery.Record
import Mathlib.Data.List.Induction
/-!
# What keys stand for

Entries inserted under a key are found under it. A key table finds only positions that go by the
key, as a name or as an alias (`KeyTable.find?_goesBy`), one of them whenever there is one
(`KeyTable.find?_none_iff`), and it finds the position of a name that no other position has
(`KeyTable.find?_name`).
-/

namespace Bindery

/-! ## Entries -/

namespace Entries

variable {α : Type}

theorem find?_insert (es : List (String × α)) (key other : String) (a : α) :
    find? (insert es key a) other = if key = other then some a else find? es other := by
  induction es with
  | nil => simp [insert, find?]
  | cons e es ih =>
    obtain ⟨k, b⟩ := e
    unfold insert
    by_cases hk : k = key
    · subst hk
      by_cases ho : k = other <;> simp [find?, ho]
    · by_cases ho : k = other
      · subst ho
        simp [find?, hk, Ne.symm hk]
      · simp [find?, hk, ho, ih]

theorem find?_foldl_insert (keys : List String) (es : List (String × α)) (a : α) (other : String) :
    find? (keys.foldl (fun es key => insert es key a) es) other =
      if other ∈ keys then some a else find? es other := by
  induction keys generalizing es with
  | nil => simp
  | cons key keys ih =>
    rw [List.foldl_cons, ih, find?_insert]
    by_cases hk : other ∈ keys
    · simp [hk]
    · by_cases ho : key = other
      · simp [ho]
      · simp [hk, ho, Ne.symm ho]

theorem insert_of_not_mem {es : List (String × α)} {key : String} (h : key ∉ keys es) (a : α) :
    insert es key a = es ++ [(key, a)] := by
  induction es with
  | nil => rfl
  | cons e es ih =>
    simp only [keys, List.map_cons, List.mem_cons, not_or] at h
    rw [insert, if_neg (Ne.symm h.1), ih h.2]
    rfl

theorem find?_of_mem {es : List (String × α)} (hkeys : (keys es).Nodup) {key : String} {a : α} (h : (key, a) ∈ es) :
    find? es key = some a := by
  induction es with
  | nil => cases h
  | cons e es ih =>
    obtain ⟨k, b⟩ := e
    simp only [keys, List.map_cons, List.nodup_cons] at hkeys
    rcases List.mem_cons.1 h with he | he
    · cases he
      simp [find?]
    · have hne : k ≠ key := by
        rintro rfl
        exact hkeys.1 (List.mem_map_of_mem (f := Prod.fst) he)
      rw [find?, if_neg hne]
      exact ih hkeys.2 he

theorem insertAll_of_nodup : ∀ {more es : List (String × α)}, (keys (es ++ more)).Nodup →
    insertAll es more = es ++ more := by
  intro more
  induction more with
  | nil => intro es _; exact (List.append_nil es).symm
  | cons e more ih =>
    intro es h
    have hnot : e.1 ∉ keys es := by
      simp only [keys, List.map_append, List.map_cons, List.nodup_append] at h
      exact fun hmem => h.2.2 e.1 hmem e.1 (by simp) rfl
    have hcons : es ++ e :: more = es ++ [e] ++ more := by simp
    rw [insertAll, List.foldl_cons, insert_of_not_mem hnot]
    rw [hcons] at h ⊢
    exact ih h

/-- Entries whose keys are pairwise different are kept as they are. -/
theorem ofList_of_nodup {es : List (String × α)} (h : (keys es).Nodup) : ofList es = es :=
  insertAll_of_nodup h

variable {β : Type} (f : α → β)

theorem insert_map (es : List (String × α)) (key : String) (a : α) :
    insert (es.map fun e => (e.1, f e.2)) key (f a) = (insert es key a).map fun e => (e.1, f e.2) := by
  induction es with
  | nil => rfl
  | cons e es ih =>
    obtain ⟨k, a'⟩ := e
    by_cases hk : k = key
    · simp [insert, hk]
    · simp [insert, hk, ih]

theorem insertAll_map (more es : List (String × α)) :
    insertAll (es.map fun e => (e.1, f e.2)) (more.map fun e => (e.1, f e.2)) =
      (insertAll es more).map fun e => (e.1, f e.2) := by
  induction more generalizing es with
  | nil => rfl
  | cons e more ih =>
    change insertAll (insert (es.map fun e => (e.1, f e.2)) e.1 (f e.2)) (more.map fun e => (e.1, f e.2)) = _
    rw [insert_map, ih]
    rfl

/-- Changing values changes neither which entries are kept nor where. -/
theorem ofList_map (es : List (String × α)) :
    ofList (es.map fun e => (e.1, f e.2)) = (ofList es).map fun e => (e.1, f e.2) :=
  insertAll_map f es []

end Entries

/-! ## Key tables -/

/-- The key is the name or one of the aliases. -/
def Names.GoesBy (n : Names) (key : String) : Prop := n.name = key ∨ key ∈ n.aliases

instance (n : Names) (key : String) : Decidable (n.GoesBy key) :=
  inferInstanceAs (Decidable (n.name = key ∨ key ∈ n.aliases))

namespace KeyTable

theorem find?_names_enter (t : KeyTable) (position : Nat) (n : Names) (key : String) :
    Entries.find? (t.enter position n).names key =
      if n.name = key then some position else Entries.find? t.names key :=
  Entries.find?_insert ..

theorem find?_aliases_enter (t : KeyTable) (position : Nat) (n : Names) (key : String) :
    Entries.find? (t.enter position n).aliases key =
      if key ∈ n.aliases then some position else Entries.find? t.aliases key :=
  Entries.find?_foldl_insert ..

/-- The table of a list that grows at its end. -/
theorem ofNames_concat (all : List Names) (n : Names) :
    ofNames (all ++ [n]) = (ofNames all).enter all.length n := by
  simp [ofNames, List.zipIdx_append]

theorem names_goesBy (all : List Names) {key : String} {i : Nat}
    (h : Entries.find? (ofNames all).names key = some i) : ∃ n, all[i]? = some n ∧ n.name = key := by
  induction all using List.reverseRecOn with
  | nil => simp [ofNames, Entries.find?] at h
  | append_singleton all n ih =>
    rw [ofNames_concat, find?_names_enter] at h
    by_cases hn : n.name = key
    · rw [if_pos hn] at h
      cases h
      exact ⟨n, by simp, hn⟩
    · rw [if_neg hn] at h
      obtain ⟨m, hm, hkey⟩ := ih h
      have hlt := (List.getElem?_eq_some_iff.1 hm).1
      exact ⟨m, by rw [List.getElem?_append_left hlt, hm], hkey⟩

theorem aliases_goesBy (all : List Names) {key : String} {i : Nat}
    (h : Entries.find? (ofNames all).aliases key = some i) : ∃ n, all[i]? = some n ∧ key ∈ n.aliases := by
  induction all using List.reverseRecOn with
  | nil => simp [ofNames, Entries.find?] at h
  | append_singleton all n ih =>
    rw [ofNames_concat, find?_aliases_enter] at h
    by_cases hn : key ∈ n.aliases
    · rw [if_pos hn] at h
      cases h
      exact ⟨n, by simp, hn⟩
    · rw [if_neg hn] at h
      obtain ⟨m, hm, hkey⟩ := ih h
      have hlt := (List.getElem?_eq_some_iff.1 hm).1
      exact ⟨m, by rw [List.getElem?_append_left hlt, hm], hkey⟩

/-- A key is found at a position that goes by it. -/
theorem find?_goesBy {all : List Names} {key : String} {i : Nat} (h : (ofNames all).find? key = some i) :
    ∃ n, all[i]? = some n ∧ (n.name = key ∨ key ∈ n.aliases) := by
  unfold find? at h
  rcases Option.or_eq_some_iff.1 h with hn | ⟨-, ha⟩
  · obtain ⟨n, hn, hkey⟩ := names_goesBy all hn
    exact ⟨n, hn, .inl hkey⟩
  · obtain ⟨n, hn, hkey⟩ := aliases_goesBy all ha
    exact ⟨n, hn, .inr hkey⟩

theorem names_none_iff (all : List Names) (key : String) :
    Entries.find? (ofNames all).names key = none ↔ ∀ n ∈ all, n.name ≠ key := by
  induction all using List.reverseRecOn with
  | nil => simp [ofNames, Entries.find?]
  | append_singleton all n ih =>
    rw [ofNames_concat, find?_names_enter, List.forall_mem_append, List.forall_mem_singleton, ← ih]
    by_cases hn : n.name = key <;> simp [hn]

theorem aliases_none_iff (all : List Names) (key : String) :
    Entries.find? (ofNames all).aliases key = none ↔ ∀ n ∈ all, key ∉ n.aliases := by
  induction all using List.reverseRecOn with
  | nil => simp [ofNames, Entries.find?]
  | append_singleton all n ih =>
    rw [ofNames_concat, find?_aliases_enter, List.forall_mem_append, List.forall_mem_singleton, ← ih]
    by_cases hn : key ∈ n.aliases <;> simp [hn]

/-- A key has no position exactly when nothing in the list goes by it. -/
theorem find?_none_iff (all : List Names) (key : String) :
    (ofNames all).find? key = none ↔ ∀ n ∈ all, ¬ n.GoesBy key := by
  unfold find? Names.GoesBy
  rw [Option.or_eq_none_iff, names_none_iff, aliases_none_iff]
  constructor
  · rintro ⟨hnames, haliases⟩ n hn (hname | halias)
    · exact hnames n hn hname
    · exact haliases n hn halias
  · intro h
    exact ⟨fun n hn hname => h n hn (.inl hname), fun n hn halias => h n hn (.inr halias)⟩

/-- Names that are pairwise different find their own positions, whatever the aliases. -/
theorem find?_name {all : List Names} (hdistinct : (all.map (·.name)).Nodup) {n : Names} {i : Nat}
    (h : all[i]? = some n) : (ofNames all).find? n.name = some i := by
  suffices hnames : Entries.find? (ofNames all).names n.name = some i by
    simp [find?, hnames]
  induction all using List.reverseRecOn with
  | nil => simp at h
  | append_singleton all m ih =>
    rw [ofNames_concat, find?_names_enter]
    rw [List.map_append, List.nodup_append] at hdistinct
    obtain ⟨hall, -, hdisjoint⟩ := hdistinct
    rcases Nat.lt_or_ge i all.length with hi | hi
    · rw [List.getElem?_append_left hi] at h
      have hmem : n.name ∈ all.map (·.name) := List.mem_map_of_mem (List.mem_of_getElem? h)
      rw [if_neg fun hm => hdisjoint _ hmem _ (by simp) hm.symm]
      exact ih hall h
    · rw [List.getElem?_append_right hi] at h
      obtain ⟨hlt, rfl⟩ := List.getElem?_eq_some_iff.1 h
      simp at hlt
      simp [show i = all.length by omega]

end KeyTable

/-! ## Arguments and fields -/

theorem Creator.argIndex?_goesBy {creator : Creator} {key : String} {i : Nat}
    (h : creator.argIndex? key = some i) :
    ∃ arg, creator.args[i]? = some arg ∧ (arg.name = key ∨ key ∈ arg.aliases) := by
  obtain ⟨n, hn, hkey⟩ := KeyTable.find?_goesBy h
  rw [List.getElem?_map, Option.map_eq_some_iff] at hn
  obtain ⟨arg, harg, rfl⟩ := hn
  exact ⟨arg, harg, hkey⟩

theorem Creator.argIndex?_name {creator : Creator} (hdistinct : (creator.args.map (·.name)).Nodup) {arg : Arg}
    {i : Nat} (h : creator.args[i]? = some arg) : creator.argIndex? arg.name = some i :=
  KeyTable.find?_name (by rw [List.map_map]; exact hdistinct) (by simp [h])

theorem Creator.argIndex?_none_iff (creator : Creator) (key : String) :
    creator.argIndex? key = none ↔ ∀ arg ∈ creator.args, ¬ arg.GoesBy key := by
  unfold Creator.argIndex?
  rw [KeyTable.find?_none_iff, List.forall_mem_map]

theorem Record.fieldIndex?_none_iff (r : Record) (key : String) :
    r.fieldIndex? key = none ↔ ∀ f ∈ r.fields, ¬ f.GoesBy key := by
  unfold Record.fieldIndex?
  rw [KeyTable.find?_none_iff, List.forall_mem_map]

theorem Record.fieldIndex?_goesBy {r : Record} {key : String} {i : Nat} (h : r.fieldIndex? key = some i) :
    ∃ f, r.fields[i]? = some f ∧ f.GoesBy key := by
  obtain ⟨n, hn, hkey⟩ := KeyTable.find?_goesBy h
  rw [List.getElem?_map, Option.map_eq_some_iff] at hn
  obtain ⟨f, hf, rfl⟩ := hn
  exact ⟨f, hf, hkey⟩

theorem Record.fieldIndex?_name {r : Record} (hdistinct : (r.fields.map (·.name)).Nodup) {f : Field} {i : Nat}
    (h : r.fields[i]? = some f) : r.fieldIndex? f.name = some i :=
  KeyTable.find?_name (by rw [List.map_map]; exact hdistinct) (by simp [h])

end Bindery
