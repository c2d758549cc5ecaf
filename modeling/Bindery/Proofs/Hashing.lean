import Bindery.Entries.Hashed
import Bindery.Proofs.Keys
import Mathlib.Data.List.InsertIdx
/-!
# The index of hashed entries

The index of hashed entries has each position once, with the hash of the key there, and nothing else, and no key is
there twice (`HashedEntries.Indexed`). So a look-up tries positions of entries only, and finds the position of the key
if there is one (`Indexed.position?_cases`). Inserting, erasing and changing keep this and do what they do to plain
entries (`Indexed.toList_insert`, `Indexed.toList_erase`, `Indexed.toList_modify`), whatever the hash function.
-/

namespace Bindery

variable {α : Type}

/-! ## Entries at a position -/

namespace Entries

theorem find?_of_not_mem {es : List (String × α)} {key : String} (h : key ∉ keys es) : find? es key = none := by
  induction es with
  | nil => rfl
  | cons e es ih =>
    simp only [keys, List.map_cons, List.mem_cons, not_or] at h
    simp [find?, Ne.symm h.1, ih h.2]

/-- Entries before and behind the one at a position. No key before it is its key. -/
theorem around {es : List (String × α)} (h : (keys es).Nodup) {i : Nat} {key : String} {a : α}
    (hi : es[i]? = some (key, a)) : es = es.take i ++ (key, a) :: es.drop (i + 1) ∧ key ∉ keys (es.take i) := by
  obtain ⟨hlt, hget⟩ := List.getElem?_eq_some_iff.1 hi
  have hes : es = es.take i ++ (key, a) :: es.drop (i + 1) := by
    rw [← hget, ← List.drop_eq_getElem_cons hlt, List.take_append_drop]
  refine ⟨hes, fun hmem => ?_⟩
  rw [hes] at h
  simp only [keys, List.map_append, List.map_cons, List.nodup_append] at h
  exact h.2.2 key hmem key (by simp) rfl

variable {front back : List (String × α)} {key : String}

theorem insert_around (h : key ∉ keys front) (a v : α) :
    insert (front ++ (key, a) :: back) key v = front ++ (key, v) :: back := by
  induction front with
  | nil => simp [insert]
  | cons e front ih =>
    simp only [keys, List.map_cons, List.mem_cons, not_or] at h
    simp [insert, Ne.symm h.1, ih h.2]

theorem erase_around (h : key ∉ keys front) (a : α) : erase (front ++ (key, a) :: back) key = front ++ back := by
  induction front with
  | nil => simp [erase]
  | cons e front ih =>
    simp only [keys, List.map_cons, List.mem_cons, not_or] at h
    simp [erase, Ne.symm h.1, ih h.2]

theorem modify_around (h : key ∉ keys front) (a : α) (f : α → α) :
    modify (front ++ (key, a) :: back) key f = front ++ (key, f a) :: back := by
  induction front with
  | nil => simp [modify]
  | cons e front ih =>
    simp only [keys, List.map_cons, List.mem_cons, not_or] at h
    simp [modify, Ne.symm h.1, ih h.2]

section Position
variable {es : List (String × α)} (h : (keys es).Nodup) {i : Nat} {a : α} (hi : es[i]? = some (key, a))
include h hi

theorem insert_eq_modify (v : α) : insert es key v = es.modify i fun e => (e.1, v) := by
  obtain ⟨hes, hnot⟩ := around h hi
  obtain ⟨hlt, hget⟩ := List.getElem?_eq_some_iff.1 hi
  rw [List.modify_eq_take_cons_drop hlt, hget]
  conv_lhs => rw [hes, insert_around hnot]

theorem modify_eq_modify (f : α → α) : modify es key f = es.modify i fun e => (e.1, f e.2) := by
  obtain ⟨hes, hnot⟩ := around h hi
  obtain ⟨hlt, hget⟩ := List.getElem?_eq_some_iff.1 hi
  rw [List.modify_eq_take_cons_drop hlt, hget]
  conv_lhs => rw [hes, modify_around hnot]

theorem erase_eq_eraseIdx : erase es key = es.eraseIdx i := by
  obtain ⟨hes, hnot⟩ := around h hi
  rw [List.eraseIdx_eq_take_drop_succ]
  conv_lhs => rw [hes, erase_around hnot]

end Position

theorem erase_of_not_mem {es : List (String × α)} (h : key ∉ keys es) : erase es key = es := by
  induction es with
  | nil => rfl
  | cons e es ih =>
    simp only [keys, List.map_cons, List.mem_cons, not_or] at h
    simp [erase, Ne.symm h.1, ih h.2]

theorem modify_of_not_mem {es : List (String × α)} (h : key ∉ keys es) (f : α → α) : modify es key f = es := by
  induction es with
  | nil => rfl
  | cons e es ih =>
    simp only [keys, List.map_cons, List.mem_cons, not_or] at h
    simp [modify, Ne.symm h.1, ih h.2]

theorem keys_modify (es : List (String × α)) (i : Nat) (f : α → α) :
    keys (es.modify i fun e => (e.1, f e.2)) = keys es := by
  unfold keys
  apply List.ext_getElem?
  intro j
  simp only [List.getElem?_map, List.getElem?_modify, Option.map_eq_map, Option.map_map]
  congr 1
  funext e
  simp only [Function.comp]
  split <;> rfl

end Entries

/-! ## The index -/

namespace HashedEntries

variable {m : HashedEntries α}

@[simp] theorem hash_insert (m : HashedEntries α) (key : String) (v : α) : (m.insert key v).2.hash = m.hash := by
  unfold HashedEntries.insert
  cases m.position? key <;> rfl

@[simp] theorem hash_erase (m : HashedEntries α) (key : String) : (m.erase key).2.hash = m.hash := by
  unfold HashedEntries.erase
  cases m.position? key <;> rfl

@[simp] theorem hash_modify (m : HashedEntries α) (key : String) (f : α → α) : (m.modify key f).2.hash = m.hash := by
  unfold HashedEntries.modify
  cases m.position? key <;> rfl

@[simp] theorem hash_insertAll (m : HashedEntries α) (more : List (String × α)) : (m.insertAll more).hash = m.hash := by
  induction more generalizing m with
  | nil => rfl
  | cons e more ih => exact (ih _).trans (m.hash_insert e.1 e.2)

/-- The keys in order. -/
def keys (m : HashedEntries α) : List String := Entries.keys m.toList

theorem length_keys (m : HashedEntries α) : m.keys.length = m.size := by simp [keys, Entries.keys, toList, size]

/-- The index has the hash and the position of each key and nothing else, and keys are pairwise different. -/
structure Indexed (m : HashedEntries α) : Prop where
  index : m.index.Perm (m.keys.zipIdx.map fun (key, i) => (m.hash key, i))
  nodup : m.keys.Nodup

theorem empty_indexed (hash : String → UInt64) : Indexed (empty hash : HashedEntries α) :=
  ⟨List.Perm.refl _, List.nodup_nil⟩

namespace Indexed

/-- No look-up tries a position that there is not. -/
theorem lt_size (h : m.Indexed) {p : UInt64 × Nat} (hp : p ∈ m.index) : p.2 < m.size := by
  obtain ⟨⟨key, i⟩, hmem, rfl⟩ := List.mem_map.1 (h.index.mem_iff.1 hp)
  rw [← m.length_keys]
  exact (List.mem_zipIdx' hmem).1

end Indexed

/-- A position that is found holds the key. -/
theorem position?_spec {key : String} {i : Nat} (h : m.position? key = some i) : ∃ a, m.toList[i]? = some (key, a) := by
  obtain ⟨⟨hash, j⟩, hfind, rfl⟩ := Option.map_eq_some_iff.1 h
  have hholds := List.find?_some hfind
  simp only [Bool.and_eq_true] at hholds
  obtain ⟨-, hholds⟩ := hholds
  unfold holds at hholds
  split at hholds
  · next e he =>
    obtain ⟨k, a⟩ := e
    cases beq_iff_eq.1 hholds
    refine ⟨a, ?_⟩
    rw [← he]
    exact Array.getElem?_toList ..
  · cases hholds

theorem Indexed.not_mem (h : m.Indexed) {key : String} (hnone : m.position? key = none) : key ∉ m.keys := by
  intro hmem
  obtain ⟨i, hi⟩ := List.mem_iff_getElem?.1 hmem
  have hindex : (m.hash key, i) ∈ m.index := by
    rw [h.index.mem_iff, List.mem_map]
    exact ⟨(key, i), List.mem_zipIdx_iff_getElem?.2 hi, rfl⟩
  have hfind := List.find?_eq_none.1 (Option.map_eq_none_iff.1 hnone) _ hindex
  obtain ⟨⟨k, a⟩, he, rfl⟩ := Option.map_eq_some_iff.1 ((List.getElem?_map ..).symm.trans hi)
  have hentry : m.entries[i]? = some (k, a) := by
    rw [← he]
    exact (Array.getElem?_toList ..).symm
  simp [holds, hentry] at hfind

/-- A look-up finds the position of the key, unless no entry has the key. -/
theorem Indexed.position?_cases (h : m.Indexed) (key : String) :
    (∃ i a, m.position? key = some i ∧ m.toList[i]? = some (key, a) ∧ Entries.find? m.toList key = some a) ∨
      m.position? key = none ∧ key ∉ m.keys ∧ Entries.find? m.toList key = none := by
  cases hposition : m.position? key with
  | some i =>
    obtain ⟨a, ha⟩ := position?_spec hposition
    exact .inl ⟨i, a, rfl, ha, Entries.find?_of_mem h.nodup (List.mem_of_getElem? ha)⟩
  | none =>
    have hnot := h.not_mem hposition
    exact .inr ⟨rfl, hnot, Entries.find?_of_not_mem hnot⟩

/-- Other values under the same keys leave the index as it should be. -/
theorem Indexed.of_keys (h : m.Indexed) {entries : Array (String × α)} (hkeys : Entries.keys entries.toList = m.keys) :
    Indexed { m with entries } := by
  constructor
  · change m.index.Perm ((Entries.keys entries.toList).zipIdx.map fun (key, i) => (m.hash key, i))
    rw [hkeys]
    exact h.index
  · change (Entries.keys entries.toList).Nodup
    rw [hkeys]
    exact h.nodup

/-! ## Looking up -/

theorem value_at {i : Nat} {key : String} {a : α} (hi : m.toList[i]? = some (key, a)) :
    (m.entries[i]?.map (·.2)) = some a := by
  have hentry : m.entries[i]? = some (key, a) := by
    rw [← hi]
    exact (Array.getElem?_toList ..).symm
  rw [hentry]
  rfl

theorem Indexed.find?_eq (h : m.Indexed) (key : String) : m.find? key = Entries.find? m.toList key := by
  unfold HashedEntries.find?
  rcases h.position?_cases key with ⟨i, a, hposition, hi, hfind⟩ | ⟨hposition, -, hfind⟩
  · rw [hposition, hfind]
    exact value_at hi
  · rw [hposition, hfind]
    rfl

theorem Indexed.contains_eq (h : m.Indexed) (key : String) :
    m.contains key = Entries.contains m.toList key := by
  unfold HashedEntries.contains Entries.contains
  rcases h.position?_cases key with ⟨i, a, hposition, -, hfind⟩ | ⟨hposition, -, hfind⟩ <;> simp [hposition, hfind]

/-! ## Inserting -/

/-- Inserting does what inserting into plain entries does. -/
theorem Indexed.toList_insert (h : m.Indexed) (key : String) (v : α) :
    (m.insert key v).2.toList = Entries.insert m.toList key v := by
  unfold HashedEntries.insert
  rcases h.position?_cases key with ⟨i, a, hposition, hi, -⟩ | ⟨hposition, hnot, -⟩
  · rw [hposition, Entries.insert_eq_modify h.nodup hi]
    exact Array.toList_modify
  · rw [hposition, Entries.insert_of_not_mem hnot]
    exact Array.toList_push

/-- The answer is the value that was there. -/
theorem Indexed.insert_answer (h : m.Indexed) (key : String) (v : α) :
    (m.insert key v).1 = Entries.find? m.toList key := by
  unfold HashedEntries.insert
  rcases h.position?_cases key with ⟨i, a, hposition, hi, hfind⟩ | ⟨hposition, -, hfind⟩
  · rw [hposition, hfind]
    exact value_at hi
  · rw [hposition, hfind]

theorem Indexed.insert (h : m.Indexed) (key : String) (v : α) : (m.insert key v).2.Indexed := by
  unfold HashedEntries.insert
  rcases h.position?_cases key with ⟨i, a, hposition, -, -⟩ | ⟨hposition, hnot, -⟩
  · rw [hposition]
    refine h.of_keys ?_
    rw [Array.toList_modify]
    exact Entries.keys_modify _ _ fun _ => v
  · rw [hposition]
    have hkeys : keys ⟨m.hash, m.entries.push (key, v), (m.hash key, m.entries.size) :: m.index⟩ = m.keys ++ [key] := by
      simp [keys, Entries.keys, toList]
    constructor
    · rw [hkeys, List.zipIdx_append, List.map_append, Nat.zero_add, length_keys]
      exact (List.Perm.cons _ h.index).trans (List.perm_append_singleton _ _).symm
    · rw [hkeys, List.nodup_append]
      refine ⟨h.nodup, by simp, ?_⟩
      rintro k hk k' hk' rfl
      rw [List.mem_singleton.1 hk'] at hk
      exact hnot hk

theorem Indexed.insertAll (h : m.Indexed) (more : List (String × α)) :
    (m.insertAll more).Indexed ∧ (m.insertAll more).toList = Entries.insertAll m.toList more := by
  induction more generalizing m with
  | nil => exact ⟨h, rfl⟩
  | cons e more ih =>
    obtain ⟨hindexed, hlist⟩ := ih (h.insert e.1 e.2)
    refine ⟨hindexed, hlist.trans ?_⟩
    rw [h.toList_insert]
    rfl

theorem ofList_indexed (hash : String → UInt64) (entries : List (String × α)) : (ofList hash entries).Indexed :=
  ((empty_indexed hash).insertAll entries).1

theorem toList_ofList (hash : String → UInt64) (entries : List (String × α)) :
    (ofList hash entries).toList = Entries.ofList entries :=
  ((empty_indexed hash).insertAll entries).2

/-! ## Erasing -/

/-- Closing the gap that a row leaves gives the rows of the keys that remain. -/
theorem rows_eraseIdx (hash : String → UInt64) {keys : List String} {i : Nat} {key : String}
    (hi : keys[i]? = some key) :
    (((keys.zipIdx.map fun (key, i) => (hash key, i)).erase (hash key, i)).map
      fun p => if i < p.2 then (p.1, p.2 - 1) else p) = (keys.eraseIdx i).zipIdx.map fun (key, i) => (hash key, i) := by
  obtain ⟨hlt, hget⟩ := List.getElem?_eq_some_iff.1 hi
  have hlength : (keys.take i).length = i := by simp; omega
  have hkeys : keys = keys.take i ++ key :: keys.drop (i + 1) := by
    rw [← hget, ← List.drop_eq_getElem_cons hlt, List.take_append_drop]
  have hfront : ∀ p ∈ (keys.take i).zipIdx, p.2 < i := by
    intro p hp
    have := (List.mem_zipIdx' hp).1
    omega
  rw [List.eraseIdx_eq_take_drop_succ]
  conv_lhs => rw [hkeys]
  rw [List.zipIdx_append, List.zipIdx_append, hlength, List.zipIdx_cons, List.map_append, List.map_append,
    List.map_cons, List.erase_append_right, Nat.zero_add]
  · simp only [List.erase_cons_head, List.map_append, List.map_map]
    congr 1
    · apply List.map_congr_left
      intro p hp
      have := hfront p hp
      simp
      omega
    · rw [List.zipIdx_succ, List.map_map]
      apply List.map_congr_left
      intro p hp
      have := List.le_snd_of_mem_zipIdx hp
      simp
      omega
  · intro hmem
    obtain ⟨p, hp, heq⟩ := List.mem_map.1 hmem
    have := hfront p hp
    simp at heq
    omega

/-- Erasing does what erasing from plain entries does. -/
theorem Indexed.toList_erase (h : m.Indexed) (key : String) :
    (m.erase key).2.toList = Entries.erase m.toList key := by
  unfold HashedEntries.erase
  rcases h.position?_cases key with ⟨i, a, hposition, hi, -⟩ | ⟨hposition, hnot, -⟩
  · rw [hposition, Entries.erase_eq_eraseIdx h.nodup hi]
    exact Array.toList_eraseIdxIfInBounds
  · rw [hposition, Entries.erase_of_not_mem hnot]

theorem Indexed.erase_answer (h : m.Indexed) (key : String) : (m.erase key).1 = Entries.find? m.toList key := by
  unfold HashedEntries.erase
  rcases h.position?_cases key with ⟨i, a, hposition, hi, hfind⟩ | ⟨hposition, -, hfind⟩
  · rw [hposition, hfind]
    exact value_at hi
  · rw [hposition, hfind]

theorem Indexed.erase (h : m.Indexed) (key : String) : (m.erase key).2.Indexed := by
  unfold HashedEntries.erase
  rcases h.position?_cases key with ⟨i, a, hposition, hi, -⟩ | ⟨hposition, -, -⟩
  · rw [hposition]
    have hkey : m.keys[i]? = some key := by
      simp [keys, Entries.keys, List.getElem?_map, hi]
    have hkeys : Entries.keys (m.entries.eraseIdxIfInBounds i).toList = m.keys.eraseIdx i := by
      simp [keys, Entries.keys, toList, List.eraseIdx_map]
    constructor
    · change List.Perm _ ((Entries.keys (m.entries.eraseIdxIfInBounds i).toList).zipIdx.map _)
      rw [hkeys, ← rows_eraseIdx m.hash hkey]
      exact (h.index.erase _).map _
    · change (Entries.keys (m.entries.eraseIdxIfInBounds i).toList).Nodup
      rw [hkeys]
      exact h.nodup.sublist (List.eraseIdx_sublist _ _)
  · rw [hposition]
    exact h

/-! ## Changing values -/

theorem Indexed.toList_modify (h : m.Indexed) (key : String) (f : α → α) :
    (m.modify key f).2.toList = Entries.modify m.toList key f := by
  unfold HashedEntries.modify
  rcases h.position?_cases key with ⟨i, a, hposition, hi, -⟩ | ⟨hposition, hnot, -⟩
  · rw [hposition, Entries.modify_eq_modify h.nodup hi]
    exact Array.toList_modify
  · rw [hposition, Entries.modify_of_not_mem hnot]

theorem Indexed.modify_answer (h : m.Indexed) (key : String) (f : α → α) :
    (m.modify key f).1 = Entries.contains m.toList key := by
  unfold HashedEntries.modify Entries.contains
  rcases h.position?_cases key with ⟨i, a, hposition, -, hfind⟩ | ⟨hposition, -, hfind⟩ <;> simp [hposition, hfind]

theorem Indexed.modify (h : m.Indexed) (key : String) (f : α → α) : (m.modify key f).2.Indexed := by
  unfold HashedEntries.modify
  rcases h.position?_cases key with ⟨i, a, hposition, -, -⟩ | ⟨hposition, -, -⟩
  · rw [hposition]
    refine h.of_keys ?_
    rw [Array.toList_modify]
    exact Entries.keys_modify _ _ f
  · rw [hposition]
    exact h

end HashedEntries
end Bindery
