import Bindery.Node
import Bindery.Proofs.Hashing
/-!
# Objects answer as plain entries do

The entries of an object are kept with an index, and with copies of the object that were taken on the way. Whatever is
asked of them, in any order, the answers are those of plain entries (`objects_answer_alike`): each request is answered
alike, and leaves the index with each position once (`Objects.act_toList`, `Objects.act_indexed`). How the index orders
its rows is its own affair, and it may order them anew at any time (`Objects.Arrangement`).
-/

namespace Bindery
namespace Objects

/-! ## Requests -/

/-- A way to order the rows of an index anew. -/
structure Arrangement where
  order : List (UInt64 × Nat) → List (UInt64 × Nat)
  perm : ∀ rows, (order rows).Perm rows

/-- What can be done with an object, however it is kept. -/
class ObjectLike (μ : Type) where
  find? : μ → String → Option Node
  contains : μ → String → Bool
  getIndex? : μ → Nat → Option (String × Node)
  size : μ → Nat
  toList : μ → List (String × Node)
  insert : μ → String → Node → Option Node × μ
  erase : μ → String → Option Node × μ
  modify : μ → String → (Node → Node) → Bool × μ
  insertAll : μ → List (String × Node) → μ
  clear : μ → μ
  rearrange : μ → Arrangement → μ

instance : ObjectLike (HashedEntries Node) where
  find? := HashedEntries.find?
  contains := HashedEntries.contains
  getIndex? := HashedEntries.getIndex?
  size := HashedEntries.size
  toList := HashedEntries.toList
  insert := HashedEntries.insert
  erase := HashedEntries.erase
  modify := HashedEntries.modify
  insertAll := HashedEntries.insertAll
  clear := HashedEntries.clear
  rearrange m a := { m with index := a.order m.index }

/-- A value goes where its key is or at the end, and the other entries stay in order. -/
instance : ObjectLike (Entries Node) where
  find? := Entries.find?
  contains := Entries.contains
  getIndex? es i := es[i]?
  size := List.length
  toList es := es
  insert es key n := (Entries.find? es key, Entries.insert es key n)
  erase es key := (Entries.find? es key, Entries.erase es key)
  modify es key f := (Entries.contains es key, Entries.modify es key f)
  insertAll := Entries.insertAll
  clear _ := []
  rearrange es _ := es

/-- A request to one object. -/
inductive Request
  | find (key : String)
  | contains (key : String)
  | getIndex (i : Nat)
  | size
  | toList
  | insert (key : String) (n : Node)
  | erase (key : String)
  | modify (key : String) (f : Node → Node)
  | insertAll (more : List (String × Node))
  | clear
  | rearrange (a : Arrangement)

/-- What is answered. -/
inductive Answer
  | node (n : Option Node)
  | flag (b : Bool)
  | entry (e : Option (String × Node))
  | size (n : Nat)
  | entries (es : List (String × Node))
  | done
  | noObject

section Act
variable {μ : Type} [ObjectLike μ]

/-- Answers a request, and leaves the object changed. -/
def act (m : μ) : Request → Answer × μ
  | .find key => (.node (ObjectLike.find? m key), m)
  | .contains key => (.flag (ObjectLike.contains m key), m)
  | .getIndex i => (.entry (ObjectLike.getIndex? m i), m)
  | .size => (.size (ObjectLike.size m), m)
  | .toList => (.entries (ObjectLike.toList m), m)
  | .insert key n => (.node (ObjectLike.insert m key n).1, (ObjectLike.insert m key n).2)
  | .erase key => (.node (ObjectLike.erase m key).1, (ObjectLike.erase m key).2)
  | .modify key f => (.flag (ObjectLike.modify m key f).1, (ObjectLike.modify m key f).2)
  | .insertAll more => (.done, ObjectLike.insertAll m more)
  | .clear => (.done, ObjectLike.clear m)
  | .rearrange a => (.done, ObjectLike.rearrange m a)

/-- A call on the objects at hand, by their numbers. -/
inductive Call
  | on (i : Nat) (request : Request)
  | clone (i : Nat)
  | equal (i j : Nat)

/-- Answers a call. A copy is put behind the objects at hand. -/
def respond (objects : List μ) : Call → Answer × List μ
  | .on i request =>
    match objects[i]? with
    | some m => ((act m request).1, objects.set i (act m request).2)
    | none => (.noObject, objects)
  | .clone i =>
    match objects[i]? with
    | some m => (.done, objects ++ [m])
    | none => (.noObject, objects)
  | .equal i j =>
    match objects[i]?, objects[j]? with
    | some m, some m' => (.flag (Node.entriesEq (ObjectLike.toList m) (ObjectLike.toList m')), objects)
    | _, _ => (.noObject, objects)

/-- Answers calls in turn. -/
def answers : List Call → List μ → List Answer × List μ
  | [], objects => ([], objects)
  | call :: calls, objects =>
    let (answer, objects) := respond objects call
    let (rest, objects) := answers calls objects
    (answer :: rest, objects)

end Act

/-! ## One request -/

variable {m : HashedEntries Node} {hash : String → UInt64}

/-- Hashed entries answer as their plain entries, which change alike. -/
theorem act_toList (h : m.Indexed) (request : Request) :
    act (m.toList : Entries Node) request = ((act m request).1, (act m request).2.toList) := by
  cases request with
  | find key => simp [act, ObjectLike.find?, h.find?_eq]
  | contains key => simp [act, ObjectLike.contains, h.contains_eq]
  | getIndex i => simp [act, ObjectLike.getIndex?, HashedEntries.getIndex?, HashedEntries.toList]
  | size => simp [act, ObjectLike.size, HashedEntries.size, HashedEntries.toList]
  | toList => rfl
  | insert key n => simp [act, ObjectLike.insert, h.toList_insert, h.insert_answer]
  | erase key => simp [act, ObjectLike.erase, h.toList_erase, h.erase_answer]
  | modify key f => simp [act, ObjectLike.modify, h.toList_modify, h.modify_answer]
  | insertAll more => simp [act, ObjectLike.insertAll, (h.insertAll more).2]
  | clear => rfl
  | rearrange a => rfl

theorem act_indexed (h : m.Indexed) (request : Request) : (act m request).2.Indexed := by
  cases request with
  | find | contains | getIndex | size | toList => exact h
  | insert key n => exact h.insert key n
  | erase key => exact h.erase key
  | modify key f => exact h.modify key f
  | insertAll more => exact (h.insertAll more).1
  | clear => exact HashedEntries.empty_indexed _
  | rearrange a => exact ⟨(a.perm m.index).trans h.index, h.nodup⟩

theorem act_hash (m : HashedEntries Node) (request : Request) : (act m request).2.hash = m.hash := by
  cases request with
  | find | contains | getIndex | size | toList | clear | rearrange => rfl
  | insert key n => exact m.hash_insert key n
  | erase key => exact m.hash_erase key
  | modify key f => exact m.hash_modify key f
  | insertAll more => exact m.hash_insertAll more

/-! ## Calls in turn -/

/-- The object has a hash function, and an index by it. -/
def Keeps (hash : String → UInt64) (m : HashedEntries Node) : Prop := m.hash = hash ∧ m.Indexed

/-- The plain entries of objects. -/
abbrev lists (objects : List (HashedEntries Node)) : List (Entries Node) := objects.map HashedEntries.toList

theorem respond_lists {objects : List (HashedEntries Node)} (h : ∀ m ∈ objects, Keeps hash m) (call : Call) :
    respond (lists objects) call = ((respond objects call).1, lists (respond objects call).2) := by
  cases call with
  | on i request =>
    cases hm : objects[i]? with
    | none => simp [respond, hm]
    | some m =>
      have hact := act_toList (h m (List.mem_of_getElem? hm)).2 request
      simp [respond, hm, hact, List.map_set]
  | clone i => cases hm : objects[i]? <;> simp [respond, hm]
  | equal i j =>
    cases hm : objects[i]? <;> cases hm' : objects[j]? <;> simp [respond, hm, hm', ObjectLike.toList]

theorem respond_keeps {objects : List (HashedEntries Node)} (h : ∀ m ∈ objects, Keeps hash m) (call : Call) :
    ∀ m ∈ (respond objects call).2, Keeps hash m := by
  cases call with
  | on i request =>
    cases hm : objects[i]? with
    | none => simpa [respond, hm] using h
    | some m =>
      obtain ⟨hhash, hindexed⟩ := h m (List.mem_of_getElem? hm)
      intro m' hm'
      simp only [respond, hm] at hm'
      rcases List.mem_or_eq_of_mem_set hm' with hm' | rfl
      · exact h m' hm'
      · exact ⟨(act_hash m request).trans hhash, act_indexed hindexed request⟩
  | clone i =>
    cases hm : objects[i]? with
    | none => simpa [respond, hm] using h
    | some m =>
      intro m' hm'
      simp only [respond, hm] at hm'
      rcases List.mem_append.1 hm' with hm' | hm'
      · exact h m' hm'
      · rw [List.mem_singleton.1 hm']
        exact h m (List.mem_of_getElem? hm)
  | equal i j => cases hm : objects[i]? <;> cases hm' : objects[j]? <;> simpa [respond, hm, hm'] using h

theorem answers_lists {objects : List (HashedEntries Node)} (h : ∀ m ∈ objects, Keeps hash m) (calls : List Call) :
    answers calls (lists objects) = ((answers calls objects).1, lists (answers calls objects).2) ∧
      ∀ m ∈ (answers calls objects).2, Keeps hash m := by
  induction calls generalizing objects with
  | nil => exact ⟨rfl, h⟩
  | cons call calls ih =>
    obtain ⟨hlists, hkeeps⟩ := ih (respond_keeps h call)
    refine ⟨?_, hkeeps⟩
    simp only [answers, respond_lists h call, hlists]

end Objects

open Objects in
/-- Whatever the hash function, and whatever calls are made on an object that was empty and on copies of it: the answers
are those of plain entries, the objects hold the entries that those end with, and each has an index of each position
once, under the hash of the key there, and of nothing else, and no key twice. -/
theorem objects_answer_alike (hash : String → UInt64) (calls : List Call) :
    let (hashed, objects) := answers calls [(HashedEntries.empty hash : HashedEntries Node)]
    let (plain, lists) := answers calls [([] : Entries Node)]
    hashed = plain ∧ objects.map HashedEntries.toList = lists ∧ ∀ m ∈ objects, m.hash = hash ∧ m.Indexed := by
  have hempty : ∀ m ∈ [(HashedEntries.empty hash : HashedEntries Node)], Keeps hash m := by
    intro m hm
    rw [List.mem_singleton.1 hm]
    exact ⟨rfl, HashedEntries.empty_indexed hash⟩
  obtain ⟨hanswers, hkeeps⟩ := answers_lists hempty calls
  have hlists : lists [(HashedEntries.empty hash : HashedEntries Node)] = [[]] := rfl
  rw [hlists] at hanswers
  refine ⟨?_, ?_, hkeeps⟩
  · rw [hanswers]
  · rw [hanswers]

-- All keys have one hash, and one that stands in the middle goes.
example : (Objects.answers [.on 0 (.insertAll [("a", .null), ("b", .bool true), ("c", .null)]), .clone 0,
    .on 0 (.erase "b"), .on 0 (.getIndex 1), .equal 0 1] [(HashedEntries.empty fun _ => 0 : HashedEntries Node)]).1 =
    [.done, .done, .node (some (.bool true)), .entry (some ("c", .null)), .flag false] := by cbv

end Bindery
