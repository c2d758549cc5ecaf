import Bindery.Catalogue.Model
import Bindery.Proofs.Runs
/-!
# The last write wins

A record whose instance is there from the start is written to member by member. If its accessors are independent,
each member touches one place: the field its key stands for, or the side object. So in the end a field that can be
assigned shows the value of the last member for it that is no absent null, every other field shows what it showed
before, and the side object is the members that no field has, each key once, where it came first and with the value
that came last (`last_write_wins`).
-/

namespace Bindery

/-! ## Independent accessors -/

/-- The instances that come of one by assigning fields. -/
inductive Record.Assigned (r : Record) (initial : Value) : Value → Prop
  | initial : Assigned r initial initial
  | assign {v w v' : Value} {f : Field} (h : Assigned r initial v) (hf : f ∈ r.fields)
    (hset : f.set v w = .ok (true, v')) : Assigned r initial v'

/-- A setter changes what its own getter shows, to the value set, and no other field and no side object. -/
structure Record.Independent (r : Record) (initial : Value) : Prop where
  own : ∀ {v w v' : Value} {f : Field}, r.Assigned initial v → f ∈ r.fields → f.set v w = .ok (true, v') →
    f.get? v' = some w
  others : ∀ {v w v' : Value} {i j : Nat} {f g : Field}, r.Assigned initial v → r.fields[i]? = some f →
    r.fields[j]? = some g → i ≠ j → f.set v w = .ok (true, v') → g.get? v' = g.get? v
  side : ∀ {v w v' : Value} {f : Field} {h : Hybrid}, r.Assigned initial v → f ∈ r.fields → r.hybrid = some h →
    f.set v w = .ok (true, v') → h.side? v' = h.side? v

/-- Installing a side object leaves the fields alone, and shows what was installed. -/
structure Hybrid.Independent (h : Hybrid) (r : Record) : Prop where
  own : ∀ {v v' : Value} {side : List (String × Node)}, h.install v side = .ok v' → h.side? v' = some side
  fields : ∀ {v v' : Value} {side : List (String × Node)} {f : Field}, f ∈ r.fields → h.install v side = .ok v' →
    f.get? v' = f.get? v

namespace Field

variable {f : Field} {v w v' : Value} {assigned : Bool} {owner : String} {cells : List Value}
  {side : List (String × Node)}

/-- Only a field that can be assigned is, and any other leaves the instance as it is. -/
theorem set_cases (h : f.set v w = .ok (assigned, v')) :
    (f.hasSetter ∧ assigned = true) ∨ (f.hasSetter = false ∧ v' = v) := by
  unfold set at h
  unfold hasSetter
  split at h
  · next hstore =>
    cases h
    exact .inr ⟨by rw [hstore]; rfl, rfl⟩
  · next store hstore =>
    left
    refine ⟨by rw [hstore]; rfl, ?_⟩
    split at h
    · cases h
    · obtain ⟨u, -, hu⟩ := bind_eq_ok h
      cases hu
      rfl

theorem set_store {store : Instance → Value → Instance} (hstore : f.store = some store)
    (h : f.set v w = .ok (assigned, v')) :
    ∃ i, Instance.ofValue? f.owner v = some i ∧ v' = (store i w).toValue f.owner := by
  unfold set at h
  rw [hstore] at h
  dsimp only at h
  split at h
  · cases h
  · next i hi =>
    unfold Value.ofType at h
    split at h
    · cases h
      exact ⟨i, hi, rfl⟩
    · cases h

theorem get?_record (howner : f.owner = owner) : f.get? (.record owner cells side) = cells[f.cell]? := by
  unfold get?
  rw [howner, Instance.ofValue?, if_pos rfl]
  rfl

/-- A setter that replaces a cell. -/
theorem set_record (howner : f.owner = owner)
    (hstore : ∀ store, f.store = some store → ∀ i v, store i v = i.setCell f.cell v)
    (h : f.set (.record owner cells side) w = .ok (true, v')) : v' = .record owner (cells.set f.cell w) side := by
  cases hs : f.store with
  | none =>
    unfold set at h
    rw [hs] at h
    cases h
  | some store =>
    obtain ⟨i, hi, rfl⟩ := set_store hs h
    rw [howner, Instance.ofValue?, if_pos rfl] at hi
    cases hi
    rw [hstore store hs, howner]
    rfl

end Field

namespace Record

/-- Fields that have a cell each, which their setters replace, are independent. -/
theorem independent_of_cells {r : Record} {owner : String} {cells : List Value} {side : List (String × Node)}
    (howner : ∀ f ∈ r.fields, f.owner = owner) (hcell : ∀ f ∈ r.fields, f.cell < cells.length)
    (hstore : ∀ f ∈ r.fields, ∀ store, f.store = some store → ∀ i v, store i v = i.setCell f.cell v)
    (hcells : (r.fields.map (·.cell)).Nodup) : r.Independent (.record owner cells side) := by
  have hset : ∀ {f w v' cells'}, f ∈ r.fields → f.set (.record owner cells' side) w = .ok (true, v') →
      v' = .record owner (cells'.set f.cell w) side := fun hf => Field.set_record (howner _ hf) (hstore _ hf)
  have hassigned : ∀ {v}, r.Assigned (.record owner cells side) v →
      ∃ cells', v = .record owner cells' side ∧ cells'.length = cells.length := by
    intro v hv
    induction hv with
    | initial => exact ⟨cells, rfl, rfl⟩
    | assign _ hf h ih =>
      obtain ⟨cells', rfl, hlen⟩ := ih
      exact ⟨_, hset hf h, by rw [List.length_set, hlen]⟩
  constructor
  · intro v w v' f hv hf h
    obtain ⟨cells', rfl, hlen⟩ := hassigned hv
    rw [hset hf h, Field.get?_record (howner f hf), List.getElem?_set_self (by rw [hlen]; exact hcell f hf)]
  · intro v w v' i j f g hv hi hj hij h
    obtain ⟨cells', rfl, -⟩ := hassigned hv
    have hf := List.mem_of_getElem? hi
    have hg := List.mem_of_getElem? hj
    have hne : f.cell ≠ g.cell := by
      intro heq
      have hlt : i < (r.fields.map (·.cell)).length := by
        rw [List.length_map]
        exact (List.getElem?_eq_some_iff.1 hi).1
      exact hij ((List.getElem?_inj hlt hcells).1 (by simp [hi, hj, heq]))
    rw [hset hf h, Field.get?_record (howner g hg), Field.get?_record (howner g hg), List.getElem?_set_ne hne]
  · intro v w v' f h hv hf _ hassign
    obtain ⟨cells', rfl, -⟩ := hassigned hv
    rw [hset hf hassign]
    by_cases hname : owner = h.owner <;> simp [Hybrid.side?, Instance.ofValue?, hname]

/-! ## The last member for a field -/

/-- The last member whose key stands for a field and that is no absent null. -/
def lastFor (c : Context) (r : Record) (i : Nat) (f : Field) (ms : List Member) : Option Member :=
  ms.reverse.find? fun m => r.fieldIndex? m.1 = some i ∧ !Decode.isAbsent c f.type m.2

/-- The instance shows, field by field, what was written last, and otherwise what it showed at first. -/
structure LastWritten (c : Context) (r : Record) (place : Place) (initial : Value) (ms : List Member) (made : Value) :
    Prop where
  written : ∀ {i : Nat} {f : Field} {m : Member}, r.fields[i]? = some f → f.hasSetter → r.lastFor c i f ms = some m →
    ∃ w, Decode.ofRun c f.type (place.member r.name m.1) m.2 = .ok w ∧ f.get? made = some w
  kept : ∀ {i : Nat} {f : Field}, r.fields[i]? = some f → f.hasSetter = false ∨ r.lastFor c i f ms = none →
    f.get? made = f.get? initial
  side : ∀ {h : Hybrid}, r.hybrid = some h → h.side? made = h.side? initial

/-- The entries are the documents of members, in order. -/
abbrev Documents (ms : List Member) (es : List (String × Node)) : Prop :=
  List.Forall₂ (fun m e => e.1 = m.1 ∧ Denotes m.2 e.2) ms es

variable {c : Context} {r : Record} {creator : Creator} {place : Place}

theorem lastFor_concat (i : Nat) (f : Field) (ms : List Member) (m : Member) :
    r.lastFor c i f (ms ++ [m]) =
      if r.fieldIndex? m.1 = some i ∧ Decode.isAbsent c f.type m.2 = false then some m else r.lastFor c i f ms := by
  unfold lastFor
  rw [List.reverse_concat, List.find?_cons]
  by_cases h : r.fieldIndex? m.1 = some i ∧ Decode.isAbsent c f.type m.2 = false
  · simp [h]
  · rw [if_neg h]
    simp only [Bool.not_eq_true', h, decide_false]

theorem fieldOf_none_iff {key : String} : r.fieldOf key = none ↔ r.fieldIndex? key = none := by
  unfold fieldOf
  cases hi : r.fieldIndex? key with
  | none => simp
  | some i =>
    obtain ⟨f, hf, -⟩ := fieldIndex?_goesBy hi
    simp [hf]

/-! ## One member -/

theorem take_field {i : Nat} {f : Field} (hf : r.fields[i]? = some f) (v w : Value) (side : List (String × Node)) :
    r.take creator (.constructed v, side) (.field i w) = (f.set v w).map fun p => (.constructed p.2, side) := by
  simp only [take, Assembly.putField, Assembly.assign, hf, Making.outcome_bind, Making.outcome_does,
    Making.outcome_lift, Making.outcome_pure, ok_bind, bind_assoc]
  cases f.set v w <;> rfl

/-- What a member does once the instance is there: nothing, an assignment, or an entry of the side object. -/
theorem step_constructed {v : Value} {side : List (String × Node)} {m : Member}
    {state : Assembly × List (String × Node)} (h : r.step c creator place (.constructed v, side) m = .ok state) :
    (∃ i f, r.fieldOf m.1 = some (i, f) ∧ Decode.isAbsent c f.type m.2 = true ∧ state = (.constructed v, side)) ∨
    (∃ i f w assigned v', r.fieldOf m.1 = some (i, f) ∧ Decode.isAbsent c f.type m.2 = false ∧
      Decode.ofRun c f.type (place.member r.name m.1) m.2 = .ok w ∧ f.set v w = .ok (assigned, v') ∧
      state = (.constructed v', side)) ∨
    (r.fieldOf m.1 = none ∧ r.hybrid.isSome ∧ ∃ n, Decode.nodeOfRun (place.member r.name m.1) m.2 = .ok n ∧
      state = (.constructed v, Entries.insert side m.1 n)) ∨
    (r.fieldOf m.1 = none ∧ r.hybrid = none ∧ state = (.constructed v, side)) := by
  obtain ⟨b, hb, htake⟩ := bind_eq_ok h
  replace htake := mapError_eq_ok htake
  rw [route_of_no_argument (show (Assembly.constructed v).argument? creator m.1 = none from rfl)] at hb
  cases hfield : r.fieldOf m.1 with
  | some p =>
    obtain ⟨i, f⟩ := p
    rw [hfield] at hb
    rcases stored_ok hb with ⟨habsent, rfl⟩ | ⟨hpresent, w, hw, rfl⟩
    · cases htake
      exact .inl ⟨i, f, rfl, habsent, rfl⟩
    · rw [take_field (fieldIndex?_of_fieldOf hfield).2] at htake
      cases hset : f.set v w with
      | error e =>
        rw [hset] at htake
        cases htake
      | ok p =>
        rw [hset] at htake
        cases htake
        exact .inr (.inl ⟨i, f, w, p.1, p.2, rfl, hpresent, hw, hset, rfl⟩)
  | none =>
    rw [hfield] at hb
    rcases elsewhere_ok hb with ⟨hhybrid, n, hn, rfl⟩ | ⟨hplain, rfl⟩
    · cases htake
      exact .inr (.inr (.inl ⟨rfl, hhybrid, n, hn, rfl⟩))
    · cases htake
      exact .inr (.inr (.inr ⟨rfl, hplain, rfl⟩))

/-- An assignment shows under the field itself, and nowhere else. -/
theorem Independent.get?_of_set {initial v w v' : Value} {assigned : Bool} (h : r.Independent initial)
    (hv : r.Assigned initial v) {i j : Nat} {f g : Field} (hf : r.fields[i]? = some f) (hg : r.fields[j]? = some g)
    (hset : f.set v w = .ok (assigned, v')) :
    g.get? v' = if i = j ∧ g.hasSetter then some w else g.get? v := by
  rcases Field.set_cases hset with ⟨hsetter, rfl⟩ | ⟨hsetter, rfl⟩
  · by_cases hij : i = j
    · subst hij
      rw [hf] at hg
      cases hg
      rw [if_pos ⟨rfl, hsetter⟩]
      exact h.own hv (List.mem_of_getElem? hf) hset
    · rw [if_neg fun hboth => hij hboth.1]
      exact h.others hv hf hg hij hset
  · rw [if_neg]
    rintro ⟨rfl, hsome⟩
    rw [hf] at hg
    cases hg
    rw [hsetter] at hsome
    cases hsome

/-- A member that assigns nothing leaves what was written last as it is. -/
theorem LastWritten.pass {initial made : Value} {ms : List Member} {m : Member}
    (h : r.LastWritten c place initial ms made)
    (hm : ∀ i f, r.fieldOf m.1 = some (i, f) → Decode.isAbsent c f.type m.2 = true) :
    r.LastWritten c place initial (ms ++ [m]) made := by
  have hlast : ∀ {i f}, r.fields[i]? = some f → r.lastFor c i f (ms ++ [m]) = r.lastFor c i f ms := by
    intro i f hf
    rw [lastFor_concat, if_neg]
    rintro ⟨hindex, hpresent⟩
    rw [hm i f (by simp [fieldOf, hindex, hf])] at hpresent
    cases hpresent
  constructor
  · intro i f m' hf hsetter hlast'
    exact h.written hf hsetter ((hlast hf).symm.trans hlast')
  · intro i f hf hkept
    exact h.kept hf (hkept.imp id (hlast hf).symm.trans)
  · exact h.side

/-- A member that is assigned is the last one for its field. -/
theorem LastWritten.assign {initial made w made' : Value} {assigned : Bool} {ms : List Member} {m : Member} {i : Nat}
    {f : Field} (hindependent : r.Independent initial) (hmade : r.Assigned initial made)
    (h : r.LastWritten c place initial ms made) (hm : r.fieldOf m.1 = some (i, f))
    (hpresent : Decode.isAbsent c f.type m.2 = false)
    (hread : Decode.ofRun c f.type (place.member r.name m.1) m.2 = .ok w)
    (hset : f.set made w = .ok (assigned, made')) :
    r.LastWritten c place initial (ms ++ [m]) made' := by
  obtain ⟨hindex, hf⟩ := fieldIndex?_of_fieldOf hm
  have hlast : ∀ {j g}, r.fields[j]? = some g →
      r.lastFor c j g (ms ++ [m]) = if i = j then some m else r.lastFor c j g ms := by
    intro j g hg
    rw [lastFor_concat, hindex]
    by_cases hij : i = j
    · subst hij
      rw [hf] at hg
      cases hg
      rw [if_pos ⟨rfl, hpresent⟩, if_pos rfl]
    · rw [if_neg fun hboth => hij (Option.some.inj hboth.1), if_neg hij]
  constructor
  · intro j g m' hg hsetter hlast'
    rw [hlast hg] at hlast'
    rw [hindependent.get?_of_set hmade hf hg hset]
    by_cases hij : i = j
    · subst hij
      rw [if_pos rfl] at hlast'
      cases hlast'
      rw [hf] at hg
      cases hg
      exact ⟨w, hread, if_pos ⟨rfl, hsetter⟩⟩
    · rw [if_neg hij] at hlast'
      rw [if_neg fun hboth => hij hboth.1]
      exact h.written hg hsetter hlast'
  · intro j g hg hkept
    rw [hlast hg] at hkept
    rw [hindependent.get?_of_set hmade hf hg hset]
    rcases hkept with hreadOnly | hnone
    · rw [if_neg (by simp [hreadOnly])]
      exact h.kept hg (.inl hreadOnly)
    · split at hnone
      · cases hnone
      · next hij =>
        rw [if_neg fun hboth => hij hboth.1]
        exact h.kept hg (.inr hnone)
  · intro hy hhybrid
    rcases Field.set_cases hset with ⟨-, rfl⟩ | ⟨-, rfl⟩
    · exact (hindependent.side hmade (List.mem_of_getElem? hf) hhybrid hset).trans (h.side hhybrid)
    · exact h.side hhybrid

/-! ## All members -/

/-- The members that no field has. -/
def unowned (r : Record) (ms : List Member) : List Member := ms.filter fun m => r.fieldIndex? m.1 = none

theorem unowned_concat (ms : List Member) (m : Member) :
    r.unowned (ms ++ [m]) = r.unowned ms ++ if r.fieldIndex? m.1 = none then [m] else [] := by
  unfold unowned
  rw [List.filter_append, List.filter_singleton]
  by_cases h : r.fieldIndex? m.1 = none <;> simp [h]

/-- After some members the instance is there and shows what was written last, and the side object holds what no field
has. -/
theorem run_eager {initial : Value} (hindependent : r.Independent initial) {ms : List Member}
    (hms : ∀ m ∈ ms, Discards 0 m.2) : ∀ {state : Assembly × List (String × Node)},
    ms.foldlM (r.step c creator place) (.constructed initial, []) = .ok state →
      ∃ made, state.1 = .constructed made ∧ r.Assigned initial made ∧ r.LastWritten c place initial ms made ∧
        (r.hybrid.isSome → ∃ others, Documents (r.unowned ms) others ∧ state.2 = Entries.ofList others) := by
  -- From the last member back: what is written last changes with the member that is appended, and with no other.
  induction ms using List.reverseRecOn with
  | nil =>
    intro state h
    cases h
    refine ⟨initial, rfl, .initial, ⟨?_, fun _ _ => rfl, fun _ => rfl⟩, fun _ => ⟨[], .nil, rfl⟩⟩
    intro i f m _ _ hnone
    cases hnone
  | append_singleton ms m ih =>
    intro state h
    obtain ⟨⟨assembly, side⟩, hbefore, h⟩ := foldlM_concat_ok h
    obtain ⟨made, hmade, hassigned, hlast, hside⟩ := ih (fun m' hm' => hms m' (by simp [hm'])) hbefore
    subst hmade
    have hkept : ∀ {i f}, r.fieldOf m.1 = some (i, f) → r.unowned (ms ++ [m]) = r.unowned ms := by
      intro i f hf
      rw [unowned_concat, if_neg (by simp [(fieldIndex?_of_fieldOf hf).1]), List.append_nil]
    -- The member is an absent null of a field, a value of a field, an entry of the side object, or is skipped.
    rcases step_constructed h with ⟨i, f, hf, habsent, rfl⟩ | ⟨i, f, w, assigned, made', hf, hpresent, hw, hset, rfl⟩ |
      ⟨hnone, hhybrid, n, hn, rfl⟩ | ⟨hnone, hplain, rfl⟩
    · refine ⟨made, rfl, hassigned, hlast.pass fun j g hg => ?_, by rwa [hkept hf]⟩
      rw [hf] at hg
      cases hg
      exact habsent
    · refine ⟨made', rfl, ?_, .assign hindependent hassigned hlast hf hpresent hw hset, by rwa [hkept hf]⟩
      rcases Field.set_cases hset with ⟨-, rfl⟩ | ⟨-, rfl⟩
      · exact hassigned.assign (List.mem_of_getElem? (fieldIndex?_of_fieldOf hf).2) hset
      · exact hassigned
    · refine ⟨made, rfl, hassigned, hlast.pass fun j g hg => ?_, fun _ => ?_⟩
      · rw [hnone] at hg
        cases hg
      · obtain ⟨others, hothers, rfl⟩ := hside hhybrid
        refine ⟨others ++ [(m.1, n)], ?_, ?_⟩
        · rw [unowned_concat, if_pos (fieldOf_none_iff.1 hnone)]
          exact List.rel_append hothers
            (.cons ⟨rfl, Decode.denotes_of_nodeOfRun hn (hms m (by simp))⟩ .nil)
        · simp [Entries.ofList, Entries.insertAll]
    · refine ⟨made, rfl, hassigned, hlast.pass fun j g hg => ?_, fun hhybrid => ?_⟩
      · rw [hnone] at hg
        cases hg
      · rw [hplain] at hhybrid
        cases hhybrid

end Record

/-- Whatever is read as a record is an object of members. When the instance is there from the start and the accessors
are independent, each field that can be assigned shows in the end the value of the last member whose key stands for it
and that is no absent null; any other field, and the side object, show what they show of the instance that was there;
and the side object that is installed holds the members that no field has, each key once, in order of first arrival,
with its last value. -/
theorem last_write_wins {σ : Type} [TokenSource σ] [SkipsRuns σ] (c : Context) {r : Record} {creator : Creator}
    (hcreator : r.creator = some creator) {initial : Value} (heager : creator.noArgs = some initial)
    (hindependent : r.Independent initial) (budget : Nat) (place : Place) :
    (∀ (s s' : σ) (v : Value),
      Decode.record c r budget (Decode.node budget) (Decode.value c budget) place s = .ok v s' →
      ∃ ms, Walks s (objectTokens ms) s' ∧ ∀ m ∈ ms, Discards 0 m.2) ∧
    ∀ (ms : List Member) (s s' s'' : σ) (v : Value), (∀ m ∈ ms, Discards 0 m.2) → Walks s (objectTokens ms) s' →
      (objectTokens ms).length ≤ budget + 1 →
      Decode.record c r budget (Decode.node budget) (Decode.value c budget) place s = .ok v s'' →
      s'' = s' ∧ ∃ made, r.LastWritten c place initial ms made ∧
        match r.hybrid with
        | none => v = made
        | some h => ∃ others, Record.Documents (r.unowned ms) others ∧
          h.install made (Entries.settled others) = .ok v ∧
          (h.Independent r → h.side? v = some (Entries.settled others) ∧ ∀ f ∈ r.fields, f.get? v = f.get? made) := by
  constructor
  · intro s s' v h
    have hvalue : ∀ t place, ConsumesValue (Decode.value c budget t place : Reading σ Value) :=
      ConsumesValue.value SkipsRuns.skip_consumes budget
    obtain ⟨_, hw, ms, rfl, hms⟩ := (consumes_record (ConsumesValue.node budget) hvalue place).ok h
    exact ⟨ms, hw, hms⟩
  · intro ms s s' s'' v hms hw hb hread
    obtain ⟨hv, rfl⟩ := (Reads.bound hms hb).ok hw hread
    refine ⟨rfl, ?_⟩
    unfold Record.bound at hv
    rw [hcreator] at hv
    simp only [Record.opening_of_made heager, ok_bind] at hv
    obtain ⟨⟨assembly, side⟩, hrun, hfinish⟩ := bind_eq_ok hv
    obtain ⟨made, hmade, -, hlast, hside⟩ := Record.run_eager hindependent hms hrun
    subst hmade
    refine ⟨made, hlast, ?_⟩
    cases hhybrid : r.hybrid with
    | none =>
      simp only [Tree.finish, Assembly.finish, Making.outcome_pure, ok_bind, hhybrid] at hfinish
      cases hfinish
      rfl
    | some h =>
      simp only [Tree.finish, Assembly.finish, Making.outcome_pure, ok_bind, hhybrid] at hfinish
      obtain ⟨others, hothers, hofList⟩ := hside (by rw [hhybrid]; rfl)
      dsimp only at hofList
      rw [hofList, Entries.ofList_eq_settled] at hfinish
      exact ⟨others, hothers, hfinish, fun h => ⟨h.own hfinish, fun f hf => h.fields hf hfinish⟩⟩

/-- A hybrid record that is given its name twice and then a null for it, which a name cannot be, and an entry of its
side object twice. -/
theorem last_write_wins_tagged :
    let c : Context := { schema := { records := [Catalogue.tagged] }, registry := {} }
    let r := Catalogue.tagged
    let initial := Catalogue.make "Tagged" [.string ""]
    let ms : List Member := [("name", [.string "a"]), ("x", [.startObject, .endObject]), ("name", [.string "b"]),
      ("y", [.null]), ("name", [.null]), ("x", [.bool true])]
    let s := TapeReader.ofTape (Tape.ofTokens (objectTokens ms))
    let v : Value := .record (Catalogue.full "Tagged") [.string "b"] [("x", .bool true), ("y", .null)]
    (r.Independent initial ∧ ∃ s', Decode.record c r 20 (Decode.node 20) (Decode.value c 20) none s = .ok v s') ∧
    ∃ made, r.LastWritten c none initial ms made ∧ ∃ others, Record.Documents (r.unowned ms) others ∧
      (Catalogue.plainHybrid "Tagged").install made (Entries.settled others) = .ok v := by
  intro c r initial ms s v
  have hindependent : r.Independent initial := by
    refine Record.independent_of_cells ?_ ?_ ?_ (by decide)
    · simp [r, Catalogue.tagged, Catalogue.defaulted, Catalogue.settable]
    · simp [r, Catalogue.tagged, Catalogue.defaulted, Catalogue.settable]
    · intro f hf store hstore
      simp only [r, Catalogue.tagged, Catalogue.defaulted, List.mem_singleton] at hf
      subst hf
      cases hstore
      exact fun _ _ => rfl
  have hms : ∀ m ∈ ms, Discards 0 m.2 := by
    simp only [ms, List.forall_mem_cons]
    exact ⟨.last rfl, .more rfl (.last rfl), .last rfl, .last rfl, .last rfl, .last rfl, by simp⟩
  obtain ⟨s', hw, -⟩ := TapeReader.walks_ofTokens (objectTokens ms)
  have hreads : Reads (Decode.record c r 20 (Decode.node 20) (Decode.value c 20) none : Reading TapeReader Value)
      (objectTokens ms) (r.bound c none ms) := Reads.bound hms (by decide)
  have hread : Decode.record c r 20 (Decode.node 20) (Decode.value c 20) none s = .ok v s' := hreads.of_ok hw rfl
  obtain ⟨-, made, hlast, others, hothers, hinstall, -⟩ :=
    (last_write_wins c (show r.creator = some _ from rfl) rfl hindependent 20 none).2 ms s s' s' v hms hw (by decide)
      hread
  exact ⟨⟨hindependent, s', hread⟩, made, hlast, others, hothers, hinstall⟩

end Bindery
