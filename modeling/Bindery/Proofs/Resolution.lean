import Bindery.Catalogue.Model
import Bindery.Proofs.Keys
/-!
# Keys under clashing names

Names and aliases may repeat, and an alias of one position may be the name of another. `Names.Resolves` says what a
key stands for all the same: the last position of that name, and the last position that lists it as an alias only if
no position has the name. The tables of a record's fields and of a constructor's arguments both resolve keys so
(`keys_resolve`).
-/

namespace Bindery

namespace Names

/-- `i` is the last position of the list at which `p` holds. -/
structure LastAt (p : Names → Prop) (all : List Names) (i : Nat) : Prop where
  holds : ∃ n, all[i]? = some n ∧ p n
  last : ∀ {j : Nat} {n : Names}, all[j]? = some n → p n → j ≤ i

/-- What a key stands for in a list of names and aliases. -/
inductive Resolves (all : List Names) (key : String) : Option Nat → Prop
  /-- The last position of that name. -/
  | byName {i : Nat} (h : LastAt (·.name = key) all i) : Resolves all key (some i)
  /-- The last position that lists it as an alias, if it is no name. -/
  | byAlias {i : Nat} (hname : ∀ n ∈ all, n.name ≠ key) (h : LastAt (key ∈ ·.aliases) all i) :
    Resolves all key (some i)
  | nothing (h : ∀ n ∈ all, ¬ n.GoesBy key) : Resolves all key none

/-! ## Last positions -/

namespace LastAt

variable {p : Names → Prop} {all : List Names} {n : Names} {i j : Nat}

theorem unique (hi : LastAt p all i) (hj : LastAt p all j) : i = j := by
  obtain ⟨n, hn, hp⟩ := hi.holds
  obtain ⟨m, hm, hq⟩ := hj.holds
  exact Nat.le_antisymm (hj.last hn hp) (hi.last hm hq)

theorem exists_mem (h : LastAt p all i) : ∃ n ∈ all, p n := by
  obtain ⟨n, hn, hp⟩ := h.holds
  exact ⟨n, List.mem_of_getElem? hn, hp⟩

theorem lt_length (h : LastAt p all i) : i < all.length := by
  obtain ⟨n, hn, -⟩ := h.holds
  exact (List.getElem?_eq_some_iff.1 hn).1

/-- A position that is added at the end is the last one if `p` holds there. -/
theorem concat (hp : p n) : LastAt p (all ++ [n]) all.length := by
  refine ⟨⟨n, by simp, hp⟩, fun {j m} hm _ => ?_⟩
  have hlt := (List.getElem?_eq_some_iff.1 hm).1
  rw [List.length_append, List.length_singleton] at hlt
  omega

/-- A position that is added at the end makes no difference if `p` does not hold there. -/
theorem concat_iff (hp : ¬ p n) : LastAt p (all ++ [n]) i ↔ LastAt p all i := by
  have hget : ∀ {j : Nat} {m : Names}, p m → ((all ++ [n])[j]? = some m ↔ all[j]? = some m) := by
    intro j m hm
    rcases Nat.lt_trichotomy j all.length with hj | rfl | hj
    · rw [List.getElem?_append_left hj]
    · have hne : n ≠ m := fun heq => hp (heq ▸ hm)
      simp [hne]
    · have hout : (all ++ [n]).length ≤ j := by
        rw [List.length_append, List.length_singleton]
        exact hj
      rw [List.getElem?_eq_none hout, List.getElem?_eq_none (Nat.le_of_lt hj)]
  constructor
  · rintro ⟨⟨m, hm, hpm⟩, hlast⟩
    exact ⟨⟨m, (hget hpm).1 hm, hpm⟩, fun hj hpj => hlast ((hget hpj).2 hj) hpj⟩
  · rintro ⟨⟨m, hm, hpm⟩, hlast⟩
    exact ⟨⟨m, (hget hpm).2 hm, hpm⟩, fun hj hpj => hlast ((hget hpj).1 hj) hpj⟩

end LastAt

/-- A look-up in which each position at which `p` holds takes over those before it finds the last one. -/
theorem lastAt_iff {p : Names → Prop} [DecidablePred p] (find : List Names → Option Nat) (hnil : find [] = none)
    (hconcat : ∀ all n, find (all ++ [n]) = if p n then some all.length else find all) (all : List Names) (i : Nat) :
    find all = some i ↔ LastAt p all i := by
  induction all using List.reverseRecOn with
  | nil =>
    rw [hnil]
    constructor
    · intro h
      cases h
    · intro h
      exact absurd h.lt_length (Nat.not_lt_zero i)
  | append_singleton all n ih =>
    rw [hconcat]
    by_cases hp : p n
    · rw [if_pos hp, Option.some_inj]
      constructor
      · rintro rfl
        exact .concat hp
      · exact LastAt.unique (.concat hp)
    · rw [if_neg hp, ih, LastAt.concat_iff hp]

/-- A key stands for one thing. -/
theorem Resolves.unique {all : List Names} {key : String} {x y : Option Nat} (hx : Resolves all key x)
    (hy : Resolves all key y) : x = y := by
  cases hx with
  | byName hi =>
    obtain ⟨n, hn, hkey⟩ := hi.exists_mem
    cases hy with
    | byName hj => rw [hi.unique hj]
    | byAlias hname => exact absurd hkey (hname n hn)
    | nothing h => exact absurd (.inl hkey) (h n hn)
  | byAlias hname hi =>
    obtain ⟨n, hn, hkey⟩ := hi.exists_mem
    cases hy with
    | byName hj =>
      obtain ⟨m, hm, hkey'⟩ := hj.exists_mem
      exact absurd hkey' (hname m hm)
    | byAlias _ hj => rw [hi.unique hj]
    | nothing h => exact absurd (.inr hkey) (h n hn)
  | nothing h =>
    cases hy with
    | byName hj =>
      obtain ⟨n, hn, hkey⟩ := hj.exists_mem
      exact absurd (.inl hkey) (h n hn)
    | byAlias _ hj =>
      obtain ⟨n, hn, hkey⟩ := hj.exists_mem
      exact absurd (.inr hkey) (h n hn)
    | nothing => rfl

end Names

/-! ## Key tables -/

namespace KeyTable

variable (all : List Names) (key : String)

theorem names_eq_some_iff (i : Nat) :
    Entries.find? (ofNames all).names key = some i ↔ Names.LastAt (·.name = key) all i := by
  refine Names.lastAt_iff (fun all => Entries.find? (ofNames all).names key) rfl (fun all n => ?_) all i
  rw [ofNames_concat, find?_names_enter]

theorem aliases_eq_some_iff (i : Nat) :
    Entries.find? (ofNames all).aliases key = some i ↔ Names.LastAt (key ∈ ·.aliases) all i := by
  refine Names.lastAt_iff (fun all => Entries.find? (ofNames all).aliases key) rfl (fun all n => ?_) all i
  rw [ofNames_concat, find?_aliases_enter]

/-- A table finds what the key stands for. -/
theorem find?_resolves : Names.Resolves all key ((ofNames all).find? key) := by
  unfold find?
  cases hname : Entries.find? (ofNames all).names key with
  | some i => exact .byName ((names_eq_some_iff all key i).1 hname)
  | none =>
    rw [Option.none_or]
    have hnames := (names_none_iff all key).1 hname
    cases halias : Entries.find? (ofNames all).aliases key with
    | some i => exact .byAlias hnames ((aliases_eq_some_iff all key i).1 halias)
    | none =>
      refine .nothing fun n hn => ?_
      rintro (hkey | hkey)
      · exact hnames n hn hkey
      · exact (aliases_none_iff all key).1 halias n hn hkey

theorem find?_eq_iff (x : Option Nat) : (ofNames all).find? key = x ↔ Names.Resolves all key x := by
  constructor
  · rintro rfl
    exact find?_resolves all key
  · exact (find?_resolves all key).unique

end KeyTable

theorem Record.field?_of_fieldIndex? {r : Record} {key : String} {i : Nat} (h : r.fieldIndex? key = some i) :
    ∃ f, r.fields[i]? = some f ∧ r.field? key = some f := by
  obtain ⟨f, hf, -⟩ := Record.fieldIndex?_goesBy h
  exact ⟨f, hf, by rw [Record.field?, h, Option.bind_some, hf]⟩

/-- Whatever names and aliases the fields of a record and the arguments of a constructor have, and however they
clash, both tables resolve every key alike: to the last position of that name, else to the last position that lists it
as an alias, else to nothing; and there is a field at the position that is found. So if their names are pairwise
different, each field and each argument is found under its own name, whatever aliases the others have. -/
theorem keys_resolve (r : Record) (creator : Creator) :
    (∀ key x, r.fieldIndex? key = x ↔ Names.Resolves (r.fields.map (·.toNames)) key x) ∧
    (∀ key x, creator.argIndex? key = x ↔ Names.Resolves (creator.args.map (·.toNames)) key x) ∧
    (∀ key i, r.fieldIndex? key = some i → ∃ f, r.fields[i]? = some f ∧ r.field? key = some f) ∧
    ((r.fields.map (·.name)).Nodup → ∀ i f, r.fields[i]? = some f →
      r.fieldIndex? f.name = some i ∧ r.field? f.name = some f) ∧
    ((creator.args.map (·.name)).Nodup → ∀ i arg, creator.args[i]? = some arg →
      creator.argIndex? arg.name = some i) := by
  refine ⟨fun key x => KeyTable.find?_eq_iff _ key x, fun key x => KeyTable.find?_eq_iff _ key x,
    fun key i => Record.field?_of_fieldIndex?, fun hdistinct i f hf => ?_,
    fun hdistinct i arg harg => Creator.argIndex?_name hdistinct harg⟩
  have hindex := Record.fieldIndex?_name hdistinct hf
  obtain ⟨g, hg, hfield⟩ := Record.field?_of_fieldIndex? hindex
  rw [hf] at hg
  cases hg
  exact ⟨hindex, hfield⟩

/-- Three fields of different names, of which each is an alias or has one in common with another, and the two
arguments of a range. -/
theorem keys_resolve_clash :
    let r := Catalogue.clash
    let creator := Catalogue.range.creator.get rfl
    ((r.fields.map (·.name)).Nodup ∧ (creator.args.map (·.name)).Nodup) ∧
    Names.Resolves (r.fields.map (·.toNames)) "b" (some 1) ∧ Names.Resolves (r.fields.map (·.toNames)) "x" (some 1) ∧
    Names.Resolves (r.fields.map (·.toNames)) "z" none ∧
    Names.Resolves (creator.args.map (·.toNames)) "max" (some 1) ∧
    (r.fieldIndex? "a" = some 0 ∧ (r.field? "a").map (·.cell) = some 0) ∧ creator.argIndex? "lo" = some 0 := by
  intro r creator
  have hnames : (r.fields.map (·.name)).Nodup := by decide
  have hargs : (creator.args.map (·.name)).Nodup := by decide
  obtain ⟨hfield, hargument, -, hfieldName, hargumentName⟩ := keys_resolve r creator
  obtain ⟨hindex, hfound⟩ := hfieldName hnames 0 (Catalogue.settable "Clash" 0 "a" Catalogue.i32 ["b", "x"]) rfl
  refine ⟨⟨hnames, hargs⟩, (hfield "b" _).1 (by decide), (hfield "x" _).1 (by decide), (hfield "z" _).1 (by decide),
    (hargument "max" _).1 (by decide), ⟨hindex, ?_⟩,
    hargumentName hargs 0 (Catalogue.arg "lo" Catalogue.i32 ["from", "min"]) rfl⟩
  exact congrArg (Option.map (·.cell)) hfound

end Bindery
