import Bindery.Proofs.Documents
import Bindery.Proofs.Sentence
/-!
# Documents laid down mark by mark

`Node.laid n here` is the document `n` as its marks, separators included, each with the steps that
lead to the value it belongs to: a bracket, a comma and a name belong to their container. Writing a
value in full lays down a document in just this way (`Encode.form_whole`), so that a mark's place can be
told from the document alone. Every sentence is the marks of some document (`Sentence.exists_marks`).
-/

namespace Bindery

/-! ## Spots -/

/-- The steps to a value in a document, if they are kept. -/
abbrev Spot := Option (List Step)

/-- The spot one step further down. -/
def Spot.child (here : Spot) (s : Step) : Spot := Option.map (· ++ [s]) here

/-- The text of some steps from the root. -/
def Path.text (steps : List Step) : String := String.ofList ('$' :: steps.flatMap Step.chars)

/-- The spot of a place: its steps, without the types of the containers. -/
def Place.spot (place : Place) : Spot := Option.map (·.map (·.step)) place

namespace Place

theorem spot_root (tracking : Bool) : (root tracking).spot = if tracking then some [] else none := by
  cases tracking <;> rfl

theorem spot_member (place : Place) (owner key : String) :
    (place.member owner key).spot = place.spot.child (.key key) := by
  cases place with
  | none => rfl
  | some path => simp [member, spot, Spot.child, Path.member]

theorem spot_item (place : Place) (owner : String) (i : Nat) :
    (place.item owner i).spot = place.spot.child (.index i) := by
  cases place with
  | none => rfl
  | some path => simp [item, spot, Spot.child, Path.item]

end Place

theorem Path.render_eq (path : List Segment) : Path.render path = Path.text (path.map (·.step)) := by
  simp [Path.render, Path.text, List.flatMap_map]

/-! ## Documents with their spots -/

namespace Node

mutual

/-- The marks of a document at a spot. -/
def laid : Node → Spot → List (Spot × Mark)
  | .array ns, here =>
    (here, .token .startArray) ::
      ([(here, .arrayComma)].intercalate (itemsLaid ns here 0) ++ [(here, .token .endArray)])
  | .object es, here =>
    (here, .token .startObject) ::
      ([(here, .objectComma)].intercalate (entriesLaid es here) ++ [(here, .token .endObject)])
  | .null, here => [(here, .token .null)]
  | .bool b, here => [(here, .token (.bool b))]
  | .number x, here => [(here, .token (.number x))]
  | .string s, here => [(here, .token (.string s))]

/-- The items of an array at a spot, counted from `i`. -/
def itemsLaid : List Node → Spot → Nat → List (List (Spot × Mark))
  | [], _, _ => []
  | n :: ns, here, i => n.laid (here.child (.index i)) :: itemsLaid ns here (i + 1)

/-- The entries of an object at a spot. -/
def entriesLaid : List (String × Node) → Spot → List (List (Spot × Mark))
  | [], _ => []
  | (k, n) :: es, here =>
    ((here, .token (.name k)) :: n.laid (here.child (.key k))) :: entriesLaid es here

end

/-- The tokens among marks that are laid down. -/
def laidTokens (ms : List (Spot × Mark)) : List Token := ms.filterMap fun m => m.2.token?

theorem laidTokens_intercalate (here : Spot) {m : Mark} (h : m.token? = none) (parts : List (List (Spot × Mark))) :
    laidTokens ([(here, m)].intercalate parts) = parts.flatMap laidTokens := by
  induction parts with
  | nil => rfl
  | cons p ps ih =>
    cases ps with
    | nil => simp [List.intercalate]
    | cons q ps =>
      rw [List.intercalate_cons_cons, List.flatMap_cons, ← ih]
      simp [laidTokens, h]

mutual

/-- What is laid down of a document are its tokens. -/
theorem laid_tokens : ∀ (n : Node) (here : Spot), laidTokens (n.laid here) = n.tokens
  | .null, _ | .bool _, _ | .number _, _ | .string _, _ => rfl
  | .array ns, here => by
    have hitems := laidTokens_intercalate here (m := .arrayComma) rfl (itemsLaid ns here 0)
    rw [itemsLaid_tokens] at hitems
    simpa [laid, tokens, laidTokens, Mark.token?] using hitems
  | .object es, here => by
    have hentries := laidTokens_intercalate here (m := .objectComma) rfl (entriesLaid es here)
    rw [entriesLaid_tokens] at hentries
    simpa [laid, tokens, laidTokens, Mark.token?] using hentries

theorem itemsLaid_tokens : ∀ (ns : List Node) (here : Spot) (i : Nat),
    (itemsLaid ns here i).flatMap laidTokens = itemTokens ns
  | [], _, _ => rfl
  | n :: ns, here, i => by
    rw [itemsLaid, List.flatMap_cons, laid_tokens, itemsLaid_tokens, itemTokens]

theorem entriesLaid_tokens : ∀ (es : List (String × Node)) (here : Spot),
    (entriesLaid es here).flatMap laidTokens = entryTokens es
  | [], _ => rfl
  | (k, n) :: es, here => by
    rw [entriesLaid, List.flatMap_cons, entriesLaid_tokens, entryTokens, ← laid_tokens n (here.child (.key k))]
    rfl

end

end Node

/-! ## Sentences -/

theorem flatMap_intercalate {α β : Type} (f : α → List β) (sep : List α) (parts : List (List α)) :
    (sep.intercalate parts).flatMap f = (sep.flatMap f).intercalate (parts.map (·.flatMap f)) := by
  induction parts with
  | nil => rfl
  | cons p ps ih =>
    cases ps with
    | nil => simp [List.intercalate]
    | cons q ps =>
      rw [List.intercalate_cons_cons, List.flatMap_append, List.flatMap_append, ih]
      simp only [List.map_cons, List.intercalate_cons_cons]

theorem map_intercalate {α β : Type} (f : α → β) (sep : List α) (parts : List (List α)) :
    (sep.intercalate parts).map f = (sep.map f).intercalate (parts.map (·.map f)) := by
  simpa only [← List.map_eq_flatMap] using flatMap_intercalate (fun a => [f a]) sep parts

namespace Node

/-- The marks that are laid down, without their spots. -/
def marks (n : Node) : List Mark := (n.laid none).map (·.2)

mutual

/-- The marks of a document do not depend on where it is laid down. -/
theorem laid_marks : ∀ (n : Node) (here : Spot), (n.laid here).map (·.2) = n.marks
  | .null, _ | .bool _, _ | .number _, _ | .string _, _ => rfl
  | .array ns, here => by
    simp [marks, laid, map_intercalate, itemsLaid_marks ns]
  | .object es, here => by
    simp [marks, laid, map_intercalate, entriesLaid_marks es]

theorem itemsLaid_marks : ∀ (ns : List Node) (here : Spot) (i : Nat),
    (itemsLaid ns here i).map (·.map (·.2)) = ns.map marks
  | [], _, _ => rfl
  | n :: ns, here, i => by
    rw [itemsLaid, List.map_cons, laid_marks, itemsLaid_marks, List.map_cons]

theorem entriesLaid_marks : ∀ (es : List (String × Node)) (here : Spot),
    (entriesLaid es here).map (·.map (·.2)) = es.map fun e => .token (.name e.1) :: e.2.marks
  | [], _ => rfl
  | (k, n) :: es, here => by
    rw [entriesLaid, List.map_cons, entriesLaid_marks, List.map_cons, laid_marks, List.map_cons]

end

theorem marks_array (ns : List Node) : (array ns).marks =
    .token .startArray :: ([.arrayComma].intercalate (ns.map marks) ++ [.token .endArray]) := by
  simp [marks, laid, map_intercalate, itemsLaid_marks ns]

theorem marks_object (es : List (String × Node)) : (object es).marks =
    .token .startObject :: ([.objectComma].intercalate (es.map fun e => .token (.name e.1) :: e.2.marks)
      ++ [.token .endObject]) := by
  simp [marks, laid, map_intercalate, entriesLaid_marks es]

theorem marks_tokens (n : Node) : n.marks.filterMap Mark.token? = n.tokens := by
  rw [marks, List.filterMap_map, ← n.laid_tokens none]
  rfl

end Node

/-- Every sentence is a document, mark by mark. -/
theorem Sentence.exists_marks {w : List Mark} (h : Sentence w) : ∃ n : Node, n.marks = w := by
  induction h with
  | @scalar t ht =>
    cases t with
    | null => exact ⟨.null, rfl⟩
    | bool b => exact ⟨.bool b, rfl⟩
    | number x => exact ⟨.number x, rfl⟩
    | string s => exact ⟨.string s, rfl⟩
    | _ => cases ht
  | @array parts _ ih =>
    obtain ⟨ns, hns⟩ := exists_forall₂ ih
    have heq : ns.map Node.marks = parts := by
      rw [← List.forall₂_eq_eq_eq, List.forall₂_map_left_iff]
      exact hns.flip
    exact ⟨.array ns, by rw [Node.marks_array, heq]⟩
  | @object parts _ ih =>
    obtain ⟨ns, hns⟩ := exists_forall₂ ih
    have hentries : ∃ es : List (String × Node),
        (es.map fun e => .token (.name e.1) :: e.2.marks) = parts.map fun p => .token (.name p.1) :: p.2 := by
      clear * - hns
      induction hns with
      | nil => exact ⟨[], rfl⟩
      | @cons p n _ _ hn _ ih =>
        obtain ⟨es, hes⟩ := ih
        exact ⟨(p.1, n) :: es, by rw [List.map_cons, List.map_cons, hes, hn]⟩
    obtain ⟨es, hes⟩ := hentries
    exact ⟨.object es, by rw [Node.marks_object, hes]⟩

/-! ## Emissions -/

namespace Emission

/-- The marks of an emission with the spots of their places. -/
def laid (a : Emission) : List (Spot × Mark) := a.marks.map fun m => (m.1.spot, m.2)

/-- Whenever it is not cut short, a part of a document lays down a document at its place. -/
def Whole (p : Place → Emission) : Prop :=
  ∀ place, (p place).failure = none → ∃ n : Node, (p place).laid = n.laid place.spot

variable {a b : Emission}

theorem laid_append (h : a.failure = none) : (a ++ b).laid = a.laid ++ b.laid := by
  change (a.andThen b).laid = _
  simp [andThen, h, laid]

/-- What lays down a document puts down its tokens. -/
theorem puts_of_laid {n : Node} {here : Spot} (hok : a.failure = none) (h : a.laid = n.laid here) :
    a.Puts n.tokens := by
  refine ⟨hok, ?_⟩
  rw [← n.laid_tokens here, ← h, Node.laidTokens, laid, List.filterMap_map]
  rfl

theorem laid_mark (place : Place) (m : Mark) : (mark place m).laid = [(place.spot, m)] := rfl

theorem laid_token (place : Place) (t : Token) : (token place t).laid = [(place.spot, .token t)] := rfl

theorem laid_separated {place : Place} {m : Mark} {as : List Emission}
    (h : (separated (mark place m) as).failure = none) :
    (separated (mark place m) as).laid = [(place.spot, m)].intercalate (as.map laid) := by
  induction as with
  | nil => rfl
  | cons a as ih =>
    cases as with
    | nil => simp [separated, List.intercalate]
    | cons b as =>
      rw [separated_cons, append_failure, append_failure] at h
      rw [separated_cons, laid_append h.1, laid_append h.2.1, ih h.2.2, laid_mark]
      simp only [List.map_cons, List.intercalate_cons_cons, List.append_assoc]

/-- A bracketed list is laid down between its brackets. -/
theorem laid_bracketed {place : Place} {open_ close : Token} (body : Emission)
    (h : (token place open_ ++ (body ++ token place close)).failure = none) :
    body.failure = none ∧ (token place open_ ++ (body ++ token place close)).laid =
      (place.spot, .token open_) :: (body.laid ++ [(place.spot, .token close)]) := by
  have hbody := (append_failure.1 (append_failure.1 h).2).1
  refine ⟨hbody, ?_⟩
  rw [laid_append rfl, laid_append hbody, laid_token, laid_token]
  rfl

/-- Items that are written in full are laid down one after the other, counted from `i`. -/
theorem laid_items {parts : List (Place → Emission)} (h : ∀ p ∈ parts, Whole p) (place : Place) (owner : String)
    (i : Nat) (hok : ∀ a ∈ (parts.zipIdx i).map
      (fun p => (p.1 (place.item owner p.2)).atPlace (place.item owner p.2)), a.failure = none) :
    ∃ ns, ((parts.zipIdx i).map
      (fun p => (p.1 (place.item owner p.2)).atPlace (place.item owner p.2))).map laid =
        Node.itemsLaid ns place.spot i := by
  induction parts generalizing i with
  | nil => exact ⟨[], rfl⟩
  | cons p ps ih =>
    obtain ⟨n, hn⟩ := h p List.mem_cons_self (place.item owner i)
      ((atPlace_failure _).1 (hok _ List.mem_cons_self))
    obtain ⟨ns, hns⟩ := ih (fun q hq => h q (List.mem_cons_of_mem _ hq)) (i + 1)
      fun a ha => hok a (List.mem_cons_of_mem _ ha)
    refine ⟨n :: ns, ?_⟩
    rw [Node.itemsLaid, ← hns, ← Place.spot_item place owner, ← hn]
    rfl

theorem whole_array {parts : List (Place → Emission)} (h : ∀ p ∈ parts, Whole p) (owner : String) :
    Whole fun place => array place owner parts := by
  intro place hok
  obtain ⟨hitems, hlaid⟩ := laid_bracketed (items place owner parts) hok
  obtain ⟨ns, hns⟩ := laid_items h place owner 0 (separated_failure hitems)
  refine ⟨.array ns, hlaid.trans ?_⟩
  rw [Node.laid, ← hns]
  exact congrArg (fun ms => _ :: (ms ++ _)) (laid_separated hitems)

/-- Members that are written in full are laid down one after the other. -/
theorem laid_entries {parts : List (String × (Place → Emission))} (h : ∀ p ∈ parts, Whole p.2) (place : Place)
    (owner : String) (hok : ∀ a ∈ parts.map (fun p => token place (.name p.1)
      ++ (p.2 (place.member owner p.1)).atPlace (place.member owner p.1)), a.failure = none) :
    ∃ es, (parts.map (fun p => token place (.name p.1)
      ++ (p.2 (place.member owner p.1)).atPlace (place.member owner p.1))).map laid =
        Node.entriesLaid es place.spot := by
  induction parts with
  | nil => exact ⟨[], rfl⟩
  | cons p ps ih =>
    obtain ⟨n, hn⟩ := h p List.mem_cons_self (place.member owner p.1)
      ((atPlace_failure _).1 (append_failure.1 (hok _ List.mem_cons_self)).2)
    obtain ⟨es, hes⟩ := ih (fun q hq => h q (List.mem_cons_of_mem _ hq))
      fun a ha => hok a (List.mem_cons_of_mem _ ha)
    refine ⟨(p.1, n) :: es, ?_⟩
    rw [Node.entriesLaid, ← hes, ← Place.spot_member place owner, ← hn, List.map_cons, List.map_cons,
      laid_append rfl]
    rfl

/-- Members that are written in full are laid down as the entries of an object. -/
theorem laid_members {parts : List (String × (Place → Emission))} (h : ∀ p ∈ parts, Whole p.2)
    {place : Place} {owner : String} (hok : (members place owner parts).failure = none) :
    ∃ es, (members place owner parts).laid =
      [(place.spot, .objectComma)].intercalate (Node.entriesLaid es place.spot) := by
  obtain ⟨es, hes⟩ := laid_entries h place owner (separated_failure hok)
  refine ⟨es, ?_⟩
  rw [← hes]
  exact laid_separated hok

theorem whole_members {parts : List (String × (Place → Emission))} (h : ∀ p ∈ parts, Whole p.2)
    {place : Place} {owner : String}
    (hok : (token place .startObject ++ (members place owner parts ++ token place .endObject)).failure = none) :
    ∃ n : Node, (token place .startObject ++ (members place owner parts ++ token place .endObject)).laid =
      n.laid place.spot := by
  obtain ⟨hmembers, hlaid⟩ := laid_bracketed _ hok
  obtain ⟨es, hes⟩ := laid_members h hmembers
  exact ⟨.object es, by rw [hlaid, hes, Node.laid]⟩

end Emission

/-! ## Values -/

namespace Encode

open Emission

theorem whole_token (t : Token) (h : t.kind.isScalar) : Whole fun place => token place t := by
  intro place _
  cases t with
  | null => exact ⟨.null, rfl⟩
  | bool b => exact ⟨.bool b, rfl⟩
  | number x => exact ⟨.number x, rfl⟩
  | string s => exact ⟨.string s, rfl⟩
  | _ => cases h

theorem whole_fail (e : BindError) : Whole fun _ => fail e := fun _ h => by cases h

/-- A value that is written in full is laid down as a document. -/
theorem form_whole (c : Context) (v : Value) : Whole (form c v) := by
  have hcarries : Carries fun p _ => Whole p :=
    .of_forall (whole_token _) (fun owner hparts => whole_array hparts owner) fun owner hparts _ => whole_members hparts
  refine (Respects.alone (c := c) hcarries whole_fail fun type hparts place hok => ?_).form v
  -- A field that shows nothing of the instance cuts the writing short.
  cases (append_failure.1 (append_failure.1 hok).2).2

end Encode

end Bindery
