import Bindery.Catalogue.Model
import Bindery.Proofs.Abreast
import Bindery.Proofs.Grammar
import Bindery.Proofs.History
import Bindery.Proofs.Laid
import Bindery.Proofs.Reads
/-!
# Errors point at what caused them

A node is read part by part, and an error takes the place of the innermost part it arose in. `Points n path e` says
what that amounts to: the path of the error leads from the place where `n` stands down to a node inside `n`, and
the cause says of that node what is wrong with it. The parts of a node point at nodes inside the parts, so they
point at nodes inside the whole; what arises at the node itself points at the node (`Along.pointing`). So an error
from the root carries a path that can be followed to what caused it (`errors_point`).
-/

namespace Bindery

open TokenStream (front advance)

/-! ## Following steps -/

namespace Node

/-- The node one step further down. -/
def child? (n : Node) : Step → Option Node
  | .key key => n.get? key
  | .index i => n.getIndex? i

theorem eq_string {n : Node} {text : String} (h : n.head = .string text) : n = .string text := by
  cases n <;> cases h
  rfl

theorem eq_null {n : Node} (h : n.head = .null) : n = .null := by
  cases n <;> cases h
  rfl

/-- The node that steps lead to, of entries with one key the first. -/
def follow? (n : Node) : List Step → Option Node
  | [] => some n
  | step :: steps => (n.child? step).bind (follow? · steps)

/-- The steps lead down from a node to another, through any of the entries with a key. -/
inductive Leads : Node → List Step → Node → Prop
  | here (n : Node) : Leads n [] n
  | item {ns : List Node} {i : Nat} {m m' : Node} {steps : List Step} (hi : ns[i]? = some m) (h : Leads m steps m') :
    Leads (.array ns) (.index i :: steps) m'
  | member {es : List (String × Node)} {key : String} {m m' : Node} {steps : List Step} (he : (key, m) ∈ es)
    (h : Leads m steps m') : Leads (.object es) (.key key :: steps) m'

end Node

/-- Where no object repeats a key, there is one node that steps lead to. -/
theorem Node.Leads.follow? {n m : Node} {steps : List Step} (h : n.Leads steps m) (hn : n.Distinct) :
    n.follow? steps = some m := by
  induction h with
  | here n => rfl
  | @item ns i m m' steps hi _ ih =>
    cases hn with
    | array hns =>
      have hchild : (Node.array ns).child? (.index i) = some m := hi
      rw [Node.follow?, hchild]
      exact ih (hns m (List.mem_of_getElem? hi))
  | @member es key m m' steps he _ ih =>
    cases hn with
    | object hkeys hes =>
      have hchild : (Node.object es).child? (.key key) = some m := Entries.find?_of_mem hkeys he
      rw [Node.follow?, hchild]
      exact ih (hes (key, m) he)

/-! ## What causes say -/

/-- What a cause says of the node that steps lead to. It is no place around another cause. -/
def BindError.Blames (steps : List Step) (m : Node) : BindError → Prop
  | .tokenMismatch _ found => m.kind = found
  | .enumMismatch _ value => m = .string value
  | .unknownKey _ key => steps.getLast? = some (.key key)
  | .located _ _ => False
  | _ => True

namespace BindError

variable {e : BindError} {n m : Node} {steps : List Step}

theorem IsFault.blames (h : e.IsFault) (steps : List Step) (m : Node) : e.Blames steps m := by
  cases e <;> trivial

/-- A step more above the others changes nothing of what is said. -/
theorem Blames.below (h : e.Blames steps m) (step : Step) : e.Blames (step :: steps) m := by
  cases e with
  | unknownKey type key =>
    have hlast : steps.getLast? = some (.key key) := h
    change (step :: steps).getLast? = some (.key key)
    rw [List.getLast?_cons, hlast]
    rfl
  | _ => exact h

theorem Blames.not_located (h : e.Blames steps m) : e.isLocated = false := by
  cases e with
  | located => cases h
  | _ => rfl

theorem Blames.rootCause (h : e.Blames steps m) : e.rootCause = e := by
  cases e with
  | located => cases h
  | _ => rfl

/-- What is said of a node is said of any node that begins alike. -/
theorem Blames.of_head (h : e.Blames steps n) (hhead : n.head = m.head) : e.Blames steps m := by
  cases e with
  | tokenMismatch expected found =>
    have hfound : n.kind = found := h
    change m.kind = found
    rw [← m.head_kind, ← hhead, n.head_kind, hfound]
  | enumMismatch enum value =>
    obtain rfl : n = .string value := h
    cases m <;> cases hhead
    rfl
  | unknownKey | typeError | unsupportedType | invalidValue | malformed | located => exact h

end BindError

/-- The steps of a path. -/
def Path.steps (path : Path) : List Step := path.map (·.step)

/-- The error carries a path that leads from a node, which stands at the end of `path`, to what the cause says it of. -/
def Points (n : Node) (path : Path) (e : BindError) : Prop :=
  ∃ (down : Path) (m : Node) (cause : BindError), e = .located (Path.render (path ++ down)) cause ∧
    n.Leads (Path.steps down) m ∧ cause.Blames (Path.steps down) m

/-- The error arises at a node or points at a node inside. -/
def Arises (n : Node) (path : Path) (e : BindError) : Prop := e.Blames [] n ∨ Points n path e

namespace Points

variable {path : Path} {e : BindError}

theorem item {ns : List Node} {i : Nat} {m : Node} {owner : String} (hi : ns[i]? = some m)
    (h : Points m (Path.item path owner i) e) : Points (.array ns) path e := by
  obtain ⟨down, m', cause, rfl, hleads, hblames⟩ := h
  refine ⟨⟨owner, .index i⟩ :: down, m', cause, ?_, .item hi hleads, hblames.below _⟩
  simp [Path.item]

theorem member {es : List (String × Node)} {key owner : String} {m : Node} (he : (key, m) ∈ es)
    (h : Points m (Path.member path owner key) e) : Points (.object es) path e := by
  obtain ⟨down, m', cause, rfl, hleads, hblames⟩ := h
  refine ⟨⟨owner, .key key⟩ :: down, m', cause, ?_, .member he hleads, hblames.below _⟩
  simp [Path.member]

/-- An error of the member itself, which takes the place of the member. -/
theorem at_member {es : List (String × Node)} {key owner : String} {m : Node} (he : (key, m) ∈ es)
    (h : e.Blames [.key key] m) : Points (.object es) path (e.at? (some (Path.member path owner key))) := by
  refine ⟨[⟨owner, .key key⟩], m, e, ?_, .member he (.here m), h⟩
  unfold BindError.at?
  rw [h.not_located]
  rfl

end Points

/-- An error that arises at a node takes its place. -/
theorem Arises.points {n : Node} {path : Path} {e : BindError} (h : Arises n path e) :
    Points n path (e.at? (some path)) := by
  rcases h with h | h
  · refine ⟨[], n, e, ?_, .here n, h⟩
    unfold BindError.at?
    rw [h.not_located, List.append_nil]
    rfl
  · obtain ⟨down, m, cause, rfl, hdown⟩ := h
    exact ⟨down, m, cause, rfl, hdown⟩

/-! ## Standard codecs -/

/-- A codec reads values of its own type, and what it fails with says nothing false of the node. -/
structure Codec.Faithful (codec : Codec) : Prop where
  read : ∀ n, Ends (fun v => v.ty = codec.type) (fun e => e.Blames [] n) (codec.read n)
  readNull : Ends (fun v => v.ty = codec.type) (fun e => e.Blames [] .null) codec.readNull

theorem FilePath.codec_faithful : FilePath.codec.Faithful := by
  have hread : ∀ n, Ends (fun v => v.ty = type) (fun e => e.Blames [] n) (codec.read n) := by
    intro n
    cases n <;> rfl
  exact ⟨hread, hread .null⟩

theorem Address.codec_faithful : Address.codec.Faithful := by
  have hread : ∀ n, Ends (fun v => v.ty = type) (fun e => e.Blames [] n) (codec.read n) := by
    intro n
    cases n with
    | string text =>
      simp only [codec]
      cases parse? text with
      | none => trivial
      | some a => cases a <;> rfl
    | _ => rfl
  exact ⟨hread, hread .null⟩

theorem Duration.codec_faithful : Duration.codec.Faithful := by
  have hread : ∀ n, Ends (fun v => v.ty = type) (fun e => e.Blames [] n) (codec.read n) := by
    intro n
    cases n with
    | string text =>
      simp only [codec]
      cases parse? text with
      | none => trivial
      | some d => rfl
    | _ => rfl
  exact ⟨hread, hread .null⟩

theorem Instant.codec_faithful : Instant.codec.Faithful := by
  have hread : ∀ n, Ends (fun v => v.ty = type) (fun e => e.Blames [] n) (codec.read n) := by
    intro n
    simp only [codec]
    apply Ends.bind (Q := fun _ => True)
    · cases n <;> trivial
    · intro millis _
      cases millis with
      | none => trivial
      | some m =>
        dsimp only
        cases ofMillis? m <;> trivial
  exact ⟨hread, hread .null⟩

theorem Registry.standardCodecs_faithful : ∀ codec ∈ standardCodecs, codec.Faithful := by
  simp only [standardCodecs, List.mem_cons, List.not_mem_nil, or_false, forall_eq_or_imp, forall_eq]
  exact ⟨FilePath.codec_faithful, Address.codec_faithful, Duration.codec_faithful, Instant.codec_faithful⟩

/-- A registry keeps each codec under the codec's own type. -/
theorem Registry.Reachable.codec_type {Γ : Schema} {r : Registry} (h : r.Reachable Γ) :
    ∀ {t codec}, r.codec? t = some codec → codec.type = t := by
  induction h with
  | empty => exact nofun
  | register h t ih =>
    intro u codec hu
    apply ih
    rw [← hu]
    exact congrArg (TypeMap.find? · u) (register_codecs _ _ t).symm
  | registerCodec h c ih =>
    intro u codec hu
    change (TypeMap.insert _ c.type c).find? u = some codec at hu
    rw [TypeMap.find?_insert] at hu
    split at hu
    · next hut =>
      cases hu
      exact hut.symm
    · exact ih hu

/-! ## Nodes in a source -/

/-- A node that stands in a source: its path, and the source behind it. -/
structure Site (σ : Type) where
  node : Node
  path : Path
  after : σ

namespace Site

variable {σ : Type}

/-- A node in a container, by the step that leads to it. -/
def IsPart (i : Site σ) (owner : String) (step : Step) (j : Site σ) : Prop :=
  j.path = i.path ++ [⟨owner, step⟩] ∧ match step with
    | .index p => ∃ ns, i.node = .array ns ∧ ns[p]? = some j.node
    | .key key => ∃ es, i.node = .object es ∧ (key, j.node) ∈ es

theorem IsPart.points {i j : Site σ} {owner : String} {step : Step} (h : i.IsPart owner step j) {e : BindError}
    (he : Points j.node j.path e) : Points i.node i.path e := by
  obtain ⟨hpath, hstep⟩ := h
  rw [hpath] at he
  cases step with
  | index p =>
    obtain ⟨ns, hns, hj⟩ := hstep
    rw [hns]
    exact Points.item hj he
  | key key =>
    obtain ⟨es, hes, hj⟩ := hstep
    rw [hes]
    exact Points.member hj he

/-- Parts have fewer tokens. -/
theorem IsPart.length_lt {i j : Site σ} {owner : String} {step : Step} (h : i.IsPart owner step j) :
    j.node.tokens.length < i.node.tokens.length := by
  obtain ⟨-, hstep⟩ := h
  cases step with
  | index p =>
    obtain ⟨ns, hns, hj⟩ := hstep
    have hmem := List.mem_map_of_mem (f := Node.tokens) (List.mem_of_getElem? hj)
    have hle := (List.sublist_flatten_of_mem hmem).length_le
    rw [← List.flatMap_def] at hle
    rw [hns, Node.array_tokens]
    simp only [List.length_cons, List.length_append]
    omega
  | key key =>
    obtain ⟨es, hes, hj⟩ := hstep
    have hle := (List.sublist_flatten_of_mem
      (List.mem_map_of_mem (f := fun e : String × Node => Token.name e.1 :: e.2.tokens) hj)).length_le
    rw [← List.flatMap_def] at hle
    rw [hes, Node.object_tokens]
    simp only [List.length_cons, List.length_append] at hle ⊢
    omega

variable [TokenStream σ]

/-- The source stands there. -/
def At : Phase → Site σ → σ → Prop
  | .before, i, s => Walks s i.node.tokens i.after
  | .inside .array parts n _, i, s => ∃ before rest, i.node = .array (before ++ rest) ∧ before.length = parts ∧
    rest.length < n ∧ Walks s (rest.flatMap Node.tokens ++ [.endArray]) i.after
  | .inside .object _ n _, i, s => ∃ before rest, i.node = .object (before ++ rest) ∧ rest.length < n ∧
    Walks s (rest.flatMap (fun e => .name e.1 :: e.2.tokens) ++ [.endObject]) i.after
  | .behind, i, s => s = i.after

variable {i : Site σ} {s : σ}

theorem front_before (h : At .before i s) : front s = .token i.node.head := by
  obtain ⟨ts, hts⟩ := i.node.tokens_eq
  have hw : Walks s i.node.tokens i.after := h
  rw [hts] at hw
  exact hw.1

/-- A scalar is one token. -/
theorem At.scalar {u : Token} (h : At .before i s) (hf : front s = .token u) (hu : u.kind.isScalar) :
    At .behind i (advance s) := by
  have hhead : u = i.node.head := Front.token.inj (hf.symm.trans (front_before h))
  have hw : Walks s i.node.tokens i.after := h
  rw [hhead] at hu
  cases hnode : i.node with
  | null | bool | number | string =>
    rw [hnode] at hw
    exact hw.2
  | array | object =>
    rw [hnode] at hu
    cases hu

/-- A bracket opens a container, none of whose parts has been read. -/
theorem At.enter {bracket : Bracket} {n : Nat} (hb : i.node.tokens.length ≤ n + 1) (h : At .before i s)
    (hf : front s = .token bracket.opening) : At (.inside bracket 0 n n) i (advance s) := by
  have hhead : bracket.opening = i.node.head := Front.token.inj (hf.symm.trans (front_before h))
  have hw : Walks s i.node.tokens i.after := h
  cases hnode : i.node with
  | null | bool | number | string =>
    rw [hnode] at hhead
    cases bracket <;> cases hhead
  | array ns =>
    rw [hnode, Node.array_tokens] at hb hw
    have hcount := Node.length_le_length_flatMap Node.tokens ns fun n _ => n.tokens_length_pos
    rw [hnode] at hhead
    cases bracket <;> cases hhead
    refine ⟨[], ns, hnode, rfl, ?_, hw.2⟩
    simp only [List.length_cons, List.length_append, List.length_nil] at hb
    omega
  | object es =>
    rw [hnode, Node.object_tokens] at hb hw
    have hcount := Node.length_le_length_flatMap (fun e => .name e.1 :: e.2.tokens) es fun e _ => Nat.succ_pos _
    rw [hnode] at hhead
    cases bracket <;> cases hhead
    refine ⟨[], es, hnode, ?_, hw.2⟩
    simp only [List.length_cons, List.length_append, List.length_nil] at hb
    omega

/-- Where a container does not close, one of its parts stands. -/
theorem At.item {parts n m : Nat} (h : At (.inside .array parts n m) i s) (hcloses : (front s).kind.closes = false)
    (owner : String) : ∃ j, i.IsPart owner (.index parts) j ∧ At .before j s ∧
      At (.inside .array (parts + 1) (n - 1) (m - 1)) i j.after := by
  obtain ⟨before, rest, hnode, rfl, hlength, hw⟩ := h
  cases rest with
  | nil =>
    rw [hw.1] at hcloses
    cases hcloses
  | cons x rest =>
    rw [List.flatMap_cons, List.append_assoc] at hw
    obtain ⟨s', hx, hrest⟩ := walks_append.1 hw
    refine ⟨⟨x, i.path ++ [⟨owner, .index before.length⟩], s'⟩, ⟨rfl, _, hnode, by simp⟩, hx, ?_⟩
    refine ⟨before ++ [x], rest, by simpa using hnode, by simp, ?_, hrest⟩
    rw [List.length_cons] at hlength
    omega

theorem At.member {parts n m : Nat} (h : At (.inside .object parts n m) i s)
    (hcloses : (front s).kind.closes = false) (owner : String) :
    ∃ key j, front s = .token (.name key) ∧ i.IsPart owner (.key key) j ∧ At .before j (advance s) ∧
      At (.inside .object (parts + 1) (n - 1) (m - 1)) i j.after := by
  obtain ⟨before, rest, hnode, hlength, hw⟩ := h
  cases rest with
  | nil =>
    rw [hw.1] at hcloses
    cases hcloses
  | cons e rest =>
    rw [List.flatMap_cons, List.append_assoc] at hw
    obtain ⟨s', ⟨hf, hx⟩, hrest⟩ := walks_append.1 hw
    refine ⟨e.1, ⟨e.2, i.path ++ [⟨owner, .key e.1⟩], s'⟩, hf, ⟨rfl, _, hnode, by simp⟩, hx, ?_⟩
    refine ⟨before ++ [e], rest, by simpa using hnode, ?_, hrest⟩
    rw [List.length_cons] at hlength
    omega

/-- Where a container closes, none of its parts is left, and its bracket stands there. -/
theorem At.closing {bracket : Bracket} {parts n m : Nat} (h : At (.inside bracket parts n m) i s)
    (hend : n = 0 ∨ (front s).kind.closes) : Walks s [bracket.closing] i.after := by
  cases bracket with
  | array =>
    obtain ⟨before, rest, -, -, hlength, hw⟩ := h
    cases rest with
    | nil => exact hw
    | cons x rest =>
      rcases hend with rfl | hcloses
      · cases hlength
      · obtain ⟨ts, hts⟩ := x.tokens_eq
        rw [List.flatMap_cons, hts] at hw
        rw [hw.1] at hcloses
        exact absurd hcloses x.head_opens
  | object =>
    obtain ⟨before, rest, -, hlength, hw⟩ := h
    cases rest with
    | nil => exact hw
    | cons e rest =>
      rcases hend with rfl | hcloses
      · cases hlength
      · rw [hw.1] at hcloses
        cases hcloses

end Site

/-- What a reading of the node can fail with: an error that points inside the node, or one that has still to take the
place of the node. -/
def Site.Fails {σ : Type} (placed : Bool) (i : Site σ) (e : BindError) : Prop :=
  if placed then Points i.node i.path e else Arises i.node i.path e

/-- A source from which nodes are read. Whatever can be read of them, errors point at what caused them. -/
def Along.pointing (σ : Type) [TokenSource σ] [LawfulSource σ] : Along σ where
  Pos := Site σ
  Part := Site.IsPart
  Placed i place place' := place = some i.path ∧ place' = place
  Bounds i n := i.node.tokens.length ≤ n
  At := Site.At
  Fails placed i e e' := e' = e ∧ i.Fails placed e
  placed_part := by
    rintro i owner step j _ _ ⟨hpath, -⟩ ⟨rfl, rfl⟩
    rw [hpath]
    exact ⟨rfl, rfl⟩
  bounds_part hpart hb := by
    have := hpart.length_lt
    omega
  scalar_step := Site.At.scalar
  enter hb hbefore hf := Site.At.enter hb hbefore hf
  item owner hinside hcloses := by
    obtain ⟨j, hpart, hbefore, hturn⟩ := Site.At.item hinside hcloses owner
    refine ⟨j, hpart, hbefore, ?_⟩
    rintro _ rfl
    exact hturn
  member owner hinside hf := by
    obtain ⟨key, j, hf', hpart, hbefore, hturn⟩ := Site.At.member hinside (by rw [hf]; rfl) owner
    rw [hf] at hf'
    cases hf'
    refine ⟨j, hpart, hbefore, ?_⟩
    rintro _ rfl
    exact hturn
  leave := by
    intro bracket parts n i s hinside hf
    have hcloses : (front s).kind.closes := by
      rw [hf]
      cases bracket <;> rfl
    exact (Site.At.closing hinside (.inr hcloses)).2
  skip_ok _ hbefore hr := by
    have hskip := LawfulSource.skip_walks hbefore
    rw [hr] at hskip
    cases hskip
    rfl
  skip_fails _ hbefore hr := by
    have hskip := LawfulSource.skip_walks hbefore
    rw [hr] at hskip
    cases hskip
  fails_before expected hbefore := by
    rw [Site.front_before hbefore]
    exact ⟨rfl, .inl (Node.head_kind _).symm⟩
  fails_name expected hinside hcloses hname := by
    obtain ⟨key, -, hf, -⟩ := Site.At.member hinside hcloses ""
    exact absurd hf (hname key)
  fails_leave expected hinside hend hclosing :=
    absurd (Site.At.closing hinside hend).1 hclosing
  fails_variant enum hbefore hf := by
    refine ⟨rfl, .inl ?_⟩
    exact Node.eq_string (Front.token.inj ((Site.front_before hbefore).symm.trans hf))
  fails_plain he := ⟨rfl, .inl (he.fault.blames _ _)⟩
  fails_at := by
    rintro i place place' e _ ⟨rfl, rfl⟩ ⟨rfl, he⟩
    exact ⟨rfl, he.points⟩
  fails_spent hb _ := absurd hb (Nat.not_le_of_gt (Node.tokens_length_pos _))
  fails_part hpart := by
    rintro ⟨rfl, he⟩
    exact ⟨rfl, .inr (hpart.points he)⟩

/-! ## Contexts -/

/-- What is read from values of a context: codecs read values of the type they are kept under, constructors make
values of their own record, and neither fails with what is false of the node. -/
structure Context.Faithful (c : Context) : Prop where
  codec : ∀ {t codec}, c.registry.codec? t = some codec → codec.type = t ∧ codec.Faithful
  makes : ∀ {name creator}, (c.schema.record name).creator = some creator →
    creator.Makes (fun t => t = .record name) BindError.IsFault

/-- A document begins as the node does that stands where it is read. -/
theorem Site.At.read_head {σ : Type} [TokenSource σ] {i : Site σ} {m : Nat} {place : Place} {s s' : σ} {n : Node}
    (h : At .before i s) (hread : Decode.node m place s = .ok n s') : n.head = i.node.head := by
  obtain ⟨ts, hw, hn⟩ := (ReadsSentence.node m place).ok hread
  obtain ⟨rest, hts⟩ := hn.head
  rw [hts] at hw
  exact Front.token.inj (hw.1.symm.trans (front_before h))

theorem Context.Faithful.grounds {σ : Type} [TokenSource σ] [LawfulSource σ] {c : Context} (hc : c.Faithful) :
    (Along.pointing σ).abreast.Grounds c c.config c.config fun t u => u = t := by
  have hfault : ∀ {e : BindError}, e.IsFault → ∀ i : Site σ, (Along.pointing σ).Fails false i e e :=
    fun he i => ⟨rfl, .inl (he.blames _ _)⟩
  refine (Along.pointing σ).grounds rfl (fun _ => rfl) ?_ ?_ ?_ ?_
  · intro t codec hcodec n
    obtain ⟨rfl, hfaithful⟩ := hc.codec hcodec
    refine (hfaithful.read n).mono (fun _ hv => hv) fun e he i m place s s' hbefore hread _ => ⟨rfl, .inl ?_⟩
    exact he.of_head (hbefore.read_head hread)
  · intro t codec hcodec
    obtain ⟨rfl, hfaithful⟩ := hc.codec hcodec
    refine hfaithful.readNull.mono (fun _ hv => hv) fun e he i s hbefore hnull => ⟨rfl, .inl ?_⟩
    have hhead := (Site.front_before hbefore).symm.trans (Front.eq_null hnull)
    rw [Node.eq_null (Front.token.inj hhead)]
    exact he
  · intro name creator hcreator
    have hmakes := hc.makes hcreator
    exact ⟨fun hf slots => (hmakes.withArgs hf slots).mono (fun _ hv => hv) fun _ he => hfault he, hmakes.noArgs⟩
  · rintro i owner key j s place place' ⟨hpath, es, hes, hj⟩ - ⟨rfl, rfl⟩
    refine ⟨rfl, .inr ?_⟩
    rw [hes]
    exact Points.at_member hj rfl

/-! ## From the root -/

/-- A reading of a node ends with its errors pointing inside the node. -/
theorem Along.points {σ α : Type} [TokenSource σ] [LawfulSource σ] {i : Site σ} {p : α → Prop} {r : Reading σ α}
    (h : (Along.pointing σ).abreast.Whole true i p r r) {s : σ} (hbefore : Site.At .before i s) :
    Ends p (Points i.node i.path) (r.run s).1 := by
  have hends := h.both (s := s) (t := s) ⟨rfl, trivial, hbefore⟩
  unfold Reading.run
  generalize r s = x at hends
  cases hends with
  | both hq => exact hq.1
  | failed hf => exact hf.2.2
  | gone hg => exact hg.elim

/-- What is read from the root, where places are tracked. -/
theorem Context.Faithful.root_points {σ : Type} [TokenSource σ] [LawfulSource σ] {c : Context} (hc : c.Faithful)
    (htracking : c.config.tracking = true) {n : Node} {s s' : σ} (hw : Walks s n.tokens s')
    (hbound : n.tokens.length ≤ TokenStream.length s + 1) (t : Ty) :
    Ends (fun v => v.ty = t) (Points n []) ((Decode.root c t).run s).1 := by
  let i : Site σ := ⟨n, [], s'⟩
  have hplaced : (Along.pointing σ).abreast.Placed i (Place.root c.config.tracking) (Place.root c.config.tracking) := by
    rw [htracking]
    exact ⟨rfl, rfl⟩
  have hbounds : (Along.pointing σ).abreast.Bounds i (TokenStream.length s + 1) (TokenStream.length s + 1) :=
    ⟨rfl, hbound⟩
  have hroot : (Along.pointing σ).abreast.Whole true i (fun v => v.ty = t)
      (Decode.rootWithin c (TokenStream.length s + 1) t) (Decode.rootWithin c (TokenStream.length s + 1) t) := by
    refine (Abreast.value hc.grounds _ hbounds hplaced t).bind fun v hv => ?_
    have hcheck : Value.ofType t v = .ok v := if_pos hv
    rw [hcheck]
    exact .pure hv
  rw [Decode.root_run]
  exact Along.points hroot hw

/-- What a binder knows stays as it was when a type is registered. -/
theorem Binder.register_faithful {b : Binder} (h : b.toContext.Faithful) (t : Ty) :
    (b.register t).toContext.Faithful := by
  have hcodec : ∀ u, (b.register t).registry.codec? u = b.registry.codec? u := fun u =>
    congrArg (TypeMap.find? · u) (Registry.register_codecs b.schema b.registry t)
  constructor
  · intro u codec hu
    rw [hcodec] at hu
    exact h.codec hu
  · exact h.makes

/-- Errors point at what caused them. Where places are tracked, all codecs are standard ones, and constructors make
values of their own record and fail with faults of types and values only, a node that cannot be read as a type is
refused with a path: a chain of keys and positions that leads from the node to a node inside, the only one if no
object repeats a key. If the cause is a token that does not fit, it is the token of the node there; if it is a name
that no variant has, the node there is this text; and if it is a key that a record has no place for, it is the last
key of the path. -/
theorem errors_point (b : Binder) (hb : b.registry.Reachable b.schema) (htracking : b.config.tracking = true)
    (hcodecs : ∀ t codec, b.registry.codec? t = some codec → codec ∈ Registry.standardCodecs)
    (hmakes : ∀ name creator, (b.schema.record name).creator = some creator →
      creator.Makes (fun t => t = .record name) BindError.IsFault)
    (n : Node) (t : Ty) {e : BindError} (h : (b.fromNode t n).1 = .error e) :
    ∃ (path : Path) (m : Node), e.path? = some (Path.render path) ∧
      n.Leads (Path.steps path) m ∧ (n.Distinct → n.follow? (Path.steps path) = some m) ∧
      (∀ expected found, e.rootCause = .tokenMismatch expected found → m.kind = found) ∧
      (∀ enum value, e.rootCause = .enumMismatch enum value → m = .string value) ∧
      ∀ record key, e.rootCause = .unknownKey record key → (Path.steps path).getLast? = some (.key key) := by
  have hfaithful : b.toContext.Faithful := by
    constructor
    · intro u codec hu
      exact ⟨hb.codec_type hu, Registry.standardCodecs_faithful codec (hcodecs u codec hu)⟩
    · intro name creator hcreator
      exact hmakes name creator hcreator
  have hbound : n.tokens.length ≤ NodeCursor.length (NodeCursor.ofNode n) + 1 :=
    Nat.le_succ_of_le (NodeCursor.tokens_length_le n [])
  obtain ⟨path, m, cause, rfl, hleads, hblames⟩ := ((Binder.register_faithful hfaithful t).root_points htracking
    (NodeCursor.walks_value n []) hbound t).failure h
  have hcause : (BindError.located (Path.render ([] ++ path)) cause).rootCause = cause := hblames.rootCause
  rw [hcause]
  refine ⟨path, m, rfl, hleads, fun hn => hleads.follow? hn, ?_, ?_, ?_⟩
  · rintro expected found rfl
    exact hblames
  · rintro enum value rfl
    exact hblames
  · rintro record key rfl
    exact hblames

set_option maxRecDepth 4000 in
/-- The second baby of a family has a truth value for a name. -/
theorem errors_point_family :
    let b := History.binder ⟨.standard, []⟩ { records := [Catalogue.baby, Catalogue.family] } {}
    let n : Node := .object [("surname", .string "Doe"), ("babies", .array [.object [("name", .string "Ada")],
      .object [("age", .number (.posInt 1)), ("name", .bool true)]])]
    let place : Path := [⟨Catalogue.full "Family", .key "babies"⟩,
      ⟨(Catalogue.vec (Catalogue.recordTy "Baby")).path, .index 1⟩, ⟨Catalogue.full "Baby", .key "name"⟩]
    let e : BindError := .located (Path.render place) (.tokenMismatch "STRING" .boolean)
    (b.fromNode (Catalogue.recordTy "Family") n).1 = .error e ∧ Path.render place = "$.babies[1].name" ∧
      ∃ (path : Path) (m : Node), e.path? = some (Path.render path) ∧
        n.Leads (Path.steps path) m ∧ (n.Distinct → n.follow? (Path.steps path) = some m) ∧
        (∀ expected found, e.rootCause = .tokenMismatch expected found → m.kind = found) ∧
        (∀ enum value, e.rootCause = .enumMismatch enum value → m = .string value) ∧
        ∀ record key, e.rootCause = .unknownKey record key → (Path.steps path).getLast? = some (.key key) := by
  have hmakes : ∀ r ∈ [Catalogue.baby, Catalogue.family], ∀ creator, r.creator = some creator →
      creator.Makes (fun t => t = .record r.name) BindError.IsFault := by
    simp only [List.forall_mem_cons]
    refine ⟨?_, ?_, nofun⟩
    all_goals
      rintro _ ⟨⟩
      exact ⟨nofun, fun h => by cases h; rfl⟩
  intro b n place e
  have hread : (b.fromNode (Catalogue.recordTy "Family") n).1 = .error e := by
    rw [b.fromNode_eq]
    simp only [b]
    rfl
  refine ⟨hread, by decide +kernel, errors_point b ?reachable rfl ?codecs ?makes n _ hread⟩
  case reachable => exact History.reachable_binder _ _ _
  case codecs =>
    intro t codec ht
    rw [History.codec?_binder] at ht
    have hlast : Registry.standardCodecs.reverse.find? (fun c => c.type = t) = some codec := ht
    exact List.mem_reverse.1 (List.mem_of_find?_eq_some hlast)
  case makes =>
    intro name creator hcreator
    obtain ⟨hmem, hname⟩ := Schema.declared hcreator
    have hrecord := hmakes _ hmem creator hcreator
    rw [hname] at hrecord
    exact hrecord

end Bindery
