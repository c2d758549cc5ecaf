import Bindery.Value
import Mathlib.Data.List.Forall2
/-!
# Values that differ in NaNs only

The bits of a NaN do not survive every path: a single is written as a double and narrowed when it is
read. `Value.quiet` makes every NaN inside a value the same one, and two values are alike if that makes
them equal. Values that are alike are of one type (`Alike.ty`), and containers are alike if their items
are.
-/

namespace Bindery

/-- The word itself, or the one NaN for all. -/
def Binary64.quiet (x : Binary64) : Binary64 := if x.isNaN then .nan else x

/-- The word itself, or the one NaN for all. -/
def Binary32.quiet (x : Binary32) : Binary32 := if x.isNaN then .nan else x

theorem Binary32.quiet_quiet (x : Binary32) : x.quiet.quiet = x.quiet := by
  unfold quiet
  by_cases hx : x.isNaN
  · rw [if_pos hx, if_pos (by decide)]
  · rw [if_neg hx, if_neg hx]

/-- The number with one NaN for all. -/
def Number.quiet : Number → Number
  | .float x => .float x.quiet
  | n => n

namespace Node

mutual

/-- The node with one NaN for all. -/
def quiet : Node → Node
  | .number n => .number n.quiet
  | .array ns => .array (quietItems ns)
  | .object es => .object (quietEntries es)
  | n => n

/-- The items with one NaN for all. -/
def quietItems : List Node → List Node
  | [] => []
  | n :: ns => quiet n :: quietItems ns

/-- The entries with one NaN for all. -/
def quietEntries : List (String × Node) → List (String × Node)
  | [] => []
  | (k, n) :: es => (k, quiet n) :: quietEntries es

end

end Node

namespace Value

mutual

/-- The value with one NaN for all. -/
def quiet : Value → Value
  | f32 x => f32 x.quiet
  | f64 x => f64 x.quiet
  | number n => number n.quiet
  | some v => some (quiet v)
  | seq kind item vs => seq kind item (quietItems vs)
  | set keeping item vs => set keeping item (quietItems vs)
  | map keeping value es => map keeping value (quietEntries es)
  | node n => node n.quiet
  | object es => object (Node.quietEntries es)
  | array ns => array (Node.quietItems ns)
  | record name cells side => record name (quietItems cells) (Node.quietEntries side)
  | foreign name parts => foreign name (quietItems parts)
  | v => v

/-- The items with one NaN for all. -/
def quietItems : List Value → List Value
  | [] => []
  | v :: vs => quiet v :: quietItems vs

/-- The entries with one NaN for all. -/
def quietEntries : List (String × Value) → List (String × Value)
  | [] => []
  | (k, v) :: es => (k, quiet v) :: quietEntries es

end

theorem ty_quiet : ∀ v : Value, v.quiet.ty = v.ty
  | .some v => by rw [quiet, ty, ty, ty_quiet v]
  | .unit | .bool _ | .char _ | .int _ _ | .f32 _ | .f64 _ | .string _ | .number _ | .variant _ _ _ | .none _ => rfl
  | .seq _ _ _ | .set _ _ _ | .map _ _ _ | .node _ | .object _ | .array _ | .record _ _ _ | .foreign _ _ => rfl

/-- Equal but for the bits of NaNs. -/
def Alike (v w : Value) : Prop := v.quiet = w.quiet

theorem Alike.refl (v : Value) : Alike v v := rfl

/-- Values that are alike are of one type. -/
theorem Alike.ty {v w : Value} (h : Alike v w) : w.ty = v.ty := by
  rw [← ty_quiet v, ← ty_quiet w, h]

theorem quietItems_eq {vs ws : List Value} (h : List.Forall₂ Alike vs ws) : quietItems vs = quietItems ws := by
  induction h with
  | nil => rfl
  | cons hvw _ ih => rw [quietItems, quietItems, hvw, ih]

theorem quietEntries_eq {es fs : List (String × Value)}
    (h : List.Forall₂ (fun e f => f.1 = e.1 ∧ Alike e.2 f.2) es fs) : quietEntries es = quietEntries fs := by
  induction h with
  | nil => rfl
  | cons hef _ ih => rw [quietEntries, quietEntries, ← hef.1, hef.2, ih]

section Containers
variable {v w : Value} {vs ws : List Value}

theorem Alike.some (h : Alike v w) : Alike (.some v) (.some w) := by
  unfold Alike
  rw [quiet, quiet, h]

theorem Alike.seq (kind : SeqKind) (item : Ty) (h : List.Forall₂ Alike vs ws) :
    Alike (.seq kind item vs) (.seq kind item ws) := by
  unfold Alike
  rw [quiet, quiet, quietItems_eq h]

theorem Alike.set (keeping : Keeping) (item : Ty) (h : List.Forall₂ Alike vs ws) :
    Alike (.set keeping item vs) (.set keeping item ws) := by
  unfold Alike
  rw [quiet, quiet, quietItems_eq h]

theorem Alike.map (keeping : Keeping) (value : Ty) {es fs : List (String × Value)}
    (h : List.Forall₂ (fun e f => f.1 = e.1 ∧ Alike e.2 f.2) es fs) :
    Alike (.map keeping value es) (.map keeping value fs) := by
  unfold Alike
  rw [quiet, quiet, quietEntries_eq h]

end Containers

end Value
end Bindery
