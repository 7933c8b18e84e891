/-!
# Three truth values

A condition on a row that holds nulls may be neither true nor false.  `Truth`
has a third value for that case.  `Truth.all` and `Truth.any` are the
conjunction and the disjunction of a list of conditions.
-/

namespace RowGuard

/-- The truth of a condition on a row. -/
inductive Truth where
  | no
  | unknown
  | yes
deriving DecidableEq, Repr

namespace Truth

/-- The truth of a condition that is never unknown. -/
def ofBool : Bool → Truth
  | true => .yes
  | false => .no

/-- Conjunction: a part that is false decides, and else one that is unknown. -/
def and : Truth → Truth → Truth
  | .no, _ | _, .no => .no
  | .yes, .yes => .yes
  | _, _ => .unknown

/-- Disjunction: a part that is true decides, and else one that is unknown. -/
def or : Truth → Truth → Truth
  | .yes, _ | _, .yes => .yes
  | .no, .no => .no
  | _, _ => .unknown

/-- The conjunction of a list, which holds of no parts. -/
def all (parts : List Truth) : Truth := parts.foldr and .yes

/-- The disjunction of a list, which does not hold of no parts. -/
def any (parts : List Truth) : Truth := parts.foldr or .no

@[simp] theorem ofBool_eq_yes {b : Bool} : ofBool b = .yes ↔ b = true := by
  cases b <;> simp [ofBool]

theorem and_eq_yes_iff {s t : Truth} : s.and t = .yes ↔
    s = .yes ∧ t = .yes := by
  cases s <;> cases t <;> simp [and]

theorem or_eq_yes_iff {s t : Truth} : s.or t = .yes ↔ s = .yes ∨ t = .yes := by
  cases s <;> cases t <;> simp [or]

/-- A conjunction is true if all of its parts are. -/
theorem all_eq_yes_iff {parts : List Truth} :
    all parts = .yes ↔ ∀ t ∈ parts, t = .yes := by
  induction parts with
  | nil => simp [all]
  | cons t parts ih =>
    simp only [all] at ih
    simp [all, and_eq_yes_iff, ih]

/-- A disjunction is true if one of its parts is. -/
theorem any_eq_yes_iff {parts : List Truth} : any parts = .yes ↔
    .yes ∈ parts := by
  induction parts with
  | nil => simp [any]
  | cons t parts ih =>
    rw [any, List.foldr_cons, or_eq_yes_iff, ← any, ih, List.mem_cons, eq_comm]

end Truth

end RowGuard
