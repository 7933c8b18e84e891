import RowGuard.Evaluation.Walk

/-!
# Deciding conditions on loaded data

`Evaluator.holds` decides whether a subject satisfies an expression for an
actor. Parts are decided in order and only as far as needed. An `all` without
parts does not hold, and neither does an `any`.
-/

namespace RowGuard

namespace Evaluator

variable {σ : Type}

/-- Decides a leaf: its path starts at the subject and its operand's at the
actor. -/
def holdsLeaf (ev : Evaluator σ) (subject actor : Value) (op : Operator)
    (property : Path) (operand : Operand) : EvalM σ Bool := do
  let left ← ev.evaluate property subject
  let right ← ev.resolve actor operand
  match op.compare left right with
  | .ok decision => return decision
  | .error e => throw (.incomparable e)

mutual

/-- Decides an expression. -/
def holds (ev : Evaluator σ) (subject actor : Value) : Expression → EvalM σ Bool
  | .all parts =>
    if parts.isEmpty then pure false else ev.allHold subject actor parts
  | .any parts => ev.anyHolds subject actor parts
  | .leaf op property operand => ev.holdsLeaf subject actor op property operand
  | .not (.leaf op property operand) =>
    match op.invert? with
    | some inverse => ev.holdsLeaf subject actor inverse property operand
    | none => throw (.notNegatable (.operator op))
  | .not (.not part) => ev.holds subject actor part
  | .not (.all _) => throw (.notNegatable .all)
  | .not (.any _) => throw (.notNegatable .any)

/-- Decides whether every part holds, up to the first that does not. -/
def allHold (ev : Evaluator σ) (subject actor : Value) :
    List Expression → EvalM σ Bool
  | [] => pure true
  | part :: parts => do
    if ← ev.holds subject actor part then ev.allHold subject actor parts
    else return false

/-- Decides whether some part holds, up to the first that does. -/
def anyHolds (ev : Evaluator σ) (subject actor : Value) :
    List Expression → EvalM σ Bool
  | [] => pure false
  | part :: parts => do
    if ← ev.holds subject actor part then return true
    else ev.anyHolds subject actor parts

end

/-- A negation is decided by the negated expression. -/
theorem holds_not (ev : Evaluator σ) (subject actor : Value)
    (part : Expression) :
    ev.holds subject actor (.not part) =
      match part.negate with
      | .ok negated => ev.holds subject actor negated
      | .error e => throw (.notNegatable e) := by
  cases part with
  | leaf op property operand =>
    simp only [holds, Expression.negate]
    cases op.invert? <;> simp [holds]
  | _ => simp [holds, Expression.negate]

end Evaluator

end RowGuard
