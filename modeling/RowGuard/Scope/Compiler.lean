import RowGuard.Evaluation.Walk
import RowGuard.Scope.Binder

/-!
# Compiling conditions into queries

`Compiler.compile` turns an expression into the fragment that selects the rows
of an entity which satisfy it for an actor. Operands are evaluated first, in the
session of the request; paths from the subject become joins.
-/

namespace RowGuard

/-- What compilation works with. -/
structure Compiler (σ : Type) where
  /-- Evaluates operands. -/
  evaluator : Evaluator σ
  naming : Naming := {}

/-- Compilations in a session. -/
abbrev ScopeM (σ : Type) := ExceptT ScopeError (StateM (Session σ))

/-- An evaluation as part of a compilation. -/
def EvalM.toScope {σ α : Type} (m : EvalM σ α) : ScopeM σ α :=
  ExceptT.adapt ScopeError.evaluation m

namespace Compiler

variable {σ : Type}

/-- The binder for the paths of subjects. -/
def binder (c : Compiler σ) : Binder :=
  { schema := c.evaluator.schema, graph := c.evaluator.graph,
    naming := c.naming }

/-- The select of every row of an entity. -/
def root (c : Compiler σ) (entity : Entity) : Select :=
  .fromEntity entity c.naming.root

/-- Compiles a leaf. -/
def leaf (c : Compiler σ) (actor : Value) (entity : Entity) (op : Operator)
    (property : Path) (operand : Operand) : ScopeM σ Fragment := do
  let value ← (c.evaluator.resolve actor operand).toScope
  let test ← Test.of op value
  return c.binder.bind test property entity c.naming.root

/-- Combines the fragments of parts; without parts no row matches. -/
def combine (combination : Combination)
    (fragments : List Fragment) : Fragment :=
  (combineFragments combination (fragments.map some)).getD .emptySet

mutual

/-- Compiles an expression for the rows of an entity. -/
def fragment (c : Compiler σ) (actor : Value) (entity : Entity) :
    Expression → ScopeM σ Fragment
  | .all parts => do return combine .all (← c.fragments actor entity parts)
  | .any parts => do return combine .any (← c.fragments actor entity parts)
  | .leaf op property operand => c.leaf actor entity op property operand
  | .not (.leaf op property operand) =>
    match op.invert? with
    | some inverse => c.leaf actor entity inverse property operand
    | none => throw (.notNegatable (.operator op))
  | .not (.not part) => c.fragment actor entity part
  | .not (.all _) => throw (.notNegatable .all)
  | .not (.any _) => throw (.notNegatable .any)

/-- Compiles each of several expressions, in order. -/
def fragments (c : Compiler σ) (actor : Value) (entity : Entity) :
    List Expression → ScopeM σ (List Fragment)
  | [] => pure []
  | part :: parts => do
    let first ← c.fragment actor entity part
    return first :: (← c.fragments actor entity parts)

end

/-- A negation is compiled like the negated expression. -/
theorem fragment_not (c : Compiler σ) (actor : Value) (entity : Entity)
    (part : Expression) :
    c.fragment actor entity (.not part) =
      match part.negate with
      | .ok negated => c.fragment actor entity negated
      | .error e => throw (.notNegatable e) := by
  cases part with
  | leaf op property operand =>
    simp only [fragment, Expression.negate]
    cases op.invert? <;> simp [fragment]
  | _ => simp [fragment, Expression.negate]

/-- The entity of a name, or the error that the schema has none. -/
def require (c : Compiler σ) (name : String) : ScopeM σ Entity :=
  match c.evaluator.schema.require name with
  | .ok entity => pure entity
  | .error e => throw (.schema e)

/-- Compiles an expression for the rows of the entity with a name. -/
def compile (c : Compiler σ) (actor : Value) (name : String)
    (expression : Expression) :
    ScopeM σ Fragment := do
  c.fragment actor (← c.require name) expression

/-- The select of the rows that satisfy an expression. -/
def select (c : Compiler σ) (actor : Value) (name : String)
    (expression : Expression) :
    ScopeM σ Select := do
  let entity ← c.require name
  let fragment ← c.fragment actor entity expression
  return fragment.applyTo (c.root entity)

end Compiler

end RowGuard
