import RowGuard.Path.Basic
import RowGuard.Value.Basic

/-!
# Expressions

An `Expression` is the condition of a policy: leaves that compare the value at a
path with an operand, and their combinations. `Expression.negate` gives the
condition of a `not`; it exists where the operator of a leaf has an inverse and
where two negations meet.
-/

namespace RowGuard

/-- How a leaf compares. -/
inductive Operator where
  | eq
  | neq
  | gt
  | gte
  | lt
  | lte
  | mem
  | notMem
deriving DecidableEq, Repr

namespace Operator

/-- The operators in the order of their declaration. -/
def all : List Operator := [.eq, .neq, .gt, .gte, .lt, .lte, .mem, .notMem]

/-- The operator with the opposite meaning. Orderings have none, since values
that cannot be ordered satisfy neither side. -/
def invert? : Operator → Option Operator
  | .eq => some .neq
  | .neq => some .eq
  | .mem => some .notMem
  | .notMem => some .mem
  | .gt | .gte | .lt | .lte => none

/-- Whether the operator compares by order. -/
def isOrdering : Operator → Bool
  | .gt | .gte | .lt | .lte => true
  | .eq | .neq | .mem | .notMem => false

/-- Whether the operator holds where its opposite does not. -/
def isNegative : Operator → Bool
  | .neq | .notMem => true
  | _ => false

/-- The name of the operator. -/
def name : Operator → String
  | .eq => "eq"
  | .neq => "neq"
  | .gt => "gt"
  | .gte => "gte"
  | .lt => "lt"
  | .lte => "lte"
  | .mem => "in"
  | .notMem => "not_in"

end Operator

/-- What a leaf compares with. -/
inductive Operand where
  | literal (value : Value)
  /-- A setting of an application in one of its environments. -/
  | setting (app environment key : String)
  /-- A path that starts at the actor. -/
  | path (path : Path)

/-- A condition on a row. -/
inductive Expression where
  /-- Every part holds. -/
  | all (parts : List Expression)
  /-- Some part holds. -/
  | any (parts : List Expression)
  /-- The part does not hold. -/
  | not (part : Expression)
  /-- The value at the path compares with the operand. -/
  | leaf (op : Operator) (property : Path) (operand : Operand)

/-- What has no negation. -/
inductive NotNegatable where
  | operator (op : Operator)
  | all
  | any
deriving DecidableEq, Repr

/-- The text of the error. -/
def NotNegatable.message (cause : NotNegatable) : String :=
  let subject :=
    match cause with
    | .operator op => "operator " ++ op.name
    | .all => "all"
    | .any => "any"
  "cannot negate " ++ subject ++ ": no inverse defined"

namespace Expression

/-- Compares for equality with a literal. -/
def equals (property : Path) (value : Value) : Expression :=
  .leaf .eq property (.literal value)

/-- The condition that holds where this one does not. -/
def negate : Expression → Except NotNegatable Expression
  | .leaf op property operand =>
    match op.invert? with
    | some inverse => .ok (.leaf inverse property operand)
    | none => .error (.operator op)
  | .not part => .ok part
  | .all _ => .error .all
  | .any _ => .error .any

end Expression

/-! ## Literals -/

/-- The operand with its literal changed by `f`. -/
def Operand.mapLiteral (f : Value → Value) : Operand → Operand
  | .literal value => .literal (f value)
  | operand => operand

mutual

/-- The expression with every literal changed by `f`. -/
def Expression.mapLiterals (f : Value → Value) : Expression → Expression
  | .all parts => .all (mapLiteralsOf f parts)
  | .any parts => .any (mapLiteralsOf f parts)
  | .not part => .not (part.mapLiterals f)
  | .leaf op property operand => .leaf op property (operand.mapLiteral f)

/-- The expressions with every literal changed by `f`. -/
def mapLiteralsOf (f : Value → Value) : List Expression → List Expression
  | [] => []
  | part :: parts => part.mapLiterals f :: mapLiteralsOf f parts

end

end RowGuard
