import RowGuard.Evaluation.Session
import RowGuard.Query.Basic

/-!
# Values that a filter can carry

A filter compares a column with a scalar or with a list of scalars.
`FilterValue` is such a value, with null and the empty list apart because they
need conditions of their own. Records stand for their identities; a value
without a reading as a filter value is refused, and so is an ordering against
anything but one scalar.
-/

namespace RowGuard

/-- Why a condition has no query. Its path is never the reason. -/
inductive ScopeError where
  | unsupportedValue (value : Value)
  | unorderedValue (op : Operator) (value : Value)
  | notNegatable (e : NotNegatable)
  | schema (e : SchemaError)
  | evaluation (e : EvalError)

/-- The text of the error. -/
def ScopeError.message : ScopeError → String
  | .unsupportedValue value => "unsupported filter value: " ++ value.display
  | .unorderedValue op value =>
    "unsupported filter value: " ++ op.name ++ " against " ++ value.display
  | .notNegatable e => e.message
  | .schema e => e.message
  | .evaluation e => "value resolution failed: " ++ e.message

/-- Whether the value is neither null nor a list nor a record. -/
def Value.isScalar : Value → Bool
  | .null | .list _ | .record _ => false
  | _ => true

/-- A value in a form that a filter can carry. -/
inductive FilterValue where
  /-- A null check. -/
  | null
  /-- The empty list. -/
  | empty
  /-- A scalar or a list of scalars. -/
  | value (v : Value)

namespace FilterValue

/-- The filter value that a list stands for: its identities if every item bears
one, and itself if all items are scalars. -/
def ofItems? (items : List Value) : Option FilterValue :=
  if items.isEmpty then some .empty
  else if items.all (·.identity?.isSome) then
    some (.value (.list (items.map Value.identityOrSelf)))
  else if items.all Value.isScalar then some (.value (.list items))
  else none

/-- The filter value that a value stands for. -/
def ofValue? : Value → Option FilterValue
  | .null => some .null
  | .list items => ofItems? items
  | .record r => r.id?.map .value
  | scalar => some (.value scalar)

/-- Whether the value is a single scalar or identity, which is all that an
ordering can be against. -/
def isSingle : FilterValue → Bool
  | .value v => !v.isList
  | .null | .empty => false

/-- The condition `aliasName.column op value`. The empty list excludes every
row, or none under the negative operators. -/
def filter (value : FilterValue) (aliasName column : String)
    (op : Operator) : Filter :=
  match value with
  | .null => .comparison aliasName column op .null
  | .empty => if op.isNegative then .always else .emptySet
  | .value v => .comparison aliasName column op v

end FilterValue

/-- The test at the end of a leaf's path. -/
structure Test where
  op : Operator
  value : FilterValue

namespace Test

/-- The test of an operator against a value, if a filter can make it. -/
def of (op : Operator) (value : Value) : Except ScopeError Test :=
  match FilterValue.ofValue? value with
  | none => .error (.unsupportedValue value)
  | some filterValue =>
    if op.isOrdering && !filterValue.isSingle then
      .error (.unorderedValue op value)
    else .ok ⟨op, filterValue⟩

/-- The test of a column. -/
def filter (t : Test) (aliasName column : String) : Filter :=
  t.value.filter aliasName column t.op

end Test

end RowGuard
