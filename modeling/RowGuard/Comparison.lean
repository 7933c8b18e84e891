import RowGuard.Expression.Basic
import RowGuard.Value.Display
import RowGuard.Value.Equality

/-!
# Comparing values under an operator

A value that bears an identity compares by it, also with a bare identity. On the
left a list stands for any of its items, and an empty one agrees with
everything. Integers compare by value whatever their width, and with doubles as
doubles. Values without an order between them are `Incomparable`.
-/

namespace RowGuard

/-- The numerical value of an integer of either width. -/
def Value.toInt? : Value → Option Int
  | .int32 n => some n.toInt
  | .int64 n => some n.toInt
  | _ => none

/-- Equality of two values that are not both lists. -/
def Value.atomsEqual : Value → Value → Bool
  | .float64 a, .float64 b => a == b
  | .float64 a, .int32 b => a == b.toInt64.toFloat
  | .float64 a, .int64 b => a == b.toFloat
  | .int32 a, .float64 b => a.toInt64.toFloat == b
  | .int64 a, .float64 b => a.toFloat == b
  | .int32 a, .int64 b => a.toInt64 == b
  | .int64 a, .int32 b => a == b.toInt64
  | a, b => a.same b

mutual

/-- Whether two values agree: identities count for the values that bear them,
and a list on the left agrees if it is empty or one of its items does. -/
def Value.agrees : Value → Value → Bool
  | .list items, right => items.isEmpty || anyAgrees items right
  | .record ⟨entity, fields⟩, right =>
    (identityEquals fields right.identityOrSelf).getD
      (Value.atomsEqual (.record ⟨entity, fields⟩) right.identityOrSelf)
  | left, right => left.atomsEqual right.identityOrSelf

/-- Whether one of the items agrees with a value. -/
def anyAgrees : List Value → Value → Bool
  | [], _ => false
  | item :: items, right => item.agrees right || anyAgrees items right

/-- Equality of values as they stand. Lists are equal if they have as many items
and these agree in pairs. -/
def Value.equals : Value → Value → Bool
  | .list as, .list bs => allAgree as bs
  | a, b => a.atomsEqual b

/-- Whether two lists have as many items and these agree in pairs. -/
def allAgree : List Value → List Value → Bool
  | [], [] => true
  | a :: as, b :: bs => a.agrees b && allAgree as bs
  | _, _ => false

/-- Whether the identity among the fields equals a value, if there is one. -/
def identityEquals : List (String × Value) → Value → Option Bool
  | [], _ => none
  | (name, value) :: fields, right =>
    if name == identityField then
      if value.isNull then none else some (value.equals right)
    else identityEquals fields right

end

/-- `identityEquals` compares the identity of the record with these fields. -/
theorem identityEquals_eq (entity : Option String)
    (fields : List (String × Value)) (right : Value) :
    identityEquals fields right =
      (Record.id? ⟨entity, fields⟩).map (·.equals right) := by
  simp only [Record.id?, Record.get?]
  induction fields with
  | nil => simp [identityEquals]
  | cons field fields ih =>
    obtain ⟨name, value⟩ := field
    simp only [identityEquals, List.lookup_cons, ih]
    by_cases h : name = identityField
    · subst h
      by_cases null : value.isNull <;> simp [null, Option.filter]
    · have unequal : (identityField == name) = false := by simp [Ne.symm h]
      simp [h, unequal]

/-- A value that is no list agrees with another if their identities, or else the
values themselves, are equal. -/
theorem Value.agrees_eq_equals {left : Value} (single : left.isList = false)
    (right : Value) :
    left.agrees right = left.identityOrSelf.equals right.identityOrSelf := by
  cases left with
  | list items => simp [Value.isList] at single
  | record r =>
    obtain ⟨entity, fields⟩ := r
    simp only [Value.agrees, identityEquals_eq entity, Value.identityOrSelf,
      Value.identity?]
    cases Record.id? ⟨entity, fields⟩ with
    | none => simp [Value.equals]
    | some id => simp
  | _ =>
    simp [Value.agrees, Value.equals, Value.identityOrSelf, Value.identity?]

/-- The identities or scalars that a value stands for in a membership test. -/
def Value.normalize : Value → List Value
  | .list items => items.map Value.identityOrSelf
  | .null => []
  | v => [v.identityOrSelf]

/-- Whether two values have an identity or scalar in common. -/
def Value.intersects (left right : Value) : Bool :=
  left.normalize.any fun l => right.normalize.any fun r => l.equals r

/-- The order of two doubles; NaN has none. -/
def floatOrder? (a b : Float) : Option Ordering :=
  if a < b then some .lt
  else if b < a then some .gt
  else if a == b then some .eq
  else none

/-- The order of two numbers, two strings or two timestamps. Two integers
compare by value; a double and an integer compare as doubles. -/
def Value.order? (left right : Value) : Option Ordering :=
  match left, right with
  | .string a, .string b => some (compare a b)
  | .timestamp a, .timestamp b => some (compare a.toInt b.toInt)
  | _, _ =>
    match left.toInt?, right.toInt? with
    | some a, some b => some (compare a b)
    | _, _ => do floatOrder? (← left.float?) (← right.float?)

/-- Operands without an order between them. -/
structure Incomparable where
  op : Operator
  left : Value
  right : Value

/-- The text of the error. -/
def Incomparable.message (e : Incomparable) : String :=
  "cannot compare " ++ e.left.display ++ " " ++ e.op.name ++
    " " ++ e.right.display

/-- Whether an ordering operator holds of an order; the other operators do
not. -/
def Operator.holdsOf : Operator → Ordering → Bool
  | .gt, order => order.isGT
  | .gte, order => order.isGE
  | .lt, order => order.isLT
  | .lte, order => order.isLE
  | _, _ => false

/-- Whether `left op right` holds. -/
def Operator.compare (op : Operator) (left right : Value) :
    Except Incomparable Bool :=
  match op with
  | .eq => .ok (left.agrees right)
  | .neq => .ok (!left.agrees right)
  | .mem => .ok (left.intersects right)
  | .notMem => .ok (!left.intersects right)
  | .gt | .gte | .lt | .lte =>
    match left.order? right with
    | some order => .ok (op.holdsOf order)
    | none => .error ⟨op, left, right⟩

end RowGuard
