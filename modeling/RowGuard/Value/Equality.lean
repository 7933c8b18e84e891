import RowGuard.Value.Basic

/-!
# Sameness of values

`Value.same` holds of two values with the same constructor and the same content.
Widths of integers are told apart and so is the order of fields. Doubles follow
their own equality, so a value that holds NaN is not the same as itself and the
two zeros are the same.
-/

namespace RowGuard

mutual

/-- Whether two values are the same. -/
def Value.same : Value → Value → Bool
  | .null, .null => true
  | .bool a, .bool b => a == b
  | .int32 a, .int32 b => a == b
  | .int64 a, .int64 b => a == b
  | .float64 a, .float64 b => a == b
  | .string a, .string b => a == b
  | .timestamp a, .timestamp b => a == b
  | .list as, .list bs => sameItems as bs
  | .record r, .record s => r.same s
  | _, _ => false

/-- Whether two records have the same entity and the same fields in the same
order. -/
def Record.same : Record → Record → Bool
  | ⟨entity, fields⟩, ⟨entity', fields'⟩ =>
    entity == entity' && sameFields fields fields'

/-- Whether two lists have the same items. -/
def sameItems : List Value → List Value → Bool
  | [], [] => true
  | a :: as, b :: bs => a.same b && sameItems as bs
  | _, _ => false

/-- Whether two lists have the same fields. -/
def sameFields : List (String × Value) → List (String × Value) → Bool
  | [], [] => true
  | (n, a) :: as, (m, b) :: bs => n == m && a.same b && sameFields as bs
  | _, _ => false

end

end RowGuard
