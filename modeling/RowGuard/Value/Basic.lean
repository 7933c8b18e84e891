/-!
# Values and records

A `Value` is what a filter compares with and what a loaded row holds: a scalar,
a list or a `Record`. A record that names its entity is an instance of it; one
that does not is a plain map. The field `id` identifies an instance.
-/

namespace RowGuard

mutual

/-- A runtime value. -/
inductive Value where
  | null
  | bool (b : Bool)
  | int32 (n : Int32)
  | int64 (n : Int64)
  | float64 (x : Float)
  | string (s : String)
  /-- Microseconds since the start of 1970. -/
  | timestamp (t : Int64)
  | list (items : List Value)
  | record (r : Record)

/-- Named values in the order in which they were set, with the entity of which
they are an instance, if any. -/
structure Record where
  entity : Option String
  fields : List (String × Value)

end

instance : Inhabited Value := ⟨.null⟩

/-- The field that identifies an instance. -/
def identityField : String := "id"

/-! ## Records -/

namespace Record

/-- An instance of an entity without fields. -/
def new (entity : String) : Record := ⟨some entity, []⟩

/-- A plain map without fields. -/
def map : Record := ⟨none, []⟩

/-- The value of a field; of several with one name the first counts. -/
def get? (r : Record) (name : String) : Option Value :=
  r.fields.lookup name

/-- The value of a field, or null if there is none. -/
def getOrNull (r : Record) (name : String) : Value :=
  (r.get? name).getD .null

/-- Whether the record has the field, even if it is null. -/
def contains (r : Record) (name : String) : Bool :=
  r.fields.any (·.1 == name)

/-- Replaces the first field called `name`, or adds one at the end. -/
def setField (name : String) (value : Value) :
    List (String × Value) → List (String × Value)
  | [] => [(name, value)]
  | field :: fields =>
    if field.1 == name then (name, value) :: fields
    else field :: setField name value fields

/-- The record with the field set. -/
def set (r : Record) (name : String) (value : Value) : Record :=
  { r with fields := setField name value r.fields }

end Record

/-! ## Views of a value -/

namespace Value

/-- Whether the value is null. -/
def isNull : Value → Bool
  | .null => true
  | _ => false

/-- Whether the value is a list. -/
def isList : Value → Bool
  | .list _ => true
  | _ => false

/-- The truth value of a Boolean. -/
def bool? : Value → Option Bool
  | .bool b => some b
  | _ => none

/-- The value of an integer of either width. -/
def int? : Value → Option Int64
  | .int64 n => some n
  | .int32 n => some n.toInt64
  | _ => none

/-- The value of a number, as a double. -/
def float? : Value → Option Float
  | .float64 x => some x
  | .int64 n => some n.toFloat
  | .int32 n => some n.toInt64.toFloat
  | _ => none

/-- The text of a string. -/
def string? : Value → Option String
  | .string s => some s
  | _ => none

/-- The items of a list. -/
def items? : Value → Option (List Value)
  | .list items => some items
  | _ => none

/-- The record in a value. -/
def record? : Value → Option Record
  | .record r => some r
  | _ => none

/-- The entity of which the value is an instance. -/
def entity? : Value → Option String
  | .record r => r.entity
  | _ => none

end Value

/-- The identity of a record: its field `id`, unless that is null. -/
def Record.id? (r : Record) : Option Value :=
  (r.get? identityField).filter (!·.isNull)

namespace Value

/-- The identity of a value that bears one, which only records do. -/
def identity? : Value → Option Value
  | .record r => r.id?
  | _ => none

/-- The identity of the value, or the value itself if it bears none. -/
def identityOrSelf (v : Value) : Value :=
  v.identity?.getD v

/-- The value as a list: null is empty and any other value is one item. -/
def toItems : Value → List Value
  | .list items => items
  | .null => []
  | v => [v]

/-! ## Conversions -/

/-- A string, or null where there is none. -/
def ofOption {α : Type} (f : α → Value) : Option α → Value
  | some a => f a
  | none => .null

/-- The list of the converted items. -/
def ofList {α : Type} (f : α → Value) (items : List α) : Value :=
  .list (items.map f)

end Value

end RowGuard
