import RowGuard.Json.Basic
import RowGuard.Value.Basic

/-!
# Values in JSON

A value has its natural JSON form. The entity of a record stands among its
fields under the name `__entity`, which is therefore never a field when a value
is read. Integers that fit into 64 bits are read as such and every other number
as a double.
-/

namespace RowGuard

/-- The name under which JSON keeps the entity of a record. -/
def entityKey : String := "__entity"

/-- The value of a number: an integer if it fits into a signed word. -/
def Number.toValue : Number → Value
  | .int n _ =>
    if n < 0x8000000000000000 then .int64 (Int64.ofInt n)
      else .float64 (Float.ofInt n)
  | .float x _ => .float64 x

/-- The entity named by the members of an object; a name that is no string
counts as none, and a later member replaces an earlier one. -/
def entityOfMembers (members : List (String × Json)) : Option String :=
  members.foldl
    (fun entity member =>
      if member.1 == entityKey then member.2.string? else entity)
    none

mutual

/-- Reads a value from JSON. -/
def Value.ofJson : Json → Value
  | .null => .null
  | .bool b => .bool b
  | .number n => n.toValue
  | .string s => .string s
  | .array items => .list (valuesOfItems items)
  | .object members =>
    .record ⟨entityOfMembers members, fieldsOfMembers members⟩

/-- Reads the items of an array. -/
def valuesOfItems : List Json → List Value
  | [] => []
  | item :: items => Value.ofJson item :: valuesOfItems items

/-- Reads the members of an object other than the entity. -/
def fieldsOfMembers : List (String × Json) → List (String × Value)
  | [] => []
  | (name, json) :: members =>
    if name == entityKey then fieldsOfMembers members
    else (name, Value.ofJson json) :: fieldsOfMembers members

end

mutual

/-- Writes a value as JSON. Members are sorted by name; a double that is not
finite becomes null. -/
def Value.toJson : Value → Json
  | .null => .null
  | .bool b => .bool b
  | .int32 n => .number (.ofInt64 n.toInt64)
  | .int64 n => .number (.ofInt64 n)
  | .timestamp t => .number (.ofInt64 t)
  | .float64 x => (Number.ofFloat? x).elim .null .number
  | .string s => .string s
  | .list items => .array (jsonItems items)
  | .record ⟨entity, fields⟩ =>
    let entityMember := entity.elim [] fun name =>
      [(entityKey, Json.string name)]
    .object (Json.sortMembers (entityMember ++ jsonFields fields))

/-- Writes the items. -/
def jsonItems : List Value → List Json
  | [] => []
  | item :: items => item.toJson :: jsonItems items

/-- Writes the fields in their order. -/
def jsonFields : List (String × Value) → List (String × Json)
  | [] => []
  | (name, value) :: fields => (name, value.toJson) :: jsonFields fields

end

end RowGuard
