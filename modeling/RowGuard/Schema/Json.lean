import RowGuard.Json.Document
import RowGuard.Schema.Basic

/-!
# Schemas in JSON

A schema is the array of its entities. Optional parts that are absent are not
written; parts with a default are.
-/

namespace RowGuard

open Document

/-- A member that is written only if it is there. -/
def optionalMember (name : String) (value : Option String) :
    List (String × Json) :=
  value.elim [] fun text => [(name, .string text)]

/-- The words for kinds of scalars. -/
def ScalarKind.words : List (String × ScalarKind) :=
  [("bool", .bool), ("integer", .integer), ("float", .float),
    ("string", .string), ("timestamp", .timestamp), ("id", .id)]

/-- The word for a kind of scalar. -/
def ScalarKind.word : ScalarKind → String
  | .bool => "bool"
  | .integer => "integer"
  | .float => "float"
  | .string => "string"
  | .timestamp => "timestamp"
  | .id => "id"

/-- The words for kinds of relations. -/
def RelationKind.words : List (String × RelationKind) :=
  [("belongs_to", .belongsTo), ("has_many", .hasMany)]

/-- The word for a kind of relation. -/
def RelationKind.word : RelationKind → String
  | .belongsTo => "belongs_to"
  | .hasMany => "has_many"

/-- Writes an attribute. -/
def Attribute.toJson (a : Attribute) : Json :=
  .object <|
    [("name", .string a.name), ("kind", .string a.kind.word)] ++
      optionalMember "column" a.column

/-- Writes a relation. -/
def Relation.toJson (r : Relation) : Json :=
  .object <|
    [("name", .string r.name), ("kind", .string r.kind.word)] ++
      optionalMember "column" r.column ++ [("target", .string r.target)] ++
      optionalMember "inverse" r.inverse ++ [("optional", .bool r.optional)]

/-- Writes an entity. -/
def Entity.toJson (e : Entity) : Json :=
  .object <|
    [("name", .string e.name)] ++ optionalMember "table" e.table ++
      [("identity", .string e.identity),
        ("attributes", .array (e.attributes.map Attribute.toJson)),
        ("relations", .array (e.relations.map Relation.toJson))]

/-- Reads an attribute. -/
def Attribute.read? (document : Document) : Option Attribute := do
  let [name, kind, column] ← document.fields? ["name", "kind", "column"] | none
  return {
    name := ← required? string? name
    kind := ← default? .string (word? ScalarKind.words) kind
    column := ← optional? string? column }

/-- Reads a relation. -/
def Relation.read? (document : Document) : Option Relation := do
  let [name, kind, column, target, inverse, optional] ←
    document.fields? ["name", "kind", "column", "target", "inverse",
      "optional"] | none
  return {
    name := ← required? string? name
    kind := ← required? (word? RelationKind.words) kind
    column := ← optional? string? column
    target := ← required? string? target
    inverse := ← optional? string? inverse
    optional := ← default? false bool? optional }

/-- Reads an entity. -/
def Entity.read? (document : Document) : Option Entity := do
  let [name, table, identity, attributes, relations] ←
    document.fields? ["name", "table", "identity", "attributes",
      "relations"] | none
  return {
    name := ← required? string? name
    table := ← optional? string? table
    identity := ← default? identityField string? identity
    attributes := ← default? [] (items? Attribute.read?) attributes
    relations := ← default? [] (items? Relation.read?) relations }

/-- Reads the entities of a schema. -/
def readEntities? : Document → Option (List Entity) :=
  items? Entity.read?

end RowGuard
