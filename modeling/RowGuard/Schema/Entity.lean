import RowGuard.Value.Basic

/-!
# Entities

An `Entity` describes one kind of row: its table, the column that identifies a
row, its attributes and its relations to other entities. What is not given has a
default that follows from a name.
-/

namespace RowGuard

/-- The kind of scalar that an attribute holds. -/
inductive ScalarKind where
  | bool
  | integer
  | float
  | string
  | timestamp
  | id
deriving DecidableEq, Repr

/-- A field that is kept in a column. -/
structure Attribute where
  name : String
  kind : ScalarKind
  column : Option String
deriving DecidableEq, Repr

/-- The column of an attribute; by default it is called like the attribute. -/
def Attribute.columnName (a : Attribute) : String :=
  a.column.getD a.name

/-- On which side of a relation the foreign key is kept. -/
inductive RelationKind where
  /-- The row holds the key of one parent. -/
  | belongsTo
  /-- Children hold the key of the row. -/
  | hasMany
deriving DecidableEq, Repr

/-- A field that leads to rows of another entity. -/
structure Relation where
  name : String
  kind : RelationKind
  column : Option String
  target : String
  /-- The relation of the target that points back, for children. -/
  inverse : Option String
  /-- Whether the foreign key may be null. -/
  optional : Bool
deriving DecidableEq, Repr

namespace Relation

/-- The foreign key that a relation of this name has by default. -/
def defaultKey (name : String) : String := name ++ "_id"

/-- The column of the foreign key. -/
def foreignKey (r : Relation) : String :=
  r.column.getD (defaultKey r.name)

/-- A parent that is always there. -/
def parent (name target : String) : Relation :=
  { name, kind := .belongsTo, column := none, target, inverse := none,
    optional := false }

/-- Children that point back through `inverse`. -/
def children (name target inverse : String) : Relation :=
  { name, kind := .hasMany, column := none, target, inverse := some inverse,
    optional := true }

/-- The relation with a foreign key that may be null. Children are so from the
start. -/
def nullable (r : Relation) : Relation := { r with optional := true }

@[simp] theorem nullable_children (name target inverse : String) :
    (children name target inverse).nullable =
      children name target inverse := rfl

end Relation

/-- One kind of row. -/
structure Entity where
  name : String
  table : Option String
  /-- The column that identifies a row. -/
  identity : String
  attributes : List Attribute
  relations : List Relation
deriving DecidableEq, Repr

namespace Entity

/-- An entity without fields, identified by the column `id`. -/
def new (name : String) : Entity :=
  { name, table := none, identity := identityField, attributes := [],
    relations := [] }

/-- The table of an entity; by default it is called like the entity. -/
def tableName (e : Entity) : String :=
  e.table.getD e.name

/-- The attribute of a name; of several the first counts. -/
def attribute? (e : Entity) (name : String) : Option Attribute :=
  e.attributes.find? (·.name == name)

/-- The relation of a name; of several the first counts. -/
def relation? (e : Entity) (name : String) : Option Relation :=
  e.relations.find? (·.name == name)

/-- The relations to a parent, in the order of their declaration. -/
def parents (e : Entity) : List Relation :=
  e.relations.filter (·.kind == .belongsTo)

end Entity

end RowGuard
