import RowGuard.Expression.Basic
import RowGuard.Schema.Entity
import RowGuard.Value.Equality

/-!
# Queries

A `Select` reads the rows of one table, joined with others under aliases and
narrowed by a `Filter`. A `Compound` combines selects of identities, and a
filter may ask whether a column is among them.
-/

namespace RowGuard

/-- What becomes of a row to which nothing is joined. -/
inductive JoinKind where
  /-- It is dropped. -/
  | inner
  /-- It stays, with nulls. -/
  | left
deriving DecidableEq, Repr

/-- A table joined on `aliasName.column = parentAlias.parentColumn`. -/
structure Join where
  kind : JoinKind
  entity : String
  table : String
  aliasName : String
  column : String
  parentAlias : String
  parentColumn : String
deriving DecidableEq, Repr

/-- Whether two joins bring in the same rows under the same alias, whatever
their kinds. -/
def Join.sameBinding (j k : Join) : Bool :=
  { j with kind := .left } == { k with kind := .left }

/-- How conditions or sets of rows are combined. -/
inductive Combination where
  | all
  | any
deriving DecidableEq, Repr

/-- Which columns a select yields. -/
inductive Projection where
  /-- All columns of the root table. -/
  | all
  /-- Its identity. -/
  | identity
deriving DecidableEq, Repr

mutual

/-- A condition on joined rows. -/
inductive Filter where
  /-- Compares `aliasName.column` with a value. Null stands for a null check and
  a list for a membership test. -/
  | comparison (aliasName column : String) (op : Operator) (value : Value)
  /-- Never holds. -/
  | emptySet
  /-- Every part holds. -/
  | and (parts : List Filter)
  /-- Some part holds. -/
  | or (parts : List Filter)
  /-- `aliasName.column` is among the identities that a query yields. -/
  | inSubquery (aliasName column : String) (query : Compound)

/-- The rows of a root table that have a match for the joins and the filter. -/
structure Select where
  entity : String
  table : String
  aliasName : String
  identity : String
  projection : Projection
  distinct : Bool
  joins : List Join
  filter : Option Filter

/-- The union or the intersection of several selects. -/
structure Compound where
  combination : Combination
  members : List Select

end

namespace Filter

/-- Always holds. -/
def always : Filter := .and []

/-- Whether the filter is the one that never holds. -/
def isEmptySet : Filter → Bool
  | .emptySet => true
  | _ => false

end Filter

/-- Every row of an entity's table. -/
def Select.fromEntity (e : Entity) (aliasName : String) : Select where
  entity := e.name
  table := e.tableName
  aliasName
  identity := e.identity
  projection := .all
  distinct := false
  joins := []
  filter := none

/-- Combines selects, each of which then yields its identity. -/
def Compound.ofSelects (combination : Combination)
    (members : List Select) : Compound :=
  ⟨combination, members.map fun s => { s with projection := .identity }⟩

/-- The union or intersection of selects that each have a root of their own, if
there are any. -/
def combineSelects (combination : Combination) (members : List Select) :
    Option Compound :=
  if members.isEmpty then none else some (.ofSelects combination members)

/-! ## Sameness -/

mutual

/-- Whether two filters are the same, up to `Value.same` on the values. -/
def Filter.same : Filter → Filter → Bool
  | .comparison aliasName column op value,
    .comparison aliasName' column' op' value' =>
    aliasName == aliasName' && column == column' && op == op' &&
      value.same value'
  | .emptySet, .emptySet => true
  | .and parts, .and parts' => sameFilters parts parts'
  | .or parts, .or parts' => sameFilters parts parts'
  | .inSubquery aliasName column query, .inSubquery aliasName' column' query' =>
    aliasName == aliasName' && column == column' && query.same query'
  | _, _ => false

/-- Whether two lists of filters are the same. -/
def sameFilters : List Filter → List Filter → Bool
  | [], [] => true
  | f :: fs, g :: gs => f.same g && sameFilters fs gs
  | _, _ => false

/-- Whether two selects are the same. -/
def Select.same : Select → Select → Bool
  | ⟨entity, table, aliasName, identity, projection, distinct, joins, filter⟩,
    other =>
    entity == other.entity && table == other.table && aliasName ==
      other.aliasName &&
      identity == other.identity && projection == other.projection &&
      distinct == other.distinct && joins == other.joins &&
      sameOptionalFilter filter other.filter

/-- Whether two optional filters are the same. -/
def sameOptionalFilter : Option Filter → Option Filter → Bool
  | none, none => true
  | some f, some g => f.same g
  | _, _ => false

/-- Whether two combinations of selects are the same. -/
def Compound.same : Compound → Compound → Bool
  | ⟨combination, members⟩, other =>
    combination == other.combination && sameSelects members other.members

/-- Whether two lists of selects are the same. -/
def sameSelects : List Select → List Select → Bool
  | [], [] => true
  | s :: ss, t :: ts => s.same t && sameSelects ss ts
  | _, _ => false

end

end RowGuard
