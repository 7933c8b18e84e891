import RowGuard.Query.Fragment
import RowGuard.Value.Tagged

/-!
# Queries in JSON

Queries and fragments are written as objects that name their parts, so that the
structure behind a statement can be shown. Their values carry tags, since the
width of a parameter matters to a database.
-/

namespace RowGuard

/-- Writes the kind of a join. -/
def JoinKind.toJson : JoinKind → Json
  | .inner => .string "inner"
  | .left => .string "left"

/-- Writes a join. -/
def Join.toJson (j : Join) : Json :=
  .object [("kind", j.kind.toJson), ("target_entity", .string j.entity),
    ("target_table", .string j.table), ("alias", .string j.aliasName),
    ("join_column", .string j.column), ("parent_alias", .string j.parentAlias),
    ("parent_column", .string j.parentColumn)]

/-- Writes a combination. -/
def Combination.toJson : Combination → Json
  | .all => .string "all"
  | .any => .string "any"

/-- Writes a projection. -/
def Projection.toJson : Projection → Json
  | .all => .string "all"
  | .identity => .string "identity"

mutual

/-- Writes a filter. -/
def Filter.toJson : Filter → Json
  | .comparison aliasName column op value =>
    .object [("comparison",
      .object [("alias", .string aliasName), ("column", .string column),
        ("op", .string op.name), ("value", value.tagged)])]
  | .emptySet => .string "empty_set"
  | .and parts => .object [("and", .array (filtersToJson parts))]
  | .or parts => .object [("or", .array (filtersToJson parts))]
  | .inSubquery aliasName column query =>
    .object [("in_subquery",
      .object [("alias", .string aliasName), ("column", .string column),
        ("query", query.toJson)])]

/-- Writes filters. -/
def filtersToJson : List Filter → List Json
  | [] => []
  | part :: parts => part.toJson :: filtersToJson parts

/-- Writes a select. -/
def Select.toJson : Select → Json
  | ⟨entity, table, aliasName, identity, projection, distinct, joins, filter⟩ =>
    .object [("entity", .string entity), ("table", .string table),
      ("alias", .string aliasName), ("identity", .string identity),
      ("projection", projection.toJson), ("distinct", .bool distinct),
      ("joins", .array (joins.map Join.toJson)),
      ("filter", optionalFilterToJson filter)]

/-- Writes a filter or its absence. -/
def optionalFilterToJson : Option Filter → Json
  | none => .null
  | some filter => filter.toJson

/-- Writes combined selects. -/
def Compound.toJson : Compound → Json
  | ⟨combination, members⟩ =>
    .object [("combine", combination.toJson),
      ("queries", .array (selectsToJson members))]

/-- Writes selects. -/
def selectsToJson : List Select → List Json
  | [] => []
  | member :: members => member.toJson :: selectsToJson members

end

/-- Writes a fragment, with the condition in which its filters result. -/
def Fragment.toJson (f : Fragment) : Json :=
  .object [("joins", .array (f.joins.map Join.toJson)),
    ("filters", .array (filtersToJson f.filters)),
    ("is_empty_set", .bool f.isEmptySet), ("predicate", f.predicate.toJson)]

end RowGuard
