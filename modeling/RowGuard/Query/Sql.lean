import RowGuard.Query.Basic

/-!
# SQL

A query is written as a list of `SqlPiece`s: words, quoted names and parameters.
The text of the statement joins them, with a placeholder for every parameter,
and the parameters themselves follow in the order of their placeholders.
-/

namespace RowGuard

/-- A piece of a statement. -/
inductive SqlPiece where
  /-- Keywords, operators and punctuation, with the blanks around them. -/
  | word (text : String)
  /-- A name of a table, an alias or a column. -/
  | name (ident : String)
  /-- A value that is passed beside the text. -/
  | parameter (value : Value)

/-- A statement in pieces. -/
abbrev Sql := List SqlPiece

/-- A name between double quotes; a quote inside is written twice. -/
def quoteName (name : String) : String :=
  String.ofList <|
    '"' :: name.toList.flatMap
      (fun c => if c = '"' then ['"', '"'] else [c]) ++ ['"']

/-- The text of a piece. -/
def SqlPiece.text : SqlPiece → String
  | .word text => text
  | .name ident => quoteName ident
  | .parameter _ => "?"

/-- The value that a piece passes beside the text. -/
def SqlPiece.parameter? : SqlPiece → Option Value
  | .parameter value => some value
  | _ => none

namespace Sql

/-- The text of a statement. -/
def text (sql : Sql) : String :=
  String.join (sql.map SqlPiece.text)

/-- The parameters of a statement, in the order of their placeholders. -/
def parameters (sql : Sql) : List Value :=
  sql.filterMap SqlPiece.parameter?

/-- A column under an alias. -/
def column (aliasName name : String) : Sql :=
  [.name aliasName, .word ".", .name name]

/-- The pieces of several parts with a word between them. -/
def between (separator : String) : List Sql → Sql
  | [] => []
  | [part] => part
  | part :: parts => part ++ .word separator :: between separator parts

/-- A group of conditions: a constant if there is none, one alone as it is, and
more of them in parentheses. -/
def group (connective constant : String) : List Sql → Sql
  | [] => [.word constant]
  | [part] => part
  | parts =>
    .word "(" :: between (" " ++ connective ++ " ") parts ++ [.word ")"]

end Sql

/-- The keyword of a join. -/
def JoinKind.keyword : JoinKind → String
  | .inner => "INNER JOIN"
  | .left => "LEFT JOIN"

/-- The word between combined conditions. -/
def Combination.connective : Combination → String
  | .all => "AND"
  | .any => "OR"

/-- The word between combined selects. -/
def Combination.setOperator : Combination → String
  | .all => "INTERSECT"
  | .any => "UNION"

/-- The symbol of an operator before a single value. -/
def Operator.symbol : Operator → String
  | .eq | .mem => "="
  | .neq | .notMem => "<>"
  | .gt => ">"
  | .gte => ">="
  | .lt => "<"
  | .lte => "<="

/-- Writes a comparison: a null check, a membership test or a comparison with
one value. Membership in no list is constant, and so is an ordering against a
list. -/
def comparisonSql (target : Sql) (op : Operator) : Value → Sql
  | .null =>
    target ++ [.word (if op.isNegative then " IS NOT NULL" else " IS NULL")]
  | .list items =>
    if op.isOrdering then [.word "1 = 0"]
    else if items.isEmpty then
      [.word (if op.isNegative then "1 = 1" else "1 = 0")]
    else
      target ++ .word (if op.isNegative then " NOT IN (" else " IN (") ::
        Sql.between ", " (items.map fun item => [.parameter item]) ++
          [.word ")"]
  | value => target ++ [.word (" " ++ op.symbol ++ " "), .parameter value]

/-- Writes a join. -/
def Join.sql (j : Join) : Sql :=
  [.word (" " ++ j.kind.keyword ++ " "), .name j.table, .word " AS ",
    .name j.aliasName,
    .word " ON "] ++ Sql.column j.aliasName j.column ++ [.word " = "] ++
    Sql.column j.parentAlias j.parentColumn

/-- Writes the columns that a select yields. -/
def Projection.sql (projection : Projection)
    (aliasName identity : String) : Sql :=
  match projection with
  | .all => [.name aliasName, .word ".*"]
  | .identity => Sql.column aliasName identity

mutual

/-- Writes a filter. -/
def Filter.sql : Filter → Sql
  | .comparison aliasName column op value =>
    comparisonSql (Sql.column aliasName column) op value
  | .emptySet => [.word "1 = 0"]
  | .and parts =>
    Sql.group Combination.all.connective "1 = 1" (filtersSql parts)
  | .or parts => Sql.group Combination.any.connective "1 = 0" (filtersSql parts)
  | .inSubquery aliasName column query =>
    Sql.column aliasName column ++ .word " IN (" :: query.sql ++ [.word ")"]

/-- Writes each of several filters. -/
def filtersSql : List Filter → List Sql
  | [] => []
  | part :: parts => part.sql :: filtersSql parts

/-- Writes a select. -/
def Select.sql : Select → Sql
  | ⟨_, table, aliasName, identity, projection, distinct, joins, filter⟩ =>
    [.word "SELECT "] ++ (if distinct then [.word "DISTINCT "] else []) ++
      projection.sql aliasName identity ++
      [.word " FROM ", .name table, .word " AS ", .name aliasName] ++
      joins.flatMap Join.sql ++ whereSql filter

/-- Writes the condition of a select, if it has one. -/
def whereSql : Option Filter → Sql
  | none => []
  | some filter => .word " WHERE " :: filter.sql

/-- Writes combined selects. -/
def Compound.sql : Compound → Sql
  | ⟨combination, members⟩ =>
    Sql.between (" " ++ combination.setOperator ++ " ") (selectsSql members)

/-- Writes each of several selects. -/
def selectsSql : List Select → List Sql
  | [] => []
  | member :: members => member.sql :: selectsSql members

end

end RowGuard
