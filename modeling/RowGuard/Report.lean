import RowGuard.Graph.Basic
import RowGuard.Json.Printer
import RowGuard.Query.Sql
import RowGuard.Text.Table
import RowGuard.Value.Display
import RowGuard.Value.Json

/-!
# Reports

Results are shown as tables for people or as indented JSON for programs.
-/

namespace RowGuard

open Text

/-- How results are shown. -/
inductive ReportFormat where
  | table
  | json
deriving DecidableEq, Repr

namespace Report

/-- A row that starts with its number, counted from one. -/
def numbered (rows : List (List String)) : List (List String) :=
  rows.zipIdx.map fun (row, i) => toString (i + 1) :: row

/-- Paths as a table. -/
def pathsTable (paths : List (List String)) : String :=
  if paths.isEmpty then "No path"
  else
    let row (names : List String) : List String :=
      [if names.isEmpty then "(self)" else ".".intercalate names,
        toString names.length]
    Table.render ⟨["#", "Path", "Hops"], numbered (paths.map row)⟩

/-- A statement, followed by a table of its parameters. -/
def sqlTable (sql : Sql) : String :=
  if sql.parameters.isEmpty then sql.text
  else
    let rows := sql.parameters.map fun value => [value.display]
    sql.text ++ "\n\n" ++ Table.render ⟨["Param", "Value"], numbered rows⟩

/-- The edges of a graph with the texts of their ends, in the order of the
vertices. -/
def edgeTexts (g : EntityGraph) : List (String × String × Nat) :=
  (g.vertices.zip g.edges).flatMap fun (source, edges) =>
    edges.map fun edge =>
      (source.display, (g.vertex? edge.target).elim "" Vertex.display,
        edge.weight)

/-- A graph as a table of its edges. -/
def graphTable (g : EntityGraph) : String :=
  let rows := (edgeTexts g).map fun (source, target, weight) =>
    [source, target, toString weight]
  Table.render ⟨["From", "To", "Weight"], rows⟩ ++ "\n" ++
    toString g.vertexCount ++ " vertices, " ++ toString g.edgeCount ++ " edges"

/-- A list as a table and any other value as its text. -/
def valueTable (value : Value) : String :=
  match value with
  | .list items =>
    Table.render ⟨["Value"], items.map fun item => [item.display]⟩
  | value => value.display

/-- Paths as JSON. -/
def pathsJson (paths : List (List String)) : Json :=
  .array (paths.map fun names => .array (names.map .string))

/-- A statement with its parameters as JSON. -/
def sqlJson (sql : Sql) : Json :=
  .object [("params", .array (sql.parameters.map Value.toJson)),
    ("sql", .string sql.text)]

/-- A graph as JSON. -/
def graphJson (g : EntityGraph) : Json :=
  let edges := (edgeTexts g).map fun (source, target, weight) =>
    Json.object
      [("from", .string source), ("to", .string target),
        ("weight", .count weight)]
  .object [("edges", .array edges), ("vertices", .count g.vertexCount)]

/-- Shows paths. -/
def paths (format : ReportFormat) (paths : List (List String)) : String :=
  match format with
  | .table => pathsTable paths
  | .json => (pathsJson paths).pretty

/-- Shows a statement. -/
def sql (format : ReportFormat) (sql : Sql) : String :=
  match format with
  | .table => sqlTable sql
  | .json => (sqlJson sql).pretty

/-- Shows a graph. -/
def graph (format : ReportFormat) (g : EntityGraph) : String :=
  match format with
  | .table => graphTable g
  | .json => (graphJson g).pretty

/-- Shows a value. -/
def value (format : ReportFormat) (value : Value) : String :=
  match format with
  | .table => valueTable value
  | .json => value.toJson.pretty

end Report

end RowGuard
