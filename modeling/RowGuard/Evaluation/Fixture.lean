import RowGuard.Evaluation.Store
import RowGuard.Json.Document
import RowGuard.Value.Json

/-!
# Stores in JSON

A fixture is an object of tables: the name of an entity and the array of its
rows. Whatever entity a row names, it belongs to its table. Rows that are no
objects are left out.
-/

namespace RowGuard

/-- A row as an instance of an entity. -/
def Record.ofRow? (entity : String) : Json → Option Record
  | .object members => some ⟨some entity, fieldsOfMembers members⟩
  | _ => none

namespace Store

/-- Adds the rows of a table. -/
def insertTable (s : Store) (entity : String) (rows : List Json) : Store :=
  (rows.filterMap (Record.ofRow? entity)).foldl insert s

/-- Whether the document is an object of arrays. -/
def isFixture : Document → Bool
  | .object tables =>
    tables.all fun
      | (_, .array _) => true
      | _ => false
  | _ => false

/-- The store of a fixture; of two tables with one name the last counts. -/
def read? (document : Document) : Option Store := do
  let .object tables ← document.toJson? | none
  if isFixture document then
    return tables.foldl (fun s table =>
      match table.2 with
      | .array rows => s.insertTable table.1 rows
      | _ => s) empty
  else none

end Store

end RowGuard
