import RowGuard.Evaluation.Fixture
import RowGuard.Graph.Simple
import RowGuard.Json.Parser
import RowGuard.Path.Dotted
import RowGuard.Policy
import RowGuard.Report
import RowGuard.Schema.Json

/-!
# Commands

A command reads documents from files, does one thing with them and shows the
result. The files are given as a function, so that running a command is a pure
computation.
-/

namespace RowGuard

/-- A command with its arguments; documents are named by their files. -/
inductive Command where
  /-- Shows the cheapest path from an entity to a field, or every path. -/
  | paths (schema entity field : String) (all : Bool)
  /-- Shows the graph of a schema. -/
  | graph (schema : String)
  /-- Shows the query of an expression. -/
  | compile (schema entity expression : String) (actor : Option String)
  /-- Shows the query of the policies for an entity and an action. -/
  | scope (schema policies entity action : String) (actor : Option String)
  /-- Shows the value at a path from a record of a store. -/
  | eval (schema store entity id path : String)
deriving DecidableEq, Repr

/-- Why a command fails. -/
inductive CommandError where
  | unreadable (file reason : String)
  | invalidJson (file : String)
  | schema (e : SchemaError)
  | scope (e : ScopeError)
  | evaluation (e : EvalError)
  | path (e : PathError)
  | notFound (entity id : String)

/-- The text of the error. -/
def CommandError.message : CommandError → String
  | .unreadable file reason => "cannot read " ++ file ++ ": " ++ reason
  | .invalidJson file => "invalid JSON in " ++ file
  | .schema e => e.message
  | .scope e => e.message
  | .evaluation e => e.message
  | .path e => e.message
  | .notFound entity id => "no " ++ entity ++ " with id " ++ id

/-- The text of each file, or the reason why it cannot be read. -/
abbrev Files := String → Except String String

namespace Files

/-- Reads a document. -/
def document {α : Type} (files : Files) (read : Document → Option α)
    (file : String) :
    Except CommandError α :=
  match files file with
  | .error reason => .error (.unreadable file reason)
  | .ok text =>
    match (Document.parse? text).bind read with
    | some document => .ok document
    | none => .error (.invalidJson file)

/-- Reads a schema. -/
def schema (files : Files) (file : String) : Except CommandError Schema := do
  let entities ← files.document readEntities? file
  (Schema.ofEntities entities).mapError .schema

/-- Reads an actor; without a file it is null. -/
def actor (files : Files) : Option String → Except CommandError Value
  | none => .ok .null
  | some file => return .ofJson (← files.document Document.toJson? file)

end Files

/-- The number written by decimal digits. -/
def natOfDigits? (digits : List Char) : Option Nat :=
  if digits.isEmpty then none
  else
    (digits.mapM Document.digit?).map
      (List.foldl (fun n digit => n * 10 + digit) 0)

/-- The integer that a text writes, with a sign or without one, if it fits into
a word. -/
def int64OfText? (text : String) : Option Int64 := do
  let n : Int ←
    match text.toList with
    | '-' :: digits => (natOfDigits? digits).map fun n => -n
    | '+' :: digits => (natOfDigits? digits).map Int.ofNat
    | digits => (natOfDigits? digits).map Int.ofNat
  if -0x8000000000000000 ≤ n && n < 0x8000000000000000 then some (Int64.ofInt n)
    else none

/-- The identity that a text stands for: an integer if it is one, else a
string. -/
def identityOfText (text : String) : Value :=
  match int64OfText? text with
  | some n => .int64 n
  | none => .string text

namespace Command

/-- Runs a computation in the session of a new request and keeps its result. -/
def runFresh {σ ε α : Type} (storage : σ)
    (m : ExceptT ε (StateM (Session σ)) α) :
    Except ε α :=
  (m.run.run (.start storage)).1

/-- A compiler without storage and settings. -/
def compiler (schema : Schema) : Compiler Unit :=
  { evaluator := { schema } }

/-- Runs a command. -/
def run (files : Files) (format : ReportFormat) :
    Command → Except CommandError String
  | .paths schema entity field all => do
    let schema ← files.schema schema
    let _ ← (schema.require entity).mapError .schema
    let graph := EntityGraph.ofSchema schema
    return Report.paths format <|
      if all then graph.allPaths entity field
      else (graph.shortestPath entity field).toList
  | .graph schema => do
    let schema ← files.schema schema
    return Report.graph format (.ofSchema schema)
  | .compile schema entity expression actor => do
    let schema ← files.schema schema
    let expression ← files.document Expression.read? expression
    let actor ← files.actor actor
    let query ← (runFresh ()
      ((compiler schema).select actor entity expression)).mapError .scope
    return Report.sql format query.sql
  | .scope schema policies entity action actor => do
    let schema ← files.schema schema
    let policies ← files.document PolicySet.read? policies
    let actor ← files.actor actor
    let query ← (runFresh ()
      (policies.select (compiler schema) actor entity action)).mapError .scope
    return Report.sql format query.sql
  | .eval schema store entity id path => do
    let schema ← files.schema schema
    let store ← files.document Store.read? store
    let path ← (Path.parse path).mapError .path
    let some subject := store.find? entity (identityOfText id)
      | .error (.notFound entity id)
    let evaluator : Evaluator Store :=
      { schema, loader := some (Store.loader 0) }
    let value ← (runFresh store
      (evaluator.evaluate path (.record subject))).mapError .evaluation
    return Report.value format value

/-- The files that a command reads. -/
def fileNames : Command → List String
  | .paths schema _ _ _ => [schema]
  | .graph schema => [schema]
  | .compile schema _ expression actor => [schema, expression] ++ actor.toList
  | .scope schema policies _ _ actor => [schema, policies] ++ actor.toList
  | .eval schema store _ _ _ => [schema, store]

end Command

end RowGuard
