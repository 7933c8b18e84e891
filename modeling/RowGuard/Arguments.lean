import RowGuard.Command

/-!
# Arguments

The words on a command line are options and positions. Options may stand
anywhere before a bare `--`; the first position names the command and the others
are its arguments in order.
-/

namespace RowGuard

/-- A command line, taken apart. -/
structure Arguments where
  format : ReportFormat
  /-- Whether every path is asked for. -/
  all : Bool
  actor : Option String
  positions : List String
deriving DecidableEq, Repr

namespace Arguments

/-- No arguments. -/
def empty : Arguments := ⟨.table, false, none, []⟩

/-- The words for formats. -/
def formats : List (String × ReportFormat) :=
  [("table", .table), ("json", .json)]

/-- Cuts an option and its value apart if an equals sign joins them. -/
def cutOption (word : String) : List String :=
  match word.toList with
  | '-' :: '-' :: rest =>
    match rest.span (· ≠ '=') with
    | (name, '=' :: value) => ["--" ++ String.ofList name, String.ofList value]
    | _ => [word]
  | _ => [word]

/-- Cuts the options before a bare `--`. -/
def cutOptions : List String → List String
  | [] => []
  | "--" :: positions => "--" :: positions
  | word :: words => cutOption word ++ cutOptions words

/-- Takes words apart, once options and values are cut; there is no result for
an option that is not known or lacks its value. -/
def ofWords? : List String → Option Arguments
  | [] => some empty
  | "--" :: positions => some { empty with positions }
  | "--all" :: words => do return { (← ofWords? words) with all := true }
  | "--actor" :: file :: words =>
    do return { (← ofWords? words) with actor := some file }
  | "--format" :: format :: words => do
    let format ← formats.lookup format
    return { (← ofWords? words) with format }
  | word :: words =>
    if word.toList.take 2 = ['-', '-'] then none
    else do
      let rest ← ofWords? words
      return { rest with positions := word :: rest.positions }

/-- The command that the arguments ask for. Only a command that has an option
may be given it. -/
def command? (a : Arguments) : Option Command :=
  match a.positions, a.all, a.actor with
  | ["paths", schema, entity, field], all, none =>
    some (.paths schema entity field all)
  | ["graph", schema], false, none => some (.graph schema)
  | ["compile", schema, entity, expression], false, actor =>
    some (.compile schema entity expression actor)
  | ["scope", schema, policies, entity, action], false, actor =>
    some (.scope schema policies entity action actor)
  | ["eval", schema, store, entity, id, path], false, none =>
    some (.eval schema store entity id path)
  | _, _, _ => none

/-- The format and the command of a command line. -/
def read? (words : List String) : Option (ReportFormat × Command) := do
  let arguments ← ofWords? (cutOptions words)
  return (arguments.format, ← arguments.command?)

/-- How the command line is used. -/
def usage : String :=
  "\n".intercalate
    ["usage: rowguard [--format table|json] COMMAND",
      "  paths SCHEMA ENTITY FIELD [--all]",
      "  graph SCHEMA",
      "  compile SCHEMA ENTITY EXPRESSION [--actor FILE]",
      "  scope SCHEMA POLICIES ENTITY ACTION [--actor FILE]",
      "  eval SCHEMA STORE ENTITY ID PATH"]

end Arguments

end RowGuard
