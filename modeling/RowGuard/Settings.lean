import RowGuard.Json.Parser
import RowGuard.Text.Uppercase
import RowGuard.Value.Json

/-!
# Settings

Conditions may compare with settings of an application. `Settings` is any source
of them; they come from a list of entries, or from environment variables whose
names are built from application, environment and key.
-/

namespace RowGuard

/-- A source of settings, looked up by application, environment and key. -/
structure Settings where
  lookup? : (app environment key : String) → Option Value

namespace Settings

/-- The settings in a list of entries; a later entry replaces an earlier one. -/
def ofEntries (entries : List ((String × String × String) × Value)) :
    Settings where
  lookup? app environment key := entries.reverse.lookup (app, environment, key)

/-- A character of a variable name: dashes and dots become underscores. -/
def variableChar (c : Char) : Char :=
  if c = '-' || c = '.' then '_' else c

/-- The name of the variable that holds a setting. -/
def variableName (app environment key : String) : String :=
  let joined := app ++ "_" ++ environment ++ "_" ++ key
  String.ofList ((Text.upper joined.toList).map variableChar)

/-- The value of a variable: what it denotes as JSON, or else its text. -/
def readVariable (text : String) : Value :=
  match Json.parse? text with
  | some json => .ofJson json
  | none => .string text

/-- The settings in environment variables. -/
def ofVariables (text? : String → Option String) : Settings where
  lookup? app environment key :=
    (text? (variableName app environment key)).map readVariable

end Settings

end RowGuard
