import RowGuard.Path.Basic
import RowGuard.Text.Blank
import RowGuard.Text.Quoted

/-!
# Dotted paths

`Path.parse` reads paths such as `**.user.name`: segments between dots, blanks
around a segment ignored, each one a field name or the wildcard. `Path.display`
writes any path; a path of field names and wildcards is written as it is read.
-/

namespace RowGuard

open Text

/-- The segment that stands for the wildcard. -/
def wildcardToken : String := "**"

/-- Why a dotted path cannot be read. -/
inductive PathError where
  | emptySegment (dotted : String)
deriving DecidableEq, Repr

/-- The text of the error. -/
def PathError.message : PathError → String
  | .emptySegment dotted => "invalid path: empty segment in " ++ quote dotted

/-- The step that a trimmed segment stands for; an empty one stands for none. -/
def Step.ofSegment? (segment : List Char) : Option Step :=
  if segment.isEmpty then none
  else if segment = wildcardToken.toList then some .wildcard
  else some (.plain (String.ofList segment))

/-- Reads a dotted path; the empty text is the empty path. -/
def Path.parse (dotted : String) : Except PathError Path :=
  if dotted.isEmpty then .ok []
  else
    match (segments '.' dotted.toList).mapM (Step.ofSegment? ∘ trim) with
    | some steps => .ok steps
    | none => .error (.emptySegment dotted)

mutual

/-- The text of a step. -/
def Step.display : Step → String
  | .field name none => name
  | .field name (some aliasName) => name ++ " as " ++ aliasName
  | .wildcard => wildcardToken
  | .self entity => "self(" ++ entity ++ ")"
  | .alternatives paths => "(" ++ " | ".intercalate (displayPaths paths) ++ ")"

/-- The texts of the steps. -/
def displaySteps : List Step → List String
  | [] => []
  | step :: steps => step.display :: displaySteps steps

/-- The texts of the paths. -/
def displayPaths : List (List Step) → List String
  | [] => []
  | path :: paths => ".".intercalate (displaySteps path) :: displayPaths paths

end

/-- The text of a path. -/
def Path.display (path : Path) : String :=
  ".".intercalate (displaySteps path)

end RowGuard
