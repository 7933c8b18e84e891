import RowGuard.Json.Document
import RowGuard.Path.Basic

/-!
# Paths in JSON

A path is the array of its steps. A wildcard is the word `wildcard`; every other
step is an object whose one member tells its case.
-/

namespace RowGuard

mutual

/-- Writes a step. -/
def Step.toJson : Step → Json
  | .field name aliasName =>
    let aliasMember := aliasName.elim [] fun aliasName =>
      [("alias", Json.string aliasName)]
    .object [("name", .object (("name", .string name) :: aliasMember))]
  | .wildcard => .string "wildcard"
  | .self entity => .object [("self_ref", .string entity)]
  | .alternatives paths =>
    .object [("alternatives", .array (pathsToJson paths))]

/-- Writes the steps of a path. -/
def stepsToJson : List Step → List Json
  | [] => []
  | step :: steps => step.toJson :: stepsToJson steps

/-- Writes paths. -/
def pathsToJson : List (List Step) → List Json
  | [] => []
  | path :: paths => .array (stepsToJson path) :: pathsToJson paths

end

/-- Writes a path. -/
def Path.toJson (path : Path) : Json :=
  .array (stepsToJson path)

/-- Reads the name of a field and its alias. -/
def readNamed? (document : Document) : Option Step := do
  let [name, aliasName] ← document.fields? ["name", "alias"] | none
  return .field (← Document.required? Document.string? name)
    (← Document.optional? Document.string? aliasName)

mutual

/-- Reads a step. -/
def Step.read? : Document → Option Step
  | .string "wildcard" => some .wildcard
  | .object [("wildcard", .null)] => some .wildcard
  | .object [("name", content)] => readNamed? content
  | .object [("self_ref", content)] => content.string?.map .self
  | .object [("alternatives", .array paths)] =>
    (readPaths? paths).map .alternatives
  | _ => none

/-- Reads the steps of a path. -/
def readSteps? : List Document → Option (List Step)
  | [] => some []
  | step :: steps => do return (← Step.read? step) :: (← readSteps? steps)

/-- Reads paths. -/
def readPaths? : List Document → Option (List (List Step))
  | [] => some []
  | .array path :: paths =>
    do return (← readSteps? path) :: (← readPaths? paths)
  | _ :: _ => none

end

/-- Reads a path. -/
def Path.read? : Document → Option Path
  | .array steps => readSteps? steps
  | _ => none

end RowGuard
