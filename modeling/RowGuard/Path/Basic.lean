/-!
# Paths

A `Path` leads from an entity to one of its fields or to a field of a related
entity. Its steps name fields, climb to the nearest field of a name (`**`),
assert the entity that has been reached, or branch into alternatives.
-/

namespace RowGuard

/-- One step of a path. -/
inductive Step where
  /-- A field of the entity, with an alias for the table that it brings in. -/
  | field (name : String) (aliasName : Option String)
  /-- Climbs to the field that the next step names, wherever it is nearest. -/
  | wildcard
  /-- Stays if the entity is the named one. -/
  | self (entity : String)
  /-- Takes each of several paths. -/
  | alternatives (paths : List (List Step))

/-- A path is the list of its steps; the empty one leads to where it starts. -/
abbrev Path := List Step

/-- The step to a field without an alias of its own. -/
def Step.plain (name : String) : Step := .field name none

/-- The field that a step names. -/
def Step.name? : Step → Option String
  | .field name _ => some name
  | _ => none

/-- The alias that a step gives. -/
def Step.alias? : Step → Option String
  | .field _ aliasName => aliasName
  | _ => none

/-- The path along the named fields. -/
def Path.ofNames (names : List String) : Path := names.map Step.plain

end RowGuard
