import RowGuard.Json.Basic

/-!
# JSON texts as written

A `Document` is the tree of a JSON text before it is given a meaning: members
stand in the order in which they were written, repeated ones included. The case
`unreadable` stands for a piece whose spelling is fine and which still denotes
nothing: a number too large for a double, a string with half of a surrogate
pair, or a container inside more containers than are allowed. Such a piece does
no harm where nobody looks at it.
-/

namespace RowGuard

/-- A JSON text as written. -/
inductive Document where
  | null
  | bool (b : Bool)
  | number (n : Number)
  | string (s : String)
  | array (items : List Document)
  | object (members : List (String × Document))
  | unreadable

namespace Document

mutual

/-- The value that a document denotes: members sorted by name, the last one of
each name. There is none if a piece is unreadable. -/
def toJson? : Document → Option Json
  | .null => some .null
  | .bool b => some (.bool b)
  | .number n => some (.number n)
  | .string s => some (.string s)
  | .array items => (itemsToJson? items).map .array
  | .object members =>
    (membersToJson? members).map fun ms => .object (Json.sortMembers ms)
  | .unreadable => none

/-- The values of a list of documents. -/
def itemsToJson? : List Document → Option (List Json)
  | [] => some []
  | item :: items => do return (← item.toJson?) :: (← itemsToJson? items)

/-- The values of the members, in the order written. -/
def membersToJson? :
    List (String × Document) → Option (List (String × Json))
  | [] => some []
  | (name, value) :: members => do
    return (name, ← value.toJson?) :: (← membersToJson? members)

end

mutual

/-- The document that writes a value as it stands. -/
def ofJson : Json → Document
  | .null => .null
  | .bool b => .bool b
  | .number n => .number n
  | .string s => .string s
  | .array items => .array (ofItems items)
  | .object members => .object (ofMembers members)

/-- The documents of a list of values. -/
def ofItems : List Json → List Document
  | [] => []
  | item :: items => ofJson item :: ofItems items

/-- The documents of a list of members. -/
def ofMembers : List (String × Json) → List (String × Document)
  | [] => []
  | (name, value) :: members => (name, ofJson value) :: ofMembers members

end

/-! ## Reading typed documents -/

/-- The text of a string. -/
def string? : Document → Option String
  | .string s => some s
  | _ => none

/-- The truth value of a Boolean. -/
def bool? : Document → Option Bool
  | .bool b => some b
  | _ => none

/-- Reads an array item by item. -/
def items? {α : Type} (read : Document → Option α) : Document → Option (List α)
  | .array items => items.mapM read
  | _ => none

/-- Reads what may be absent; `null` counts as absent. -/
def optional? {α : Type} (read : Document → Option α) :
    Option Document → Option (Option α)
  | none | some .null => some none
  | some document => (read document).map some

/-- Reads what has a default; only a missing member takes it. -/
def default? {α : Type} (default : α) (read : Document → Option α) :
    Option Document → Option α
  | none => some default
  | some document => read document

/-- Reads what must be present. -/
def required? {α : Type} (read : Document → Option α) :
    Option Document → Option α
  | none => none
  | some document => read document

/-- The member called `name`: absent, present, or refused because it is
repeated. -/
def single? (members : List (String × Document)) (name : String) :
    Option (Option Document) :=
  match members.filter (·.1 == name) with
  | [] => some none
  | [member] => some (some member.2)
  | _ => none

/-- The fields of a structure, in the order of `names`. It is written as an
object, in which members of other names are ignored, or as an array of the
fields in order, from which trailing ones may be missing. -/
def fields? (names : List String) : Document → Option (List (Option Document))
  | .object members => names.mapM (single? members)
  | .array items =>
    if items.length ≤ names.length then
      some (items.map some ++ List.replicate (names.length - items.length) none)
    else none
  | _ => none

/-- The tag and content of a tagged case, which is an object of one member. -/
def tagged? : Document → Option (String × Document)
  | .object [member] => some member
  | _ => none

/-- Reads one of several words, written as a string or as the tag of `null`. -/
def word? {α : Type} (words : List (String × α)) : Document → Option α
  | .string s => words.lookup s
  | .object [(s, .null)] => words.lookup s
  | _ => none

end Document

end RowGuard
