import RowGuard.Decimal.FloatText
import RowGuard.Json.Basic

/-!
# Writing JSON texts

`Json.compact` writes a value without blanks, `Json.pretty` with one item or
member a line, indented by two spaces a level. Both write members in the order
in which they stand. Strings escape only the quote, the backslash and the
controls below the space.
-/

namespace RowGuard

open Decimal

/-- Doubles in JSON: positional from `10 ^ -5` up to below `10 ^ 16`, always
with a point, and with the sign of the exponent otherwise. -/
def jsonFloat : FloatStyle where
  positional leading := -5 ≤ leading && leading < 16
  keepsPoint := true
  plusSign := true
  tie := .even
  notANumber := "null"
  infinite := "null"

/-- The text of a number. -/
def Number.text : Number → String
  | .int n _ => toString n
  | .float x _ => jsonFloat.render x

namespace Json

/-- One of the sixteen lower-case hexadecimal digits. -/
def hexDigit (n : Nat) : Char :=
  (Nat.toDigits 16 n).headD '0'

/-- How one character is written in a JSON string. -/
def escapeChar (c : Char) : List Char :=
  if c = '"' then ['\\', '"']
  else if c = '\\' then ['\\', '\\']
  else if c = '\x08' then ['\\', 'b']
  else if c = '\x0c' then ['\\', 'f']
  else if c = '\n' then ['\\', 'n']
  else if c = '\r' then ['\\', 'r']
  else if c = '\t' then ['\\', 't']
  else if c.toNat < 0x20 then
    ['\\', 'u', '0', '0', hexDigit (c.toNat / 16), hexDigit (c.toNat % 16)]
  else [c]

/-- A JSON string with its quotes. -/
def quote (s : String) : String :=
  String.ofList ('"' :: s.toList.flatMap escapeChar ++ ['"'])

mutual

/-- The text of a value without blanks. -/
def compact : Json → String
  | .null => "null"
  | .bool b => if b then "true" else "false"
  | .number n => n.text
  | .string s => quote s
  | .array items => "[" ++ ",".intercalate (compactItems items) ++ "]"
  | .object members =>
    "\x7b" ++ ",".intercalate (compactMembers members) ++ "\x7d"

/-- The texts of the items. -/
def compactItems : List Json → List String
  | [] => []
  | item :: items => item.compact :: compactItems items

/-- The texts of the members. -/
def compactMembers : List (String × Json) → List String
  | [] => []
  | (name, value) :: members =>
    (quote name ++ ":" ++ value.compact) :: compactMembers members

end

/-- A line break followed by the indentation of a level. -/
def lineBreak (level : Nat) : String :=
  "\n" ++ String.ofList (List.replicate (2 * level) ' ')

/-- Puts each entry on a line of its own between two brackets. -/
def block (level : Nat) (opening closing : String) : List String → String
  | [] => opening ++ closing
  | entries =>
    opening ++ lineBreak (level + 1) ++
      ("," ++ lineBreak (level + 1)).intercalate entries ++
      lineBreak level ++ closing

mutual

/-- The text of a value that starts on the given level. -/
def prettyAt (level : Nat) : Json → String
  | .array items => block level "[" "]" (prettyItems (level + 1) items)
  | .object members =>
    block level "\x7b" "\x7d" (prettyMembers (level + 1) members)
  | .null => "null"
  | .bool b => if b then "true" else "false"
  | .number n => n.text
  | .string s => quote s

/-- The texts of the items on the given level. -/
def prettyItems (level : Nat) : List Json → List String
  | [] => []
  | item :: items => item.prettyAt level :: prettyItems level items

/-- The texts of the members on the given level. -/
def prettyMembers (level : Nat) : List (String × Json) → List String
  | [] => []
  | (name, value) :: members =>
    (quote name ++ ": " ++ value.prettyAt level) :: prettyMembers level members

end

/-- The text of a value with one item or member a line. -/
def pretty (json : Json) : String := json.prettyAt 0

end Json

end RowGuard
