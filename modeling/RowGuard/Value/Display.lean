import RowGuard.Decimal.FloatText
import RowGuard.Text.Quoted
import RowGuard.Value.Basic

/-!
# Text of values

`Value.display` is the short text shown to people: a record appears as its
entity and identity. `Value.inspect` writes a value out in full, with the name
of every case, so that `1` as an integer and `1.0` as a double have different
texts.
-/

namespace RowGuard

open Decimal Text

/-- Doubles for people: never an exponent, no point on whole numbers. -/
def plainFloat : FloatStyle where
  positional _ := true
  keepsPoint := false
  plusSign := false
  tie := .away
  notANumber := "NaN"
  infinite := "inf"

/-- Doubles in full: an exponent below `10 ^ -4` and from `10 ^ 16` on, a point
on whole numbers otherwise. -/
def fullFloat : FloatStyle where
  positional leading := -4 ≤ leading && leading < 16
  keepsPoint := true
  plusSign := false
  tie := .away
  notANumber := "NaN"
  infinite := "inf"

/-- A list of texts between brackets. -/
def bracketed (texts : List String) : String :=
  "[" ++ ", ".intercalate texts ++ "]"

mutual

/-- The text of a value for people. -/
def Value.display : Value → String
  | .null => "nil"
  | .bool b => if b then "true" else "false"
  | .int32 n => toString n.toInt
  | .int64 n => toString n.toInt
  | .float64 x => plainFloat.render x
  | .string s => quote s
  | .timestamp t => "@" ++ toString t.toInt
  | .list items => bracketed (displayItems items)
  | .record ⟨none, fields⟩ => s!"\x7b{fields.length} fields\x7d"
  | .record ⟨some entity, fields⟩ =>
    entity ++ "(" ++ (displayIdentity fields).getD "?" ++ ")"

/-- The texts of the items. -/
def displayItems : List Value → List String
  | [] => []
  | item :: items => item.display :: displayItems items

/-- The text of the first field `id`, unless that is null. -/
def displayIdentity : List (String × Value) → Option String
  | [] => none
  | (name, value) :: fields =>
    if name == identityField then
      if value.isNull then none else some value.display
    else displayIdentity fields

end

mutual

/-- The text of a value with the name of every case. -/
def Value.inspect : Value → String
  | .null => "Null"
  | .bool b => "Bool(" ++ (if b then "true" else "false") ++ ")"
  | .int32 n => "Int32(" ++ toString n.toInt ++ ")"
  | .int64 n => "Int64(" ++ toString n.toInt ++ ")"
  | .float64 x => "Float64(" ++ fullFloat.render x ++ ")"
  | .string s => "String(" ++ quote s ++ ")"
  | .timestamp t => "Timestamp(" ++ toString t.toInt ++ ")"
  | .list items => "List(" ++ bracketed (inspectItems items) ++ ")"
  | .record r => "Record(" ++ r.inspect ++ ")"

/-- The text of a record with the names of its parts. -/
def Record.inspect : Record → String
  | ⟨entity, fields⟩ =>
    "Record \x7b entity: " ++
      entity.elim "None" (fun name => "Some(" ++ quote name ++ ")") ++
      ", fields: " ++ bracketed (inspectFields fields) ++ " \x7d"

/-- The texts of the items. -/
def inspectItems : List Value → List String
  | [] => []
  | item :: items => item.inspect :: inspectItems items

/-- The texts of the fields, each a pair of name and value. -/
def inspectFields : List (String × Value) → List String
  | [] => []
  | (name, value) :: fields =>
    ("(" ++ quote name ++ ", " ++ value.inspect ++ ")") :: inspectFields fields

end

end RowGuard
