import RowGuard.Json.Parser
import RowGuard.Value.Json

/-!
# Values in JSON with tags

The natural JSON form of a value loses the width of an integer, the order of the
fields of a record and every double that is not finite. In the tagged form such
a value is an object whose one member names its case: `$int32`, `$timestamp`,
`$float`, which holds the bits of the double, or `$record`. `Value.tagged`
writes this form. `Value.untag` puts the meaning of the tags into a value that
was read from JSON; what any other tag means is up to its caller.
-/

namespace RowGuard

/-- The bits of a double in sixteen hexadecimal digits, or `nan`. -/
def bitsText (x : Float) : String :=
  if x.isNaN then "nan"
  else
    let digits := Nat.toDigits 16 x.toBits.toNat
    String.ofList (List.replicate (16 - digits.length) '0' ++ digits)

/-- The double that a text of bits denotes. -/
def floatOfBitsText? (text : String) : Option Float :=
  if text = "nan" then some (0.0 / 0.0)
  else
    (text.toList.mapM Document.hexDigit?).map fun digits =>
      Float.ofBits (.ofNat (digits.foldl (fun n digit => n * 16 + digit) 0))

mutual

/-- Writes a value with tags. -/
def Value.tagged : Value → Json
  | .null => .null
  | .bool b => .bool b
  | .int32 n => .object [("$int32", .number (.ofInt64 n.toInt64))]
  | .int64 n => .number (.ofInt64 n)
  | .float64 x => .object [("$float", .string (bitsText x))]
  | .string s => .string s
  | .timestamp t => .object [("$timestamp", .number (.ofInt64 t))]
  | .list items => .array (taggedItems items)
  | .record r => r.tagged

/-- Writes a record with its tag. -/
def Record.tagged : Record → Json
  | ⟨entity, fields⟩ =>
    .object [("$record",
      .object [("entity", entity.elim .null .string),
        ("fields", .array (taggedFields fields))])]

/-- Writes the items with tags. -/
def taggedItems : List Value → List Json
  | [] => []
  | item :: items => item.tagged :: taggedItems items

/-- Writes the fields, each as a pair, with tags. -/
def taggedFields : List (String × Value) → List Json
  | [] => []
  | (name, value) :: fields =>
    .array [.string name, value.tagged] :: taggedFields fields

end

/-- A field written as a pair. -/
def fieldOfPair? : Value → Option (String × Value)
  | .list [.string name, value] => some (name, value)
  | _ => none

/-- The record that the content of its tag describes. -/
def Record.ofTag? (content : Record) : Option Record := do
  let fields ← (← content.get? "fields").items?
  return ⟨(content.get? "entity").bind Value.string?,
    ← fields.mapM fieldOfPair?⟩

/-- The value that a tag and its content stand for. -/
def Value.ofTag? : (tag : String) → (content : Value) → Option Value
  | "$int32", .int64 n => some (.int32 n.toInt32)
  | "$timestamp", .int64 t => some (.timestamp t)
  | "$float", .string text => (floatOfBitsText? text).map .float64
  | "$record", .record content => (Record.ofTag? content).map .record
  | _, _ => none

/-- The value of a record, which may be a tag and its content. -/
def Record.untagged
    (other? : (tag : String) → (content : Value) → Option Value) :
    Record → Value
  | ⟨none, [(tag, content)]⟩ =>
    ((Value.ofTag? tag content).or (other? tag content)).getD
      (.record ⟨none, [(tag, content)]⟩)
  | r => .record r

mutual

/-- Replaces tags by what they stand for, the inner ones first. -/
def Value.untag (other? : (tag : String) → (content : Value) → Option Value) :
    Value → Value
  | .list items => .list (untagItems other? items)
  | .record ⟨entity, fields⟩ =>
    Record.untagged other? ⟨entity, untagFields other? fields⟩
  | value => value

/-- Replaces tags in the items. -/
def untagItems (other? : (tag : String) → (content : Value) → Option Value) :
    List Value → List Value
  | [] => []
  | item :: items => item.untag other? :: untagItems other? items

/-- Replaces tags in the fields. -/
def untagFields (other? : (tag : String) → (content : Value) → Option Value) :
    List (String × Value) → List (String × Value)
  | [] => []
  | (name, value) :: fields =>
    (name, value.untag other?) :: untagFields other? fields

end

end RowGuard
