import RowGuard.Expression.Basic
import RowGuard.Path.Json
import RowGuard.Value.Json

/-!
# Expressions in JSON

Operators are words; every operand and every expression is an object whose one
member tells its case.
-/

namespace RowGuard

/-- Writes an operator. -/
def Operator.toJson (op : Operator) : Json := .string op.name

/-- Reads an operator. -/
def Operator.read? : Document → Option Operator :=
  Document.word? (Operator.all.map fun op => (op.name, op))

/-- Writes an operand. -/
def Operand.toJson : Operand → Json
  | .literal value => .object [("literal", value.toJson)]
  | .setting app environment key =>
    .object [("config_lookup",
      .object [("app", .string app), ("env", .string environment),
        ("key", .string key)])]
  | .path steps => .object [("path", Path.toJson steps)]

/-- Reads the parts of a setting. -/
def readSetting? (document : Document) : Option Operand := do
  let [app, environment, key] ← document.fields? ["app", "env", "key"] | none
  return .setting (← Document.required? Document.string? app)
    (← Document.required? Document.string? environment)
    (← Document.required? Document.string? key)

/-- Reads an operand. -/
def Operand.read? (document : Document) : Option Operand := do
  let (tag, content) ← document.tagged?
  match tag with
  | "literal" => return .literal (.ofJson (← content.toJson?))
  | "config_lookup" => readSetting? content
  | "path" => return .path (← Path.read? content)
  | _ => none

mutual

/-- Writes an expression. -/
def Expression.toJson : Expression → Json
  | .all parts => .object [("all", .array (expressionsToJson parts))]
  | .any parts => .object [("any", .array (expressionsToJson parts))]
  | .not part => .object [("not", part.toJson)]
  | .leaf op property operand =>
    .object [("leaf",
      .object [("op", op.toJson), ("prop", property.toJson),
        ("value", operand.toJson)])]

/-- Writes expressions. -/
def expressionsToJson : List Expression → List Json
  | [] => []
  | part :: parts => part.toJson :: expressionsToJson parts

end

/-- Reads the parts of a leaf. -/
def readLeaf? (document : Document) : Option Expression := do
  let [op, property, operand] ← document.fields? ["op", "prop", "value"] | none
  return .leaf (← Document.required? Operator.read? op)
    (← Document.required? Path.read? property)
    (← Document.required? Operand.read? operand)

mutual

/-- Reads an expression. -/
def Expression.read? : Document → Option Expression
  | .object [("all", .array parts)] => (readExpressions? parts).map .all
  | .object [("any", .array parts)] => (readExpressions? parts).map .any
  | .object [("not", part)] => (Expression.read? part).map .not
  | .object [("leaf", content)] => readLeaf? content
  | _ => none

/-- Reads expressions. -/
def readExpressions? : List Document → Option (List Expression)
  | [] => some []
  | part :: parts => do
    return (← Expression.read? part) :: (← readExpressions? parts)

end

end RowGuard
