import RowGuard.Expression.Json
import RowGuard.Proofs.Json.Order

/-!
# Expressions through JSON and back

Whatever an expression is, reading what is written of it gives the expression
with each literal written and read once more (`Expression.read?_arranged`);
paths, settings and operators come back as they were.  The order of members does
not matter.

A literal is not changed by that exactly if it was read from JSON in the first
place (`Value.fromJson_iff`).  Such expressions therefore come back as they are
and are told apart by their trees (`Expression.read?_toJson`).
-/

namespace RowGuard

open Json (Arranges arranges_id arranges_inOrder)

variable {f : Json → Json}

/-! ## Paths -/

/-- The name of a field and its alias are found in whatever order they are
written. -/
theorem readNamed?_arranged (hf : Arranges f) (name : String)
    (aliasName : Option String) :
    readNamed? (.ofJson (f (.object (("name", .string name) ::
      aliasName.elim [] fun aliasName => [("alias", .string aliasName)])))) =
      some (.field name aliasName) := by
  cases aliasName with
  | none =>
    have hfields := hf.fields?_eq [("name", .string name)]
      (show ["name"].Nodup by decide) ["name", "alias"]
    simp only [Option.elim_none]
    rw [readNamed?, hfields]
    simp [hf.string, Document.ofJson, Document.required?, Document.optional?,
      Document.string?, List.lookup]
  | some aliasName =>
    have hfields := hf.fields?_eq
      [("name", .string name), ("alias", .string aliasName)]
      (show ["name", "alias"].Nodup by decide) ["name", "alias"]
    simp only [Option.elim_some]
    rw [readNamed?, hfields]
    simp [hf.string, Document.ofJson, Document.required?, Document.optional?,
      Document.string?, List.lookup]

mutual

theorem Step.read?_arranged (hf : Arranges f) (step : Step) :
    Step.read? (.ofJson (f step.toJson)) = some step := by
  cases step with
  | field name aliasName =>
    rw [Step.toJson, hf.single, Document.ofJson, Document.ofMembers,
      Document.ofMembers, Step.read?, readNamed?_arranged hf]
  | wildcard => rw [Step.toJson, hf.string, Document.ofJson, Step.read?]
  | self entity =>
    rw [Step.toJson, hf.single, hf.string, Document.ofJson, Document.ofMembers,
      Document.ofMembers, Document.ofJson, Step.read?]
    rfl
  | alternatives paths =>
    rw [Step.toJson, hf.single, hf.array, Document.ofJson, Document.ofMembers,
      Document.ofMembers, Document.ofJson, Step.read?,
      readPaths?_arranged hf paths]
    rfl

theorem readSteps?_arranged (hf : Arranges f) (steps : List Step) :
    readSteps? (Document.ofItems ((stepsToJson steps).map f)) = some steps := by
  cases steps with
  | nil => rw [stepsToJson, List.map_nil, Document.ofItems, readSteps?]
  | cons step steps =>
    rw [stepsToJson, List.map_cons, Document.ofItems, readSteps?,
      step.read?_arranged hf, readSteps?_arranged hf steps]
    rfl

theorem readPaths?_arranged (hf : Arranges f) (paths : List (List Step)) :
    readPaths? (Document.ofItems ((pathsToJson paths).map f)) = some paths := by
  cases paths with
  | nil => rw [pathsToJson, List.map_nil, Document.ofItems, readPaths?]
  | cons path paths =>
    rw [pathsToJson, List.map_cons, Document.ofItems, hf.array, Document.ofJson,
      readPaths?, readSteps?_arranged hf path, readPaths?_arranged hf paths]
    rfl

end

/-- A path is read back from what is written of it. -/
theorem Path.read?_arranged (hf : Arranges f) (path : Path) :
    Path.read? (.ofJson (f path.toJson)) = some path := by
  rw [Path.toJson, hf.array, Document.ofJson, Path.read?,
    readSteps?_arranged hf path]

/-! ## Values -/

mutual

/-- What is written of a value is a tree of maps. -/
theorem Value.toJson_sorted (v : Value) : v.toJson.Sorted := by
  match v with
  | .null => rw [Value.toJson]; exact .null
  | .bool b => rw [Value.toJson]; exact .bool b
  | .int32 n => rw [Value.toJson]; exact .number _
  | .int64 n => rw [Value.toJson]; exact .number _
  | .timestamp t => rw [Value.toJson]; exact .number _
  | .float64 x =>
    rw [Value.toJson]
    cases Number.ofFloat? x with
    | none => exact .null
    | some n => exact .number n
  | .string s => rw [Value.toJson]; exact .string s
  | .list items =>
    rw [Value.toJson]
    exact .array (jsonItems_sorted items)
  | .record ⟨entity, fields⟩ =>
    rw [Value.toJson]
    refine .object (Json.sortMembers_ascending _) fun member hmem => ?_
    rcases List.mem_append.1 (Json.mem_of_mem_sortMembers hmem) with
      hentity | hfield
    · obtain ⟨name, rfl⟩ := namesEntity_of_mem_entityMembers hentity
      exact .string name
    · exact jsonFields_sorted fields member hfield

theorem jsonItems_sorted (items : List Value) :
    ∀ item ∈ jsonItems items, item.Sorted := by
  match items with
  | [] => rw [jsonItems]; exact fun _ hmem => nomatch hmem
  | item :: items =>
    rw [jsonItems]
    exact List.forall_mem_cons.2 ⟨item.toJson_sorted, jsonItems_sorted items⟩

theorem jsonFields_sorted (fields : List (String × Value)) :
    ∀ member ∈ jsonFields fields, member.2.Sorted := by
  match fields with
  | [] => rw [jsonFields]; exact fun _ hmem => nomatch hmem
  | (name, value) :: fields =>
    rw [jsonFields]
    exact List.forall_mem_cons.2 ⟨value.toJson_sorted, jsonFields_sorted fields⟩

end

/-- A value as it is read from what is written of it. -/
def Value.reread (v : Value) : Value := .ofJson v.toJson

/-- The value is what some tree is read as. -/
def Value.FromJson (v : Value) : Prop :=
  ∃ j : Json, j.Sorted ∧ Value.ofJson j = v

/-- The values that are read from JSON are those that do not change by being
written and read. -/
theorem Value.fromJson_iff {v : Value} : v.FromJson ↔ v.reread = v := by
  constructor
  · rintro ⟨j, hsorted, rfl⟩
    exact hsorted.ofJson_natural.ofJson_toJson
  · intro hsame
    exact ⟨v.toJson, v.toJson_sorted, hsame⟩

/-! ## Operators and operands -/

theorem Operator.read?_arranged (hf : Arranges f) (op : Operator) :
    Operator.read? (.ofJson (f op.toJson)) = some op := by
  rw [Operator.toJson, hf.string, Document.ofJson]
  cases op <;> rfl

theorem readSetting?_arranged (hf : Arranges f) (app environment key : String) :
    readSetting?
      (.ofJson
        (f (.object [("app", .string app), ("env", .string environment),
          ("key", .string key)]))) = some (.setting app environment key) := by
  have hfields := hf.fields?_eq
    [("app", .string app), ("env", .string environment), ("key", .string key)]
    (show ["app", "env", "key"].Nodup by decide) ["app", "env", "key"]
  rw [readSetting?, hfields]
  simp [hf.string, Document.ofJson, Document.required?, Document.string?,
    List.lookup]

/-- An operand is read back with its literal read once more. -/
theorem Operand.read?_arranged (hf : Arranges f) (operand : Operand) :
    Operand.read? (.ofJson (f operand.toJson)) =
      some (operand.mapLiteral Value.reread) := by
  cases operand with
  | literal value =>
    have hsame : (Document.ofJson (f value.toJson)).toJson? =
        some value.toJson := by
      rw [Json.toJson?_ofJson, hf.inOrder_eq, value.toJson_sorted.inOrder_eq]
    rw [Operand.toJson, hf.single, Document.ofJson, Document.ofMembers,
      Document.ofMembers]
    simp [Operand.read?, Document.tagged?, hsame, Operand.mapLiteral,
      Value.reread]
  | setting app environment key =>
    rw [Operand.toJson, hf.single, Document.ofJson, Document.ofMembers,
      Document.ofMembers]
    simp [Operand.read?, Document.tagged?, readSetting?_arranged hf,
      Operand.mapLiteral]
  | path path =>
    rw [Operand.toJson, hf.single, Document.ofJson, Document.ofMembers,
      Document.ofMembers]
    simp [Operand.read?, Document.tagged?, path.read?_arranged hf,
      Operand.mapLiteral]

/-! ## Expressions -/

theorem readLeaf?_arranged (hf : Arranges f) (op : Operator) (property : Path)
    (operand : Operand) :
    readLeaf?
      (.ofJson
        (f (.object [("op", op.toJson), ("prop", property.toJson),
          ("value", operand.toJson)]))) =
      some (.leaf op property (operand.mapLiteral Value.reread)) := by
  have hfields := hf.fields?_eq
    [("op", op.toJson), ("prop", property.toJson), ("value", operand.toJson)]
    (show ["op", "prop", "value"].Nodup by decide) ["op", "prop", "value"]
  rw [readLeaf?, hfields]
  simp [Document.required?, List.lookup, op.read?_arranged hf,
    property.read?_arranged hf, operand.read?_arranged hf]

mutual

/-- An expression is read back with its literals read once more, in whatever
order the members of objects are written. -/
theorem Expression.read?_arranged (hf : Arranges f) (e : Expression) :
    Expression.read? (.ofJson (f e.toJson)) =
      some (e.mapLiterals Value.reread) := by
  cases e with
  | all parts =>
    rw [Expression.toJson, hf.single, hf.array, Document.ofJson,
      Document.ofMembers, Document.ofMembers, Document.ofJson, Expression.read?,
      readExpressions?_arranged hf parts, Expression.mapLiterals]
    rfl
  | any parts =>
    rw [Expression.toJson, hf.single, hf.array, Document.ofJson,
      Document.ofMembers, Document.ofMembers, Document.ofJson, Expression.read?,
      readExpressions?_arranged hf parts, Expression.mapLiterals]
    rfl
  | not part =>
    rw [Expression.toJson, hf.single, Document.ofJson, Document.ofMembers,
      Document.ofMembers, Expression.read?, part.read?_arranged hf,
      Expression.mapLiterals]
    rfl
  | leaf op property operand =>
    rw [Expression.toJson, hf.single, Document.ofJson, Document.ofMembers,
      Document.ofMembers, Expression.read?, readLeaf?_arranged hf,
      Expression.mapLiterals]

theorem readExpressions?_arranged (hf : Arranges f) (parts : List Expression) :
    readExpressions? (Document.ofItems ((expressionsToJson parts).map f)) =
      some (mapLiteralsOf Value.reread parts) := by
  cases parts with
  | nil =>
    rw [expressionsToJson, List.map_nil, Document.ofItems, readExpressions?,
      mapLiteralsOf]
  | cons part parts =>
    rw [expressionsToJson, List.map_cons, Document.ofItems, readExpressions?,
      part.read?_arranged hf, readExpressions?_arranged hf parts, mapLiteralsOf]
    rfl

end

/-! ## Literals -/

/-- The literal of an operand, if it is one. -/
def Operand.literals : Operand → List Value
  | .literal value => [value]
  | .setting .. | .path _ => []

mutual

/-- The literals of an expression in the order in which they stand. -/
def Expression.literals : Expression → List Value
  | .all parts => literalsOf parts
  | .any parts => literalsOf parts
  | .not part => part.literals
  | .leaf _ _ operand => operand.literals

/-- The literals of expressions in the order in which they stand. -/
def literalsOf : List Expression → List Value
  | [] => []
  | part :: parts => part.literals ++ literalsOf parts

end

theorem Operand.mapLiteral_eq_self_iff {g : Value → Value} {operand : Operand} :
    operand.mapLiteral g = operand ↔ ∀ v ∈ operand.literals, g v = v := by
  cases operand <;> simp [Operand.mapLiteral, Operand.literals]

mutual

/-- An expression stays as it is exactly if each of its literals does. -/
theorem Expression.mapLiterals_eq_self_iff (g : Value → Value)
    (e : Expression) :
    e.mapLiterals g = e ↔ ∀ v ∈ e.literals, g v = v := by
  cases e with
  | all parts =>
    rw [Expression.mapLiterals, Expression.literals, Expression.all.injEq,
      mapLiteralsOf_eq_self_iff g parts]
  | any parts =>
    rw [Expression.mapLiterals, Expression.literals, Expression.any.injEq,
      mapLiteralsOf_eq_self_iff g parts]
  | not part =>
    rw [Expression.mapLiterals, Expression.literals, Expression.not.injEq,
      part.mapLiterals_eq_self_iff g]
  | leaf op property operand =>
    rw [Expression.mapLiterals, Expression.literals,
      ← Operand.mapLiteral_eq_self_iff]
    simp

theorem mapLiteralsOf_eq_self_iff (g : Value → Value)
    (parts : List Expression) :
    mapLiteralsOf g parts = parts ↔ ∀ v ∈ literalsOf parts, g v = v := by
  cases parts with
  | nil => simp [mapLiteralsOf, literalsOf]
  | cons part parts =>
    rw [mapLiteralsOf, literalsOf, List.cons.injEq,
      part.mapLiterals_eq_self_iff g, mapLiteralsOf_eq_self_iff g parts,
      List.forall_mem_append]

end

/-! ## What comes back -/

/-- An expression comes back exactly if its literals are values that are read
from JSON. -/
theorem Expression.read?_eq_self_iff (hf : Arranges f) (e : Expression) :
    Expression.read? (.ofJson (f e.toJson)) = some e ↔
      ∀ v ∈ e.literals, v.FromJson := by
  rw [e.read?_arranged hf, Option.some.injEq, e.mapLiterals_eq_self_iff]
  exact forall₂_congr fun v _ => Value.fromJson_iff.symm

/-- An expression with literals from JSON is read back, both from the members as
they are written and from those that a map keeps.  It is the only such
expression with this tree. -/
theorem Expression.read?_toJson (e : Expression)
    (h : ∀ v ∈ e.literals, v.FromJson) :
    Expression.read? (.ofJson e.toJson) = some e ∧
      Expression.read? (.ofJson e.toJson.inOrder) = some e ∧
      ∀ e' : Expression, (∀ v ∈ e'.literals, v.FromJson) →
        e'.toJson.inOrder = e.toJson.inOrder → e' = e := by
  have hread := (e.read?_eq_self_iff arranges_inOrder).2 h
  refine ⟨(e.read?_eq_self_iff arranges_id).2 h, hread, ?_⟩
  intro e' h' htree
  have hread' := (e'.read?_eq_self_iff arranges_inOrder).2 h'
  rw [htree, hread] at hread'
  exact (Option.some.inj hread').symm

/-- Neither a draft nor the third, or close to a user: a record in a literal, an
alias, an assertion, alternatives, a setting and a path of the actor. -/
def Expression.draftOrOwned : Expression :=
  .any [
    .not (.leaf .mem [.plain "status"]
      (.literal (.list [.string "draft", .int64 3,
        .record ⟨some "user", [("id", .int64 7), ("name", .null)]⟩]))),
    .all [
      .leaf .eq [.wildcard, .field "user" (some "u"), .self "user",
        .alternatives [[.plain "name"], [], [.alternatives [], .plain "nick"]]]
        (.setting "forum" "test" "owner"),
      .leaf .gte [.plain "age"] (.path [.self "user", .plain "age"])]]

theorem Expression.read?_toJson_draftOrOwned :
    (∀ v ∈ draftOrOwned.literals, v.FromJson) ∧
      Expression.read? (.ofJson draftOrOwned.toJson) = some draftOrOwned ∧
      Expression.read? (.ofJson draftOrOwned.toJson.inOrder) =
        some draftOrOwned ∧
      ∀ e' : Expression, (∀ v ∈ e'.literals, v.FromJson) →
        e'.toJson.inOrder = draftOrOwned.toJson.inOrder →
        e' = draftOrOwned := by
  have huser : Value.Natural
      (.record ⟨some "user", [("id", .int64 7), ("name", .null)]⟩) := by
    refine .record (List.pairwise_pair.2 (show "id" < "name" by decide)) ?_ ?_
    · exact List.forall_mem_cons.2
        ⟨by decide, List.forall_mem_singleton.2 (by decide)⟩
    · exact List.forall_mem_cons.2 ⟨.int64 7, List.forall_mem_singleton.2 .null⟩
  have h : ∀ v ∈ draftOrOwned.literals, v.FromJson := by
    refine List.forall_mem_singleton.2
      (Value.fromJson_iff.2 (Value.Natural.ofJson_toJson ?_))
    refine .list (List.forall_mem_cons.2 ⟨.string "draft", ?_⟩)
    exact List.forall_mem_cons.2 ⟨.int64 3, List.forall_mem_singleton.2 huser⟩
  exact ⟨h, draftOrOwned.read?_toJson h⟩

end RowGuard
