import RowGuard.Evaluation.Decision
import RowGuard.Expression.Json
import RowGuard.Scope.Compiler

/-!
# Policies

A row is admitted if some permissive policy for its entity and the action admits
it and every restrictive one does. `PolicySet.scope` puts this rule into a query
and `PolicySet.authorize` applies it to one loaded subject.
-/

namespace RowGuard

/-- How a policy combines with the others for its entity and action. -/
inductive PolicyKind where
  | permissive
  | restrictive
deriving DecidableEq, Repr

/-- A rule about the rows of an entity. -/
structure Policy where
  name : String
  entity : String
  /-- The action, or `*` for every action. -/
  action : String
  kind : PolicyKind
  expression : Expression

/-- Whether the policy is about an entity and an action. -/
def Policy.appliesTo (p : Policy) (entity action : String) : Bool :=
  p.entity == entity && (p.action == "*" || p.action == action)

/-- The policies in the order of their registration. -/
structure PolicySet where
  policies : List Policy

namespace PolicySet

/-- The policies of one kind about an entity and an action. -/
def applicable (set : PolicySet) (kind : PolicyKind) (entity action : String) :
    List Policy :=
  set.policies.filter fun p => p.kind == kind && p.appliesTo entity action

variable {σ : Type}

/-- Compiles each of several policies, in order. -/
def compileEach (c : Compiler σ) (actor : Value) (entity : String) :
    List Policy → ScopeM σ (List Fragment)
  | [] => pure []
  | p :: ps => do
    let first ← c.compile actor entity p.expression
    return first :: (← compileEach c actor entity ps)

/-- The fragment that selects the rows an actor may act on. Without a permissive
policy there are none, and nothing else is compiled. -/
def scope (set : PolicySet) (c : Compiler σ) (actor : Value)
    (entity action : String) :
    ScopeM σ Fragment := do
  let permissive ← compileEach c actor entity
    (set.applicable .permissive entity action)
  match combineFragments .any (permissive.map some) with
  | none => return .emptySet
  | some admitted =>
    let restrictive ←
      compileEach c actor entity (set.applicable .restrictive entity action)
    return Compiler.combine .all (admitted :: restrictive)

/-- The select of the rows an actor may act on. -/
def select (set : PolicySet) (c : Compiler σ) (actor : Value)
    (entity action : String) :
    ScopeM σ Select := do
  let fragment ← set.scope c actor entity action
  return fragment.applyTo (c.root (← c.require entity))

/-- Whether some of the policies holds, up to the first that does. -/
def someHolds (ev : Evaluator σ) (subject actor : Value) :
    List Policy → EvalM σ Bool
  | [] => pure false
  | p :: ps => do
    if ← ev.holds subject actor p.expression then return true
    else someHolds ev subject actor ps

/-- Whether all of the policies hold, up to the first that does not. -/
def allHold (ev : Evaluator σ) (subject actor : Value) :
    List Policy → EvalM σ Bool
  | [] => pure true
  | p :: ps => do
    if ← ev.holds subject actor p.expression then allHold ev subject actor ps
    else return false

/-- Whether an actor may act on a subject. A subject without entity is
refused. -/
def authorize (set : PolicySet) (ev : Evaluator σ) (subject : Value)
    (action : String) (actor : Value) : EvalM σ Bool :=
  match subject.entity? with
  | none => pure false
  | some entity => do
    if ← someHolds ev subject actor
      (set.applicable .permissive entity action) then
      allHold ev subject actor (set.applicable .restrictive entity action)
    else return false

end PolicySet

/-! ## Policies in JSON -/

/-- The words for kinds of policies. -/
def PolicyKind.words : List (String × PolicyKind) :=
  [("permissive", .permissive), ("restrictive", .restrictive)]

/-- The word for a kind of policy. -/
def PolicyKind.word : PolicyKind → String
  | .permissive => "permissive"
  | .restrictive => "restrictive"

/-- Writes a policy. -/
def Policy.toJson (p : Policy) : Json :=
  .object [("name", .string p.name), ("entity", .string p.entity),
    ("action", .string p.action), ("kind", .string p.kind.word),
    ("expression", p.expression.toJson)]

/-- Reads a policy. -/
def Policy.read? (document : Document) : Option Policy := do
  let [name, entity, action, kind, expression] ←
    document.fields? ["name", "entity", "action", "kind", "expression"] | none
  return {
    name := ← Document.required? Document.string? name
    entity := ← Document.required? Document.string? entity
    action := ← Document.required? Document.string? action
    kind :=
      ← Document.default? .permissive (Document.word? PolicyKind.words) kind
    expression := ← Document.required? Expression.read? expression }

/-- Writes the policies of a set. -/
def PolicySet.toJson (set : PolicySet) : Json :=
  .array (set.policies.map Policy.toJson)

/-- Reads the policies of a set. -/
def PolicySet.read? (document : Document) : Option PolicySet :=
  (document.items? Policy.read?).map .mk

end RowGuard
