import RowGuard.Proofs.Evaluation.Reproducible
import RowGuard.Scope.Compiler

/-!
# What a compilation can fail for

A condition has no query if a negation in it has no meaning or if the value of a
leaf cannot be found or cannot be tested.  `Expression.visits` lists what a
compilation comes across, in its order, and `Visit.fault?` says what is wrong
with each.  A compilation ends with the first fault, and with a query if there
is none (`Compiler.compile_fails_iff`).

Paths of subjects are not among the visits: however they look, they do not make
a compilation fail.
-/

namespace RowGuard

/-! ## The visits of a compilation -/

/-- What a compilation comes across. -/
inductive Visit where
  /-- A leaf, with its operator as it is to be compiled. -/
  | leaf (op : Operator) (operand : Operand)
  /-- The negation of something that has none. -/
  | stuck (cause : NotNegatable)

mutual

/-- What a compilation comes across in an expression, from left to right.  A
negation is replaced by the negated expression. -/
def Expression.visits : Expression → List Visit
  | .all parts => visitsOf parts
  | .any parts => visitsOf parts
  | .leaf op _ operand => [.leaf op operand]
  | .not (.leaf op _ operand) =>
    match op.invert? with
    | some inverse => [.leaf inverse operand]
    | none => [.stuck (.operator op)]
  | .not (.not part) => part.visits
  | .not (.all _) => [.stuck .all]
  | .not (.any _) => [.stuck .any]

/-- What a compilation comes across in several expressions. -/
def visitsOf : List Expression → List Visit
  | [] => []
  | part :: parts => part.visits ++ visitsOf parts

end

mutual

/-- The expression without the paths of its leaves. -/
def Expression.pathless : Expression → Expression
  | .all parts => .all (pathlessEach parts)
  | .any parts => .any (pathlessEach parts)
  | .not part => .not part.pathless
  | .leaf op _ operand => .leaf op [] operand

/-- The expressions without the paths of their leaves. -/
def pathlessEach : List Expression → List Expression
  | [] => []
  | part :: parts => part.pathless :: pathlessEach parts

end

mutual

theorem Expression.visits_pathless :
    ∀ e : Expression, e.pathless.visits = e.visits
  | .all parts | .any parts => by
    simp only [Expression.pathless, Expression.visits,
      visitsOf_pathlessEach parts]
  | .leaf .. | .not (.leaf ..) | .not (.all _) | .not (.any _) => by
    simp only [Expression.pathless, Expression.visits]
  | .not (.not part) => by
    simp only [Expression.pathless, Expression.visits, part.visits_pathless]

theorem visitsOf_pathlessEach : ∀ parts : List Expression,
    visitsOf (pathlessEach parts) = visitsOf parts
  | [] => rfl
  | part :: parts => by
    rw [pathlessEach, visitsOf, visitsOf, part.visits_pathless,
      visitsOf_pathlessEach parts]

end

/-! ## Faults -/

/-- What is wrong with testing a value: no filter carries it, or it is null,
empty or a list and cannot be ordered. -/
def Operator.fault? (op : Operator) (value : Value) : Option ScopeError :=
  match FilterValue.ofValue? value with
  | none => some (.unsupportedValue value)
  | some .null | some .empty | some (.value (.list _)) =>
    if op.isOrdering then some (.unorderedValue op value) else none
  | some (.value _) => none

/-- What is wrong at a visit, where `resolve` is what operands come to. -/
def Visit.fault? (resolve : Operand → Except EvalError Value) :
    Visit → Option ScopeError
  | .stuck cause => some (.notNegatable cause)
  | .leaf op operand =>
    match resolve operand with
    | .error e => some (.evaluation e)
    | .ok value => op.fault? value

/-- The error, if it is one. -/
def errorOf? {ε α : Type} : Except ε α → Option ε
  | .error e => some e
  | .ok _ => none

theorem Test.errorOf?_of (op : Operator) (value : Value) :
    errorOf? (Test.of op value) = op.fault? value := by
  rw [Test.of, Operator.fault?]
  cases FilterValue.ofValue? value with
  | none => rfl
  | some w =>
    cases hop : op.isOrdering with
    | false => rcases w with _ | _ | ⟨_ | _⟩ <;> simp [errorOf?]
    | true =>
      rcases w with _ | _ | ⟨_ | _⟩ <;>
        simp [errorOf?, FilterValue.isSingle, Value.isList]

/-! ## Computations that fail with a fault -/

section FailsWith

variable {ε τ α β : Type}

/-- From every state with the property, the computation ends with the fault, or
with one and the same result if there is none. -/
def FailsWith (I : τ → Prop) (m : ExceptT ε (StateM τ) α)
    (fault : Option ε) : Prop :=
  ∃ r, Settles I m r ∧ errorOf? r = fault

variable {I : τ → Prop}

theorem FailsWith.pure (a : α) :
    FailsWith I (Pure.pure a : ExceptT ε (StateM τ) α) none :=
  ⟨.ok a, .pure a, rfl⟩

theorem FailsWith.throw (e : ε) :
    FailsWith I (MonadExcept.throw e : ExceptT ε (StateM τ) α) (some e) :=
  ⟨.error e, .throw e, rfl⟩

theorem FailsWith.lift (x : Except ε α) :
    FailsWith I (liftM x : ExceptT ε (StateM τ) α) (errorOf? x) := by
  cases x with
  | error e => exact .throw e
  | ok a => exact .pure a

/-- The first fault counts. -/
theorem FailsWith.bind {m : ExceptT ε (StateM τ) α}
    {k : α → ExceptT ε (StateM τ) β} {fault fault' : Option ε}
    (hm : FailsWith I m fault) (hk : ∀ a, FailsWith I (k a) fault') :
    FailsWith I (m >>= k) (fault.or fault') := by
  obtain ⟨_ | a, hr, rfl⟩ := hm
  · exact ⟨_, hr.bind_error k, rfl⟩
  · obtain ⟨r, hr', hfault⟩ := hk a
    exact ⟨r, hr.bind hr', hfault⟩

end FailsWith

/-! ## Compilation -/

namespace Compiler

variable {σ : Type} {c : Compiler σ} {s : Session σ} {actor : Value}
  {entity : Entity} {name : String}

section Fragments

variable {I : Session σ → Prop} {resolve : Operand → Except EvalError Value}

/-- A leaf fails for its value only. -/
theorem leaf_fails
    (hresolve : ∀ operand, Settles I (c.evaluator.resolve actor operand)
      (resolve operand)) (op : Operator) (property : Path) (operand : Operand) :
    FailsWith I (c.leaf actor entity op property operand)
      (Visit.fault? resolve (.leaf op operand)) := by
  have hvalue : Settles I (c.evaluator.resolve actor operand).toScope
      ((resolve operand).mapError .evaluation) := (hresolve operand).adapt
  rw [leaf, Visit.fault?]
  cases hoperand : resolve operand with
  | error e =>
    rw [hoperand] at hvalue
    exact ⟨_, hvalue.bind_error _, rfl⟩
  | ok value =>
    rw [hoperand] at hvalue
    dsimp only
    rw [← Test.errorOf?_of]
    obtain ⟨r, hr, hfault⟩ := (FailsWith.lift (I := I) (Test.of op value)).bind
      fun t => .pure (c.binder.bind t property entity c.naming.root)
    rw [Option.or_none] at hfault
    exact ⟨r, hvalue.bind hr, hfault⟩

mutual

/-- An expression fails with the first fault among its visits. -/
theorem fragment_fails
    (hresolve : ∀ operand, Settles I (c.evaluator.resolve actor operand)
      (resolve operand)) : ∀ e : Expression,
    FailsWith I (c.fragment actor entity e)
      (e.visits.findSome? (Visit.fault? resolve))
  | .all parts => by
    rw [fragment, Expression.visits, ← Option.or_none (o := List.findSome? ..)]
    exact (fragments_fails hresolve parts).bind fun fs => .pure _
  | .any parts => by
    rw [fragment, Expression.visits, ← Option.or_none (o := List.findSome? ..)]
    exact (fragments_fails hresolve parts).bind fun fs => .pure _
  | .leaf op property operand => by
    rw [fragment, Expression.visits, List.findSome?_singleton]
    exact leaf_fails hresolve op property operand
  | .not (.leaf op property operand) => by
    rw [fragment, Expression.visits]
    cases op.invert? with
    | some inverse =>
      dsimp only
      rw [List.findSome?_singleton]
      exact leaf_fails hresolve inverse property operand
    | none => exact .throw _
  | .not (.not part) => by
    rw [fragment, Expression.visits]
    exact fragment_fails hresolve part
  | .not (.all _) => by
    rw [fragment, Expression.visits]
    exact .throw _
  | .not (.any _) => by
    rw [fragment, Expression.visits]
    exact .throw _

theorem fragments_fails
    (hresolve : ∀ operand, Settles I (c.evaluator.resolve actor operand)
      (resolve operand)) : ∀ parts : List Expression,
    FailsWith I (c.fragments actor entity parts)
      ((visitsOf parts).findSome? (Visit.fault? resolve))
  | [] => .pure []
  | part :: parts => by
    rw [fragments, visitsOf, List.findSome?_append]
    refine (fragment_fails hresolve part).bind fun first => ?_
    rw [← Option.or_none (o := List.findSome? ..)]
    exact (fragments_fails hresolve parts).bind fun rest => .pure _

end

end Fragments

/-- In a session whose answers do not change, the compilation of an expression
for a declared entity ends with the first fault among its visits, and with a
query exactly if there is none.  The paths of its leaves make no difference to
that. -/
theorem compile_fails_iff (hrep : c.evaluator.Reproducible s)
    (hentity : c.evaluator.schema.entity? name = some entity) (actor : Value)
    (e : Expression) :
    let resolve := fun operand =>
      (outcome (c.evaluator.resolve actor operand) s).1
    (∀ err, (outcome (c.compile actor name e) s).1 = .error err ↔
      e.visits.findSome? (Visit.fault? resolve) = some err) ∧
    ((∃ f, (outcome (c.compile actor name e) s).1 = .ok f) ↔
      ∀ visit ∈ e.visits, Visit.fault? resolve visit = none) ∧
    ∀ e' : Expression, e'.pathless = e.pathless → ∀ err,
      (outcome (c.compile actor name e') s).1 = .error err ↔
        (outcome (c.compile actor name e) s).1 = .error err := by
  intro resolve
  obtain ⟨I, hs, hmimics⟩ := hrep.exists_mimics
  have hfault (e : Expression) : errorOf?
      (outcome (c.compile actor name e) s).1 =
      e.visits.findSome? (Visit.fault? resolve) := by
    have hfails : FailsWith I (c.fragment actor entity e)
        (e.visits.findSome? (Visit.fault? resolve)) :=
      fragment_fails
        (fun operand => (hmimics.resolve actor operand).settles hs) e
    obtain ⟨r, hr, hfault⟩ := hfails
    have hcompile : c.compile actor name e = c.fragment actor entity e := by
      rw [compile, require, Schema.require, hentity]
      rfl
    rw [hcompile, hr.outcome_eq hs, hfault]
  have herror (e : Expression) (err : ScopeError) :
      (outcome (c.compile actor name e) s).1 = .error err ↔
        e.visits.findSome? (Visit.fault? resolve) = some err := by
    rw [← hfault]
    cases (outcome (c.compile actor name e) s).1 <;> simp [errorOf?]
  refine ⟨herror e, ?_, fun e' he' err => ?_⟩
  · rw [← List.findSome?_eq_none_iff, ← hfault]
    cases (outcome (c.compile actor name e) s).1 <;> simp [errorOf?]
  · rw [herror, herror, ← e'.visits_pathless, he', e.visits_pathless]

end Compiler

/-! ## An example -/

namespace Firm

/-- A compiler whose operands are loaded from the registry. -/
def compiler : Compiler Unit := { evaluator }

/-- A path leads to the boss of the actor, and the row does not come after a
value. -/
def peers (boss : Path) : Expression :=
  .all [.leaf .eq boss (.path [.plain "boss"]),
    .not (.leaf .gt [.plain "since"] (.literal (.int64 1)))]

end Firm

open Firm in
theorem Compiler.compile_fails_iff_peers :
    compiler.evaluator.Reproducible remembered ∧
      compiler.evaluator.schema.entity? "person" = some person ∧
      (outcome (compiler.compile (.record (numbered 2)) "person"
        (peers [.plain "boss"]))
        remembered).1 = .error (.notNegatable (.operator .gt)) ∧
      (outcome (compiler.compile (.record (numbered 2)) "person"
        (peers [.wildcard]))
        remembered).1 = .error (.notNegatable (.operator .gt)) := by
  have hrep : compiler.evaluator.Reproducible remembered :=
    .served rfl rfl registry_answersByKey remembered_holds
  obtain ⟨herror, -, hpaths⟩ := compile_fails_iff hrep
    (rfl : compiler.evaluator.schema.entity? "person" = some person)
    (.record (numbered 2)) (peers [.plain "boss"])
  have hfirst := (herror (.notNegatable (.operator .gt))).2 rfl
  exact ⟨hrep, rfl, hfirst, (hpaths (peers [.wildcard]) rfl _).2 hfirst⟩

end RowGuard
