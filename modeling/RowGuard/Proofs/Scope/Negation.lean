import RowGuard.Proofs.Scope.Failures

/-!
# Negation

A negation is pushed into what it negates, one level at a time: two of them
cancel, and the operator of a leaf gives way to its inverse.  Combined
expressions have no negation, and neither have leaves that compare by order.

* `Expression.invertible` holds of the leaves whose operator has an inverse, and
  of negations of such expressions, however many.  The negation of such an
  expression is decided by deciding the expression and turning the answer around
  (`Evaluator.holds_not_of_invertible`); this rests on how the operators of each
  pair compare (`Operator.compare_invert`).
* Of any other expression and its negation, one has no meaning
  (`Evaluator.holds_or_not_fails`).  So where both can be decided, they oppose
  each other.
* `Expression.not_complementary` is the result, together with what it means for
  the compilation that two negations cancel.
-/

namespace RowGuard

/-- An operator holds where its inverse does not. -/
theorem Operator.compare_invert {op inverse : Operator}
    (h : op.invert? = some inverse) (left right : Value) :
    inverse.compare left right = (op.compare left right).map (!·) := by
  cases op with
  | eq | mem =>
    cases h
    rfl
  | neq | notMem =>
    cases h
    simp [compare, Except.map]
  | gt | gte | lt | lte => cases h

/-- Whether the expression is a leaf whose operator has an inverse, or the
negation of such an expression. -/
def Expression.invertible : Expression → Bool
  | .leaf op _ _ => op.invert?.isSome
  | .not part => part.invertible
  | .all _ | .any _ => false

/-! ## Decisions -/

/-- What is done with the result of a computation leaves its session and its
error. -/
theorem outcome_map {ε τ α β : Type} (f : α → β) (m : ExceptT ε (StateM τ) α)
    (s : τ) :
    outcome (f <$> m) s = ((outcome m s).1.map f, (outcome m s).2) := by
  rw [map_eq_pure_bind, outcome_bind]
  rcases outcome m s with ⟨_ | a, t⟩ <;> rfl

namespace Evaluator

variable {σ : Type} {ev : Evaluator σ} {subject actor : Value}

/-- With the inverse of its operator, a leaf has the opposite answer, or the
same error. -/
theorem holdsLeaf_invert {op inverse : Operator} (h : op.invert? = some inverse)
    (property : Path) (operand : Operand) :
    ev.holdsLeaf subject actor inverse property operand =
      (!·) <$> ev.holdsLeaf subject actor op property operand := by
  simp only [holdsLeaf, map_bind]
  refine bind_congr fun left => bind_congr fun right => ?_
  rw [Operator.compare_invert h]
  cases op.compare left right with
  | ok decision => exact (map_pure _ _).symm
  | error e => rfl

/-- The negation of an invertible expression has the opposite answer, or the
same error. -/
theorem holds_not_of_invertible : ∀ {e : Expression}, e.invertible = true →
    ev.holds subject actor (.not e) = (!·) <$> ev.holds subject actor e
  | .leaf op property operand, h => by
    obtain ⟨inverse, hinverse⟩ := Option.isSome_iff_exists.1 h
    simp only [holds, hinverse]
    exact holdsLeaf_invert hinverse property operand
  | .not part, h => by
    have hpart : ev.holds subject actor (.not part) =
        (!·) <$> ev.holds subject actor part :=
      holds_not_of_invertible h
    rw [hpart, Functor.map_map]
    simp [holds]

/-- If an expression is not invertible, it is the negation of something that has
none, or has none itself. -/
theorem holds_or_not_fails : ∀ {e : Expression}, e.invertible = false →
    (∃ cause, ev.holds subject actor e = throw (.notNegatable cause)) ∨
      ∃ cause, ev.holds subject actor (.not e) = throw (.notNegatable cause)
  | .all _, _ | .any _, _ => .inr ⟨_, by rw [holds]⟩
  | .leaf op _ _, h => .inr ⟨.operator op, by
      rw [holds, Option.isNone_iff_eq_none.1 (Option.isSome_eq_false_iff.1 h)]⟩
  | .not part, h => by
    rcases holds_or_not_fails (e := part) h with
      ⟨cause, hfails⟩ | ⟨cause, hfails⟩
    · exact .inr ⟨cause, by rw [holds, hfails]⟩
    · exact .inl ⟨cause, hfails⟩

/-- Without a loader, a decision is the same in all sessions with one cache, and
it leaves the cache as it is. -/
theorem holds_unserved (hloader : ev.loader = none) {s t : Session σ}
    (hcache : t.cache = s.cache) (subject actor : Value) (e : Expression) :
    (outcome (ev.holds subject actor e) t).1 =
      (outcome (ev.holds subject actor e) s).1 ∧
      (outcome (ev.holds subject actor e) s).2.cache = s.cache := by
  have hmimics : ev.Mimics
      (fun t u => t.cache = s.cache ∧ u.cache = s.cache) ev :=
    ⟨rfl, rfl, rfl, answer_simulates_unserved hloader s.cache⟩
  obtain ⟨hsame, -, hkept⟩ := hmimics.holds subject actor e t s ⟨hcache, rfl⟩
  exact ⟨hsame, hkept⟩

end Evaluator

/-! ## Compilation -/

namespace Compiler

variable {σ : Type} {c : Compiler σ} {s : Session σ}

/-- Two negations in front of an expression make no difference to its
compilation. -/
theorem compile_not_not (actor : Value) (name : String) (e : Expression) :
    c.compile actor name (.not (.not e)) = c.compile actor name e := by
  simp only [compile, fragment_not, Expression.negate]

/-- In a session whose answers do not change, a compilation can be repeated. -/
theorem compile_again (hrep : c.evaluator.Reproducible s) (actor : Value)
    (name : String) (e : Expression) :
    (outcome (c.compile actor name e)
      (outcome (c.compile actor name e) s).2).1 =
      (outcome (c.compile actor name e) s).1 := by
  obtain ⟨I, hs, hmimics⟩ := hrep.exists_mimics
  obtain ⟨r, hsettles⟩ : ∃ r, Settles I (c.compile actor name e) r := by
    rw [compile, require]
    cases c.evaluator.schema.require name with
    | error err =>
      exact ⟨_, (Settles.throw (ScopeError.schema err)).bind_error _⟩
    | ok entity =>
      obtain ⟨r, hr, -⟩ : FailsWith I (c.fragment actor entity e) _ :=
        fragment_fails
          (fun operand => (hmimics.resolve actor operand).settles hs) e
      exact ⟨r, (Settles.pure entity).bind hr⟩
  obtain ⟨hfirst, hkept⟩ := hsettles s hs
  rw [hfirst, hsettles.outcome_eq hkept]

end Compiler

/-! ## Negations in pairs and alone -/

/-- Without a loader, an expression and its negation have opposite answers where
both can be decided; if the expression is invertible, both can be, or both fail
with one error.  Two negations change neither the answer or error of an
expression nor what it is compiled to.  In a session whose answers do not
change, the compilations may also follow each other. -/
theorem Expression.not_complementary {σ : Type} (e : Expression) :
    (∀ (ev : Evaluator σ) (subject actor : Value) (s t : Session σ),
      ev.loader = none → t.cache = s.cache →
      (∀ a b, (outcome (ev.holds subject actor e) s).1 = .ok a →
        (outcome (ev.holds subject actor (.not e)) t).1 = .ok b → b = !a) ∧
      (e.invertible = true → (outcome (ev.holds subject actor (.not e)) t).1 =
        (outcome (ev.holds subject actor e) s).1.map (!·)) ∧
      (outcome (ev.holds subject actor (.not (.not e))) t).1 =
        (outcome (ev.holds subject actor e) s).1 ∧
      (outcome (ev.holds subject actor e) s).2.cache = s.cache) ∧
    ∀ (c : Compiler σ) (actor : Value) (name : String) (s : Session σ),
      outcome (c.compile actor name (.not (.not e))) s =
        outcome (c.compile actor name e) s ∧
      (c.evaluator.Reproducible s →
        (outcome (c.compile actor name (.not (.not e)))
          (outcome (c.compile actor name e) s).2).1 =
          (outcome (c.compile actor name e) s).1) := by
  constructor
  · intro ev subject actor s t hloader hcache
    obtain ⟨hsame, hkept⟩ := ev.holds_unserved hloader hcache subject actor e
    have hopposite (h : e.invertible = true) :
        (outcome (ev.holds subject actor (.not e)) t).1 =
          (outcome (ev.holds subject actor e) s).1.map (!·) := by
      rw [Evaluator.holds_not_of_invertible h, outcome_map, hsame]
    refine ⟨fun a b ha hb => ?_, hopposite, ?_, hkept⟩
    · cases h : e.invertible with
      | true =>
        rw [hopposite h, ha] at hb
        exact (Except.ok.inj hb).symm
      | false =>
        -- one of the two has no meaning, so they do not both have an answer
        rcases ev.holds_or_not_fails h with ⟨cause, hfails⟩ | ⟨cause, hfails⟩
        · rw [hfails] at ha
          cases ha
        · rw [hfails] at hb
          cases hb
    · simpa only [Evaluator.holds_not, negate] using hsame
  · intro c actor name s
    rw [c.compile_not_not]
    exact ⟨rfl, fun hrep => Compiler.compile_again hrep actor name e⟩

namespace Firm

/-- Nothing is loaded. -/
def offline : Evaluator Unit := { schema }

/-- The row is not the boss of the actor. -/
def other : Expression :=
  .not (.leaf .mem [.plain "id"] (.path [.plain "boss"]))

end Firm

open Firm in
theorem Expression.not_complementary_other :
    offline.loader = none ∧ other.invertible = true ∧
      (outcome
        (offline.holds (.record (numbered 1)) (.record (numbered 2)) other)
        (.start ())).1 = .ok true ∧
      (outcome (offline.holds (.record (numbered 1)) (.record (numbered 2))
        (.not other)) (.start ())).1 = .ok false ∧
      compiler.evaluator.Reproducible remembered ∧
      (outcome (compiler.compile (.record (numbered 2)) "person" other)
        remembered).1.isOk = true ∧
      (outcome (compiler.compile (.record (numbered 2)) "person"
        (.not (.not other)))
        (outcome (compiler.compile (.record (numbered 2)) "person" other)
          remembered).2).1 =
          (outcome (compiler.compile (.record (numbered 2)) "person" other)
            remembered).1 := by
  have hrep : compiler.evaluator.Reproducible remembered :=
    .served rfl rfl registry_answersByKey remembered_holds
  have hholds : (outcome
      (offline.holds (.record (numbered 1)) (.record (numbered 2)) other)
      (.start ())).1 = .ok true := rfl
  obtain ⟨hdecided, hcompiled⟩ := Expression.not_complementary (σ := Unit) other
  obtain ⟨-, hopposite, -⟩ := hdecided offline (.record (numbered 1))
    (.record (numbered 2)) (.start ()) (.start ()) rfl rfl
  refine ⟨rfl, rfl, hholds, ?_, hrep, rfl, (hcompiled _ _ _ _).2 hrep⟩
  rw [hopposite rfl, hholds]
  rfl

end RowGuard
