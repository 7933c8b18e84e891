import RowGuard.Proofs.Evaluation.Memoization
import RowGuard.Proofs.Evaluation.Simulation

/-!
# Evaluations that can be repeated

What has been loaded before may change what an evaluation comes to: a budget
runs out, or a storage answers differently a second time.  Neither happens in
the sessions that `Evaluator.Reproducible` describes.  There is a property of
sessions, kept by whatever the evaluator is asked, under which every answer is
always the same (`Evaluator.Reproducible.exists_mimics`).

`Settles I m r` says this of a computation: from every session with the property
`I` it comes to `r`, which may be an error, and keeps the property.
-/

namespace RowGuard

/-! ## Computations that settle -/

section Settles

variable {ε τ α β : Type}

/-- From every state with the property, the computation comes to this result or
error, and keeps the property. -/
def Settles (I : τ → Prop) (m : ExceptT ε (StateM τ) α)
    (r : Except ε α) : Prop :=
  ∀ s, I s → (outcome m s).1 = r ∧ I (outcome m s).2

variable {I : τ → Prop} {m : ExceptT ε (StateM τ) α}

/-- A computation that simulates itself settles on what it comes to from one
state. -/
theorem Simulates.settles (h : Simulates (fun s t => I s ∧ I t) m m) {s : τ}
    (hs : I s) :
    Settles I m (outcome m s).1 := fun t ht =>
  have ⟨hresult, hkept⟩ := h t s ⟨ht, hs⟩
  ⟨hresult, hkept.1⟩

namespace Settles

theorem pure (a : α) :
    Settles I (Pure.pure a : ExceptT ε (StateM τ) α) (.ok a) :=
  fun _ hs => ⟨rfl, hs⟩

theorem throw (e : ε) :
    Settles I (MonadExcept.throw e : ExceptT ε (StateM τ) α) (.error e) :=
  fun _ hs => ⟨rfl, hs⟩

theorem bind {a : α} {k : α → ExceptT ε (StateM τ) β} {r : Except ε β}
    (hm : Settles I m (.ok a)) (hk : Settles I (k a) r) :
    Settles I (m >>= k) r := by
  intro s hs
  obtain ⟨hresult, hkept⟩ := hm s hs
  rw [outcome_bind]
  revert hresult hkept
  rcases outcome m s with ⟨_, t⟩
  rintro rfl ht
  exact hk t ht

theorem bind_error {e : ε} (hm : Settles I m (.error e))
    (k : α → ExceptT ε (StateM τ) β) :
    Settles I (m >>= k) (.error e) := by
  intro s hs
  obtain ⟨hresult, hkept⟩ := hm s hs
  rw [outcome_bind]
  revert hresult hkept
  rcases outcome m s with ⟨_, t⟩
  rintro rfl ht
  exact ⟨rfl, ht⟩

theorem adapt {ε' : Type} {f : ε → ε'} {r : Except ε α} (hm : Settles I m r) :
    Settles I (ExceptT.adapt f m) (r.mapError f) := by
  intro s hs
  obtain ⟨rfl, hkept⟩ := hm s hs
  exact ⟨rfl, hkept⟩

/-- From one state with the property the computation comes to what it settles
on. -/
theorem outcome_eq {r : Except ε α} (hm : Settles I m r) {s : τ} (hs : I s) :
    (outcome m s).1 = r :=
  (hm s hs).1

end Settles

end Settles

/-! ## Answers that do not change -/

variable {σ : Type} {ev : Evaluator σ} {s : Session σ}

/-- The answers of the evaluator in the session do not change: it loads nothing,
or it loads without limits from a storage that answers by key, and the cache
holds nothing but such answers. -/
inductive Evaluator.Reproducible (ev : Evaluator σ) (s : Session σ) : Prop where
  | unserved (hloader : ev.loader = none)
  | served {loader : Loader σ}
      {answer : Record → String → Field → Except LoadError Value}
      (hloader : ev.loader = some loader) (hbudget : ev.budget = .unlimited)
      (hanswers : loader.AnswersByKey answer)
      (hcache : s.cache.Holds ev.schema answer)

namespace Evaluator

/-- Without a loader an answer leaves the session as it is. -/
theorem answer_simulates_unserved (hloader : ev.loader = none)
    (cache : RelationCache) (request : Request ev.schema) :
    Simulates (fun t u : Session σ => t.cache = cache ∧ u.cache = cache)
      (ev.answer request) (ev.answer request) := by
  rintro t u ⟨ht, hu⟩
  rw [outcome_answer, outcome_answer, hloader, ht, hu]
  cases request.key?.bind cache.get? <;> exact ⟨rfl, ht, hu⟩

/-- The evaluator agrees with itself in all sessions with some property that the
session has and that evaluations keep. -/
theorem Reproducible.exists_mimics (h : ev.Reproducible s) :
    ∃ I : Session σ → Prop, I s ∧ ev.Mimics (fun t u => I t ∧ I u) ev := by
  cases h with
  | unserved hloader =>
    exact ⟨fun t => t.cache = s.cache, rfl, rfl, rfl, rfl,
      answer_simulates_unserved hloader s.cache⟩
  | @served loader answer hloader hbudget hanswers hcache =>
    refine ⟨fun t => t.cache.Holds ev.schema answer, hcache, rfl, rfl, rfl, ?_⟩
    -- both answers are what the loader would answer to the request now
    rintro request t u ⟨ht, hu⟩
    obtain ⟨ht', hkept⟩ :=
      answer_simulates hloader hbudget hanswers request t s ht
    obtain ⟨hu', hkept'⟩ :=
      answer_simulates hloader hbudget hanswers request u s hu
    exact ⟨ht'.trans hu'.symm, hkept, hkept'⟩

end Evaluator

end RowGuard
