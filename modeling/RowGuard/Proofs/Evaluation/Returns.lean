import RowGuard.Evaluation.Session

/-!
# Results of computations in a session

`Returns m s a s'` says that the computation `m`, started in the session `s`,
comes to the result `a` and leaves the session `s'`.  The lemmas open one step
of a computation each.  `Yields I m a` is the case in which the result is the
same from every session with the property `I`, which `m` keeps.
`Simulates R m m'` compares two computations, each in sessions of its own: they
come to the same result or error, and leave sessions related by `R` again.
-/

namespace RowGuard

variable {ε τ α β : Type}

/-- What a computation comes to, and the state that it leaves. -/
def outcome (m : ExceptT ε (StateM τ) α) (s : τ) : Except ε α × τ := m.run.run s

/-- The computation has a result and leaves a session. -/
def Returns (m : ExceptT ε (StateM τ) α) (s : τ) (a : α) (s' : τ) : Prop :=
  outcome m s = (.ok a, s')

/-- Both parts of a computation run one after the other, up to an error. -/
theorem outcome_bind (m : ExceptT ε (StateM τ) α)
    (k : α → ExceptT ε (StateM τ) β) (s : τ) :
    outcome (m >>= k) s =
      match outcome m s with
      | (.ok a, s') => outcome (k a) s'
      | (.error e, s') => (.error e, s') := by
  show (match outcome m s with | (a, s') => (ExceptT.bindCont k a).run s') = _
  rcases outcome m s with ⟨r, s'⟩
  cases r <;> rfl

@[simp] theorem outcome_get (s : τ) :
    outcome (get : ExceptT ε (StateM τ) τ) s = (.ok s, s) := rfl

@[simp] theorem outcome_set (s t : τ) :
    outcome (set t : ExceptT ε (StateM τ) PUnit) s = (.ok ⟨⟩, t) := rfl

@[simp] theorem returns_pure_iff {a b : α} {s s' : τ} :
    Returns (pure a : ExceptT ε (StateM τ) α) s b s' ↔ a = b ∧ s = s' := by
  show (Except.ok (ε := ε) a, s) = (.ok b, s') ↔ _
  simp

@[simp] theorem not_returns_throw {e : ε} {a : α} {s s' : τ} :
    ¬ Returns (throw e : ExceptT ε (StateM τ) α) s a s' := by
  show ¬ (Except.error e, s) = (.ok a, s')
  simp

@[simp] theorem returns_get_iff {s s' t : τ} :
    Returns (get : ExceptT ε (StateM τ) τ) s t s' ↔ s = t ∧ s = s' := by
  show (Except.ok (ε := ε) s, s) = (.ok t, s') ↔ _
  simp

@[simp] theorem returns_set_iff {s s' t : τ} {u : PUnit} :
    Returns (set t : ExceptT ε (StateM τ) PUnit) s u s' ↔ t = s' := by
  show (Except.ok (ε := ε) PUnit.unit, t) = (.ok u, s') ↔ _
  simp

@[simp] theorem returns_modify_iff {s s' : τ} {f : τ → τ} {u : PUnit} :
    Returns (modify f : ExceptT ε (StateM τ) PUnit) s u s' ↔ f s = s' := by
  show (Except.ok (ε := ε) PUnit.unit, f s) = (.ok u, s') ↔ _
  simp

theorem returns_bind_iff {m : ExceptT ε (StateM τ) α}
    {k : α → ExceptT ε (StateM τ) β} {s s'' : τ} {b : β} :
    Returns (m >>= k) s b s'' ↔
      ∃ a s', Returns m s a s' ∧ Returns (k a) s' b s'' := by
  simp only [Returns, outcome_bind]
  rcases outcome m s with ⟨r, s'⟩
  cases r with
  | ok a =>
    constructor
    · exact fun h => ⟨a, s', rfl, h⟩
    · rintro ⟨a', t, ⟨rfl, rfl⟩, h⟩
      exact h
  | error e => simp

/-- A computation has one result. -/
theorem Returns.unique {m : ExceptT ε (StateM τ) α} {s s' s'' : τ} {a b : α}
    (h : Returns m s a s') (h' : Returns m s b s'') : a = b ∧ s' = s'' := by
  rw [Returns, h] at h'
  simpa using h'

/-- A result can be computed. -/
theorem returns_of_toOption {m : ExceptT ε (StateM τ) α} {s : τ} {a : α}
    (h : (outcome m s).1.toOption = some a) :
    Returns m s a (outcome m s).2 := by
  unfold Returns
  rcases hm : outcome m s with ⟨r, t⟩
  rw [hm] at h
  cases r with
  | ok b =>
    cases h
    rfl
  | error e => cases h

theorem exists_returns_iff {m : ExceptT ε (StateM τ) α} {s : τ} {a : α} :
    (∃ s', Returns m s a s') ↔ (outcome m s).1.toOption = some a := by
  constructor
  · rintro ⟨s', h⟩
    rw [Returns] at h
    rw [h]
    rfl
  · exact fun h => ⟨_, returns_of_toOption h⟩

theorem returns_adapt_iff {ε' : Type} {f : ε → ε'} {m : ExceptT ε (StateM τ) α}
    {s s' : τ} {a : α} : Returns (ExceptT.adapt f m) s a s' ↔
      Returns m s a s' := by
  have hrun : outcome (ExceptT.adapt f m) s =
      ((outcome m s).1.mapError f, (outcome m s).2) := rfl
  rw [Returns, Returns, hrun]
  rcases outcome m s with ⟨r, t⟩
  cases r with
  | ok b =>
    show (Except.ok b, t) = _ ↔ _
    simp
  | error e =>
    show (Except.error (f e), t) = _ ↔ _
    simp

/-! ## Results that do not depend on the session -/

/-- From every state with the property, the computation has the result and keeps
the property. -/
def Yields (I : τ → Prop) (m : ExceptT ε (StateM τ) α) (a : α) : Prop :=
  ∀ s, I s → ∃ s', Returns m s a s' ∧ I s'

namespace Yields

variable {I : τ → Prop} {m : ExceptT ε (StateM τ) α} {a : α}

theorem pure (a : α) :
    Yields I (Pure.pure a : ExceptT ε (StateM τ) α) a := fun s hs =>
  ⟨s, returns_pure_iff.2 ⟨rfl, rfl⟩, hs⟩

theorem bind {k : α → ExceptT ε (StateM τ) β} {b : β} (hm : Yields I m a)
    (hk : Yields I (k a) b) : Yields I (m >>= k) b := by
  intro s hs
  obtain ⟨t, hmt, ht⟩ := hm s hs
  obtain ⟨u, hku, hu⟩ := hk t ht
  exact ⟨u, returns_bind_iff.2 ⟨a, t, hmt, hku⟩, hu⟩

theorem adapt {ε' : Type} {f : ε → ε'} (hm : Yields I m a) :
    Yields I (ExceptT.adapt f m) a := by
  intro s hs
  obtain ⟨t, hmt, ht⟩ := hm s hs
  exact ⟨t, returns_adapt_iff.2 hmt, ht⟩

/-- What a computation comes to from one such state it comes to from all. -/
theorem eq_of_returns (hm : Yields I m a) {s s' : τ} (hs : I s) {b : α}
    (h : Returns m s b s') : b = a := by
  obtain ⟨t, hmt, -⟩ := hm s hs
  exact (h.unique hmt).1

end Yields

/-! ## Computations in sessions of their own -/

/-- From related states, both computations come to the same result or error and
leave related states. -/
def Simulates {τ' : Type} (R : τ → τ' → Prop) (m : ExceptT ε (StateM τ) α)
    (m' : ExceptT ε (StateM τ') α) : Prop :=
  ∀ s s', R s s' → (outcome m s).1 = (outcome m' s').1 ∧
    R (outcome m s).2 (outcome m' s').2

namespace Simulates

variable {τ' : Type} {R : τ → τ' → Prop} {m : ExceptT ε (StateM τ) α}
  {m' : ExceptT ε (StateM τ') α}

theorem pure (a : α) :
    Simulates R (Pure.pure a : ExceptT ε (StateM τ) α) (Pure.pure a) :=
  fun _ _ h => ⟨rfl, h⟩

theorem throw (e : ε) :
    Simulates R (MonadExcept.throw e : ExceptT ε (StateM τ) α)
      (MonadExcept.throw e) :=
  fun _ _ h => ⟨rfl, h⟩

theorem bind {k : α → ExceptT ε (StateM τ) β} {k' : α → ExceptT ε (StateM τ') β}
    (hm : Simulates R m m') (hk : ∀ a, Simulates R (k a) (k' a)) :
    Simulates R (m >>= k) (m' >>= k') := by
  intro s s' h
  rw [outcome_bind, outcome_bind]
  have hfirst := hm s s' h
  revert hfirst
  rcases outcome m s with ⟨r, t⟩
  rcases outcome m' s' with ⟨r', t'⟩
  rintro ⟨hresult, hstate⟩
  obtain rfl : r = r' := hresult
  cases r with
  | ok a => exact hk a t t' hstate
  | error e => exact ⟨rfl, hstate⟩

end Simulates

end RowGuard
