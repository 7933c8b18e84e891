import RowGuard.Proofs.Evaluation.History

/-!
# Where a limit on loads cuts off

With a limit on loads, an evaluation makes the calls of the loader that it makes
without, until the session has counted as many loads as the limit.  If it needs
no call after that, it ends as it does without a limit.  Otherwise it ends with
an error, in the session through which the evaluation without a limit passes
after as many calls (`Evaluator.evaluate_limited`).

* `Evaluator.Answers.limited` is the step: an answer with a limit next to one
  without.
* `Evaluator.run_limited_eq` and `Evaluator.run_limited_exceeded` are the
  inductions on the script, for what fits into the limit and for what does not.
* `Session.Tallied` ties the loads that a session counts to the calls in its
  log.
-/

namespace RowGuard

variable {σ : Type}

/-- The run of a script from a session passes through a session. -/
inductive Script.Passes {schema : Schema} {α : Type}
    (answer : Request schema → EvalM σ Value) :
    Script schema α → Session σ → Session σ → Prop where
  | here (m : Script schema α) (s : Session σ) : Passes answer m s s
  | later {request : Request schema} {next : Value → Script schema α}
      {s t u : Session σ} {v : Value} (hanswer : Returns (answer request) s v t)
      (hlater : Passes answer (next v) t u) :
      Passes answer (.ask request next) s u

namespace Evaluator

/-- The evaluator without limits. -/
def unlimited (ev : Evaluator σ) : Evaluator σ :=
  { ev with budget := .unlimited }

/-- The evaluator with a limit on loads only. -/
def limited (ev : Evaluator σ) (limit : Nat) : Evaluator σ :=
  { ev with budget := ⟨some limit, none⟩ }

/-- The calls of the loader in an evaluation, the first one first. -/
def calls (ev : Evaluator σ) (path : Path) (value : Value)
    (s : Session σ) : List Load :=
  (outcome (ev.logged.evaluate path value) s.logging).2.calls

/-- The evaluation of a path from a session passes through another session when
it has made these calls of the loader. -/
def PassesThrough (ev : Evaluator σ) (path : Path) (value : Value)
    (s u : Session σ) (calls : List Load) : Prop :=
  (path.script ev.schema ev.graph value).Passes ev.logged.answer s.logging
    ⟨u.cache, u.loads, ⟨u.storage, calls⟩⟩

/-! ## One answer -/

variable {ev : Evaluator σ} {schema : Schema} {request : Request schema}
  {limit : Nat} {s t : Session σ} {r : Except EvalError Value}

/-- A limit on loads refuses what exceeds it, whatever time has passed. -/
theorem refusal?_limited (limit loads elapsed : Nat) :
    loads < limit ∧ (ev.limited limit).budget.refusal? loads elapsed = none ∨
      limit ≤ loads ∧
        (ev.limited limit).budget.refusal? loads elapsed =
          some (.loadBudgetExceeded limit) := by
  rcases Nat.lt_or_ge loads limit with hlt | hle
  · refine .inl ⟨hlt, ?_⟩
    simp [Evaluator.limited, Budget.refusal?, Option.filter, Nat.not_le.2 hlt]
  · refine .inr ⟨hle, ?_⟩
    simp [Evaluator.limited, Budget.refusal?, Option.filter, hle]

/-- With a limit the answer is the same, unless it counts one more load than
that. -/
theorem Answers.limited (h : ev.unlimited.Answers request s r t) (limit : Nat) :
    t.loads = s.loads ∧ (ev.limited limit).Answers request s r t ∨
      t.loads = s.loads + 1 ∧
        (s.loads < limit ∧ (ev.limited limit).Answers request s r t ∨
          limit ≤ s.loads ∧
            (ev.limited limit).Answers request s
              (.error (.loadBudgetExceeded limit)) s) := by
  cases h with
  | remembered hhit => exact .inl ⟨rfl, .remembered hhit⟩
  | unserved hmiss hloader => exact .inl ⟨rfl, .unserved hmiss hloader⟩
  | refused hmiss hloader hrefusal => cases hrefusal
  | failed hmiss hloader _ hload =>
    refine .inr ⟨rfl, ?_⟩
    rcases refusal?_limited limit s.loads _ with ⟨hlt, hnone⟩ | ⟨hle, hsome⟩
    · exact .inl ⟨hlt, .failed hmiss hloader hnone hload⟩
    · exact .inr ⟨hle, .refused hmiss hloader hsome⟩
  | loaded hmiss hloader _ hload =>
    refine .inr ⟨rfl, ?_⟩
    rcases refusal?_limited limit s.loads _ with ⟨hlt, hnone⟩ | ⟨hle, hsome⟩
    · exact .inl ⟨hlt, .loaded hmiss hloader hnone hload⟩
    · exact .inr ⟨hle, .refused hmiss hloader hsome⟩

theorem Answers.loads_le (h : ev.unlimited.Answers request s r t) :
    s.loads ≤ t.loads := by
  rcases h.limited 0 with ⟨hsame, -⟩ | ⟨hmore, -⟩ <;> omega

/-- What fits into the limit is answered as without it. -/
theorem Answers.limited_eq (h : ev.unlimited.Answers request s r t)
    (hfits : t.loads = s.loads ∨ t.loads ≤ limit) :
    (ev.limited limit).Answers request s r t := by
  rcases h.limited limit with ⟨-, hanswer⟩ | ⟨hmore, ⟨-, hanswer⟩ | ⟨hle, -⟩⟩
  · exact hanswer
  · exact hanswer
  · omega

/-- What does not fit into the limit is refused. -/
theorem Answers.limited_exceeded (h : ev.unlimited.Answers request s r t)
    (hloads : s.loads < t.loads) (hlimit : limit < t.loads) :
    limit ≤ s.loads ∧
      (ev.limited limit).Answers request s
        (.error (.loadBudgetExceeded limit)) s := by
  rcases h.limited limit with ⟨hsame, -⟩ | ⟨hmore, ⟨hlt, -⟩ | hrefused⟩
  · omega
  · omega
  · exact hrefused

/-! ## Whole runs -/

variable {α : Type}

theorem run_loads_le (ev : Evaluator σ) (m : Script schema α) (s : Session σ) :
    s.loads ≤ (outcome (m.run ev.unlimited.answer) s).2.loads := by
  induction m generalizing s with
  | done a => exact Nat.le_refl _
  | ask request next ih =>
    rw [Script.outcome_run_ask]
    rcases hanswer : outcome (ev.unlimited.answer request) s with ⟨r, t⟩
    have hle : s.loads ≤ t.loads := (outcome_answer_iff.1 hanswer).loads_le
    cases r with
    | error e => exact hle
    | ok v => exact Nat.le_trans hle (ih v t)

/-- A run that fits into the limit is as without it. -/
theorem run_limited_eq (m : Script schema α) (s : Session σ)
    (hfits : (outcome (m.run ev.unlimited.answer) s).2.loads = s.loads ∨
      (outcome (m.run ev.unlimited.answer) s).2.loads ≤ limit) :
    outcome (m.run (ev.limited limit).answer) s =
      outcome (m.run ev.unlimited.answer) s := by
  induction m generalizing s with
  | done a => rfl
  | ask request next ih =>
    rw [Script.outcome_run_ask] at hfits
    rw [Script.outcome_run_ask, Script.outcome_run_ask]
    rcases hanswer : outcome (ev.unlimited.answer request) s with ⟨r, t⟩
    have hunlimited := outcome_answer_iff.1 hanswer
    rw [hanswer] at hfits
    cases r with
    | error e => rw [outcome_answer_iff.2 (hunlimited.limited_eq hfits)]
    | ok v =>
      have hbefore : s.loads ≤ t.loads := hunlimited.loads_le
      have hafter := ev.run_loads_le (next v) t
      dsimp only at hfits
      rw [outcome_answer_iff.2 (hunlimited.limited_eq (by omega))]
      exact ih v t (by omega)

/-- A run that does not fit into the limit ends where the run without it has as
many loads. -/
theorem run_limited_exceeded (m : Script schema α) (s : Session σ)
    (hloads : s.loads < (outcome (m.run ev.unlimited.answer) s).2.loads)
    (hlimit : limit < (outcome (m.run ev.unlimited.answer) s).2.loads) :
    ∃ u, outcome (m.run (ev.limited limit).answer) s =
      (.error (.loadBudgetExceeded limit), u) ∧
      u.loads = max limit s.loads ∧ m.Passes ev.unlimited.answer s u := by
  induction m generalizing s with
  | done a => exact absurd hloads (Nat.lt_irrefl _)
  | ask request next ih =>
    rw [Script.outcome_run_ask] at hloads hlimit ⊢
    rcases hanswer : outcome (ev.unlimited.answer request) s with ⟨r, t⟩
    have hunlimited := outcome_answer_iff.1 hanswer
    rw [hanswer] at hloads hlimit
    by_cases hcut : s.loads < t.loads ∧ limit < t.loads
    · obtain ⟨hle, hrefused⟩ := hunlimited.limited_exceeded hcut.1 hcut.2
      rw [outcome_answer_iff.2 hrefused]
      exact ⟨s, rfl, (Nat.max_eq_right hle).symm, .here _ s⟩
    · have hfits : t.loads = s.loads ∨ t.loads ≤ limit := by
        have hle := hunlimited.loads_le
        omega
      rw [outcome_answer_iff.2 (hunlimited.limited_eq hfits)]
      cases r with
      | error e => exact absurd ⟨hloads, hlimit⟩ hcut
      | ok v =>
        dsimp only at hloads hlimit ⊢
        obtain ⟨u, hcut, hu, hpasses⟩ := ih v t (by omega) hlimit
        refine ⟨u, hcut, ?_, .later hanswer hpasses⟩
        have hle := hunlimited.loads_le
        omega

/-! ## Evaluations -/

theorem unlimited_eq_run (ev : Evaluator σ) (path : Path) (v : Value) :
    ev.unlimited.evaluate path v =
      (path.script ev.schema ev.graph v).run ev.unlimited.answer :=
  ev.unlimited.evaluate_eq_run path v

theorem limited_eq_run (ev : Evaluator σ) (limit : Nat) (path : Path)
    (v : Value) :
    (ev.limited limit).evaluate path v =
      (path.script ev.schema ev.graph v).run (ev.limited limit).answer :=
  (ev.limited limit).evaluate_eq_run path v

/-- An evaluation that fits into the limit is as without it. -/
theorem evaluate_limited_eq (ev : Evaluator σ) (limit : Nat)
    (path : Path) (v : Value) (s : Session σ)
    (hfits : (outcome (ev.unlimited.evaluate path v) s).2.loads = s.loads ∨
      (outcome (ev.unlimited.evaluate path v) s).2.loads ≤ limit) :
    outcome ((ev.limited limit).evaluate path v) s =
      outcome (ev.unlimited.evaluate path v) s := by
  rw [unlimited_eq_run] at hfits ⊢
  rw [limited_eq_run]
  exact run_limited_eq _ s hfits

/-- An evaluation that does not fit into the limit ends on its way. -/
theorem evaluate_limited_exceeded (ev : Evaluator σ) (limit : Nat)
    (path : Path) (v : Value) (s : Session σ)
    (hloads : s.loads < (outcome (ev.unlimited.evaluate path v) s).2.loads)
    (hlimit : limit < (outcome (ev.unlimited.evaluate path v) s).2.loads) :
    ∃ u, outcome ((ev.limited limit).evaluate path v) s =
        (.error (.loadBudgetExceeded limit), u) ∧
      u.loads = max limit s.loads ∧
      (path.script ev.schema ev.graph v).Passes ev.unlimited.answer s u := by
  rw [unlimited_eq_run] at hloads hlimit
  rw [limited_eq_run]
  exact run_limited_exceeded _ s hloads hlimit

end Evaluator

/-! ## Loads and calls -/

/-- Since a session that had counted `n` loads, it has counted the calls in its
log. -/
def Session.Tallied (n : Nat) (s : Session (Logged σ)) : Prop :=
  s.loads = n + s.calls.length

theorem Session.tallied_kept (n : Nat) : KeptByCalls (Tallied (σ := σ) n) := by
  intro s schema request hs hmiss answer storage
  show s.loads + 1 = n + (s.calls ++ [request.load answer]).length
  rw [show s.loads = n + s.calls.length from hs, List.length_append,
    List.length_singleton, Nat.add_assoc]

namespace Evaluator

/-- An evaluation without a log next to one with a log, in which the calls are
counted. -/
theorem evaluate_logged (ev : Evaluator σ) (path : Path) (v : Value)
    (s : Session σ) :
    outcome (ev.evaluate path v) s =
        ((outcome (ev.logged.evaluate path v) s.logging).1,
          (outcome (ev.logged.evaluate path v) s.logging).2.unlogged) ∧
      (outcome (ev.logged.evaluate path v) s.logging).2.loads =
        s.loads + (ev.calls path v s).length := by
  have hstart : Session.Follows (Session.Tallied s.loads) s.logging s :=
    ⟨rfl, rfl⟩
  have hfollows : Simulates (Session.Follows (Session.Tallied s.loads))
      (ev.logged.evaluate path v) (ev.evaluate path v) :=
    (logged_mimics (Session.tallied_kept s.loads) ev).evaluate path v
  obtain ⟨hresult, htallied, hsession⟩ := hfollows s.logging s hstart
  exact ⟨Prod.ext hresult.symm hsession.symm, htallied⟩

/-- What has been called stays in the log. -/
theorem run_keeps_calls (ev : Evaluator σ) {schema : Schema} {α : Type}
    (m : Script schema α) (s : Session (Logged σ)) :
    s.calls <+: (outcome (m.run ev.logged.answer) s).2.calls := by
  have hkept : Session.KeptByCalls fun t : Session (Logged σ) =>
      s.calls <+: t.calls := by
    intro t schema request ht hmiss answer storage
    exact ht.trans (List.prefix_append ..)
  exact (Script.run_simulates (answer_follows hkept) m s s.unlogged
    ⟨List.prefix_refl _, rfl⟩).2.1

/-- The calls up to a session through which a run passes are the first ones of
the run. -/
theorem calls_isPrefix_of_passes (ev : Evaluator σ) {schema : Schema} {α : Type}
    {m : Script schema α} {s u : Session (Logged σ)}
    (h : m.Passes ev.logged.answer s u) :
    u.calls <+: (outcome (m.run ev.logged.answer) s).2.calls := by
  induction h with
  | here m s => exact ev.run_keeps_calls m s
  | later hanswer _ ih =>
    rw [Returns] at hanswer
    rw [Script.outcome_run_ask, hanswer]
    exact ih

/-- Let an evaluation without limits make `k` calls of the loader.  With a limit
it is the same if it makes no call, or if the session has not counted more loads
than the limit after `k` more.  Otherwise it ends with an error, after the first
of these calls, as many as the limit leaves to the session, and in the session
through which the evaluation without limits passes after them. -/
theorem evaluate_limited (ev : Evaluator σ) (limit : Nat)
    (path : Path) (v : Value) (s : Session σ) :
    let k := (ev.unlimited.calls path v s).length
    (outcome (ev.unlimited.evaluate path v) s).2.loads = s.loads + k ∧
      if k = 0 ∨ s.loads + k ≤ limit then
        outcome ((ev.limited limit).evaluate path v) s =
          outcome (ev.unlimited.evaluate path v) s
      else
        ∃ u, outcome ((ev.limited limit).evaluate path v) s =
            (.error (.loadBudgetExceeded limit), u) ∧
          u.loads = max limit s.loads ∧
          (ev.limited limit).calls path v s =
            (ev.unlimited.calls path v s).take (limit - s.loads) ∧
          ((ev.limited limit).calls path v s).length = limit - s.loads ∧
          ev.unlimited.PassesThrough path v s u
            ((ev.limited limit).calls path v s) := by
  intro k
  obtain ⟨hunlimited, hk⟩ := ev.unlimited.evaluate_logged path v s
  have hloads : (outcome (ev.unlimited.evaluate path v) s).2.loads =
      s.loads + k := by
    rw [hunlimited]
    exact hk
  refine ⟨hloads, ?_⟩
  split
  next hfits => exact ev.evaluate_limited_eq limit path v s (by omega)
  next hexceeds =>
    obtain ⟨hlimited, hcalls⟩ := (ev.limited limit).evaluate_logged path v s
    -- the session that is passed has a log, so the evaluations with a log are
    -- compared
    have hlogged : (outcome (ev.logged.unlimited.evaluate path v)
        s.logging).2.loads =
      s.loads + k := hk
    have hstart : s.logging.loads = s.loads := rfl
    obtain ⟨u, hcut, hu, hpasses⟩ :=
      ev.logged.evaluate_limited_exceeded limit path v s.logging
        (by omega) (by omega)
    have hcut : outcome ((ev.limited limit).logged.evaluate path v) s.logging =
      (.error (.loadBudgetExceeded limit), u) := hcut
    have hlast : (ev.limited limit).calls path v s = u.calls := by
      rw [calls, hcut]
    rw [hcut] at hlimited hcalls
    dsimp only at hcalls
    have hlength : ((ev.limited limit).calls path v s).length =
        limit - s.loads := by omega
    have hfirst : u.calls <+: ev.unlimited.calls path v s := by
      rw [calls, evaluate_eq_run]
      exact ev.unlimited.calls_isPrefix_of_passes hpasses
    refine ⟨u.unlogged, hlimited, hu, ?_, hlength, ?_⟩
    · rw [← hlength, hlast]
      exact List.prefix_iff_eq_take.1 hfirst
    · rw [hlast]
      exact hpasses

end Evaluator

end RowGuard
