import RowGuard.Proofs.Evaluation.Simulation

/-!
# Every relation is loaded at most once

`Evaluator.logged` is an evaluator whose storage keeps a log of the calls of the
loader.  Apart from the log it does what the evaluator does.  After any
questions that share a session, whatever evaluators answer them and whatever
errors they end with, the log is as `Session.Accounted` says:

* There are as many calls as loads that the session has counted.
* After a call that succeeds for an owner with an identity there is no other
  with the same key.  The invariant behind this is that the cache still has the
  answer.

`Evaluator.Answers.logged_cases` says what an answer does to the log: nothing,
or one call for which the cache had no answer (`Session.called`).  So a property
of sessions that such calls keep (`Session.KeptByCalls`) is kept by answers,
from there by whatever an evaluator is asked (`Evaluator.Mimics`), and by whole
histories.
-/

namespace RowGuard

/-! ## The log of a loader -/

/-- A call of a loader and its answer. -/
structure Load where
  owner : Record
  relation : String
  field : Field
  answer : Except LoadError Value

namespace Load

/-- The key of the relation that was called for, if the owner has an
identity. -/
def key? (load : Load) : Option RelationKey := do
  let entity ← load.owner.entity
  let id ← load.owner.id?
  return .of entity id load.relation

/-- The storage has answered with a value. -/
def Succeeds (load : Load) : Prop := ∃ v, load.answer = .ok v

end Load

/-- The call that a request leads to. -/
def Request.load {schema : Schema} (request : Request schema)
    (answer : Except LoadError Value) : Load :=
  ⟨request.owner, request.relation, request.field, answer⟩

theorem Request.key?_load {schema : Schema} (request : Request schema)
    (answer : Except LoadError Value) :
    (request.load answer).key? = request.key? := by
  obtain ⟨owner, entity, relation, hdeclared⟩ := request
  have hentity : owner.entity = some entity.name :=
    (schema.entityOf?_eq_some_iff.1 hdeclared).1
  cases hid : owner.id? <;> simp [load, Load.key?, key?, hentity, hid]

/-- A storage and the calls for which it has been used, the first one first. -/
structure Logged (σ : Type) where
  storage : σ
  calls : List Load

variable {σ : Type}

namespace Loader

/-- The loader, with a log of its calls. -/
def logged (loader : Loader σ) : Loader (Logged σ) where
  load s owner relation field :=
    let (answer, storage) := loader.load s.storage owner relation field
    (answer, ⟨storage, s.calls ++ [⟨owner, relation, field, answer⟩]⟩)
  elapsed s := loader.elapsed s.storage

theorem logged_load {loader : Loader σ} {s t : Logged σ} {owner : Record}
    {relation : String} {field : Field} {answer : Except LoadError Value}
    (h : loader.logged.load s owner relation field = (answer, t)) :
    ∃ storage, loader.load s.storage owner relation field = (answer, storage) ∧
      t = ⟨storage, s.calls ++ [⟨owner, relation, field, answer⟩]⟩ := by
  obtain ⟨rfl, rfl⟩ := Prod.mk.inj h
  exact ⟨_, rfl, rfl⟩

end Loader

/-- The evaluator, with a log of the calls of its loader. -/
def Evaluator.logged (ev : Evaluator σ) : Evaluator (Logged σ) where
  schema := ev.schema
  graph := ev.graph
  loader := ev.loader.map Loader.logged
  settings := ev.settings
  budget := ev.budget

/-! ## Sessions with a log -/

namespace Session

/-- The calls in the log of a session. -/
def calls (s : Session (Logged σ)) : List Load := s.storage.calls

/-- The session without its log. -/
def unlogged (s : Session (Logged σ)) : Session σ :=
  ⟨s.cache, s.loads, s.storage.storage⟩

/-- The session with an empty log. -/
def logging (s : Session σ) : Session (Logged σ) :=
  ⟨s.cache, s.loads, ⟨s.storage, []⟩⟩

variable {s : Session (Logged σ)} {schema : Schema} {request : Request schema}

/-- The session after a call for a request, which is remembered if it
succeeds. -/
def called (s : Session (Logged σ)) (request : Request schema)
    (answer : Except LoadError Value) (storage : σ) : Session (Logged σ) where
  cache :=
    match answer with
    | .ok v => s.cache.remember request.key? v
    | .error _ => s.cache
  loads := s.loads + 1
  storage := ⟨storage, s.calls ++ [request.load answer]⟩

/-- What the cache has it has after a call that it could not answer. -/
theorem get?_called (answer : Except LoadError Value) (storage : σ)
    (hmiss : request.key?.bind s.cache.get? = none) {key : RelationKey}
    {v : Value} (hget : s.cache.get? key = some v) :
    (s.called request answer storage).cache.get? key = some v := by
  cases answer with
  | error e => exact hget
  | ok w =>
    have hother : request.key? ≠ some key :=
      fun hkey => by simp [hkey, hget] at hmiss
    show (s.cache.remember request.key? w).get? key = some v
    rw [RelationCache.get?_remember, if_neg hother, hget]

/-- The property is kept by calls for which the cache has no answer. -/
def KeptByCalls (I : Session (Logged σ) → Prop) : Prop :=
  ∀ (s : Session (Logged σ)) (schema : Schema) (request : Request schema), I s →
    request.key?.bind s.cache.get? = none →
    ∀ answer storage, I (s.called request answer storage)

/-- The log of a session that has counted the calls from the first one on. -/
structure Accounted (s : Session (Logged σ)) : Prop where
  /-- Every call has been counted. -/
  counted : s.loads = s.calls.length
  /-- No call has the key of an earlier one that succeeded. -/
  once : s.calls.Pairwise fun earlier later =>
    earlier.Succeeds → ∀ key, earlier.key? = some key → later.key? ≠ some key
  /-- The cache has the answers of the calls that succeeded. -/
  kept : ∀ load ∈ s.calls, ∀ v, load.answer = .ok v →
    ∀ key, load.key? = some key → s.cache.get? key = some v

theorem accounted_start (storage : σ) : (start storage).logging.Accounted where
  counted := rfl
  once := .nil
  kept _ hmem := nomatch hmem

theorem Accounted.called (hs : s.Accounted)
    (hmiss : request.key?.bind s.cache.get? = none)
    (answer : Except LoadError Value) (storage : σ) :
    (s.called request answer storage).Accounted where
  counted := by
    show s.loads + 1 = (s.calls ++ [request.load answer]).length
    rw [hs.counted, List.length_append, List.length_singleton]
  once := by
    refine List.pairwise_append.2 ⟨hs.once, List.pairwise_singleton .., ?_⟩
    intro earlier hearlier later hlater hsucceeds key hkey hlaterkey
    obtain ⟨v, hv⟩ := hsucceeds
    obtain rfl := List.mem_singleton.1 hlater
    -- the cache would have had the answer of the earlier call
    have hget : s.cache.get? key = some v :=
      hs.kept earlier hearlier v hv key hkey
    rw [Request.key?_load] at hlaterkey
    simp [hlaterkey, hget] at hmiss
  kept := by
    intro load hload v hv key hkey
    rcases List.mem_append.1 hload with hold | hnew
    · exact get?_called answer storage hmiss (hs.kept load hold v hv key hkey)
    · obtain rfl := List.mem_singleton.1 hnew
      obtain rfl : answer = .ok v := hv
      rw [Request.key?_load] at hkey
      show (s.cache.remember request.key? v).get? key = some v
      rw [RelationCache.get?_remember, if_pos hkey]

theorem accounted_kept :
    KeptByCalls (Accounted (σ := σ)) := fun _ _ _ hs hmiss answer storage =>
  hs.called hmiss answer storage

/-- The session without its log is the other one, and with its log it has a
property. -/
def Follows (I : Session (Logged σ) → Prop) (s : Session (Logged σ))
    (t : Session σ) : Prop :=
  I s ∧ s.unlogged = t

end Session

/-! ## What answers keep -/

namespace Evaluator

variable {ev : Evaluator σ} {schema : Schema} {request : Request schema}
  {s t : Session (Logged σ)} {r : Except EvalError Value}

/-- With a log, an evaluator answers as it does without, and makes no call
unless the cache has no answer. -/
theorem Answers.logged_cases (h : ev.logged.Answers request s r t) :
    ev.Answers request s.unlogged r t.unlogged ∧
      (t = s ∨ request.key?.bind s.cache.get? = none ∧
        ∃ answer storage, t = s.called request answer storage) := by
  cases h with
  | remembered hhit => exact ⟨.remembered hhit, .inl rfl⟩
  | unserved hmiss hloader =>
    exact ⟨.unserved hmiss (Option.map_eq_none_iff.1 hloader), .inl rfl⟩
  | refused hmiss hloader hrefusal =>
    obtain ⟨loader, hinner, rfl⟩ := Option.map_eq_some_iff.1 hloader
    exact ⟨.refused hmiss hinner hrefusal, .inl rfl⟩
  | @failed _ e _ hmiss hloader hrefusal hload =>
    obtain ⟨loader, hinner, rfl⟩ := Option.map_eq_some_iff.1 hloader
    obtain ⟨storage, hanswer, rfl⟩ := Loader.logged_load hload
    exact ⟨.failed hmiss hinner hrefusal hanswer,
      .inr ⟨hmiss, .error e, storage, rfl⟩⟩
  | @loaded _ v _ hmiss hloader hrefusal hload =>
    obtain ⟨loader, hinner, rfl⟩ := Option.map_eq_some_iff.1 hloader
    obtain ⟨storage, hanswer, rfl⟩ := Loader.logged_load hload
    exact ⟨.loaded hmiss hinner hrefusal hanswer,
      .inr ⟨hmiss, .ok v, storage, rfl⟩⟩

variable {I : Session (Logged σ) → Prop}

theorem answer_follows (hI : Session.KeptByCalls I) (request : Request schema) :
    Simulates (Session.Follows I) (ev.logged.answer request)
      (ev.answer request) := by
  rintro s _ ⟨hs, rfl⟩
  rcases hlogged : outcome (ev.logged.answer request) s with ⟨r, t⟩
  obtain ⟨hanswer, hcases⟩ := (outcome_answer_iff.1 hlogged).logged_cases
  rw [outcome_answer_iff.2 hanswer]
  rcases hcases with rfl | ⟨hmiss, answer, storage, rfl⟩
  · exact ⟨rfl, hs, rfl⟩
  · exact ⟨rfl, hI s schema request hs hmiss answer storage, rfl⟩

/-- An evaluator with a log agrees with the one without on whatever they are
asked. -/
theorem logged_mimics (hI : Session.KeptByCalls I) (ev : Evaluator σ) :
    ev.logged.Mimics (Session.Follows I) ev :=
  ⟨rfl, rfl, rfl, answer_follows hI⟩

end Evaluator

/-! ## Histories -/

/-- What an evaluator can be asked. -/
inductive Question where
  /-- The value to which a path leads from a value. -/
  | evaluate (path : Path) (value : Value)
  /-- The value of an operand for an actor. -/
  | resolve (actor : Value) (operand : Operand)
  /-- Whether an expression holds. -/
  | holds (subject actor : Value) (expression : Expression)
  /-- Whether policies allow an action. -/
  | authorize (set : PolicySet) (subject : Value) (action : String)
      (actor : Value)

namespace Session

/-- The session after a question, whether or not it could be answered. -/
def after (ev : Evaluator σ) (s : Session σ) : Question → Session σ
  | .evaluate path value => (outcome (ev.evaluate path value) s).2
  | .resolve actor operand => (outcome (ev.resolve actor operand) s).2
  | .holds subject actor expression =>
    (outcome (ev.holds subject actor expression) s).2
  | .authorize set subject action actor =>
    (outcome (set.authorize ev subject action actor) s).2

/-- The session after several questions, each to an evaluator of its own. -/
def afterAll (s : Session σ)
    (asked : List (Evaluator σ × Question)) : Session σ :=
  asked.foldl (fun s asked => s.after asked.1 asked.2) s

variable {I : Session (Logged σ) → Prop} {s : Session (Logged σ)}
  {t : Session σ}

theorem Follows.after (hI : KeptByCalls I) (h : Follows I s t)
    (ev : Evaluator σ) (question : Question) :
    Follows I (s.after ev.logged question) (t.after ev question) := by
  have hlogged := Evaluator.logged_mimics hI ev
  cases question with
  | evaluate path value => exact (hlogged.evaluate path value s t h).2
  | resolve actor operand => exact (hlogged.resolve actor operand s t h).2
  | holds subject actor expression =>
    exact (hlogged.holds subject actor expression s t h).2
  | authorize set subject action actor =>
    exact (PolicySet.authorize_simulates hlogged set subject action
      actor s t h).2

theorem Follows.afterAll (hI : KeptByCalls I)
    (asked : List (Evaluator σ × Question)) (h : Follows I s t) :
    Follows I (s.afterAll (asked.map fun asked => (asked.1.logged, asked.2)))
      (t.afterAll asked) := by
  induction asked generalizing s t with
  | nil => exact h
  | cons asked rest ih => exact ih (h.after hI asked.1 asked.2)

/-- After any questions that share a session, the log of the calls of the
loaders says that none was for the key of an earlier one that succeeded, and it
is as long as the session has counted.  The session is otherwise the one without
a log. -/
theorem afterAll_loads_once (asked : List (Evaluator σ × Question))
    (storage : σ) :
    let s := (start storage).logging.afterAll
      (asked.map fun asked => (asked.1.logged, asked.2))
    s.unlogged = (start storage).afterAll asked ∧
      s.loads = s.calls.length ∧
      s.calls.Pairwise fun earlier later =>
        earlier.Succeeds → ∀ key, earlier.key? = some key →
          later.key? ≠ some key := by
  have hstart : Follows Accounted (start storage).logging (start storage) :=
    ⟨accounted_start storage, rfl⟩
  obtain ⟨haccount, hsame⟩ := hstart.afterAll accounted_kept asked
  exact ⟨hsame, haccount.counted, haccount.once⟩

end Session

end RowGuard
