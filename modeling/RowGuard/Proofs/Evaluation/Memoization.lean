import RowGuard.Proofs.Evaluation.Script

/-!
# The cache makes no difference

A loader may remember nothing and answer every request of an evaluation anew.
`Evaluator.evaluateAfresh` is such an evaluation: it runs the script of the
path, but each request goes to the loader.  If the loader answers owners with
one key alike, and the cache holds nothing but its answers, then an evaluation
with the cache has the same result or error (`Evaluator.evaluate_transparent`),
and its cache holds nothing but answers again.
-/

namespace RowGuard

variable {σ : Type}

/-- What the loader answers is a function of the owner, the relation and its
field, and owners of one entity with one identity have the same answers. -/
structure Loader.AnswersByKey (loader : Loader σ)
    (answer : Record → String → Field → Except LoadError Value) : Prop where
  load_eq : ∀ storage owner relation field,
    (loader.load storage owner relation field).1 = answer owner relation field
  alike : ∀ owner owner' : Record, owner.entity = owner'.entity →
    ∀ id, owner.id? = some id → ∀ id', owner'.id? = some id' →
    identityText id = identityText id' →
      ∀ relation field, answer owner relation field =
        answer owner' relation field

/-- Every entry of the cache is the answer to the requests with its key. -/
def RelationCache.Holds (s : Schema)
    (answer : Record → String → Field → Except LoadError Value)
    (cache : RelationCache) : Prop :=
  ∀ (request : Request s) (key : RelationKey) (v : Value),
    request.key? = some key →
    cache.get? key = some v →
    answer request.owner request.relation request.field = .ok v

namespace Evaluator

/-- The answer to a request without a cache. -/
def loadAfresh (ev : Evaluator σ) {s : Schema} (request : Request s) :
    EvalM σ Value :=
  match ev.loader with
  | none => pure request.missing
  | some loader =>
    loader.charged ev.budget request.owner request.relation request.field

/-- The value to which a path leads from a value, with every relation that a
record does not hold loaded anew. -/
def evaluateAfresh (ev : Evaluator σ) (path : Path) (value : Value) :
    EvalM σ Value :=
  (path.script ev.schema ev.graph value).run ev.loadAfresh

end Evaluator

variable {loader : Loader σ}
  {answer : Record → String → Field → Except LoadError Value}

/-- Requests with one key have one answer. -/
theorem Loader.AnswersByKey.answer_eq (h : loader.AnswersByKey answer)
    {s : Schema} {request request' : Request s} {key : RelationKey}
    (hkey : request.key? = some key) (hkey' : request'.key? = some key) :
    answer request.owner request.relation request.field =
      answer request'.owner request'.relation request'.field := by
  obtain ⟨owner, entity, relation, hdeclared⟩ := request
  obtain ⟨owner', entity', relation', hdeclared'⟩ := request'
  obtain ⟨id, hid, rfl⟩ := Option.map_eq_some_iff.1 hkey
  obtain ⟨id', hid', hsame⟩ := Option.map_eq_some_iff.1 hkey'
  obtain ⟨hname, htext, hrelation⟩ := RelationKey.mk.inj hsame
  rw [Schema.entityOf?_eq_some_iff] at hdeclared hdeclared'
  obtain rfl : relation' = relation := hrelation
  -- the name of an entity tells the entity
  obtain rfl : entity' = entity := by
    have hentity := hdeclared'.2
    rw [show entity'.name = entity.name from hname, hdeclared.2] at hentity
    exact (Option.some.inj hentity).symm
  exact h.alike owner owner' (hdeclared.1.trans hdeclared'.1.symm) id hid id'
    hid' htext.symm _ _

/-- One more answer keeps a cache of answers. -/
theorem RelationCache.Holds.remember {s : Schema} {cache : RelationCache}
    (hcache : cache.Holds s answer) (hloader : loader.AnswersByKey answer)
    {request : Request s} {v : Value}
    (hv : answer request.owner request.relation request.field = .ok v) :
    (cache.remember request.key? v).Holds s answer := by
  intro request' key v' hkey' hget
  rw [get?_remember] at hget
  split at hget
  · next hkey =>
    obtain rfl := Option.some.inj hget
    rw [hloader.answer_eq hkey' hkey, hv]
  · exact hcache request' key v' hkey' hget

namespace Evaluator

variable {ev : Evaluator σ}

theorem outcome_loadAfresh (hloader : ev.loader = some loader)
    (hbudget : ev.budget = .unlimited) (hanswers : loader.AnswersByKey answer)
    (request : Request ev.schema) (t : Session σ) :
    (outcome (ev.loadAfresh request) t).1 =
      (answer request.owner request.relation request.field).mapError .load := by
  rw [loadAfresh, hloader, hbudget]
  dsimp only
  rw [outcome_charged, refusal?_unlimited, hanswers.load_eq]

/-- An answer from the cache is the answer of the loader. -/
theorem answer_simulates (hloader : ev.loader = some loader)
    (hbudget : ev.budget = .unlimited) (hanswers : loader.AnswersByKey answer)
    (request : Request ev.schema) :
    Simulates (fun (s _ : Session σ) => s.cache.Holds ev.schema answer)
      (ev.answer request) (ev.loadAfresh request) := by
  intro s t hs
  rw [outcome_loadAfresh hloader hbudget hanswers]
  rcases hanswer : outcome (ev.answer request) s with ⟨r, s'⟩
  cases outcome_answer_iff.1 hanswer with
  | remembered hhit =>
    obtain ⟨key, hkey, hget⟩ := Option.bind_eq_some_iff.1 hhit
    rw [hs request key _ hkey hget]
    exact ⟨rfl, hs⟩
  | unserved _ hnone =>
    rw [hloader] at hnone
    cases hnone
  | refused _ _ hrefusal =>
    rw [hbudget, refusal?_unlimited] at hrefusal
    cases hrefusal
  | @failed loader' e storage _ hloader' _ hload =>
    obtain rfl : loader = loader' :=
      Option.some.inj (hloader.symm.trans hloader')
    have he :=
      hanswers.load_eq s.storage request.owner request.relation request.field
    rw [hload] at he
    rw [← he]
    exact ⟨rfl, hs⟩
  | @loaded loader' v storage _ hloader' _ hload =>
    obtain rfl : loader = loader' :=
      Option.some.inj (hloader.symm.trans hloader')
    have hv :=
      hanswers.load_eq s.storage request.owner request.relation request.field
    rw [hload] at hv
    rw [← hv]
    exact ⟨rfl, hs.remember hanswers hv.symm⟩

/-- With a cache of answers, an evaluation without limits has the result or
error that it has without a cache, whatever the sessions have loaded before, and
leaves a cache of answers. -/
theorem evaluate_transparent (hloader : ev.loader = some loader)
    (hbudget : ev.budget = .unlimited) (hanswers : loader.AnswersByKey answer)
    (path : Path) (value : Value) {s : Session σ}
    (hcache : s.cache.Holds ev.schema answer) (t : Session σ) :
    (outcome (ev.evaluate path value) s).1 =
      (outcome (ev.evaluateAfresh path value) t).1 ∧
      (outcome (ev.evaluate path value) s).2.cache.Holds ev.schema answer := by
  rw [evaluate_eq_run, evaluateAfresh]
  exact Script.run_simulates (answer_simulates hloader hbudget hanswers)
    _ s t hcache

end Evaluator

namespace Firm

/-- A person has a boss. -/
def person : Entity :=
  { Entity.new "person" with relations := [.parent "boss" "person"] }

def schema : Schema where
  entities := [person]
  names_nodup := by decide
  targets_declared := by decide

/-- The person with a number. -/
def numbered (n : Int64) : Record := ⟨some "person", [("id", .int64 n)]⟩

/-- The boss of everybody is the person 1, whose own boss cannot be told. -/
def boss (owner : Record) (relation : String) (_ : Field) :
    Except LoadError Value :=
  if owner.id?.map identityText = some "i:1" then
    .error ⟨"person", relation, "nobody knows"⟩
  else .ok (.record (numbered 1))

def registry : Loader Unit where
  load _ owner relation field := (boss owner relation field, ())
  elapsed _ := 0

theorem registry_answersByKey : registry.AnswersByKey boss where
  load_eq _ _ _ _ := rfl
  alike owner owner' _ id hid id' hid' htext relation field := by
    simp only [boss, hid, hid', Option.map_some, htext]

def evaluator : Evaluator Unit where
  schema := schema
  loader := some registry
  budget := .unlimited

/-- The boss of the person 2 has been loaded. -/
def remembered : Session Unit :=
  ⟨[(⟨"person", "i:2", "boss"⟩, .record (numbered 1))], 1, ()⟩

theorem remembered_holds : remembered.cache.Holds schema boss := by
  intro request key v hkey hget
  obtain ⟨id, hid, rfl⟩ := Option.map_eq_some_iff.1 hkey
  simp only [remembered, RelationCache.get?_cons] at hget
  split at hget
  · next hsame =>
    obtain ⟨-, htext, -⟩ := RelationKey.mk.inj hsame
    obtain rfl := Option.some.inj hget
    rw [boss, hid, Option.map_some, htext, if_neg (by decide)]
  · cases hget

end Firm

open Firm in
theorem Evaluator.evaluate_transparent_remembered :
    evaluator.loader = some registry ∧ evaluator.budget = .unlimited ∧
      registry.AnswersByKey boss ∧
      remembered.cache.Holds evaluator.schema boss ∧
      (outcome
        (evaluator.evaluate (.ofNames ["boss", "boss"]) (.record (numbered 2)))
          remembered).1 =
        (outcome (evaluator.evaluateAfresh (.ofNames ["boss", "boss"])
          (.record (numbered 2))) (.start ())).1 ∧
      (outcome
        (evaluator.evaluate (.ofNames ["boss", "boss"]) (.record (numbered 2)))
        remembered).2.cache.Holds evaluator.schema boss :=
  ⟨rfl, rfl, registry_answersByKey, remembered_holds,
    evaluate_transparent rfl rfl registry_answersByKey _ _ remembered_holds _⟩

end RowGuard
