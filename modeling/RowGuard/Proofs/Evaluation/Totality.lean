import RowGuard.Proofs.Evaluation.Offline
import RowGuard.Proofs.Evaluation.Tables

/-!
# Missing data is no error

A value may fit no schema and a path may lead nowhere: an evaluation still comes
to a value.  All that it takes from its session are answers to requests, so it
ends with an error only if an answer does.

* `Script.AsksRelations`: a script asks for nothing but relations.
  `Path.script_asksRelations` says so of the script of every path, by induction
  on the path and, where values are fanned out, on the value.
* `Ends` says of a computation that it keeps a property of sessions or ends with
  errors of a kind.  `Evaluator.evaluate_ends` carries it over from the answers
  to relations to whole evaluations.
* `Evaluator.evaluate_returns`: without a loader, or with a store whose loads do
  not fail, an evaluation comes to a value; and no store is ever asked for a
  field that is no relation.
-/

namespace RowGuard

/-! ## What scripts ask for -/

namespace Script

variable {s : Schema} {g : EntityGraph} {α β : Type}

/-- Whatever it is answered, the script asks for nothing but relations. -/
inductive AsksRelations : Script s α → Prop where
  | done (a : α) : AsksRelations (.done a)
  | ask {request : Request s} {next : Value → Script s α}
      (hrelation : request.field.isRelation = true)
      (hnext : ∀ v, AsksRelations (next v)) :
      AsksRelations (.ask request next)

namespace AsksRelations

variable {m : Value → Script s Value}

theorem pure (a : α) : AsksRelations (Pure.pure a : Script s α) := .done a

theorem bind {m : Script s α} {k : α → Script s β} (hm : m.AsksRelations)
    (hk : ∀ a, (k a).AsksRelations) : (m >>= k).AsksRelations := by
  induction hm with
  | done a => exact hk a
  | ask hrelation _ ih => exact .ask hrelation ih

theorem fanOutItems {items : List Value}
    (h : ∀ item ∈ items, (Script.fanOut m item).AsksRelations)
    (found : List Value) :
    (Script.fanOutItems m found items).AsksRelations := by
  induction items generalizing found with
  | nil =>
    rw [Script.fanOutItems]
    exact .pure found
  | cons item items ih =>
    rw [List.forall_mem_cons] at h
    rw [Script.fanOutItems]
    exact h.1.bind fun value => ih h.2 (gather found value)

theorem fanOut (h : ∀ v, (m v).AsksRelations) (v : Value) :
    (Script.fanOut m v).AsksRelations := by
  induction v using Value.items_induction with
  | null =>
    rw [Script.fanOut]
    exact .pure Value.null
  | list items ih =>
    rw [Script.fanOut]
    exact (fanOutItems ih []).bind fun found => .pure _
  | single v hnull hlist =>
    rw [fanOut_of_single hnull hlist]
    exact h v

theorem heldOr {r : Record} {relation : String} {otherwise : Script s Value}
    (h : otherwise.AsksRelations) :
    (Script.heldOr r relation otherwise).AsksRelations := by
  unfold Script.heldOr
  split
  · exact .pure _
  · exact h

/-- A field that is not held is asked for only if it is a relation. -/
theorem fieldValue (r : Record) (name : String) :
    (Script.fieldValue s r name).AsksRelations := by
  unfold Script.fieldValue
  split
  · exact .pure _
  · next entity hdeclared =>
    split
    · exact .pure _
    · next hfield =>
      refine heldOr ?_
      split
      · exact .pure _
      · refine .ask ?_ fun v => .pure v
        rw [Request.field, hfield]
        rfl
    · next hfield =>
      refine bind (heldOr (.ask ?_ fun v => .pure v)) fun held => .pure _
      rw [Request.field, hfield]
      rfl
    · split <;> exact .pure _

theorem step (h : ∀ v, (m v).AsksRelations) (name : String) (v : Value) :
    (Script.step s name m v).AsksRelations := by
  cases v with
  | record r => exact (fieldValue r name).bind h
  | _ => exact .pure Value.null

theorem steps (h : ∀ v, (m v).AsksRelations) :
    ∀ (names : List String) (v : Value),
      (Script.steps s m names v).AsksRelations
  | [] => h
  | name :: names => fanOut (step (steps h names) name)

theorem climb (h : ∀ v, (m v).AsksRelations) (name : String) (v : Value) :
    (Script.climb s g name m v).AsksRelations := by
  unfold Script.climb
  split
  · exact steps h _ v
  · exact .pure Value.null

theorem gatherWays {ways : List (Value → Script s Value)} {v : Value}
    (h : ∀ way ∈ ways, (way v).AsksRelations) (found : List Value) :
    (Script.gatherWays v found ways).AsksRelations := by
  induction ways generalizing found with
  | nil => exact .pure found
  | cons way ways ih =>
    rw [List.forall_mem_cons] at h
    exact h.1.bind fun value => ih h.2 (gather found value)

end AsksRelations

/-- Both ways to go on ask for nothing but relations. -/
structure AsksOnward (rest : Onward s) : Prop where
  follow : ∀ v, (rest.follow v).AsksRelations
  ascend : ∀ v, (rest.ascend v).AsksRelations

mutual

theorem onStep_asksRelations : ∀ (step : Step) {rest : Onward s},
    AsksOnward rest → AsksOnward (onStep s g step rest)
  | .field name _, _, hrest =>
    ⟨.fanOut (.step hrest.follow name), .climb hrest.follow name⟩
  | .wildcard, _, hrest => ⟨.fanOut hrest.ascend, fun _ => .pure Value.null⟩
  | .self entity, _, hrest => by
    refine ⟨.fanOut fun v => ?_, fun _ => .pure Value.null⟩
    split
    · exact hrest.follow v
    · exact .pure Value.null
  | .alternatives paths, _, hrest => by
    refine ⟨.fanOut fun v => ?_, fun _ => .pure Value.null⟩
    refine (AsksRelations.gatherWays ?_ []).bind fun found => .pure _
    exact fun way hway => onPaths_asksRelations paths hrest way hway v

theorem onPath_asksRelations : ∀ (path : List Step) {rest : Onward s},
    AsksOnward rest → AsksOnward (onPath s g path rest)
  | [], _, hrest => hrest
  | step :: path, _, hrest =>
    onStep_asksRelations step (onPath_asksRelations path hrest)

theorem onPaths_asksRelations : ∀ (paths : List (List Step)) {rest : Onward s},
    AsksOnward rest → ∀ way ∈ onPaths s g paths rest, ∀ v, (way v).AsksRelations
  | [], _, _, _, hway => nomatch hway
  | path :: paths, _, hrest, way, hway => by
    rcases List.mem_cons.1 hway with rfl | hway
    · exact (onPath_asksRelations path hrest).follow
    · exact onPaths_asksRelations paths hrest way hway

end

end Script

/-- The script of a path asks for nothing but relations. -/
theorem Path.script_asksRelations (s : Schema) (g : EntityGraph) (path : Path)
    (v : Value) :
    (path.script s g v).AsksRelations :=
  (Script.onPath_asksRelations path ⟨.pure, .pure⟩).follow v

/-! ## How computations end -/

section

variable {ε τ α β : Type}

/-- From every state with the property, the computation comes to a result and
keeps the property, or it ends with one of the errors. -/
def Ends (I : τ → Prop) (P : ε → Prop) (m : ExceptT ε (StateM τ) α) : Prop :=
  ∀ s, I s → (∃ a t, Returns m s a t ∧ I t) ∨
    ∃ e t, outcome m s = (.error e, t) ∧ P e

namespace Ends

variable {I : τ → Prop} {P : ε → Prop} {m : ExceptT ε (StateM τ) α}

theorem pure (a : α) :
    Ends I P (Pure.pure a : ExceptT ε (StateM τ) α) := fun s hs =>
  .inl ⟨a, s, returns_pure_iff.2 ⟨rfl, rfl⟩, hs⟩

theorem bind {k : α → ExceptT ε (StateM τ) β} (hm : Ends I P m)
    (hk : ∀ a, Ends I P (k a)) :
    Ends I P (m >>= k) := by
  intro s hs
  rcases hm s hs with ⟨a, t, ha, ht⟩ | ⟨e, t, he, hP⟩
  · rw [Returns] at ha
    rcases hk a t ht with ⟨b, u, hb, hu⟩ | ⟨e, u, he, hP⟩
    · exact .inl ⟨b, u, returns_bind_iff.2 ⟨a, t, ha, hb⟩, hu⟩
    · refine .inr ⟨e, u, ?_, hP⟩
      rw [outcome_bind, ha]
      exact he
  · refine .inr ⟨e, t, ?_, hP⟩
    rw [outcome_bind, he]

/-- Where no error is possible, there is a result. -/
theorem exists_returns (h : Ends I (fun _ => False) m) {s : τ} (hs : I s) :
    ∃ a t, Returns m s a t ∧ I t :=
  (h s hs).resolve_right fun ⟨_, _, _, hP⟩ => hP

end Ends

end

/-! ## How evaluations end -/

variable {σ : Type}

/-- A run ends as the answers to relations do. -/
theorem Script.AsksRelations.run_ends {s : Schema} {α : Type}
    {I : Session σ → Prop} {P : EvalError → Prop}
    {answer : Request s → EvalM σ Value}
    (hanswer : ∀ request, request.field.isRelation = true →
      Ends I P (answer request)) {m : Script s α} (hm : m.AsksRelations) : Ends
      I P (m.run answer) := by
  induction hm with
  | done a => exact .pure a
  | ask hrelation _ ih => exact (hanswer _ hrelation).bind ih

/-- A budget refuses a load by one of its two limits. -/
theorem Budget.ne_load_of_refusal? {b : Budget} {loads elapsed : Nat}
    {refusal : EvalError} (h : b.refusal? loads elapsed = some refusal)
    (e : LoadError) : refusal ≠ .load e := by
  rw [refusal?] at h
  rintro rfl
  split at h <;> cases h

/-- A load of a relation fails only if it has been made to. -/
theorem Store.answer_error {D : Store} {owner : Record} {relation : String}
    {field : Field} {e : LoadError} (hrelation : field.isRelation = true)
    (h : D.answer owner relation field = .error e) :
    e.reason = "simulated storage failure" := by
  unfold Store.answer at h
  dsimp only at h
  split at h
  · cases h
    rfl
  · split at h
    · cases h
    · cases h
    · cases hrelation
    · cases hrelation

namespace Evaluator

theorem evaluate_ends {ev : Evaluator σ} {I : Session σ → Prop}
    {P : EvalError → Prop}
    (hanswer : ∀ request : Request ev.schema, request.field.isRelation = true →
      Ends I P (ev.answer request)) (path : Path) (v : Value) :
    Ends I P (ev.evaluate path v) := by
  rw [evaluate_eq_run]
  exact (path.script_asksRelations ev.schema ev.graph v).run_ends hanswer

/-- Without a loader an answer leaves the session as it is. -/
theorem answer_ends_unserved {ev : Evaluator σ} (hloader : ev.loader = none)
    (s : Session σ) {schema : Schema} (request : Request schema) :
    Ends (· = s) (fun _ => False) (ev.answer request) := by
  rintro t rfl
  refine .inl ?_
  cases hhit : request.key?.bind t.cache.get? with
  | some v => exact ⟨v, t, outcome_answer_iff.2 (.remembered hhit), rfl⟩
  | none =>
    exact ⟨request.missing, t,
      outcome_answer_iff.2 (.unserved hhit hloader), rfl⟩

variable {ev : Evaluator Store} {elapsed : Nat}

/-- A store in which no load fails answers, and stays so. -/
theorem answer_ends_intact (hloader : ev.loader = some (Store.loader elapsed))
    (hbudget : ev.budget = .unlimited) {schema : Schema}
    (request : Request schema) (hrelation : request.field.isRelation = true) :
    Ends (·.storage.failing = []) (fun _ => False) (ev.answer request) := by
  intro s hs
  refine .inl ?_
  cases hhit : request.key?.bind s.cache.get? with
  | some v => exact ⟨v, s, outcome_answer_iff.2 (.remembered hhit), hs⟩
  | none =>
    have hload : (Store.loader elapsed).load s.storage request.owner
        request.relation
        request.field =
          (.ok (s.storage.reply request.owner request.relation request.field),
            { s.storage with served := s.storage.served + 1 }) := by
      simp only [Store.loader, Store.Serves.answer_eq ⟨rfl, hs⟩ hrelation]
    have hrefusal : ev.budget.refusal? s.loads elapsed = none := by
      rw [hbudget]
      exact refusal?_unlimited _ _
    exact ⟨_, _, outcome_answer_iff.2 (.loaded hhit hloader hrefusal hload), hs⟩

/-- A store that is asked for a relation does not answer that it is none. -/
theorem answer_ends_store (hloader : ev.loader = some (Store.loader elapsed))
    {schema : Schema} (request : Request schema)
    (hrelation : request.field.isRelation = true) :
    Ends (fun _ => True)
      (fun e => ∀ entity relation,
        e ≠ .load ⟨entity, relation, "not a relation"⟩)
      (ev.answer request) := by
  intro s _
  rcases houtcome : outcome (ev.answer request) s with ⟨r, t⟩
  cases r with
  | ok v => exact .inl ⟨v, t, houtcome, trivial⟩
  | error e =>
    refine .inr ⟨e, t, rfl, fun entity relation => ?_⟩
    cases outcome_answer_iff.1 houtcome with
    | refused _ _ hrefusal => exact Budget.ne_load_of_refusal? hrefusal _
    | @failed loader e _ _ hloader' _ hload =>
      obtain rfl := Option.some.inj (hloader.symm.trans hloader')
      have hreason := Store.answer_error hrelation (congrArg Prod.fst hload)
      intro he
      rw [EvalError.load.inj he] at hreason
      exact absurd hreason (by simp)

/-- Without a loader, an evaluation of any path from any value comes to a value
and leaves the session as it is, whatever is in the cache.  With a store in
which no load fails and without limits it comes to a value, too.  Whichever
loads fail and whatever the limits are, it does not end with the error that
something else than a relation is to be loaded. -/
theorem evaluate_returns (path : Path) (v : Value) :
    (∀ {σ : Type} (ev : Evaluator σ) (s : Session σ), ev.loader = none →
      ∃ w, Returns (ev.evaluate path v) s w s) ∧
    (∀ (ev : Evaluator Store) (elapsed : Nat) (s : Session Store),
      ev.loader = some (Store.loader elapsed) → ev.budget = .unlimited →
      s.storage.failing = [] → ∃ w t, Returns (ev.evaluate path v) s w t) ∧
    ∀ (ev : Evaluator Store) (elapsed : Nat) (s : Session Store),
      ev.loader = some (Store.loader elapsed) → ∀ entity relation t,
        outcome (ev.evaluate path v) s ≠
          (.error (.load ⟨entity, relation, "not a relation"⟩), t) := by
  refine ⟨fun ev s hloader => ?_,
    fun ev elapsed s hloader hbudget hintact => ?_,
    fun ev elapsed s hloader entity relation t => ?_⟩
  · have hends : Ends (· = s) (fun _ => False) (ev.evaluate path v) :=
      evaluate_ends (fun request _ => answer_ends_unserved hloader s request)
        path v
    obtain ⟨w, t, hreturns, rfl⟩ := hends.exists_returns rfl
    exact ⟨w, hreturns⟩
  · have hends := evaluate_ends (answer_ends_intact hloader hbudget) path v
    obtain ⟨w, t, hreturns, -⟩ := hends.exists_returns hintact
    exact ⟨w, t, hreturns⟩
  · intro houtcome
    rcases evaluate_ends (answer_ends_store hloader) path v s trivial with
      ⟨w, u, hreturns, -⟩ | ⟨e, u, herror, hother⟩
    · rw [hreturns] at houtcome
      cases houtcome
    · rw [herror] at houtcome
      obtain ⟨he, -⟩ := Prod.mk.inj houtcome
      exact hother entity relation (Except.error.inj he)

end Evaluator

/-! ## A pile of documents -/

namespace Archive

/-- A document lies in a folder. -/
def document : Entity :=
  { Entity.new "document" with relations := [.parent "folder" "folder"] }

def schema : Schema where
  entities := [document, Entity.new "folder"]
  names_nodup := by decide
  targets_declared := by decide

/-- An evaluator that loads nothing. -/
def reader : Evaluator Store where
  schema := schema

/-- An evaluator that loads from stores. -/
def keeper : Evaluator Store where
  schema := schema
  loader := some (Store.loader 0)
  budget := .unlimited

/-- A document, whose folder is nowhere, among things that fit no schema. -/
def pile : Value := .list [
  .int64 1,
  .record ⟨some "ghost", [("folder", .bool true)]⟩,
  .record ⟨some "document",
    [("id", .list [.null]), ("folder_id", .string "a")]⟩]

/-- A store from which no folder can be loaded. -/
def flooded : Store := Store.empty.failOn "document" "folder"

/-- The title of the folder. -/
def title : Path := .ofNames ["folder", "title"]

end Archive

open Archive in
theorem Evaluator.evaluate_returns_pile :
    reader.loader = none ∧ keeper.loader = some (Store.loader 0) ∧
      keeper.budget = .unlimited ∧ Store.empty.failing = [] ∧
      (∃ w, Returns (reader.evaluate title pile) (.start .empty) w
        (.start .empty)) ∧
      (∃ w t, Returns (keeper.evaluate title pile) (.start .empty) w t) ∧
      outcome (keeper.evaluate title pile) (.start flooded) ≠
        (.error (.load ⟨"document", "folder", "not a relation"⟩),
          .start flooded) :=
  ⟨rfl, rfl, rfl, rfl, (evaluate_returns title pile).1 reader _ rfl,
    (evaluate_returns title pile).2.1 keeper 0 _ rfl rfl rfl,
    (evaluate_returns title pile).2.2 keeper 0 _ rfl _ _ _⟩

end RowGuard
