import Mathlib.Data.List.Forall2
import RowGuard.Proofs.Evaluation.Coherence

/-!
# Evaluations as scripts

What an evaluation does depends on sessions only where a record does not hold a
relation itself.  A `Script` is an evaluation up to that: it is done, or it asks
for a relation and goes on with the answer.  `Path.script` is the script of a
path, and `Evaluator.evaluate_eq_run` says that evaluating the path runs this
script, where each `Request` is answered by `Evaluator.fetch`.

What is true of a run then follows by induction on the script from what is true
of one answer.  `Evaluator.outcome_answer` says all that an answer can be, and
`Script.run_simulates` compares runs with different answers.
-/

namespace RowGuard

/-! ## Requests -/

/-- The cache with one more answer, if there is a key for it. -/
def RelationCache.remember (cache : RelationCache) (key? : Option RelationKey)
    (v : Value) :
    RelationCache :=
  key?.elim cache fun key => cache.insert key v

theorem RelationCache.get?_remember {cache : RelationCache}
    {key? : Option RelationKey} {v : Value} {key : RelationKey} :
    (cache.remember key? v).get? key = if key? = some key then some v
      else cache.get? key := by
  cases key? with
  | none => simp [remember]
  | some key' => simp [remember, get?_insert, eq_comm]

/-- A relation of an instance that the record does not hold. -/
structure Request (s : Schema) where
  owner : Record
  entity : Entity
  relation : String
  declared : s.entityOf? owner = some entity

namespace Request

variable {s : Schema}

/-- The relation as the schema declares it. -/
def field (r : Request s) : Field := s.field r.entity r.relation

/-- What stands for the relation where nothing can be loaded. -/
def missing (r : Request s) : Value :=
  match r.field with
  | .hasMany .. => .list []
  | _ => .null

/-- The key of the relation in a cache, if the owner has an identity. -/
def key? (r : Request s) : Option RelationKey :=
  r.owner.id?.map fun id => .of r.entity.name id r.relation

end Request

/-! ## Scripts -/

/-- A computation that asks for relations. -/
inductive Script (s : Schema) (α : Type) where
  | done (a : α)
  | ask (request : Request s) (next : Value → Script s α)

namespace Script

variable {s : Schema} {α β : Type}

/-- Goes on after the end of a script. -/
def andThen : Script s α → (α → Script s β) → Script s β
  | .done a, k => k a
  | .ask request next, k => .ask request fun v => (next v).andThen k

instance : Monad (Script s) where
  pure := .done
  bind := andThen

variable {σ : Type}

/-- Runs a script with answers to its requests. -/
def run (answer : Request s → EvalM σ Value) : Script s α → EvalM σ α
  | .done a => pure a
  | .ask request next => do
    let v ← answer request
    (next v).run answer

@[simp] theorem run_pure (answer : Request s → EvalM σ Value) (a : α) :
    (pure a : Script s α).run answer = pure a := rfl

@[simp] theorem run_bind (answer : Request s → EvalM σ Value) (m : Script s α)
    (k : α → Script s β) :
    (m >>= k).run answer = m.run answer >>= fun a => (k a).run answer := by
  induction m with
  | done a => exact (pure_bind a fun a => (k a).run answer).symm
  | ask request next ih =>
    show (answer request >>= fun v => (next v >>= k).run answer) = _
    simp only [ih, run, bind_assoc]

@[simp] theorem run_ask_pure (answer : Request s → EvalM σ Value)
    (request : Request s) :
    (ask request pure : Script s Value).run answer = answer request :=
  bind_pure (answer request)

theorem outcome_run_ask (answer : Request s → EvalM σ Value)
    (request : Request s) (next : Value → Script s α) (session : Session σ) :
    outcome ((ask request next).run answer) session =
      match outcome (answer request) session with
      | (.ok v, t) => outcome ((next v).run answer) t
      | (.error e, t) => (.error e, t) := by
  rw [run, outcome_bind]
  rcases outcome (answer request) session with ⟨r, t⟩
  cases r <;> rfl

/-- Where the answers to each request agree, runs of a script do. -/
theorem run_simulates {τ : Type} {R : Session σ → Session τ → Prop}
    {answer : Request s → EvalM σ Value} {answer' : Request s → EvalM τ Value}
    (h : ∀ request, Simulates R (answer request) (answer' request))
    (m : Script s α) :
    Simulates R (m.run answer) (m.run answer') := by
  induction m with
  | done a => exact .pure a
  | ask request next ih => exact (h request).bind ih

/-! ## The script of a path -/

mutual

/-- Fans out over the items of a list. -/
def fanOut (follow : Value → Script s Value) : Value → Script s Value
  | .null => pure .null
  | .list items => do return .list (← fanOutItems follow [] items)
  | value => follow value

/-- Follows items in order and adds the results to those found. -/
def fanOutItems (follow : Value → Script s Value) (found : List Value) :
    List Value → Script s (List Value)
  | [] => pure found
  | item :: items => do
    let value ← fanOut follow item
    fanOutItems follow (gather found value) items

end

/-- A relation that the record holds, or else what is done about it. -/
def heldOr (r : Record) (relation : String) (otherwise : Script s Value) :
    Script s Value :=
  match r.get? relation with
  | some held => pure held
  | none => otherwise

/-- The value of a field of a record. -/
def fieldValue (s : Schema) (r : Record) (name : String) : Script s Value :=
  match hdeclared : s.entityOf? r with
  | none => pure (r.getOrNull name)
  | some entity =>
    match s.field entity name with
    | .column column => pure ((r.get? name).getD (r.getOrNull column))
    | .belongsTo column _ _ =>
      heldOr r name <|
        if (r.get? column).any Value.isNull then pure .null
        else .ask ⟨r, entity, name, hdeclared⟩ pure
    | .hasMany .. => do
      let held ← heldOr r name (.ask ⟨r, entity, name, hdeclared⟩ pure)
      return .list (held.toItems.filter (!·.isNull))
    | .unknown =>
      if name = entity.name then pure (.record r) else pure (r.getOrNull name)

/-- Takes the field of a record and goes on from it. -/
def step (s : Schema) (name : String) (next : Value → Script s Value) :
    Value → Script s Value
  | .record r => do next (← fieldValue s r name)
  | _ => pure .null

/-- Takes several fields one after the other. -/
def steps (s : Schema) (next : Value → Script s Value) :
    List String → Value → Script s Value
  | [] => next
  | name :: names => fanOut (step s name (steps s next names))

/-- Climbs from a record to the nearest field of a name. -/
def climb (s : Schema) (g : EntityGraph) (name : String)
    (next : Value → Script s Value) (value : Value) : Script s Value :=
  match value.entity?.bind fun entity => g.shortestPath entity name with
  | some names => steps s next names value
  | none => pure .null

/-- Gathers what several ways find, in addition to what has been found. -/
def gatherWays (value : Value) : (found : List Value) →
    List (Value → Script s Value) → Script s (List Value)
  | found, [] => pure found
  | found, way :: ways => do gatherWays value (gather found (← way value)) ways

/-- What the rest of a path does with a value: directly, and after a
wildcard. -/
structure Onward (s : Schema) where
  follow : Value → Script s Value
  ascend : Value → Script s Value

mutual

/-- What a step and the rest after it do. -/
def onStep (s : Schema) (g : EntityGraph) : Step → Onward s → Onward s
  | .field name _, rest =>
    ⟨fanOut (step s name rest.follow), climb s g name rest.follow⟩
  | .wildcard, rest => ⟨fanOut rest.ascend, fun _ => pure .null⟩
  | .self entity, rest =>
    { follow := fanOut fun value =>
        if value.entity? = some entity then rest.follow value else pure .null
      ascend := fun _ => pure .null }
  | .alternatives paths, rest =>
    { follow := fanOut fun value => do
        return .list (← gatherWays value [] (onPaths s g paths rest))
      ascend := fun _ => pure .null }

/-- What a path and the rest after it do. -/
def onPath (s : Schema) (g : EntityGraph) : List Step → Onward s → Onward s
  | [], rest => rest
  | step :: path, rest => onStep s g step (onPath s g path rest)

/-- The ways along each of several paths and the rest after them. -/
def onPaths (s : Schema) (g : EntityGraph) :
    List (List Step) → Onward s → List (Value → Script s Value)
  | [], _ => []
  | path :: paths, rest =>
    (onPath s g path rest).follow :: onPaths s g paths rest

end

end Script

/-- The script of a path from a value. -/
def Path.script (s : Schema) (g : EntityGraph) (path : Path) (value : Value) :
    Script s Value :=
  (Script.onPath s g path ⟨pure, pure⟩).follow value

/-! ## An evaluation runs its script -/

namespace Evaluator

variable {σ : Type} {ev : Evaluator σ}

/-- The answer that an evaluator gives to a request. -/
def answer (ev : Evaluator σ) {s : Schema} (request : Request s) :
    EvalM σ Value :=
  ev.fetch request.owner request.entity request.relation request.field
    request.missing

/-- The continuation runs the scripts. -/
def Runs (ev : Evaluator σ) (k : Value → EvalM σ Value)
    (m : Value → Script ev.schema Value) : Prop :=
  ∀ v, k v = (m v).run ev.answer

mutual

theorem fanOut_eq_run {k : Value → EvalM σ Value}
    {m : Value → Script ev.schema Value} (h : ev.Runs k m) :
    ∀ v, fanOut k v = (Script.fanOut m v).run ev.answer
  | .null => by simp [fanOut, Script.fanOut]
  | .list items => by
    simp [fanOut, Script.fanOut, fanOutItems_eq_run h items []]
  | .bool b => by simpa [fanOut, Script.fanOut] using h (.bool b)
  | .int32 n => by simpa [fanOut, Script.fanOut] using h (.int32 n)
  | .int64 n => by simpa [fanOut, Script.fanOut] using h (.int64 n)
  | .float64 x => by simpa [fanOut, Script.fanOut] using h (.float64 x)
  | .string t => by simpa [fanOut, Script.fanOut] using h (.string t)
  | .timestamp t => by simpa [fanOut, Script.fanOut] using h (.timestamp t)
  | .record r => by simpa [fanOut, Script.fanOut] using h (.record r)

theorem fanOutItems_eq_run {k : Value → EvalM σ Value}
    {m : Value → Script ev.schema Value} (h : ev.Runs k m) :
    ∀ (items found : List Value),
      fanOutItems k found items =
        (Script.fanOutItems m found items).run ev.answer
  | [], found => by simp [fanOutItems, Script.fanOutItems]
  | item :: items, found => by
    simp only [fanOutItems, Script.fanOutItems, Script.run_bind,
      fanOut_eq_run h item, fanOutItems_eq_run h items]

end

theorem parent_eq_run (request : Request ev.schema) {column : String}
    {target : Entity} {optional : Bool}
    (hfield : request.field = .belongsTo column target optional) :
    ev.parent request.owner request.entity request.relation column
        (.belongsTo column target optional) =
      (Script.heldOr request.owner request.relation <|
        if (request.owner.get? column).any Value.isNull then pure .null
        else .ask request pure).run ev.answer := by
  unfold parent Script.heldOr
  cases request.owner.get? request.relation with
  | some held => rfl
  | none =>
    dsimp only
    split
    · rfl
    · simp [answer, Request.missing, hfield]

theorem children_eq_run (request : Request ev.schema) {target : Entity}
    {inverse key : String}
    (hfield : request.field = .hasMany target inverse key) :
    ev.children request.owner request.entity request.relation
      (.hasMany target inverse key) =
      (Script.heldOr request.owner request.relation (.ask request pure)).run
        ev.answer := by
  unfold children Script.heldOr
  cases request.owner.get? request.relation with
  | some held => rfl
  | none => simp [answer, Request.missing, hfield]

theorem fieldValue_eq_run (r : Record) (name : String) :
    ev.fieldValue r name =
      (Script.fieldValue ev.schema r name).run ev.answer := by
  unfold Script.fieldValue
  split
  next hnone =>
    unfold fieldValue
    rw [show r.entity.bind ev.schema.entity? = none from hnone]
    rfl
  next entity hdeclared =>
    unfold fieldValue
    rw [show r.entity.bind ev.schema.entity? = some entity from hdeclared]
    dsimp only
    cases hfield : ev.schema.field entity name with
    | column column => rfl
    | belongsTo column target optional =>
      exact parent_eq_run ⟨r, entity, name, hdeclared⟩ hfield
    | hasMany target inverse key =>
      have hchildren := children_eq_run ⟨r, entity, name, hdeclared⟩ hfield
      dsimp only at hchildren ⊢
      rw [hchildren]
      simp
    | unknown =>
      dsimp only
      split <;> rfl

theorem step_runs {k : Value → EvalM σ Value}
    {m : Value → Script ev.schema Value} (h : ev.Runs k m) (name : String) :
    ev.Runs (ev.step name k) (Script.step ev.schema name m) := by
  intro v
  cases v with
  | record r => simp [step, Script.step, fieldValue_eq_run, h _]
  | _ => rfl

theorem steps_runs {k : Value → EvalM σ Value}
    {m : Value → Script ev.schema Value} (h : ev.Runs k m) :
    ∀ names, ev.Runs (ev.steps k names) (Script.steps ev.schema m names)
  | [] => h
  | name :: names => fanOut_eq_run (step_runs (steps_runs h names) name)

theorem climb_runs {k : Value → EvalM σ Value}
    {m : Value → Script ev.schema Value} (h : ev.Runs k m) (name : String) :
    ev.Runs (ev.climb name k) (Script.climb ev.schema ev.graph name m) := by
  intro v
  unfold climb Script.climb
  cases v.entity?.bind fun entity => ev.graph.shortestPath entity name with
  | some names => exact steps_runs h names v
  | none => rfl

/-- The ways run scripts, each its own. -/
abbrev RunEach (ev : Evaluator σ) (ways : List (Value → EvalM σ Value))
    (scripts : List (Value → Script ev.schema Value)) : Prop :=
  List.Forall₂ ev.Runs ways scripts

theorem gatherWays_eq_run {ways : List (Value → EvalM σ Value)}
    {scripts : List (Value → Script ev.schema Value)}
    (h : ev.RunEach ways scripts) (v : Value) :
    gatherWays ways v =
      (do return .list (← Script.gatherWays v [] scripts) :
        Script ev.schema Value).run
        ev.answer := by
  have hfold : ∀ found : List Value,
      ways.foldlM (fun found way => return gather found (← way v)) found =
        (Script.gatherWays v found scripts).run ev.answer := by
    induction h with
    | nil => exact fun found => rfl
    | cons hway _ ih =>
      intro found
      simp only [List.foldlM_cons, Script.gatherWays, Script.run_bind,
        hway v, bind_assoc, pure_bind, ih]
  simp only [gatherWays, Script.run_bind, Script.run_pure, hfold]

/-- Both ways to go on run scripts. -/
structure RunsOnward (ev : Evaluator σ) (rest : Onward σ)
    (scripts : Script.Onward ev.schema) : Prop where
  follow : ev.Runs rest.follow scripts.follow
  ascend : ev.Runs rest.ascend scripts.ascend

mutual

theorem onStep_runs :
    ∀ (step : Step) {rest : Onward σ} {scripts : Script.Onward ev.schema},
    ev.RunsOnward rest scripts →
      ev.RunsOnward (ev.onStep step rest)
        (Script.onStep ev.schema ev.graph step scripts)
  | .field name _, _, _, hrest =>
    ⟨fanOut_eq_run (step_runs hrest.follow name), climb_runs hrest.follow name⟩
  | .wildcard, _, _, hrest => ⟨fanOut_eq_run hrest.ascend, fun _ => rfl⟩
  | .self entity, _, _, hrest => by
    refine ⟨fanOut_eq_run fun v => ?_, fun _ => rfl⟩
    split
    · exact hrest.follow v
    · rfl
  | .alternatives paths, _, _, hrest =>
    ⟨fanOut_eq_run (gatherWays_eq_run (onPaths_runs paths hrest)), fun _ => rfl⟩

theorem onPath_runs : ∀ (path : List Step) {rest : Onward σ}
    {scripts : Script.Onward ev.schema}, ev.RunsOnward rest scripts →
      ev.RunsOnward (ev.onPath path rest)
        (Script.onPath ev.schema ev.graph path scripts)
  | [], _, _, hrest => hrest
  | step :: path, _, _, hrest => onStep_runs step (onPath_runs path hrest)

theorem onPaths_runs : ∀ (paths : List (List Step)) {rest : Onward σ}
    {scripts : Script.Onward ev.schema}, ev.RunsOnward rest scripts →
      ev.RunEach (ev.onPaths paths rest)
        (Script.onPaths ev.schema ev.graph paths scripts)
  | [], _, _, _ => .nil
  | path :: paths, _, _, hrest =>
    .cons (onPath_runs path hrest).follow (onPaths_runs paths hrest)

end

/-- Evaluating a path runs its script. -/
theorem evaluate_eq_run (ev : Evaluator σ) (path : Path) (v : Value) :
    ev.evaluate path v = (path.script ev.schema ev.graph v).run ev.answer :=
  (onPath_runs path ⟨fun _ => rfl, fun _ => rfl⟩).follow v

/-! ## Answers -/

/-- What an evaluator answers to a request in a session, and the session after
that. -/
inductive Answers (ev : Evaluator σ) {s : Schema} (request : Request s)
    (session : Session σ) :
    Except EvalError Value → Session σ → Prop where
  /-- It has been loaded before. -/
  | remembered {v} (hhit : request.key?.bind session.cache.get? = some v) :
      Answers ev request session (.ok v) session
  /-- There is nothing to load from. -/
  | unserved (hmiss : request.key?.bind session.cache.get? = none)
      (hloader : ev.loader = none) :
      Answers ev request session (.ok request.missing) session
  /-- The budget forbids the load. -/
  | refused {loader refusal}
      (hmiss : request.key?.bind session.cache.get? = none)
      (hloader : ev.loader = some loader) (hrefusal :
        ev.budget.refusal? session.loads (loader.elapsed session.storage) =
          some refusal) :
      Answers ev request session (.error refusal) session
  /-- The load fails, and counts. -/
  | failed {loader e storage}
      (hmiss : request.key?.bind session.cache.get? = none)
      (hloader : ev.loader = some loader)
      (hrefusal : ev.budget.refusal? session.loads
        (loader.elapsed session.storage) =
          none) (hload : loader.load session.storage request.owner
          request.relation request.field =
        (.error e, storage)) :
      Answers ev request session (.error (.load e))
        ⟨session.cache, session.loads + 1, storage⟩
  /-- The load succeeds, counts and is remembered. -/
  | loaded {loader v storage}
      (hmiss : request.key?.bind session.cache.get? = none)
      (hloader : ev.loader = some loader)
      (hrefusal : ev.budget.refusal? session.loads
        (loader.elapsed session.storage) =
          none) (hload : loader.load session.storage request.owner
          request.relation request.field =
        (.ok v, storage)) :
      Answers ev request session (.ok v)
        ⟨session.cache.remember request.key? v, session.loads + 1, storage⟩

theorem outcome_charged (loader : Loader σ) (budget : Budget) (owner : Record)
    (relation : String) (field : Field) (session : Session σ) :
    outcome (loader.charged budget owner relation field) session =
      match budget.refusal? session.loads (loader.elapsed session.storage) with
      | some refusal => (.error refusal, session)
      | none =>
        ((loader.load session.storage owner relation field).1.mapError .load,
          ⟨session.cache, session.loads + 1,
            (loader.load session.storage owner relation field).2⟩) := by
  simp only [Loader.charged, outcome_bind, outcome_get]
  cases budget.refusal? session.loads (loader.elapsed session.storage) with
  | some refusal => rfl
  | none =>
    simp only [outcome_bind, outcome_set]
    cases (loader.load session.storage owner relation field).1 <;> rfl

theorem outcome_loadInto (loader : Loader σ) (key? : Option RelationKey)
    (owner : Record) (relation : String) (field : Field) (session : Session σ) :
    outcome (ev.loadInto loader key? owner relation field) session =
      match outcome (loader.charged ev.budget owner relation field) session with
      | (.ok v, t) => (.ok v, ⟨t.cache.remember key? v, t.loads, t.storage⟩)
      | (.error e, t) => (.error e, t) := by
  rw [loadInto, outcome_bind]
  rcases outcome (loader.charged ev.budget owner relation field) session with
    ⟨r, t⟩
  cases r with
  | error e => rfl
  | ok v => cases key? <;> rfl

theorem outcome_answer {s : Schema} (request : Request s)
    (session : Session σ) :
    outcome (ev.answer request) session =
      match request.key?.bind session.cache.get? with
      | some cached => (.ok cached, session)
      | none =>
        match ev.loader with
        | none => (.ok request.missing, session)
        | some loader =>
          outcome (ev.loadInto loader request.key? request.owner
            request.relation request.field) session := by
  rw [answer, fetch, outcome_bind, outcome_get]
  dsimp only
  rw [← Request.key?]
  cases request.key?.bind session.cache.get? with
  | some cached => rfl
  | none => cases ev.loader <;> rfl

/-- An answer is of one of these kinds. -/
theorem outcome_answer_iff {s : Schema} {request : Request s}
    {session t : Session σ} {r : Except EvalError Value} :
    outcome (ev.answer request) session = (r, t) ↔
      ev.Answers request session r t := by
  rw [outcome_answer]
  constructor
  · intro h
    cases hmiss : request.key?.bind session.cache.get? with
    | some cached =>
      simp only [hmiss, Prod.mk.injEq] at h
      obtain ⟨rfl, rfl⟩ := h
      exact .remembered hmiss
    | none =>
      cases hloader : ev.loader with
      | none =>
        simp only [hmiss, hloader, Prod.mk.injEq] at h
        obtain ⟨rfl, rfl⟩ := h
        exact .unserved hmiss hloader
      | some loader =>
        simp only [hmiss, hloader, outcome_loadInto, outcome_charged] at h
        cases hrefusal : ev.budget.refusal? session.loads
          (loader.elapsed session.storage) with
        | some refusal =>
          simp only [hrefusal, Prod.mk.injEq] at h
          obtain ⟨rfl, rfl⟩ := h
          exact .refused hmiss hloader hrefusal
        | none =>
          rcases hload : loader.load session.storage request.owner
            request.relation request.field with ⟨_ | _, storage⟩
          all_goals
            simp only [hrefusal, hload, Except.mapError, Prod.mk.injEq] at h
            obtain ⟨rfl, rfl⟩ := h
          · exact .failed hmiss hloader hrefusal hload
          · exact .loaded hmiss hloader hrefusal hload
  · intro h
    cases h with
    | remembered hhit => simp only [hhit]
    | unserved hmiss hloader => simp only [hmiss, hloader]
    | refused hmiss hloader hrefusal =>
      simp only [hmiss, hloader, outcome_loadInto, outcome_charged, hrefusal]
    | failed hmiss hloader hrefusal hload =>
      simp only [hmiss, hloader, outcome_loadInto, outcome_charged,
        hrefusal, hload, Except.mapError]
    | loaded hmiss hloader hrefusal hload =>
      simp only [hmiss, hloader, outcome_loadInto, outcome_charged,
        hrefusal, hload, Except.mapError]

end Evaluator

end RowGuard
