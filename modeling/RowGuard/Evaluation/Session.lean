import RowGuard.Comparison
import RowGuard.Schema.Basic

/-!
# Sessions

Evaluating a path may load rows from a storage. A `Session` lasts for one
request: it remembers what has been loaded, counts the loads and holds the state
of the storage. A `Budget` bounds the number of loads and the time after which
none is started any more.
-/

namespace RowGuard

/-! ## What has been loaded -/

/-- The text that stands for an identity in a key. Integers of either width have
the same text if they are equal. -/
def identityText : Value → String
  | .int32 n => "i:" ++ toString n.toInt
  | .int64 n => "i:" ++ toString n.toInt
  | .string s => "s:" ++ s
  | v => "v:" ++ v.inspect

/-- One relation of one instance. -/
structure RelationKey where
  entity : String
  identity : String
  relation : String
deriving DecidableEq, Repr

/-- The key of a relation of the instance with the given identity. -/
def RelationKey.of (entity : String) (identity : Value) (relation : String) :
    RelationKey :=
  ⟨entity, identityText identity, relation⟩

/-- What has been loaded, with one value a key. -/
abbrev RelationCache := List (RelationKey × Value)

namespace RelationCache

/-- The value of a key. -/
def get? (cache : RelationCache) (key : RelationKey) : Option Value :=
  cache.lookup key

/-- Sets the value of a key. -/
def insert (key : RelationKey) (value : Value) : RelationCache → RelationCache
  | [] => [(key, value)]
  | entry :: entries =>
    if entry.1 = key then (key, value) :: entries
    else entry :: RelationCache.insert key value entries

end RelationCache

/-! ## Errors -/

/-- A relation that could not be loaded. -/
structure LoadError where
  entity : String
  relation : String
  reason : String
deriving DecidableEq, Repr

/-- The text of the error. -/
def LoadError.message (e : LoadError) : String :=
  "failed to load " ++ e.entity ++ "." ++ e.relation ++ ": " ++ e.reason

/-- Why an evaluation has no result. Missing data is no reason. -/
inductive EvalError where
  | load (e : LoadError)
  | loadBudgetExceeded (limit : Nat)
  | deadlineExceeded (elapsed : Nat)
  | incomparable (e : Incomparable)
  | missingSetting (app environment key : String)
  | notNegatable (e : NotNegatable)

/-- The text of the error. Times are in nanoseconds and shown in
milliseconds. -/
def EvalError.message : EvalError → String
  | .load e => e.message
  | .loadBudgetExceeded limit =>
    "relation load budget exceeded: " ++ toString limit ++ " loads"
  | .deadlineExceeded elapsed =>
    "evaluation deadline exceeded after " ++ toString
      (elapsed / 1000000) ++ "ms"
  | .incomparable e => e.message
  | .missingSetting app environment key =>
    "missing configuration " ++ app ++ "/" ++ environment ++ "/" ++ key
  | .notNegatable e => e.message

/-! ## Budgets -/

/-- Limits on the loads of a session; what is absent has no limit. -/
structure Budget where
  maxLoads : Option Nat
  /-- Nanoseconds since the session began after which no load is started. -/
  deadline : Option Nat
deriving DecidableEq, Repr

namespace Budget

/-- The number of loads that is allowed by default. -/
def defaultMaxLoads : Nat := 10000

/-- The budget of a session for which none is given. -/
def standard : Budget := ⟨some defaultMaxLoads, none⟩

/-- No limits. -/
def unlimited : Budget := ⟨none, none⟩

/-- Why a load may not be started after so many loads and so much time. -/
def refusal? (b : Budget) (loads elapsed : Nat) : Option EvalError :=
  match b.maxLoads.filter (· ≤ loads), b.deadline.filter (· < elapsed) with
  | some limit, _ => some (.loadBudgetExceeded limit)
  | none, some _ => some (.deadlineExceeded elapsed)
  | none, none => none

end Budget

/-! ## Storages -/

/-- A storage with states `σ` from which relations are loaded. A relation to a
parent is answered by a record or null and one to children by a list of records.
The state also tells how much time has passed in the session. -/
structure Loader (σ : Type) where
  load : σ → (owner : Record) → (relation : String) → Field →
    Except LoadError Value × σ
  elapsed : σ → Nat

/-- The state of a request. -/
structure Session (σ : Type) where
  cache : RelationCache
  loads : Nat
  storage : σ

/-- The session of a new request. -/
def Session.start {σ : Type} (storage : σ) : Session σ :=
  ⟨[], 0, storage⟩

/-- Computations that use a session. What was loaded before an error stays
loaded. -/
abbrev EvalM (σ : Type) := ExceptT EvalError (StateM (Session σ))

/-- Loads a relation if the budget allows it, and counts the load. -/
def Loader.charged {σ : Type} (loader : Loader σ) (budget : Budget)
    (owner : Record) (relation : String) (field : Field) : EvalM σ Value := do
  let session ← get
  match budget.refusal? session.loads (loader.elapsed session.storage) with
  | some refusal => throw refusal
  | none =>
    let (answer, storage) := loader.load session.storage owner relation field
    set { session with loads := session.loads + 1, storage }
    match answer with
    | .ok value => return value
    | .error e => throw (.load e)

end RowGuard
