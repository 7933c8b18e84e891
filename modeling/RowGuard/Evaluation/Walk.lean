import RowGuard.Evaluation.Session
import RowGuard.Graph.Shortest
import RowGuard.Settings

/-!
# Following paths on loaded data

An `Evaluator` follows a path from a value. Absent data leads to null or to an
empty list; only the storage and the budget can make an evaluation fail. From a
list every item is followed and the results are gathered without nulls and
repetitions.

A step says what becomes of a value given what the rest of the path does with
it. The rest has two meanings, an `Onward`: how it goes on from a value, and how
it goes on if a wildcard stands before it.
-/

namespace RowGuard

/-- Whether two values are one item of a result: records with identities are if
entity and identity agree, and other values if they are the same. -/
def Value.sameItem (a b : Value) : Bool :=
  match a, b with
  | .record r, .record s =>
    match r.id?, s.id? with
    | some i, some j => r.entity == s.entity && i.agrees j
    | _, _ => r.same s
  | _, _ => a.same b

/-- Adds an item to those found, unless it is null or among them. -/
def addItem (found : List Value) (item : Value) : List Value :=
  if item.isNull || found.any (·.sameItem item) then found else found ++ [item]

/-- Adds a value to the items found, a list item by item. -/
def gather (found : List Value) (value : Value) : List Value :=
  value.toItems.foldl addItem found

mutual

/-- Follows a value: null stays null, from a list every item is followed and the
results are gathered, and any other value is handed to `follow`. -/
def fanOut {σ : Type} (follow : Value → EvalM σ Value) : Value → EvalM σ Value
  | .null => pure .null
  | .list items => do return .list (← fanOutItems follow [] items)
  | value => follow value

/-- Follows items in order and adds the results to those found. -/
def fanOutItems {σ : Type} (follow : Value → EvalM σ Value)
    (found : List Value) :
    List Value → EvalM σ (List Value)
  | [] => pure found
  | item :: items => do
    let value ← fanOut follow item
    fanOutItems follow (gather found value) items

end

/-- What evaluations work with. -/
structure Evaluator (σ : Type) where
  schema : Schema
  graph : EntityGraph := .ofSchema schema
  /-- Where relations are loaded from that a record does not hold itself. -/
  loader : Option (Loader σ) := none
  settings : Option Settings := none
  budget : Budget := .standard

/-- What the rest of a path does with a value: directly, and after a
wildcard. -/
structure Onward (σ : Type) where
  follow : Value → EvalM σ Value
  ascend : Value → EvalM σ Value

/-- The end of a path, where a value stays as it is. -/
def Onward.done {σ : Type} : Onward σ := ⟨pure, pure⟩

namespace Evaluator

variable {σ : Type}

/-- Loads a relation and remembers the answer under the key, if there is one. -/
def loadInto (ev : Evaluator σ) (loader : Loader σ) (key : Option RelationKey)
    (owner : Record) (relation : String) (field : Field) : EvalM σ Value := do
  let value ← loader.charged ev.budget owner relation field
  if let some key := key then
    modify fun session =>
      { session with cache := session.cache.insert key value }
  return value

/-- A relation that the record does not hold: what has been loaded before, or is
loaded now. Without a loader it is `missing`. -/
def fetch (ev : Evaluator σ) (owner : Record) (entity : Entity)
    (relation : String) (field : Field) (missing : Value) : EvalM σ Value := do
  let key := owner.id?.map fun id => RelationKey.of entity.name id relation
  match key.bind (← get).cache.get? with
  | some cached => return cached
  | none =>
    match ev.loader with
    | none => return missing
    | some loader => ev.loadInto loader key owner relation field

/-- The parent at a relation: the one in the record, or null where the foreign
key is null, or the one that is fetched. -/
def parent (ev : Evaluator σ) (owner : Record) (entity : Entity)
    (relation : String) (column : String) (field : Field) : EvalM σ Value :=
  match owner.get? relation with
  | some held => pure held
  | none =>
    if (owner.get? column).any Value.isNull then pure .null
    else ev.fetch owner entity relation field .null

/-- The children at a relation: those in the record, or those that are
fetched. -/
def children (ev : Evaluator σ) (owner : Record) (entity : Entity)
    (relation : String) (field : Field) : EvalM σ Value :=
  match owner.get? relation with
  | some held => pure held
  | none => ev.fetch owner entity relation field (.list [])

/-- The value of a field of a record. A record that is no instance of a known
entity is read as a plain map. -/
def fieldValue (ev : Evaluator σ) (r : Record) (name : String) :
    EvalM σ Value :=
  match r.entity.bind ev.schema.entity? with
  | none => pure (r.getOrNull name)
  | some entity =>
    match ev.schema.field entity name with
    | .column column => pure ((r.get? name).getD (r.getOrNull column))
    | .belongsTo column target optional =>
      ev.parent r entity name column (.belongsTo column target optional)
    | .hasMany target inverse key => do
      let held ← ev.children r entity name (.hasMany target inverse key)
      return .list (held.toItems.filter (!·.isNull))
    | .unknown =>
      if name = entity.name then pure (.record r) else pure (r.getOrNull name)

/-- Takes the field of a record and goes on from it. Other values have no
fields. -/
def step (ev : Evaluator σ) (name : String) (next : Value → EvalM σ Value) :
    Value → EvalM σ Value
  | .record r => do next (← ev.fieldValue r name)
  | _ => pure .null

/-- Takes several fields one after the other and goes on from the last. -/
def steps (ev : Evaluator σ) (next : Value → EvalM σ Value) :
    List String → Value → EvalM σ Value
  | [] => next
  | name :: names => fanOut (ev.step name (ev.steps next names))

/-- Climbs from a record to the nearest field of a name and goes on from it. -/
def climb (ev : Evaluator σ) (name : String) (next : Value → EvalM σ Value)
    (value : Value) : EvalM σ Value :=
  match value.entity?.bind fun entity => ev.graph.shortestPath entity name with
  | some names => ev.steps next names value
  | none => pure .null

/-- Goes on in several ways from a value and gathers the results. -/
def gatherWays (ways : List (Value → EvalM σ Value)) (value : Value) :
    EvalM σ Value := do
  let found ← ways.foldlM
    (fun found way => return gather found (← way value)) []
  return .list found

mutual

/-- What a step and the rest after it do. -/
def onStep (ev : Evaluator σ) : Step → Onward σ → Onward σ
  | .field name _, rest =>
    { follow := fanOut (ev.step name rest.follow)
      ascend := ev.climb name rest.follow }
  | .wildcard, rest =>
    { follow := fanOut rest.ascend
      ascend := fun _ => pure .null }
  | .self entity, rest =>
    { follow := fanOut fun value =>
        if value.entity? = some entity then rest.follow value else pure .null
      ascend := fun _ => pure .null }
  | .alternatives paths, rest =>
    { follow := fanOut (gatherWays (ev.onPaths paths rest))
      ascend := fun _ => pure .null }

/-- What a path and the rest after it do. -/
def onPath (ev : Evaluator σ) : List Step → Onward σ → Onward σ
  | [], rest => rest
  | step :: path, rest => ev.onStep step (ev.onPath path rest)

/-- The ways along each of several paths and the rest after them. -/
def onPaths (ev : Evaluator σ) :
    List (List Step) → Onward σ → List (Value → EvalM σ Value)
  | [], _ => []
  | path :: paths, rest => (ev.onPath path rest).follow :: ev.onPaths paths rest

end

/-- The value to which a path leads from a value. -/
def evaluate (ev : Evaluator σ) (path : Path) (value : Value) : EvalM σ Value :=
  (ev.onPath path .done).follow value

/-- The value of an operand; paths start at `value`, here the actor. -/
def resolve (ev : Evaluator σ) (value : Value) : Operand → EvalM σ Value
  | .literal literal => pure literal
  | .setting app environment key =>
    match ev.settings.bind (·.lookup? app environment key) with
    | some setting => pure setting
    | none => throw (.missingSetting app environment key)
  | .path path => ev.evaluate path value

end Evaluator

end RowGuard
