import RowGuard.Evaluation.Walk
import RowGuard.Proofs.Evaluation.Returns

/-!
# Evaluation with a cache

A cache remembers what was loaded for an entity, an identity and a relation.  If
all records that an evaluation can meet load alike whenever these three agree,
then it does not matter what is in the cache: `Steady` says so of the records
and the loader, and `Coherent` of a session.  Every evaluation then has one
result, from every coherent session, and leaves a coherent one.
`Evaluator.evaluate_total` says this for all paths.
-/

namespace RowGuard

/-! ## Records in a value -/

mutual

/-- The records in a value, those inside of records included. -/
def Value.records : Value → List Record
  | .list items => recordsOf items
  | .record ⟨entity, fields⟩ => ⟨entity, fields⟩ :: recordsIn fields
  | .null | .bool _ | .int32 _ | .int64 _ | .float64 _ | .string _ |
    .timestamp _ => []

/-- The records in several values. -/
def recordsOf : List Value → List Record
  | [] => []
  | item :: items => item.records ++ recordsOf items

/-- The records in the values of fields. -/
def recordsIn : List (String × Value) → List Record
  | [] => []
  | (_, value) :: fields => value.records ++ recordsIn fields

end

/-- All records in the value are known. -/
def Value.Over (known : Record → Prop) (v : Value) : Prop :=
  ∀ r ∈ v.records, known r

theorem mem_recordsOf {r : Record} {items : List Value} :
    r ∈ recordsOf items ↔ ∃ item ∈ items, r ∈ item.records := by
  induction items with
  | nil => simp [recordsOf]
  | cons item items ih => simp [recordsOf, ih]

theorem mem_recordsIn {r : Record} {fields : List (String × Value)} :
    r ∈ recordsIn fields ↔ ∃ field ∈ fields, r ∈ field.2.records := by
  induction fields with
  | nil => simp [recordsIn]
  | cons field fields ih =>
    obtain ⟨name, value⟩ := field
    simp [recordsIn, ih]

theorem Value.records_record (r : Record) :
    (Value.record r).records = r :: recordsIn r.fields := by
  obtain ⟨entity, fields⟩ := r
  rw [Value.records]

mutual

/-- A record in a value has its records in the value, too. -/
theorem Value.mem_records_trans {r r' : Record} {field : String × Value}
    (hfield : field ∈ r.fields) (hr' : r' ∈ field.2.records) :
    ∀ v : Value, r ∈ v.records → r' ∈ v.records
  | .list items, h => by
    rw [Value.records] at h ⊢
    exact recordsOf_trans hfield hr' items h
  | .record ⟨entity, fields⟩, h => by
    rw [Value.records] at h ⊢
    rcases List.mem_cons.1 h with rfl | h
    · exact List.mem_cons_of_mem _ (mem_recordsIn.2 ⟨field, hfield, hr'⟩)
    · exact List.mem_cons_of_mem _ (recordsIn_trans hfield hr' fields h)
  | .null, h | .bool _, h | .int32 _, h | .int64 _, h | .float64 _,
      h | .string _, h
  | .timestamp _, h => by simp [Value.records] at h

theorem recordsOf_trans {r r' : Record} {field : String × Value}
    (hfield : field ∈ r.fields) (hr' : r' ∈ field.2.records) :
    ∀ items : List Value, r ∈ recordsOf items → r' ∈ recordsOf items
  | [], h => by simp [recordsOf] at h
  | item :: items, h => by
    rw [recordsOf, List.mem_append] at h ⊢
    exact h.imp (Value.mem_records_trans hfield hr' item)
      (recordsOf_trans hfield hr' items)

theorem recordsIn_trans {r r' : Record} {field : String × Value}
    (hfield : field ∈ r.fields) (hr' : r' ∈ field.2.records) :
    ∀ fields : List (String × Value), r ∈ recordsIn fields →
      r' ∈ recordsIn fields
  | [], h => by simp [recordsIn] at h
  | (_, v) :: fields, h => by
    rw [recordsIn, List.mem_append] at h ⊢
    exact h.imp (Value.mem_records_trans hfield hr' v)
      (recordsIn_trans hfield hr' fields)

end

section

variable {known : Record → Prop}

theorem Value.over_null : Value.null.Over known := by
  simp [Value.Over, Value.records]

theorem Value.over_list {items : List Value} :
    (Value.list items).Over known ↔ ∀ item ∈ items, item.Over known := by
  simp only [Value.Over, Value.records, mem_recordsOf]
  constructor
  · exact fun h item hitem r hr => h r ⟨item, hitem, hr⟩
  · rintro h r ⟨item, hitem, hr⟩
    exact h item hitem r hr

theorem Value.Over.toItems {v : Value} (h : v.Over known) :
    ∀ item ∈ v.toItems, item.Over known := by
  cases v with
  | null => simp [Value.toItems]
  | list items => exact Value.over_list.1 h
  | _ => simpa [Value.toItems] using h

theorem over_addItem {found : List Value} {item : Value}
    (hfound : ∀ v ∈ found, v.Over known) (hitem : item.Over known) :
    ∀ v ∈ addItem found item, v.Over known := by
  rw [addItem]
  split
  · exact hfound
  · exact List.forall_mem_append.2 ⟨hfound, List.forall_mem_singleton.2 hitem⟩

/-- Gathered values are known if all of them were. -/
theorem over_gather {found : List Value} {value : Value}
    (hfound : ∀ v ∈ found, v.Over known) (hvalue : value.Over known) :
    ∀ v ∈ gather found value, v.Over known := by
  have hfold : ∀ items : List Value, (∀ item ∈ items, item.Over known) →
      ∀ found : List Value, (∀ v ∈ found, v.Over known) →
        ∀ v ∈ items.foldl addItem found, v.Over known := by
    intro items
    induction items with
    | nil => exact fun _ found hfound => hfound
    | cons item items ih =>
      intro hitems found hfound
      rw [List.forall_mem_cons] at hitems
      exact ih hitems.2 _ (over_addItem hfound hitems.1)
  exact hfold value.toItems hvalue.toItems found hfound

end

/-! ## Loaders and sessions -/

/-- The entity of a record, if the schema declares it. -/
def Schema.entityOf? (s : Schema) (r : Record) : Option Entity :=
  r.entity.bind s.entity?

theorem Schema.entityOf?_eq_some_iff {s : Schema} {r : Record}
    {entity : Entity} :
    s.entityOf? r = some entity ↔
      r.entity = some entity.name ∧ s.entity? entity.name = some entity := by
  rw [entityOf?, Option.bind_eq_some_iff]
  constructor
  · rintro ⟨name, hname, hentity⟩
    obtain rfl := Schema.entity?_name hentity
    exact ⟨hname, hentity⟩
  · rintro ⟨hname, hentity⟩
    exact ⟨entity.name, hname, hentity⟩

/-- Every load for a known record is answered in one way, and records that have
one key in the cache have the same answers. -/
structure Evaluator.Steady {σ : Type} (ev : Evaluator σ) (loader : Loader σ)
    (serves : σ → Prop) (answer : Record → String → Field → Value)
    (known : Record → Prop) : Prop where
  loader_eq : ev.loader = some loader
  unlimited : ev.budget = .unlimited
  loads : ∀ s, serves s → ∀ r, known r →
    ∀ relation field, field.isRelation = true →
    ∃ s', loader.load s r relation field =
      (.ok (answer r relation field), s') ∧ serves s'
  answers : ∀ r, known r →
    ∀ entity relation, (ev.schema.field entity relation).isRelation = true →
    (answer r relation (ev.schema.field entity relation)).Over known
  fields : ∀ r, known r → ∀ field ∈ r.fields, field.2.Over known
  alike : ∀ r, known r → ∀ r', known r' →
    ∀ entity, ev.schema.entityOf? r = some entity →
    ev.schema.entityOf? r' = some entity → ∀ id, r.id? = some id →
    ∀ id', r'.id? = some id' →
      identityText id = identityText id' → ∀ relation,
        answer r relation (ev.schema.field entity relation) =
          answer r' relation (ev.schema.field entity relation)

/-- The storage serves the answers, and so does the cache. -/
structure Coherent {σ : Type} (ev : Evaluator σ) (serves : σ → Prop)
    (answer : Record → String → Field → Value) (known : Record → Prop)
    (s : Session σ) : Prop where
  storage : serves s.storage
  cached : ∀ r, known r → ∀ entity, ev.schema.entityOf? r = some entity →
    ∀ id, r.id? = some id → ∀ relation v,
      s.cache.get? (.of entity.name id relation) = some v →
        v = answer r relation (ev.schema.field entity relation)

/-- An empty cache is coherent. -/
theorem Coherent.start {σ : Type} {ev : Evaluator σ} {serves : σ → Prop}
    {answer : Record → String → Field → Value} {known : Record → Prop}
    {storage : σ} (h : serves storage) :
    Coherent ev serves answer known (.start storage) :=
  ⟨h, by simp [Session.start, RelationCache.get?]⟩

theorem RelationCache.get?_cons {cache : RelationCache} {key key' : RelationKey}
    {value : Value} : RelationCache.get? ((key, value) :: cache) key' =
      if key' = key then some value else cache.get? key' := by
  rw [RelationCache.get?, List.lookup_cons]
  by_cases h : key' = key
  · rw [if_pos h, beq_iff_eq.2 h]
  · rw [if_neg h, beq_eq_false_iff_ne.2 h, RelationCache.get?]

theorem RelationCache.get?_insert {cache : RelationCache}
    {key key' : RelationKey} {value : Value} :
    (cache.insert key value).get? key' =
      if key' = key then some value else cache.get? key' := by
  induction cache with
  | nil => exact RelationCache.get?_cons
  | cons entry cache ih =>
    obtain ⟨k, v⟩ := entry
    rw [RelationCache.insert]
    by_cases hk : k = key
    · subst hk
      rw [if_pos rfl, RelationCache.get?_cons, RelationCache.get?_cons]
      by_cases h : key' = k <;> simp [h]
    · rw [if_neg hk, RelationCache.get?_cons, RelationCache.get?_cons, ih]
      by_cases h : key' = k
      · subst h
        simp [hk]
      · simp [h]

/-! ## Loading -/

section

variable {σ : Type} {ev : Evaluator σ} {loader : Loader σ} {serves : σ → Prop}
  {answer : Record → String → Field → Value} {known : Record → Prop}

namespace Evaluator

theorem refusal?_unlimited (loads elapsed : Nat) :
    Budget.unlimited.refusal? loads elapsed = none := rfl

theorem charged_returns (hsteady : ev.Steady loader serves answer known)
    {s : Session σ} (hs : serves s.storage) {r : Record} (hr : known r)
    {relation : String} {field : Field} (hfield : field.isRelation = true) :
    ∃ s', Returns (loader.charged ev.budget r relation field) s
      (answer r relation field) s' ∧
      serves s'.storage ∧ s'.cache = s.cache := by
  obtain ⟨storage, hload, hserves⟩ :=
    hsteady.loads s.storage hs r hr relation field hfield
  refine ⟨{ s with loads := s.loads + 1, storage }, ?_, hserves, rfl⟩
  unfold Loader.charged
  rw [returns_bind_iff, hsteady.unlimited]
  refine ⟨s, s, returns_get_iff.2 ⟨rfl, rfl⟩, ?_⟩
  simp only [refusal?_unlimited, hload]
  exact returns_bind_iff.2
    ⟨(), _, returns_set_iff.2 rfl, returns_pure_iff.2 ⟨rfl, rfl⟩⟩

/-- A relation that is fetched has the answer of the loader, from the cache or
not. -/
theorem fetch_yields (hsteady : ev.Steady loader serves answer known)
    {r : Record} (hr : known r) {entity : Entity}
    (hentity : ev.schema.entityOf? r = some entity) {relation : String}
    (hfield : (ev.schema.field entity relation).isRelation = true)
    (missing : Value) :
    Yields (Coherent ev serves answer known)
      (ev.fetch r entity relation (ev.schema.field entity relation) missing)
      (answer r relation (ev.schema.field entity relation)) := by
  intro s hs
  simp only [fetch, returns_bind_iff, returns_get_iff]
  cases hcached :
      (r.id?.map fun id => RelationKey.of entity.name id relation).bind
        s.cache.get? with
  | some v =>
    obtain ⟨key, hkey, hget⟩ := Option.bind_eq_some_iff.1 hcached
    obtain ⟨id, hid, rfl⟩ := Option.map_eq_some_iff.1 hkey
    have hv := hs.cached r hr entity hentity id hid relation v hget
    refine ⟨s, ⟨s, s, ⟨rfl, rfl⟩, ?_⟩, hs⟩
    simp [hcached, hv]
  | none =>
    obtain ⟨t, hcharged, hserves, hcache⟩ :=
      charged_returns hsteady hs.storage hr hfield
    have hcoherent : Coherent ev serves answer known t := by
      refine ⟨hserves, fun r' hr' e he id hid rel v hget => ?_⟩
      exact hs.cached r' hr' e he id hid rel v (hcache ▸ hget)
    cases hid : r.id? with
    | none =>
      refine ⟨t, ⟨s, s, ⟨rfl, rfl⟩, ?_⟩, hcoherent⟩
      simp only [Option.map_none, Option.bind_none, hsteady.loader_eq, loadInto,
        returns_bind_iff]
      exact ⟨_, t, hcharged, by simp⟩
    | some id =>
      rw [hid] at hcached
      simp only [Option.map_some, Option.bind_some] at hcached
      let value := answer r relation (ev.schema.field entity relation)
      let key := RelationKey.of entity.name id relation
      refine ⟨⟨RelationCache.insert key value t.cache, t.loads, t.storage⟩,
        ⟨s, s, ⟨rfl, rfl⟩, ?_⟩, hserves, ?_⟩
      · simp only [Option.map_some, Option.bind_some, hcached,
          hsteady.loader_eq, loadInto, returns_bind_iff]
        exact ⟨_, t, hcharged, (), _, returns_modify_iff.2 rfl,
          returns_pure_iff.2 ⟨rfl, rfl⟩⟩
      -- the new entry is the answer for every known record with its key
      · intro r' hr' entity' hentity' id' hid' relation' v hget
        rw [RelationCache.get?_insert] at hget
        split at hget
        · next hkey =>
          obtain ⟨hname, htext, rfl⟩ := RelationKey.mk.inj hkey
          have hdeclared := (Schema.entityOf?_eq_some_iff.1 hentity).2
          have hdeclared' := (Schema.entityOf?_eq_some_iff.1 hentity').2
          rw [hname, hdeclared] at hdeclared'
          obtain rfl : entity = entity' := Option.some.inj hdeclared'
          rw [← Option.some.inj hget]
          exact hsteady.alike r hr r' hr' entity hentity hentity' id hid id'
            hid' htext.symm _
        · exact hcoherent.cached r' hr' entity' hentity' id' hid'
            relation' v hget

theorem mem_fields_of_get? {r : Record} {name : String} {v : Value}
    (h : r.get? name = some v) :
    (name, v) ∈ r.fields := by
  obtain ⟨before, after, hfields, -⟩ := List.lookup_eq_some_iff.1 h
  rw [hfields]
  simp

theorem over_get? (hsteady : ev.Steady loader serves answer known) {r : Record}
    (hr : known r) {name : String} {v : Value} (h : r.get? name = some v) :
    v.Over known :=
  hsteady.fields r hr (name, v) (mem_fields_of_get? h)

theorem over_getOrNull (hsteady : ev.Steady loader serves answer known)
    {r : Record} (hr : known r) (name : String) :
    (r.getOrNull name).Over known := by
  rw [Record.getOrNull]
  cases h : r.get? name with
  | none => exact Value.over_null
  | some v => exact over_get? hsteady hr h

/-- The parent at a relation is the same from every coherent session. -/
theorem parent_yields (hsteady : ev.Steady loader serves answer known)
    {r : Record} (hr : known r) {entity : Entity}
    (hentity : ev.schema.entityOf? r = some entity) {relation column : String}
    {target : Entity} {optional : Bool}
    (hfield : ev.schema.field entity relation =
      .belongsTo column target optional) :
    ∃ w, w.Over known ∧ Yields (Coherent ev serves answer known)
      (ev.parent r entity relation column (.belongsTo column target optional))
      w := by
  have hrelation : (ev.schema.field entity relation).isRelation = true := by
    rw [hfield]
    rfl
  unfold parent
  cases hheld : r.get? relation with
  | some held => exact ⟨held, over_get? hsteady hr hheld, .pure held⟩
  | none =>
    dsimp only
    split
    · exact ⟨.null, Value.over_null, .pure Value.null⟩
    · refine ⟨_, hsteady.answers r hr entity relation hrelation, ?_⟩
      rw [← hfield]
      exact fetch_yields hsteady hr hentity hrelation .null

theorem children_yields (hsteady : ev.Steady loader serves answer known)
    {r : Record} (hr : known r) {entity : Entity}
    (hentity : ev.schema.entityOf? r = some entity)
    {relation inverse key : String} {target : Entity}
    (hfield : ev.schema.field entity relation = .hasMany target inverse key) :
    ∃ w, w.Over known ∧ Yields (Coherent ev serves answer known)
      (ev.children r entity relation (.hasMany target inverse key)) w := by
  have hrelation : (ev.schema.field entity relation).isRelation = true := by
    rw [hfield]
    rfl
  unfold children
  cases hheld : r.get? relation with
  | some held => exact ⟨held, over_get? hsteady hr hheld, .pure held⟩
  | none =>
    refine ⟨_, hsteady.answers r hr entity relation hrelation, ?_⟩
    rw [← hfield]
    exact fetch_yields hsteady hr hentity hrelation (.list [])

end Evaluator

end

/-! ## Continuations -/

theorem fanOut_record {σ : Type} (k : Value → EvalM σ Value) (r : Record) :
    fanOut k (.record r) = k (.record r) := by
  unfold fanOut
  rfl

theorem fanOut_null {σ : Type} (k : Value → EvalM σ Value) :
    fanOut k .null = pure .null := by
  unfold fanOut
  rfl

/-- From every value over known records the computation has one result, whose
records are known. -/
def Total {σ : Type} (I : Session σ → Prop) (known : Record → Prop)
    (k : Value → EvalM σ Value) : Prop :=
  ∀ v : Value, v.Over known → ∃ w : Value, w.Over known ∧ Yields I (k v) w

section

variable {σ : Type} {I : Session σ → Prop} {known : Record → Prop}

theorem Total.pure : Total I known Pure.pure := fun v hv => ⟨v, hv, .pure v⟩

theorem Total.null : Total I known fun _ => Pure.pure .null := fun _ _ =>
  ⟨.null, Value.over_null, .pure Value.null⟩

mutual

/-- Fanning out is total if what follows is. -/
theorem Total.fanOut {k : Value → EvalM σ Value} (hk : Total I known k) :
    Total I known (fanOut k)
  | .null, _ =>
    ⟨.null, Value.over_null, by unfold RowGuard.fanOut; exact .pure Value.null⟩
  | .list items, h => by
    obtain ⟨found, hfound, hyields⟩ :=
      Total.fanOutItems hk items (Value.over_list.1 h) [] (by simp)
    refine ⟨.list found, Value.over_list.2 hfound, ?_⟩
    unfold RowGuard.fanOut
    exact hyields.bind (.pure _)
  | .bool b, h => by unfold RowGuard.fanOut; exact hk (.bool b) h
  | .int32 n, h => by unfold RowGuard.fanOut; exact hk (.int32 n) h
  | .int64 n, h => by unfold RowGuard.fanOut; exact hk (.int64 n) h
  | .float64 x, h => by unfold RowGuard.fanOut; exact hk (.float64 x) h
  | .string s, h => by unfold RowGuard.fanOut; exact hk (.string s) h
  | .timestamp t, h => by unfold RowGuard.fanOut; exact hk (.timestamp t) h
  | .record r, h => by unfold RowGuard.fanOut; exact hk (.record r) h

theorem Total.fanOutItems {k : Value → EvalM σ Value} (hk : Total I known k) :
    ∀ items : List Value, (∀ item ∈ items, item.Over known) →
      ∀ found : List Value, (∀ v ∈ found, v.Over known) →
        ∃ all : List Value, (∀ v ∈ all, v.Over known) ∧
          Yields I (fanOutItems k found items) all
  | [], _, found, hfound =>
    ⟨found, hfound, by unfold RowGuard.fanOutItems; exact .pure found⟩
  | item :: items, hitems, found, hfound => by
    rw [List.forall_mem_cons] at hitems
    obtain ⟨v, hv, hyields⟩ := Total.fanOut hk item hitems.1
    obtain ⟨all, hall, hrest⟩ :=
      Total.fanOutItems hk items hitems.2 (gather found v)
        (over_gather hfound hv)
    refine ⟨all, hall, ?_⟩
    unfold RowGuard.fanOutItems
    exact hyields.bind hrest

end

/-- Gathering several ways is total if all of them are. -/
theorem Total.gatherWays {ways : List (Value → EvalM σ Value)}
    (hways : ∀ way ∈ ways, Total I known way) :
    Total I known (Evaluator.gatherWays ways) := by
  intro v hv
  have hfold : ∀ ways : List (Value → EvalM σ Value),
      (∀ way ∈ ways, Total I known way) →
      ∀ found : List Value, (∀ item ∈ found, item.Over known) →
        ∃ all : List Value, (∀ item ∈ all, item.Over known) ∧
          Yields I (ways.foldlM (fun found way => return gather found (← way v))
            found) all := by
    intro ways
    induction ways with
    | nil => exact fun _ found hfound => ⟨found, hfound, .pure found⟩
    | cons way ways ih =>
      intro hways found hfound
      rw [List.forall_mem_cons] at hways
      obtain ⟨w, hw, hyields⟩ := hways.1 v hv
      obtain ⟨all, hall, hrest⟩ :=
        ih hways.2 (gather found w) (over_gather hfound hw)
      refine ⟨all, hall, ?_⟩
      rw [List.foldlM_cons]
      exact (hyields.bind (.pure (gather found w))).bind hrest
  obtain ⟨all, hall, hyields⟩ := hfold ways hways [] (by simp)
  exact ⟨.list all, Value.over_list.2 hall, hyields.bind (.pure _)⟩

end

/-! ## Paths -/

namespace Evaluator

variable {σ : Type} {ev : Evaluator σ} {loader : Loader σ} {serves : σ → Prop}
  {answer : Record → String → Field → Value} {known : Record → Prop}

/-- A field in a column is what the record holds under its name, or else in the
column. -/
theorem fieldValue_of_column {r : Record} {entity : Entity}
    (hentity : ev.schema.entityOf? r = some entity) {name columnName : String}
    (hfield : ev.schema.field entity name = .column columnName) :
    ev.fieldValue r name =
      pure ((r.get? name).getD (r.getOrNull columnName)) := by
  unfold fieldValue
  rw [show r.entity.bind ev.schema.entity? = some entity from hentity]
  simp only [hfield]

theorem fieldValue_of_belongsTo {r : Record} {entity : Entity}
    (hentity : ev.schema.entityOf? r = some entity) {name key : String}
    {target : Entity} {optional : Bool}
    (hfield : ev.schema.field entity name = .belongsTo key target optional) :
    ev.fieldValue r name =
      ev.parent r entity name key (.belongsTo key target optional) := by
  unfold fieldValue
  rw [show r.entity.bind ev.schema.entity? = some entity from hentity]
  simp only [hfield]

theorem fieldValue_of_hasMany {r : Record} {entity : Entity}
    (hentity : ev.schema.entityOf? r = some entity) {name inverse key : String}
    {target : Entity}
    (hfield : ev.schema.field entity name = .hasMany target inverse key) :
    ev.fieldValue r name = do
      let held ← ev.children r entity name (.hasMany target inverse key)
      return .list (held.toItems.filter (!·.isNull)) := by
  unfold fieldValue
  rw [show r.entity.bind ev.schema.entity? = some entity from hentity]
  simp only [hfield]

theorem fieldValue_yields (hsteady : ev.Steady loader serves answer known)
    {r : Record} (hr : known r) (name : String) :
    ∃ w, w.Over known ∧ Yields (Coherent ev serves answer known)
      (ev.fieldValue r name) w := by
  unfold fieldValue
  split
  · exact ⟨_, over_getOrNull hsteady hr name, .pure _⟩
  · next entity hentity =>
    split
    · next column _ =>
      refine ⟨_, ?_, .pure _⟩
      cases hget : r.get? name with
      | none => exact over_getOrNull hsteady hr column
      | some v => exact over_get? hsteady hr hget
    · next hfield => exact parent_yields hsteady hr hentity hfield
    · next hfield =>
      obtain ⟨held, hheld, hyields⟩ := children_yields hsteady hr hentity hfield
      refine ⟨_, Value.over_list.2 fun item hitem => ?_, hyields.bind (.pure _)⟩
      exact hheld.toItems item (List.mem_filter.1 hitem).1
    · split
      · refine ⟨.record r, fun r' hr' => ?_, .pure _⟩
        rw [Value.records_record] at hr'
        rcases List.mem_cons.1 hr' with rfl | hr'
        · exact hr
        · obtain ⟨field, hfield, hmem⟩ := mem_recordsIn.1 hr'
          exact hsteady.fields r hr field hfield r' hmem
      · exact ⟨_, over_getOrNull hsteady hr name, .pure _⟩

theorem step_total (hsteady : ev.Steady loader serves answer known)
    (name : String) {next : Value → EvalM σ Value}
    (hnext : Total (Coherent ev serves answer known) known next) :
    Total (Coherent ev serves answer known) known (ev.step name next) := by
  intro v hv
  cases v with
  | record r =>
    have hr : known r :=
      hv r (by rw [Value.records_record]; exact List.mem_cons_self ..)
    obtain ⟨w, hw, hfield⟩ := fieldValue_yields hsteady hr name
    obtain ⟨x, hx, hrest⟩ := hnext w hw
    exact ⟨x, hx, hfield.bind hrest⟩
  | _ => exact Total.null _ hv

theorem steps_total (hsteady : ev.Steady loader serves answer known)
    {next : Value → EvalM σ Value}
    (hnext : Total (Coherent ev serves answer known) known next) :
    ∀ names, Total (Coherent ev serves answer known) known (ev.steps next names)
  | [] => hnext
  | name :: names =>
    (step_total hsteady name (steps_total hsteady hnext names)).fanOut

theorem climb_total (hsteady : ev.Steady loader serves answer known)
    (name : String) {next : Value → EvalM σ Value}
    (hnext : Total (Coherent ev serves answer known) known next) :
    Total (Coherent ev serves answer known) known (ev.climb name next) := by
  intro v hv
  unfold climb
  split
  · exact steps_total hsteady hnext _ v hv
  · exact Total.null v hv

/-- Both ways to go on from a value are total. -/
structure Onward.Total (I : Session σ → Prop) (known : Record → Prop)
    (rest : Onward σ) : Prop where
  follow : RowGuard.Total I known rest.follow
  ascend : RowGuard.Total I known rest.ascend

mutual

theorem onStep_total (hsteady : ev.Steady loader serves answer known) :
    ∀ (step : Step) {rest : Onward σ},
      Onward.Total (Coherent ev serves answer known) known rest →
        Onward.Total (Coherent ev serves answer known) known
          (ev.onStep step rest)
  | .field name _, _, hrest =>
    ⟨(step_total hsteady name hrest.follow).fanOut,
      climb_total hsteady name hrest.follow⟩
  | .wildcard, _, hrest => ⟨hrest.ascend.fanOut, Total.null⟩
  | .self entity, _, hrest => by
    refine ⟨Total.fanOut fun v hv => ?_, Total.null⟩
    split
    · exact hrest.follow v hv
    · exact Total.null v hv
  | .alternatives paths, _, hrest =>
    ⟨(Total.gatherWays (onPaths_total hsteady paths hrest)).fanOut, Total.null⟩

theorem onPath_total (hsteady : ev.Steady loader serves answer known) :
    ∀ (path : List Step) {rest : Onward σ},
      Onward.Total (Coherent ev serves answer known) known rest →
        Onward.Total (Coherent ev serves answer known) known
          (ev.onPath path rest)
  | [], _, hrest => hrest
  | step :: path, _, hrest =>
    onStep_total hsteady step (onPath_total hsteady path hrest)

theorem onPaths_total (hsteady : ev.Steady loader serves answer known) :
    ∀ (paths : List (List Step)) {rest : Onward σ},
      Onward.Total (Coherent ev serves answer known) known rest →
        ∀ way ∈ ev.onPaths paths rest,
          Total (Coherent ev serves answer known) known way
  | [], _, _ => by simp [onPaths]
  | path :: paths, _, hrest =>
    List.forall_mem_cons.2
      ⟨(onPath_total hsteady path hrest).follow,
        onPaths_total hsteady paths hrest⟩

end

/-- From a record, a path goes on from the value of its first field. -/
theorem evaluate_field (ev : Evaluator σ) (name : String)
    (aliasName : Option String) (rest : Path) (r : Record) :
    ev.evaluate (.field name aliasName :: rest) (.record r) =
      ev.fieldValue r name >>= ev.evaluate rest := by
  rw [evaluate, onPath, onStep]
  exact fanOut_record ..

/-- A path has one value, whatever has been loaded before. -/
theorem evaluate_total (hsteady : ev.Steady loader serves answer known)
    (path : Path) :
    Total (Coherent ev serves answer known) known (ev.evaluate path) :=
  (onPath_total hsteady path ⟨Total.pure, Total.pure⟩).follow

end Evaluator

end RowGuard
