import RowGuard.Proofs.Evaluation.Preloading
import RowGuard.Proofs.Evaluation.Script
import RowGuard.Proofs.Graph.Ancestry

/-!
# Fields and columns of a record

A path names fields, and the records of a store hold columns.  The two share the
names in a record: what it holds under the name of a field counts before the
column of the field, since a record may also be keyed by fields and hold its
parents.  If a column is called like a field of which it is not the column, the
field is therefore misread.

* `Store.Columnar`: records hold columns of their entity and nothing else.
* `Store.LeadsTo` says what a foreign key leads to.
* `Evaluator.readsColumn_iff` and `Evaluator.followsKey_iff`: how the columns
  may be called if an attribute is to be read from its column, and a parent to
  be found by its key.
-/

namespace RowGuard

/-! ## Columns -/

/-- The columns of an entity: those of its identity and its attributes, and its
foreign keys. -/
def Entity.columns (e : Entity) : List String :=
  e.identity ::
    (e.attributes.map Attribute.columnName ++ e.parents.map Relation.foreignKey)

/-- The records of declared entities have identities, and all that they hold are
scalars in columns. -/
structure Store.Columnar (s : Schema) (D : Store) :
    Prop extends D.Identified s where
  columns : ∀ {entity r}, D.Holds s entity r → ∀ field ∈ r.fields,
    field.1 ∈ entity.columns ∧ (field.2.isNull = true ∨ field.2.isScalar = true)

/-- Where a foreign key leads: to a record of the target that has it as its
identity, and nowhere if it is null or there is no such record. -/
inductive Store.LeadsTo (D : Store) (target : String) (key : Value) :
    Value → Prop where
  | record {p} (hkey : key.isNull = false) (hp : p ∈ D.records target)
      (hid : p.id?.any (·.agrees key) = true) : LeadsTo D target key (.record p)
  | null (hkey : key.isNull = true) : LeadsTo D target key .null
  | dangling (hkey : ∀ p ∈ D.records target, p.id?.any (·.agrees key) = false) :
      LeadsTo D target key .null

/-- A parent is the record to which the foreign key leads. -/
theorem Store.leadsTo_parent (D : Store) (r : Record) (key target : String) :
    D.LeadsTo target (r.getOrNull key) (D.parent r key target) := by
  rw [Store.parent_eq]
  cases hnull : (r.getOrNull key).isNull with
  | true =>
    rw [Store.parent?_of_isNull hnull]
    exact .null hnull
  | false =>
    rw [Store.parent?_of_not_isNull hnull]
    cases hfind : D.find? target (r.getOrNull key) with
    | none =>
      rw [Store.find?, List.find?_eq_none] at hfind
      exact .dangling fun p hp => Bool.eq_false_iff.2 (hfind p hp)
    | some p =>
      obtain ⟨hmem, hentity, hid⟩ := Store.find?_eq_some hfind
      exact .record hnull (List.mem_filter.2 ⟨hmem, beq_iff_eq.2 hentity⟩) hid

/-! ## Reading a field of a record -/

namespace Evaluator

/-- A path of one name leads to the value of the field. -/
theorem evaluate_one {σ : Type} (ev : Evaluator σ) (name : String)
    (aliasName : Option String) (r : Record) :
    ev.evaluate [.field name aliasName] (.record r) = ev.fieldValue r name := by
  rw [evaluate_field]
  exact bind_pure _

/-- Where the first load is allowed and does not fail, a parent that is not held
is the one in the store. -/
theorem parent_returns {ev : Evaluator Store} {elapsed : Nat}
    (hloader : ev.loader = some (Store.loader elapsed))
    (hbudget : ev.budget.refusal? 0 elapsed = none) {D : Store} {r : Record}
    {entity : Entity} (hentity : ev.schema.entityOf? r = some entity)
    {name key : String} {target : Entity} {optional : Bool}
    (hfield : ev.schema.field entity name = .belongsTo key target optional)
    (hbare : r.get? name = none) (hintact : (entity.name, name) ∉ D.failing) :
    ∃ t, Returns (ev.parent r entity name key (.belongsTo key target optional))
      (.start D) (D.parent r key target.name) t := by
  let request : Request ev.schema := ⟨r, entity, name, hentity⟩
  have hrequest : request.field = .belongsTo key target optional := hfield
  have hname : r.entity.getD "" = entity.name := by
    rw [(Schema.entityOf?_eq_some_iff.1 hentity).1, Option.getD_some]
  have hload : (Store.loader elapsed).load D r name request.field =
      (.ok (D.parent r key target.name),
        { D with served := D.served + 1 }) := by
    simp [Store.loader, Store.answer, hname, hintact, hrequest]
  have hmiss : request.key?.bind (Session.start D).cache.get? = none := by
    cases request.key? <;> rfl
  have hanswer : ev.answer request =
      ev.fetch r entity name (.belongsTo key target optional)
      .null := by rw [answer, Request.missing, hrequest]
  rw [parent, hbare]
  dsimp only
  split
  · next hnull =>
    rw [Store.parent_of_any_isNull hnull]
    exact ⟨_, returns_pure_iff.2 ⟨rfl, rfl⟩⟩
  · rw [← hanswer]
    exact ⟨_, outcome_answer_iff.2 (.loaded hmiss hloader hbudget hload)⟩

/-- An attribute is read from its column. -/
def ReadsColumn (ev : Evaluator Store) (entity : Entity)
    (a : Attribute) : Prop :=
  ∀ D r, D.Columnar ev.schema → D.Holds ev.schema entity r → ∀ aliasName,
    ∃ t, Returns (ev.evaluate [.field a.name aliasName] (.record r)) (.start D)
      (r.getOrNull a.columnName) t

/-- A parent, if it can be loaded, is the record to which the foreign key
leads. -/
def FollowsKey (ev : Evaluator Store) (entity : Entity) (b : Relation) : Prop :=
  ∀ D r, D.Columnar ev.schema → D.Holds ev.schema entity r →
    (entity.name, b.name) ∉ D.failing → ∀ aliasName,
      ∃ w t, Returns (ev.evaluate [.field b.name aliasName] (.record r))
        (.start D) w t ∧
        D.LeadsTo b.target (r.getOrNull b.foreignKey) w

end Evaluator

/-! ## A column that is called like a field -/

/-- A record of an entity that holds something else under a name. -/
def Entity.pretender (entity : Entity) (name : String) : Record :=
  Record.set ⟨some entity.name, [(identityField, .int64 1)]⟩ name (.int64 2)

section

variable {s : Schema} {entity : Entity} {name : String}

theorem Entity.pretender_get? (entity : Entity) (name : String) :
    (entity.pretender name).get? name = some (.int64 2) :=
  Record.get?_set _ _ _

/-- It does not hold it in another column. -/
theorem Entity.pretender_getOrNull_ne (entity : Entity) {other : String}
    (h : other ≠ name) :
    (entity.pretender name).getOrNull other ≠ .int64 2 := by
  rw [Record.getOrNull, pretender, Record.get?_set_of_ne _ h, Record.get?,
    List.lookup_cons]
  split <;> simp

theorem Entity.pretender_id? (entity : Entity) (name : String) :
    (entity.pretender name).id?.isSome = true := by
  by_cases h : identityField = name
  · subst h
    rw [Record.id?, pretender_get?]
    rfl
  · rw [Record.id?, pretender, Record.get?_set_of_ne _ h]
    rfl

/-- A store that has just this record. -/
def Entity.pretence (entity : Entity) (name : String) : Store :=
  ⟨[entity.pretender name], [], 0⟩

theorem Entity.pretence_holds (hentity : entity ∈ s.entities) (name : String) :
    (entity.pretence name).Holds s entity (entity.pretender name) :=
  ⟨List.mem_singleton_self _,
    Schema.entityOf?_eq_some_iff.2 ⟨rfl, Schema.entity?_of_mem hentity⟩⟩

/-- If the name is a column, the store is one of columns. -/
theorem Entity.pretence_columnar (hentity : entity ∈ s.entities)
    (hidentity : entity.identity = identityField)
    (hname : name ∈ entity.columns) :
    (entity.pretence name).Columnar s where
  identified h := by
    obtain rfl := List.mem_singleton.1 h.1
    exact entity.pretender_id? name
  unique h h' _ _ _ _ _ :=
    (List.mem_singleton.1 h.1).trans (List.mem_singleton.1 h'.1).symm
  columns h field hfield := by
    obtain rfl := List.mem_singleton.1 h.1
    have hsame := h.2.symm.trans (entity.pretence_holds hentity name).2
    obtain rfl := Option.some.inj hsame
    rcases Record.mem_setField hfield with rfl | hfield
    · exact ⟨hname, .inr rfl⟩
    · obtain rfl := List.mem_singleton.1 hfield
      exact ⟨hidentity ▸ .head _, .inr rfl⟩

/-- What is no column is not held. -/
theorem Store.Columnar.get?_eq_none {D : Store} (hD : D.Columnar s) {r : Record}
    (hr : D.Holds s entity r) (hname : name ∉ entity.columns) :
    r.get? name = none := by
  cases hget : r.get? name with
  | none => rfl
  | some v =>
    exact absurd (hD.columns hr _ (Evaluator.mem_fields_of_get? hget)).1 hname

end

/-! ## How columns may be called -/

namespace Evaluator

variable {ev : Evaluator Store} {entity : Entity}

/-- An attribute is read from its column if no other column is called like
it. -/
theorem readsColumn_iff (hdistinct : ev.schema.FieldsDistinct)
    (hentity : entity ∈ ev.schema.entities)
    (hidentity : entity.identity = identityField) {a : Attribute}
    (ha : a ∈ entity.attributes) :
    ev.ReadsColumn entity a ↔
      (a.name ∈ entity.columns → a.columnName = a.name) := by
  have hfield : ev.schema.field entity a.name = .column a.columnName :=
    Schema.field_of_attribute (hdistinct entity hentity) ha
  constructor
  · intro hreads hcolumn
    by_contra hne
    have hholds := entity.pretence_holds hentity a.name
    have hcolumnar := entity.pretence_columnar hentity hidentity hcolumn
    obtain ⟨t, ht⟩ := hreads _ _ hcolumnar hholds none
    rw [evaluate_one, fieldValue_of_column hholds.2 hfield,
      entity.pretender_get?, returns_pure_iff] at ht
    exact entity.pretender_getOrNull_ne hne ht.1.symm
  · intro hcalled D r hD hr aliasName
    refine ⟨.start D, ?_⟩
    rw [evaluate_one, fieldValue_of_column hr.2 hfield, returns_pure_iff]
    refine ⟨?_, rfl⟩
    by_cases hcolumn : a.name ∈ entity.columns
    · rw [hcalled hcolumn, Record.getOrNull]
      cases r.get? a.name <;> rfl
    · rw [hD.get?_eq_none hr hcolumn, Option.getD_none]

/-- A parent is found by its foreign key if no column is called like the
relation. -/
theorem followsKey_iff {elapsed : Nat}
    (hloader : ev.loader = some (Store.loader elapsed))
    (hbudget : ev.budget.refusal? 0 elapsed = none)
    (hdistinct : ev.schema.FieldsDistinct)
    (hentity : entity ∈ ev.schema.entities)
    (hidentity : entity.identity = identityField) {b : Relation}
    (hb : b ∈ entity.parents) :
    ev.FollowsKey entity b ↔ b.name ∉ entity.columns := by
  obtain ⟨target, hmem, hname⟩ := List.mem_map.1
    (ev.schema.targets_declared entity hentity b
      (Entity.mem_parents_iff.1 hb).1)
  have hfield : ev.schema.field entity b.name =
      .belongsTo b.foreignKey target b.optional :=
    Schema.field_of_parent (hdistinct entity hentity) hb
      (hname ▸ Schema.entity?_of_mem hmem)
  constructor
  · intro hfollows hcolumn
    have hholds := entity.pretence_holds hentity b.name
    have hcolumnar := entity.pretence_columnar hentity hidentity hcolumn
    obtain ⟨w, t, ht, hleads⟩ :=
      hfollows _ _ hcolumnar hholds List.not_mem_nil none
    rw [evaluate_one, fieldValue_of_belongsTo hholds.2 hfield, parent,
      entity.pretender_get?, returns_pure_iff] at ht
    obtain ⟨rfl, -⟩ := ht
    -- the scalar that the record holds is no record
    cases hleads
  · intro hcolumn D r hD hr hintact aliasName
    obtain ⟨t, ht⟩ := parent_returns hloader hbudget hr.2 hfield
      (hD.get?_eq_none hr hcolumn) hintact
    rw [← fieldValue_of_belongsTo hr.2 hfield,
      ← ev.evaluate_one _ aliasName] at ht
    exact ⟨_, t, ht, hname ▸ D.leadsTo_parent r b.foreignKey target.name⟩

/-- An attribute is read from its column in all stores of columns exactly if no
other column of the entity is called like it, and a parent is found by its
foreign key exactly if no column is called like the relation. -/
theorem evaluate_field_reads_iff {elapsed : Nat}
    (hloader : ev.loader = some (Store.loader elapsed))
    (hbudget : ev.budget.refusal? 0 elapsed = none)
    (hdistinct : ev.schema.FieldsDistinct)
    (hentity : entity ∈ ev.schema.entities)
    (hidentity : entity.identity = identityField) :
    (∀ a ∈ entity.attributes,
      ev.ReadsColumn entity a ↔
        (a.name ∈ entity.columns → a.columnName = a.name)) ∧
    ∀ b ∈ entity.parents, ev.FollowsKey entity b ↔ b.name ∉ entity.columns :=
  ⟨fun _ ha => readsColumn_iff hdistinct hentity hidentity ha,
    fun _ hb => followsKey_iff hloader hbudget hdistinct hentity hidentity hb⟩

end Evaluator

/-! ## A post with crossed columns -/

namespace Press

def user : Entity := Entity.new "user"

/-- The subtitle is kept in a column that is called like the title, and the
byline in one that is called like the author. -/
def post : Entity := { Entity.new "post" with
  attributes := [⟨"title", .string, some "headline"⟩,
    ⟨"subtitle", .string, some "title"⟩, ⟨"byline", .string, some "author"⟩]
  relations := [.parent "author" "user", .parent "editor" "user"] }

def evaluator : Evaluator Store where
  schema :=
    { entities := [user, post]
      names_nodup := by decide
      targets_declared := by decide }
  loader := some (Store.loader 0)

def ada : Record := ⟨some "user", [("id", .int64 2)]⟩

def note : Record := ⟨some "post", [("id", .int64 1), ("headline", .string "a"),
  ("title", .string "b"), ("author", .string "c"), ("author_id", .int64 2),
  ("editor_id", .int64 2)]⟩

def store : Store := ⟨[ada, note], [], 0⟩

theorem holds_cases {entity : Entity} {r : Record}
    (h : store.Holds evaluator.schema entity r) :
    entity = user ∧ r = ada ∨ entity = post ∧ r = note := by
  obtain ⟨hmem, hentity⟩ := h
  have hmem : r = ada ∨ r = note := by simpa [store] using hmem
  rcases hmem with rfl | rfl
  · exact .inl ⟨(Option.some.inj hentity).symm, rfl⟩
  · exact .inr ⟨(Option.some.inj hentity).symm, rfl⟩

theorem store_columnar : store.Columnar evaluator.schema where
  identified h := by rcases holds_cases h with ⟨-, rfl⟩ | ⟨-, rfl⟩ <;> rfl
  unique h h' _ _ _ _ _ := by
    rcases holds_cases h with ⟨rfl, rfl⟩ | ⟨rfl, rfl⟩ <;>
      rcases holds_cases h' with ⟨hentity, rfl⟩ | ⟨hentity, rfl⟩
    · rfl
    · exact absurd hentity (by decide)
    · exact absurd hentity (by decide)
    · rfl
  columns h := by rcases holds_cases h with ⟨rfl, rfl⟩ | ⟨rfl, rfl⟩ <;> decide

end Press

open Press in
theorem Evaluator.evaluate_field_reads_iff_post :
    evaluator.loader = some (Store.loader 0) ∧
      evaluator.budget.refusal? 0 0 = none ∧
      evaluator.schema.FieldsDistinct ∧ post ∈ evaluator.schema.entities ∧
      post.identity = identityField ∧
      evaluator.ReadsColumn post ⟨"subtitle", .string, some "title"⟩ ∧
      evaluator.FollowsKey post (.parent "editor" "user") := by
  have hdistinct : evaluator.schema.FieldsDistinct := by decide
  have hpost : post ∈ evaluator.schema.entities := .tail _ (.head _)
  have hreads := evaluate_field_reads_iff rfl rfl hdistinct hpost rfl
  exact ⟨rfl, rfl, hdistinct, hpost, rfl, (hreads.1 _ (.tail _ (.head _))).2
    (by decide),
    (hreads.2 _ (by decide)).2 (by decide)⟩

open Press in
/-- Fields and columns are distinct and the records hold just columns.  The
title that is read is the subtitle, and the author is the byline.  An editor
that cannot be loaded is an error. -/
theorem Evaluator.evaluate_post_crossed :
    evaluator.schema.FieldsDistinct ∧ user.columns.Nodup ∧ post.columns.Nodup ∧
      store.Columnar evaluator.schema ∧ store.Holds evaluator.schema post note ∧
      note.getOrNull "headline" = .string "a" ∧
      Returns (evaluator.evaluate [.plain "title"] (.record note))
        (.start store) (.string "b") (.start store) ∧
      store.parent note "author_id" "user" = .record ada ∧
      Returns (evaluator.evaluate [.plain "author"] (.record note))
        (.start store) (.string "c") (.start store) ∧
      outcome (evaluator.evaluate [.plain "editor"] (.record note))
          (.start (store.failOn "post" "editor")) =
        (.error (.load ⟨"post", "editor", "simulated storage failure"⟩),
          ⟨[], 1, { store.failOn "post" "editor" with served := 1 }⟩) := by
  refine ⟨by decide, by decide, by decide, store_columnar,
    ⟨by simp [store], rfl⟩, rfl, ?_⟩
  -- the record is stored, and the rest is computed
  refine ⟨?_, ?_, ?_, ?_⟩
  all_goals with_unfolding_all rfl

end RowGuard
