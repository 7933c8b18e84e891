import RowGuard.Evaluation.Store
import RowGuard.Proofs.Evaluation.Coherence
import RowGuard.Proofs.Query.Assignment
import RowGuard.Proofs.Scope.Chain
import RowGuard.Proofs.Value.Atom

/-!
# A store as tables

`Schema.database` reads the records of a store as the rows of tables.  A store
is `Relational` if its records are rows of that kind: they hold columns and
nothing else, and identities are unique.

* `Store.Relational.mem_found_iff`: a join of a parent finds what a load finds.
* `Store.Relational.steady`: evaluations on such a store may use a cache, if the
  actor brings no records of its own that load differently.  For that the store
  need not be relational, only `Flat`.
* `Evaluator.fieldValue_yields_reply`: a relation that is read is the one that
  is loaded.
-/

namespace RowGuard

/-! ## Rows and parents -/

/-- The row of a record.  Without a record it is the row of nulls. -/
def Row.ofRecord (r : Option Record) : Row := r.elim Row.null Record.getOrNull

/-- The record to which a foreign key leads. -/
def Store.parent? (D : Store) (owner : Record) (key target : String) :
    Option Record :=
  ((owner.get? key).filter (!·.isNull)).bind (D.find? target)

theorem Store.parent_eq (D : Store) (owner : Record) (key target : String) :
    D.parent owner key target =
      (D.parent? owner key target).elim .null .record := by
  rw [Store.parent, Store.parent?]
  cases (owner.get? key).filter (!·.isNull) <;> rfl

/-- A store as a database: the records of the entities in a table are its
rows. -/
def Schema.database (s : Schema) (D : Store) : Database where
  engine := .comparator
  rows table :=
    (D.contents.filter fun r => (s.entityOf? r).any (·.tableName == table)).map
      Record.getOrNull

/-- Every entity has a table of its own and is identified by `id`. -/
structure Schema.Tabular (s : Schema) : Prop where
  identity_eq : ∀ entity ∈ s.entities, entity.identity = identityField
  tables : ∀ entity ∈ s.entities, ∀ other ∈ s.entities,
    entity.tableName = other.tableName → entity = other

/-- The record is a row of its entity: its fields are columns with scalars, and
it holds neither relations nor attributes under another name than that of their
columns.  Its identity and its foreign keys are no doubles. -/
structure Record.IsRow (entity : Entity) (r : Record) : Prop where
  identified : ∀ id ∈ r.id?, id.atom?.isSome = true
  scalars : ∀ field ∈ r.fields, field.2.isNull = true ∨ field.2.isScalar = true
  keys : ∀ relation ∈ entity.parents,
    (r.getOrNull relation.foreignKey).isNull = true ∨
    (r.getOrNull relation.foreignKey).atom?.isSome = true
  columns : ∀ a ∈ entity.attributes, a.columnName ≠ a.name →
    r.get? a.name = none
  bare : ∀ relation ∈ entity.relations, r.get? relation.name = none

/-- The records of declared entities are rows, and no two of one entity have one
identity.  No load fails. -/
structure Store.Relational (s : Schema) (D : Store) : Prop where
  intact : D.failing = []
  rows : ∀ r ∈ D.contents, ∀ {entity}, s.entityOf? r = some entity →
    r.IsRow entity
  unique : ∀ r ∈ D.contents, ∀ r' ∈ D.contents, ∀ {entity},
    s.entityOf? r = some entity →
    s.entityOf? r' = some entity → ∀ {id id'}, r.id? = some id →
    r'.id? = some id' →
      id.agrees id' = true → r = r'

/-! ## Fields of rows -/

/-- A parent is declared by a relation that has its foreign key. -/
theorem Schema.field_eq_belongsTo {s : Schema} {entity target : Entity}
    {name key : String} {optional : Bool}
    (h : s.field entity name = .belongsTo key target optional) :
    (∃ relation ∈ entity.parents, relation.name = name ∧
      relation.foreignKey = key) ∧
      s.entity? target.name = some target := by
  obtain ⟨relation, hmem, hname, hkind, hfound, hkey, -⟩ :=
    Schema.exists_relation_of_belongsTo h
  have hparent : relation ∈ entity.parents :=
    List.mem_filter.2 ⟨hmem, beq_iff_eq.2 hkind⟩
  refine ⟨⟨relation, hparent, hname, hkey⟩, ?_⟩
  rwa [Schema.entity?_name hfound]

theorem Schema.entity?_of_hasMany {s : Schema} {entity target : Entity}
    {name inverse key : String}
    (h : s.field entity name = .hasMany target inverse key) :
    s.entity? target.name = some target := by
  obtain ⟨relation, -, -, -, hfound, -⟩ := Schema.exists_relation_of_hasMany h
  rwa [Schema.entity?_name hfound]

/-- A column belongs to an attribute or is called like the field. -/
theorem Schema.field_eq_column {s : Schema} {entity : Entity}
    {name columnName : String} (h : s.field entity name = .column columnName) :
    (∃ a ∈ entity.attributes, a.name = name ∧ a.columnName = columnName) ∨
      columnName = name := by
  unfold Schema.field at h
  split at h
  · next relation _ =>
    split at h
    · rw [Relation.field] at h
      split at h <;> cases h
    · cases h
  · split at h
    · next a hattribute =>
      cases h
      have hname : a.name = name := by simpa using List.find?_some hattribute
      exact .inl ⟨a, List.mem_of_find?_eq_some hattribute, hname, rfl⟩
    · split at h
      · next hname =>
        cases h
        exact .inr hname.symm
      · cases h

namespace Record.IsRow

variable {s : Schema} {entity : Entity} {r : Record}

theorem key_of_field (h : r.IsRow entity) {name key : String} {target : Entity}
    {optional : Bool}
    (hfield : s.field entity name = .belongsTo key target optional) :
    (r.getOrNull key).isNull = true ∨
      ∃ a, (r.getOrNull key).atom? = some a := by
  obtain ⟨⟨relation, hrelation, -, rfl⟩, -⟩ := Schema.field_eq_belongsTo hfield
  exact (h.keys relation hrelation).imp_right Option.isSome_iff_exists.1

theorem get?_of_relation (h : r.IsRow entity) {name : String}
    (hfield : (s.field entity name).isRelation = true) :
    r.get? name = none := by
  obtain ⟨relation, -, hrelation, -, -⟩ := Schema.field_eq_relation hfield
  have hname : relation.name = name := by simpa using List.find?_some hrelation
  exact hname ▸ h.bare relation (List.mem_of_find?_eq_some hrelation)

/-- A field that is kept in a column is read from there. -/
theorem get?_of_column (h : r.IsRow entity) {name columnName : String}
    (hfield : s.field entity name = .column columnName) :
    (r.get? name).getD (r.getOrNull columnName) = r.getOrNull columnName := by
  have hown : columnName = name →
      (r.get? name).getD (r.getOrNull columnName) = r.getOrNull columnName := by
    rintro rfl
    rw [Record.getOrNull]
    cases r.get? columnName <;> rfl
  rcases Schema.field_eq_column hfield with ⟨a, ha, rfl, rfl⟩ | heq
  · by_cases heq : a.columnName = a.name
    · exact hown heq
    · rw [h.columns a ha heq, Option.getD_none]
  · exact hown heq

theorem atom_of_id (h : r.IsRow entity) {id : Value} (hid : r.id? = some id) :
    ∃ a, id.atom? = some a :=
  Option.isSome_iff_exists.1 (h.identified id hid)

end Record.IsRow

/-! ## Joins and loads -/

section

variable {s : Schema} {D : Store} {entity : Entity}

theorem Record.getOrNull_of_get? {r : Record} {name : String} {v : Value}
    (h : r.get? name = some v) : r.getOrNull name = v := by
  rw [Record.getOrNull, h, Option.getD_some]

theorem Record.getOrNull_identity {r : Record} {id : Value}
    (h : r.id? = some id) :
    r.getOrNull identityField = id :=
  Record.getOrNull_of_get? (Option.filter_eq_some_iff.1 h).1

theorem Record.identityOrSelf_of_id {r : Record} {id : Value}
    (h : r.id? = some id) :
    (Value.record r).identityOrSelf = id := by
  rw [Value.identityOrSelf, Value.identity?, h, Option.getD_some]

/-- An identity is not null. -/
theorem Record.isNull_of_id {r : Record} {id : Value} (h : r.id? = some id) :
    id.isNull = false := by
  simpa using (Option.filter_eq_some_iff.1 h).2

/-- A record whose column of the identity is not null has an identity. -/
theorem Record.exists_id {r : Record}
    (h : (r.getOrNull identityField).isNull = false) :
    ∃ id, r.id? = some id := by
  cases hget : r.get? identityField with
  | none => simp [Record.getOrNull, hget, Value.isNull] at h
  | some v =>
    rw [Record.getOrNull_of_get? hget] at h
    exact ⟨v,
      by rw [Record.id?, hget, Option.filter_some, if_pos (by rw [h]; rfl)]⟩

/-- A foreign key leads to what is found for it, and nowhere if it is null. -/
theorem Store.parent?_of_isNull {r : Record} {key target : String}
    (h : (r.getOrNull key).isNull = true) : D.parent? r key target = none := by
  rw [Store.parent?]
  cases hget : r.get? key with
  | none => rfl
  | some v =>
    rw [Record.getOrNull_of_get? hget] at h
    simp [Option.filter, h]

theorem Store.parent_of_any_isNull {r : Record} {key target : String}
    (h : (r.get? key).any Value.isNull = true) :
    D.parent r key target = .null := by
  obtain ⟨v, hget, hv⟩ := (Option.any_eq_true _ _).1 h
  rw [← Record.getOrNull_of_get? hget] at hv
  rw [Store.parent_eq, Store.parent?_of_isNull hv, Option.elim_none]

theorem Store.parent?_of_not_isNull {r : Record} {key target : String}
    (h : (r.getOrNull key).isNull = false) :
    D.parent? r key target = D.find? target (r.getOrNull key) := by
  rw [Store.parent?]
  cases hget : r.get? key with
  | none => simp [Record.getOrNull, hget, Value.isNull] at h
  | some v =>
    rw [Record.getOrNull_of_get? hget] at h ⊢
    simp [Option.filter, h]

theorem Store.find?_eq_some {target : String} {v : Value} {p : Record}
    (h : D.find? target v = some p) :
    p ∈ D.contents ∧ p.entity = some target ∧
      p.id?.any (·.agrees v) = true := by
  rw [Store.find?] at h
  have hmem := List.mem_of_find?_eq_some h
  have hagrees := List.find?_some h
  rw [Store.records, List.mem_filter, beq_iff_eq] at hmem
  exact ⟨hmem.1, hmem.2, hagrees⟩

/-- The parent is a record of the target. -/
theorem Store.parent?_eq_some {r p : Record} {key : String} {target : Entity}
    (htarget : s.entity? target.name = some target)
    (h : D.parent? r key target.name = some p) :
    p ∈ D.contents ∧ s.entityOf? p = some target := by
  obtain ⟨v, -, hfind⟩ := Option.bind_eq_some_iff.1 h
  obtain ⟨hmem, hentity, -⟩ := Store.find?_eq_some hfind
  exact ⟨hmem, Schema.entityOf?_eq_some_iff.2 ⟨hentity, htarget⟩⟩

theorem Schema.mem_rows_iff (htabular : s.Tabular)
    (hentity : s.entity? entity.name = some entity) {row : Row} :
    row ∈ (s.database D).rows entity.tableName ↔
      ∃ r ∈ D.contents, s.entityOf? r = some entity ∧ r.getOrNull = row := by
  simp only [Schema.database, List.mem_map, List.mem_filter, Option.any_eq_true,
    beq_iff_eq, and_assoc]
  refine exists_congr fun r => and_congr_right fun _ =>
    and_congr_left fun _ => ?_
  constructor
  · rintro ⟨other, hother, htable⟩
    have hdeclared :=
      Schema.entity?_mem (Schema.entityOf?_eq_some_iff.1 hother).2
    rw [htabular.tables entity (Schema.entity?_mem hentity) other hdeclared
      htable.symm]
    exact hother
  · exact fun h => ⟨entity, h, rfl⟩

/-- The comparison of a database that compares like loaded data. -/
theorem Engine.test_eq_yes_iff {x v : Value} (hv : v.isNull = false) :
    Engine.comparator.test .eq x v = .yes ↔
      x.isNull = false ∧ x.atomsEqual v = true := by
  rw [Engine.test, hv, Bool.or_false]
  cases x.isNull with
  | true => simp
  | false => simp [Engine.comparator]

namespace Store.Relational

/-- A record is found by its identity. -/
theorem find?_eq (hD : D.Relational s) {p : Record} (hp : p ∈ D.contents)
    (hentity : s.entityOf? p = some entity) {id v : Value} {a : Atom}
    (hid : p.id? = some id) (hida : id.atom? = some a)
    (hva : v.atom? = some a) :
    D.find? entity.name v = some p := by
  have hrecords : p ∈ D.records entity.name :=
    List.mem_filter.2
      ⟨hp, beq_iff_eq.2 (Schema.entityOf?_eq_some_iff.1 hentity).1⟩
  have hagrees : id.agrees v = true := (Value.agrees_iff hida hva).2 rfl
  cases hfind : D.find? entity.name v with
  | none =>
    rw [Store.find?, List.find?_eq_none] at hfind
    exact absurd (by rw [hid]; exact hagrees) (hfind p hrecords)
  | some p' =>
    obtain ⟨hp', hentity', hfound⟩ := Store.find?_eq_some hfind
    have hdeclared' : s.entityOf? p' = some entity :=
      Schema.entityOf?_eq_some_iff.2
        ⟨hentity', (Schema.entityOf?_eq_some_iff.1 hentity).2⟩
    obtain ⟨id', hid', hfound⟩ := (Option.any_eq_true _ _).1 hfound
    obtain ⟨b, hidb⟩ := (hD.rows p' hp' hdeclared').atom_of_id hid'
    rw [Value.agrees_iff hidb hva] at hfound
    subst hfound
    rw [hD.unique p hp p' hp' hentity hdeclared' hid hid'
      ((Value.agrees_iff hida hidb).2 rfl)]

/-- Stored records with one key in the cache are the same. -/
theorem eq_of_identityText (hD : D.Relational s) {r r' : Record}
    (hr : r ∈ D.contents) (hr' : r' ∈ D.contents)
    (hentity : s.entityOf? r = some entity)
    (hentity' : s.entityOf? r' = some entity) {id id' : Value}
    (hid : r.id? = some id) (hid' : r'.id? = some id')
    (htext : identityText id = identityText id') : r = r' := by
  obtain ⟨a, ha⟩ := (hD.rows r hr hentity).atom_of_id hid
  obtain ⟨a', ha'⟩ := (hD.rows r' hr' hentity').atom_of_id hid'
  have hagrees :=
    (Value.agrees_iff ha ha').2 ((identityText_eq_iff ha ha').1 htext)
  exact hD.unique r hr r' hr' hentity hentity' hid hid' hagrees

/-- A join of a parent finds the row of the record to which the foreign key
leads, and nothing else. -/
theorem mem_found_iff (hD : D.Relational s) (htabular : s.Tabular)
    {o : Option Record}
    (ho : ∀ r ∈ o, r ∈ D.contents ∧ s.entityOf? r = some entity)
    {name key : String} {target : Entity} {optional : Bool}
    (hfield : s.field entity name = .belongsTo key target optional)
    {a : Assignment} {aliasName : String} (ha : a aliasName = Row.ofRecord o)
    (child : String) {row : Row} :
    row ∈ (Binder.parentJoin aliasName key target optional child).found
      (s.database D) a ↔
      ∃ p, o.bind (D.parent? · key target.name) = some p ∧
        Row.ofRecord (some p) = row := by
  have htarget := (Schema.field_eq_belongsTo hfield).2
  have hidentity : target.identity = identityField :=
    htabular.identity_eq target (Schema.entity?_mem htarget)
  have hfound : row ∈
      (Binder.parentJoin aliasName key target optional child).found
      (s.database D) a ↔
        (∃ p ∈ D.contents, s.entityOf? p = some target ∧ p.getOrNull = row) ∧
        Engine.comparator.test .eq (row identityField)
          (Row.ofRecord o key) = .yes := by
    rw [← Schema.mem_rows_iff htabular htarget, ← hidentity, ← ha]
    simp only [Join.found, List.mem_filter, beq_iff_eq]
    rfl
  have hnull : ∀ v : Value, v.isNull = true →
      ¬ Engine.comparator.test .eq (row identityField) v =
      .yes := by
    intro v hv
    rw [Engine.test, hv, Bool.or_true]
    simp
  rw [hfound]
  cases o with
  | none =>
    refine ⟨fun h => absurd h.2 (hnull _ rfl), ?_⟩
    rintro ⟨p, hp, -⟩
    cases hp
  | some r =>
    obtain ⟨hr, hentity⟩ := ho r rfl
    rw [Option.bind_some]
    show _ ∧ Engine.comparator.test .eq (row identityField)
      (r.getOrNull key) = .yes ↔ _
    rcases (hD.rows r hr hentity).key_of_field hfield with hkey | ⟨b, hkey⟩
    · refine ⟨fun h => absurd h.2 (hnull _ hkey), ?_⟩
      rintro ⟨p, hp, -⟩
      rw [Store.parent?_of_isNull hkey] at hp
      cases hp
    · have hnotNull := Value.isNull_of_atom hkey
      rw [Store.parent?_of_not_isNull hnotNull, Engine.test_eq_yes_iff hnotNull]
      constructor
      · rintro ⟨⟨p, hp, hdeclared, rfl⟩, hidentified, hequal⟩
        obtain ⟨id, hid⟩ := Record.exists_id hidentified
        obtain ⟨c, hidc⟩ := (hD.rows p hp hdeclared).atom_of_id hid
        rw [Record.getOrNull_identity hid, Value.atomsEqual_iff hidc hkey]
          at hequal
        subst hequal
        exact ⟨p, hD.find?_eq hp hdeclared hid hidc hkey, rfl⟩
      · rintro ⟨p, hp, rfl⟩
        obtain ⟨hmem, hname, hagrees⟩ := Store.find?_eq_some hp
        have hdeclared := Schema.entityOf?_eq_some_iff.2 ⟨hname, htarget⟩
        obtain ⟨id, hid, hagrees⟩ := (Option.any_eq_true _ _).1 hagrees
        obtain ⟨c, hidc⟩ := (hD.rows p hmem hdeclared).atom_of_id hid
        rw [Value.agrees_iff hidc hkey] at hagrees
        subst hagrees
        refine ⟨⟨p, hmem, hdeclared, rfl⟩, ?_⟩
        show (p.getOrNull identityField).isNull = false ∧
          (p.getOrNull identityField).atomsEqual _ = true
        rw [Record.getOrNull_identity hid]
        exact ⟨Value.isNull_of_atom hidc,
          (Value.atomsEqual_iff hidc hkey).2 rfl⟩

end Store.Relational

end

/-! ## Loading from a store -/

/-- The answer to a load of a relation. -/
def Store.reply (D : Store) (owner : Record)
    (_relation : String) : Field → Value
  | .belongsTo key target _ => D.parent owner key target.name
  | .hasMany target _ key =>
    .list ((D.children owner target.name key).map .record)
  | .column _ | .unknown => .null

/-- The records that an evaluation for an actor can meet. -/
def Store.Known (s : Schema) (D : Store) (actor : Value) (r : Record) : Prop :=
  (r ∈ D.contents ∧ (s.entityOf? r).isSome = true) ∨ r ∈ actor.records

/-- Relations of the actor's records load like those of every other record that
has their key in the cache. -/
def Store.Familiar (s : Schema) (D : Store) (actor : Value) : Prop :=
  ∀ r ∈ actor.records, ∀ r', D.Known s actor r' →
    ∀ {entity}, s.entityOf? r = some entity →
    s.entityOf? r' = some entity → ∀ {id id'}, r.id? = some id →
    r'.id? = some id' →
      identityText id = identityText id' → ∀ relation,
        D.reply r relation (s.field entity relation) =
          D.reply r' relation (s.field entity relation)

/-- Records of declared entities hold scalars and nothing else, and no two of
one entity have one key in the cache. -/
structure Store.Flat (s : Schema) (D : Store) : Prop where
  scalars : ∀ r ∈ D.contents, ∀ {entity}, s.entityOf? r = some entity →
    ∀ field ∈ r.fields, field.2.isNull = true ∨ field.2.isScalar = true
  keyed : ∀ r ∈ D.contents, ∀ r' ∈ D.contents, ∀ {entity},
    s.entityOf? r = some entity →
    s.entityOf? r' = some entity → ∀ {id id'}, r.id? = some id →
    r'.id? = some id' →
      identityText id = identityText id' → r = r'

/-- The storage has the records of the store and no load fails. -/
def Store.Serves (D storage : Store) : Prop :=
  storage.contents = D.contents ∧ storage.failing = []

section

variable {s : Schema} {D : Store} {actor : Value}

theorem Store.Serves.answer_eq {storage : Store} (h : D.Serves storage)
    {r : Record} {relation : String} {field : Field}
    (hfield : field.isRelation = true) :
    storage.answer r relation field = .ok (D.reply r relation field) := by
  obtain ⟨hcontents, hfailing⟩ := h
  unfold Store.answer
  simp only [hfailing, List.contains_nil, Bool.false_eq_true, if_false]
  cases field with
  | belongsTo | hasMany =>
    simp only [Store.reply, Store.parent, Store.find?, Store.children,
      Store.records, hcontents]
  | column | unknown => cases hfield

theorem Value.records_eq_nil {v : Value}
    (h : v.isNull = true ∨ v.isScalar = true) :
    v.records = [] := by
  cases v with
  | list | record => simp [Value.isNull, Value.isScalar] at h
  | _ => simp [Value.records]

namespace Store.Flat

theorem over_record (hD : D.Flat s) {r : Record} (hr : r ∈ D.contents)
    {entity : Entity} (hentity : s.entityOf? r = some entity) :
    (Value.record r).Over (D.Known s actor) := by
  intro r' hr'
  rw [Value.records_record] at hr'
  rcases List.mem_cons.1 hr' with rfl | hr'
  · exact .inl ⟨hr, by rw [hentity, Option.isSome_some]⟩
  · obtain ⟨field, hfield, hmem⟩ := mem_recordsIn.1 hr'
    rw [Value.records_eq_nil (hD.scalars r hr hentity field hfield)] at hmem
    cases hmem

/-- The answer to a load of a declared relation has stored records. -/
theorem over_reply (hD : D.Flat s) (r : Record) (entity : Entity)
    (relation : String) :
    (D.reply r relation (s.field entity relation)).Over (D.Known s actor) := by
  cases hfield : s.field entity relation with
  | belongsTo key target optional =>
    rw [Store.reply, Store.parent_eq]
    cases hparent : D.parent? r key target.name with
    | none => exact Value.over_null
    | some p =>
      obtain ⟨hp, hentity⟩ :=
        Store.parent?_eq_some ((Schema.field_eq_belongsTo hfield).2) hparent
      exact hD.over_record hp hentity
  | hasMany target inverse key =>
    rw [Store.reply, Value.over_list]
    intro item hitem
    obtain ⟨child, hchild, rfl⟩ := List.mem_map.1 hitem
    have htarget := Schema.entity?_of_hasMany hfield
    unfold Store.children at hchild
    split at hchild
    · cases hchild
    · obtain ⟨hmem, hname⟩ := List.mem_filter.1 (List.mem_filter.1 hchild).1
      exact hD.over_record hmem
        (Schema.entityOf?_eq_some_iff.2 ⟨beq_iff_eq.1 hname, htarget⟩)
  | column | unknown => exact Value.over_null

/-- An evaluator that loads from a flat store may use a cache for an actor whose
records are familiar. -/
theorem steady (hD : D.Flat s) (hactor : D.Familiar s actor)
    {ev : Evaluator Store} {elapsed : Nat} (hschema : ev.schema = s)
    (hloader : ev.loader = some (Store.loader elapsed))
    (hbudget : ev.budget = .unlimited) :
    ev.Steady (Store.loader elapsed) D.Serves D.reply (D.Known s actor) where
  loader_eq := hloader
  unlimited := hbudget
  loads storage hserves r _ relation field hfield := by
    refine ⟨{ storage with served := storage.served + 1 }, ?_, hserves⟩
    simp only [Store.loader, hserves.answer_eq hfield]
  answers r _ entity relation _ := by
    rw [hschema]
    exact hD.over_reply r entity relation
  fields r hr field hfield r' hr' := by
    rcases hr with ⟨hr, hsome⟩ | hr
    · obtain ⟨entity, hentity⟩ := Option.isSome_iff_exists.1 hsome
      rw [Value.records_eq_nil (hD.scalars r hr hentity field hfield)] at hr'
      cases hr'
    · exact .inr (Value.mem_records_trans hfield hr' actor hr)
  alike r hr r' hr' entity hentity hentity' id hid id' hid' htext relation := by
    rw [hschema] at hentity hentity' ⊢
    rcases hr with ⟨hr, hsome⟩ | hr
    · rcases hr' with ⟨hr', hsome'⟩ | hr'
      · rw [hD.keyed r hr r' hr' hentity hentity' hid hid' htext]
      · exact (hactor r' hr' r (.inl ⟨hr, hsome⟩) hentity' hentity hid' hid
          htext.symm _).symm
    · exact hactor r hr r' hr' hentity hentity' hid hid' htext relation

end Store.Flat

theorem Store.Relational.flat (hD : D.Relational s) : D.Flat s where
  scalars r hr _ hentity := (hD.rows r hr hentity).scalars
  keyed _ hr _ hr' _ hentity hentity' _ _ :=
    hD.eq_of_identityText hr hr' hentity hentity'

/-- An evaluator that loads from a relational store may use a cache for an actor
whose records are familiar. -/
theorem Store.Relational.steady (hD : D.Relational s)
    (hactor : D.Familiar s actor) {ev : Evaluator Store} {elapsed : Nat}
    (hschema : ev.schema = s)
    (hloader : ev.loader = some (Store.loader elapsed))
    (hbudget : ev.budget = .unlimited) :
    ev.Steady (Store.loader elapsed) D.Serves D.reply (D.Known s actor) :=
  hD.flat.steady hactor hschema hloader hbudget

/-- An actor is familiar if its records are stored as they are. -/
theorem Store.Relational.familiar_of_stored (hD : D.Relational s)
    (hactor : ∀ r ∈ actor.records, r ∈ D.contents) : D.Familiar s actor := by
  intro r hr r' hr' entity hentity hentity' id id' hid hid' htext relation
  have hstored : r' ∈ D.contents := hr'.elim And.left (hactor r')
  rw [hD.eq_of_identityText (hactor r hr) hstored hentity hentity'
    hid hid' htext]

theorem Store.Relational.serves_self (hD : D.Relational s) : D.Serves D :=
  ⟨rfl, hD.intact⟩

/-- There is no null among records. -/
theorem Value.filter_map_record (records : List Record) :
    (records.map Value.record).filter (!·.isNull) =
      records.map Value.record := by
  rw [List.filter_eq_self, List.forall_mem_map]
  exact fun _ _ => rfl

/-- A relation that a record does not hold is read like it is loaded. -/
theorem Evaluator.fieldValue_yields_reply {ev : Evaluator Store}
    {loader : Loader Store} {known : Record → Prop}
    (hsteady : ev.Steady loader D.Serves D.reply known) {r : Record}
    (hr : known r) {entity : Entity}
    (hentity : ev.schema.entityOf? r = some entity) {name : String}
    (hbare : r.get? name = none)
    (hrelation : (ev.schema.field entity name).isRelation = true) :
    Yields (Coherent ev D.Serves D.reply known) (ev.fieldValue r name)
      (D.reply r name (ev.schema.field entity name)) := by
  have hfetch := fetch_yields hsteady hr hentity hrelation
  cases hfield : ev.schema.field entity name with
  | belongsTo key target optional =>
    rw [fieldValue_of_belongsTo hentity hfield, parent, hbare]
    dsimp only
    split
    · next hnull =>
      rw [Store.reply, Store.parent_of_any_isNull hnull]
      exact .pure Value.null
    · exact hfield ▸ hfetch .null
  | hasMany target inverse key =>
    have hheld := hfetch (.list [])
    rw [hfield] at hheld
    rw [fieldValue_of_hasMany hentity hfield, children, hbare]
    refine hheld.bind ?_
    rw [Store.reply, Value.toItems, Value.filter_map_record]
    exact .pure _
  | column | unknown => simp [hfield, Field.isRelation] at hrelation

end

end RowGuard
