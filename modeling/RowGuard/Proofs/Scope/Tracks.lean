import RowGuard.Proofs.Evaluation.Tracks
import RowGuard.Proofs.Scope.Alternatives
import RowGuard.Proofs.Value.Literals

/-!
# Queries along tracks

A path of names becomes joins, one for each relation of its `Track`, and a test
at the end.  On a complete store the query admits a record if some end of the
track passes the test (`Compiler.select_track`).

* `Join.exists_candidate_iff`: the row of nulls, which a left join binds where
  nothing matches, passes no test.
* `Store.Relational.mem_children_found_iff` is for children what
  `Store.Relational.mem_found_iff` is for parents: a join finds what a load
  finds.
* `Binder.onPath_finds` is the induction over the names.
-/

namespace RowGuard

/-! ## Joins of children -/

/-- Where the row of nulls has not got a property, a join binds a row with the
property only if it finds one. -/
theorem Join.exists_candidate_iff {db : Database} {j : Join} {a : Assignment}
    {P : Row → Prop} (hnull : ¬ P Row.null) :
    (∃ row ∈ j.candidates db a, P row) ↔ ∃ row ∈ j.found db a, P row := by
  rw [Join.candidates]
  cases hfound : j.found db a with
  | nil => cases j.kind <;> simp [hnull]
  | cons row rows => rfl

/-- The column leads to the record with an identity if it equals this
identity. -/
theorem Store.Complete.any_agrees_iff {s : Schema} {D : Store}
    (hcomplete : D.Complete s) {entity : Entity} {r : Record}
    (hr : D.Holds s entity r) (key : String) {id : Value} {a : Atom}
    (hid : id.atom? = some a) :
    (r.get? key).any (·.agrees id) = true ↔
      (r.getOrNull key).isNull = false ∧
        (r.getOrNull key).atomsEqual id = true := by
  cases hget : r.get? key with
  | none => simp [Record.getOrNull, hget, Value.isNull]
  | some v =>
    rcases hcomplete.getOrNull hr key with hnull | ⟨b, hb⟩
    · rw [hnull]
      rw [Record.getOrNull_of_get? hget] at hnull
      rw [hnull, Option.any_some, Value.agrees_eq_equals rfl,
        Value.identityOrSelf_of_atom hid]
      simp [Value.identityOrSelf, Value.identity?, Value.equals,
        Value.null_atomsEqual hid, Value.isNull]
    · rw [Record.getOrNull_of_get? hget] at hb ⊢
      rw [Option.any_some, Value.agrees_iff hb hid, Value.atomsEqual_iff hb hid,
        Value.isNull_of_atom hb]
      simp

/-- A join of children finds the rows of the records whose key leads to the
record, and nothing else. -/
theorem Store.Relational.mem_children_found_iff {s : Schema} {D : Store}
    (hD : D.Relational s) (hcomplete : D.Complete s) (htabular : s.Tabular)
    {entity : Entity} {o : Option Record} (ho : ∀ r ∈ o, D.Holds s entity r)
    {name inverse key : String} {child : Entity}
    (hfield : s.field entity name = .hasMany child inverse key) {a : Assignment}
    {aliasName : String} (ha : a aliasName = Row.ofRecord o)
    (childAlias : String) {row : Row} :
    row ∈ (Binder.childrenJoin aliasName key entity child childAlias).found
      (s.database D) a ↔
      ∃ r', (∃ r ∈ o, r' ∈ D.children r child.name key) ∧
        Row.ofRecord (some r') = row := by
  have hchild := Schema.entity?_of_hasMany hfield
  have hfound : row ∈
      (Binder.childrenJoin aliasName key entity child childAlias).found
      (s.database D) a ↔
        (∃ r' ∈ D.contents, s.entityOf? r' = some child ∧ r'.getOrNull = row) ∧
        Engine.comparator.test .eq (row key) (Row.ofRecord o entity.identity) =
          .yes := by
    rw [← Schema.mem_rows_iff htabular hchild, ← ha]
    simp only [Join.found, List.mem_filter, beq_iff_eq]
    rfl
  rw [hfound]
  cases o with
  | none => simp [Row.ofRecord, Row.null, Engine.test, Value.isNull]
  | some r =>
    have hr := ho r rfl
    obtain ⟨id, b, hid, hb⟩ := hcomplete.exists_id hD hr
    have hidentity : Row.ofRecord (some r) entity.identity = id := by
      rw [htabular.identity_eq entity
        (Schema.entity?_mem (Schema.entityOf?_eq_some_iff.1 hr.2).2)]
      exact Record.getOrNull_identity hid
    have hmem : ∀ r', r' ∈ D.children r child.name key ↔ D.Holds s child r' ∧
        (r'.get? key).any (·.agrees id) = true := by
      intro r'
      simp only [Store.children, hid, Store.records, List.mem_filter,
        beq_iff_eq, Store.Holds, Schema.entityOf?_eq_some_iff, hchild, and_true]
    rw [hidentity, Engine.test_eq_yes_iff (Value.isNull_of_atom hb)]
    constructor
    · rintro ⟨⟨r', hcontents, hdeclared, rfl⟩, hequal⟩
      have hr' : D.Holds s child r' := ⟨hcontents, hdeclared⟩
      have hagrees := (hcomplete.any_agrees_iff hr' key hb).2 hequal
      exact ⟨r', ⟨r, rfl, (hmem r').2 ⟨hr', hagrees⟩⟩, rfl⟩
    · rintro ⟨r', ⟨_, ⟨⟩, hchildren⟩, rfl⟩
      obtain ⟨hr', hagrees⟩ := (hmem r').1 hchildren
      exact ⟨⟨r', hr'.1, hr'.2, rfl⟩,
        (hcomplete.any_agrees_iff hr' key hb).1 hagrees⟩

/-! ## What a path finds -/

/-- Some end of the track passes the comparison with the value. -/
def Track.Passes (D : Store) (op : Operator) (w : Value) (track : Track)
    (r : Record) : Prop :=
  ∃ x ∈ track.ends D r, Engine.comparator.compare op x.identityOrSelf w = .yes

theorem Track.passes_parent_iff {D : Store} {op : Operator} {w : Value}
    {key : String} {target : Entity} {rest : Track} {r : Record} :
    (Track.parent key target rest).Passes D op w r ↔
      ∃ p, D.parent? r key target.name = some p ∧ rest.Passes D op w p := by
  simp only [Passes, ends, List.mem_flatMap, Option.mem_toList]
  constructor
  · rintro ⟨x, ⟨p, hp, hx⟩, hyes⟩
    exact ⟨p, hp, x, hx, hyes⟩
  · rintro ⟨p, hp, x, hx, hyes⟩
    exact ⟨x, ⟨p, hp, hx⟩, hyes⟩

theorem Track.passes_children_iff {D : Store} {op : Operator} {w : Value}
    {key : String} {child : Entity} {rest : Track} {r : Record} :
    (Track.children child key rest).Passes D op w r ↔
      ∃ r' ∈ D.children r child.name key, rest.Passes D op w r' := by
  simp only [Passes, ends, List.mem_flatMap]
  constructor
  · rintro ⟨x, ⟨r', hr', hx⟩, hyes⟩
    exact ⟨r', hr', x, hx, hyes⟩
  · rintro ⟨r', hr', x, hx, hyes⟩
    exact ⟨x, ⟨r', hr', hx⟩, hyes⟩

/-- A test of an operator for equality or membership against scalars. -/
structure Operator.Asks (op : Operator) (w : Value) : Prop where
  unordered : op.isOrdering = false
  scalars : w.Scalars

namespace Operator.Asks

variable {op : Operator} {w x y : Value} {a : Atom}

theorem of_isScalar (hop : op.isOrdering = false)
    (hw : w.isScalar = true) : op.Asks w :=
  ⟨hop, .one hw⟩

/-- Null passes no test. -/
theorem not_null (h : op.Asks w) :
    ¬ Engine.comparator.compare op .null w = .yes := by
  rw [h.scalars.compare_eq_yes_iff h.unordered]
  intro hpasses
  cases hpasses.1

/-- Scalars that are one atom pass alike. -/
theorem congr (h : op.Asks w) (hx : x.atom? = some a) (hy : y.atom? = some a) :
    Engine.comparator.compare op x w = .yes ↔
      Engine.comparator.compare op y w = .yes := by
  rw [h.scalars.compare_eq_yes_iff h.unordered,
    h.scalars.compare_eq_yes_iff h.unordered, Value.isNull_of_atom hx,
    Value.isNull_of_atom hy, Value.Scalars.accepts_of_atom hx hy]

/-- A column tells of the track if it does so for every record, since the row of
nulls passes no test. -/
theorem row_passes_iff (h : op.Asks w) {D : Store} {track : Track}
    {column : String} (o : Option Record)
    (hrecord : ∀ r ∈ o, Engine.comparator.compare op
      (r.getOrNull column) w = .yes ↔
      track.Passes D op w r) :
    Engine.comparator.compare op (Row.ofRecord o column) w = .yes ↔
      ∃ r ∈ o, track.Passes D op w r := by
  cases o with
  | none =>
    refine iff_of_false h.not_null ?_
    rintro ⟨_, ⟨⟩, -⟩
  | some r =>
    show Engine.comparator.compare op (r.getOrNull column) w = .yes ↔ _
    rw [hrecord r rfl]
    simp

end Operator.Asks

namespace Binder

variable {b : Binder} {D : Store} {op : Operator} {w : Value} {entity : Entity}

/-- The growth tells of the row of a record whether some end of the track
passes, and denies the row of nulls. -/
structure Growth.Finds (s : Schema) (D : Store) (op : Operator) (w : Value)
    (entity : Entity) (track : Track) (g : Growth)
    (property : Entity → Row → Prop) : Prop where
  tells : g.Tells (s.database D) property
  iff : ∀ o : Option Record, (∀ r ∈ o, D.Holds s entity r) →
    (property entity (Row.ofRecord o) ↔ ∃ r ∈ o, track.Passes D op w r)

section

variable {s : Schema} {track : Track} {g : Growth}
  {property : Entity → Row → Prop}

theorem Growth.Finds.not_null
    (h : Growth.Finds s D op w entity track g property) :
    ¬ property entity Row.null := by
  have hnone := h.iff none fun _ h => nomatch h
  simpa [Row.ofRecord] using hnone

theorem Growth.Finds.record_iff
    (h : Growth.Finds s D op w entity track g property) {r : Record}
    (hr : D.Holds s entity r) :
    property entity (Row.ofRecord (some r)) ↔ track.Passes D op w r := by
  have hholds : ∀ r' ∈ some r, D.Holds s entity r' := by
    rintro _ ⟨⟩
    exact hr
  rw [h.iff (some r) hholds]
  simp

/-- A join that finds the rows of certain records goes on from one that
passes. -/
theorem Growth.Finds.candidates_iff
    (h : Growth.Finds s D op w entity track g property) {j : Join}
    {a : Assignment} {related : Record → Prop}
    (hrelated : ∀ r, related r → D.Holds s entity r)
    (hfound : ∀ row, row ∈ j.found (s.database D) a ↔
      ∃ r, related r ∧ Row.ofRecord (some r) = row) :
    (∃ row ∈ j.candidates (s.database D) a, property entity row) ↔
      ∃ r, related r ∧ track.Passes D op w r := by
  rw [Join.exists_candidate_iff h.not_null]
  constructor
  · rintro ⟨row, hrow, hproperty⟩
    obtain ⟨r, hr, rfl⟩ := (hfound row).1 hrow
    exact ⟨r, hr, (h.record_iff (hrelated r hr)).1 hproperty⟩
  · rintro ⟨r, hr, hpasses⟩
    exact ⟨_, (hfound _).2 ⟨r, hr, rfl⟩,
      (h.record_iff (hrelated r hr)).2 hpasses⟩

end

theorem testIdentity_finds (hasks : op.Asks w) {s : Schema}
    (htabular : s.Tabular) (hD : D.Relational s) (hcomplete : D.Complete s) :
    Growth.Finds s D op w entity .here (testIdentity ⟨op, .value w⟩)
      fun entity row =>
      Test.HoldsOf (s.database D) ⟨op, .value w⟩ entity.identity row where
  tells := test_tells _ Entity.identity
  iff o ho := hasks.row_passes_iff o fun r hr => by
    obtain ⟨id, a, hid, -⟩ := hcomplete.exists_id hD (ho r hr)
    have hdeclared := (Schema.entityOf?_eq_some_iff.1 (ho r hr).2).2
    rw [htabular.identity_eq entity (Schema.entity?_mem hdeclared),
      Record.getOrNull_identity hid]
    simp [Track.Passes, Track.ends, Record.identityOrSelf_of_id hid]

/-- What a step finds is what its field tells of a row. -/
theorem step_finds {t : Test} (hseparator : b.naming.separator ≠ "")
    {name : String} {isEnd : Bool} {next : Growth}
    {property : Entity → Row → Prop}
    (hnext : next.Tells (b.schema.database D) property) {track : Track}
    (hiff : ∀ o : Option Record, (∀ r ∈ o, D.Holds b.schema entity r) →
      (FieldTells (b.schema.database D) t name isEnd property entity
        (Row.ofRecord o)
        (b.schema.field entity name) ↔ ∃ r ∈ o, track.Passes D op w r)) :
    ∃ property,
      Growth.Finds b.schema D op w entity track
        (b.step t name none isEnd next) property :=
  ⟨_, step_tells hseparator hnext, hiff⟩

section

variable (hseparator : b.naming.separator ≠ "") (htabular : b.schema.Tabular)
  (hD : D.Relational b.schema) (hcomplete : D.Complete b.schema)
  (hasks : op.Asks w)

include htabular hD

/-- From a parent the path goes on. -/
theorem parent_finds_iff {name key : String} {target : Entity} {optional : Bool}
    {rest : Track}
    (hfield : b.schema.field entity name = .belongsTo key target optional)
    {g : Growth} {next : Entity → Row → Prop}
    (hnext : Growth.Finds b.schema D op w target rest g next)
    (o : Option Record) (ho : ∀ r ∈ o, D.Holds b.schema entity r) :
    FieldTells (b.schema.database D) ⟨op, .value w⟩ name false next entity
      (Row.ofRecord o)
      (b.schema.field entity name) ↔
        ∃ r ∈ o, (Track.parent key target rest).Passes D op w r := by
  have htarget := (Schema.field_eq_belongsTo hfield).2
  have hrelated : ∀ p, o.bind (D.parent? · key target.name) = some p →
      D.Holds b.schema target p := by
    intro p hp
    obtain ⟨r, -, hparent⟩ := Option.bind_eq_some_iff.1 hp
    exact Store.holds_of_parent? htarget hparent
  rw [hfield]
  refine (hnext.candidates_iff hrelated fun row =>
    hD.mem_found_iff htabular ho hfield rfl "").trans ?_
  simp only [Track.passes_parent_iff, Option.bind_eq_some_iff, Option.mem_def]
  constructor
  · rintro ⟨p, ⟨r, hr, hparent⟩, hpasses⟩
    exact ⟨r, hr, p, hparent, hpasses⟩
  · rintro ⟨r, hr, p, hparent, hpasses⟩
    exact ⟨p, ⟨r, hr, hparent⟩, hpasses⟩

include hcomplete

/-- From each of the children the path goes on. -/
theorem children_finds_iff {name inverse key : String} {child : Entity}
    {rest : Track}
    (hfield : b.schema.field entity name = .hasMany child inverse key)
    {isEnd : Bool} {g : Growth} {next : Entity → Row → Prop}
    (hnext : Growth.Finds b.schema D op w child rest g next) (o : Option Record)
    (ho : ∀ r ∈ o, D.Holds b.schema entity r) :
    FieldTells (b.schema.database D) ⟨op, .value w⟩ name isEnd next entity
      (Row.ofRecord o)
      (b.schema.field entity name) ↔
        ∃ r ∈ o, (Track.children child key rest).Passes D op w r := by
  have hchild := Schema.entity?_of_hasMany hfield
  have hrelated : ∀ r', (∃ r ∈ o, r' ∈ D.children r child.name key) →
      D.Holds b.schema child r' := by
    rintro r' ⟨r, -, hr'⟩
    exact Store.holds_of_mem_children hchild hr'
  rw [hfield]
  refine (hnext.candidates_iff hrelated fun row =>
    hD.mem_children_found_iff hcomplete htabular ho hfield rfl "").trans ?_
  simp only [Track.passes_children_iff]
  constructor
  · rintro ⟨r', ⟨r, hr, hr'⟩, hpasses⟩
    exact ⟨r, hr, r', hr', hpasses⟩
  · rintro ⟨r, hr, r', hr', hpasses⟩
    exact ⟨r', ⟨r, hr, hr'⟩, hpasses⟩

include hasks

omit htabular hD in
/-- A column is tested where it is read. -/
theorem column_finds_iff {name columnName : String}
    (hfield : b.schema.field entity name = .column columnName)
    (next : Entity → Row → Prop) (o : Option Record)
    (ho : ∀ r ∈ o, D.Holds b.schema entity r) :
    FieldTells (b.schema.database D) ⟨op, .value w⟩ name true next entity
      (Row.ofRecord o)
      (b.schema.field entity name) ↔
        ∃ r ∈ o, (Track.column columnName).Passes D op w r := by
  have htells : FieldTells (b.schema.database D) ⟨op, .value w⟩ name
      true next entity (Row.ofRecord o) (b.schema.field entity name) ↔
        Engine.comparator.compare op (Row.ofRecord o columnName) w = .yes := by
    rw [hfield]
    exact and_iff_right rfl
  rw [htells]
  refine hasks.row_passes_iff o fun r hr => ?_
  rcases hcomplete.getOrNull (ho r hr) columnName with hnull | ⟨a, ha⟩
  · simp [Track.Passes, Track.ends, hnull, Value.toItems, hasks.not_null]
  · simp [Track.Passes, Track.ends, Value.identityOrSelf_of_atom ha,
      Value.toItems_of_single (Value.isNull_of_atom ha)
        (Value.isList_of_atom ha)]

omit htabular in
/-- At the end of a path the key of a parent is tested in place of its
identity. -/
theorem key_finds_iff {name key : String} {target : Entity} {optional : Bool}
    (hfield : b.schema.field entity name = .belongsTo key target optional)
    (next : Entity → Row → Prop) (o : Option Record)
    (ho : ∀ r ∈ o, D.Holds b.schema entity r) :
    FieldTells (b.schema.database D) ⟨op, .value w⟩ name true next entity
      (Row.ofRecord o)
      (b.schema.field entity name) ↔
        ∃ r ∈ o, (Track.parent key target .here).Passes D op w r := by
  have htells : FieldTells (b.schema.database D) ⟨op, .value w⟩ name
      true next entity (Row.ofRecord o) (b.schema.field entity name) ↔
        Engine.comparator.compare op (Row.ofRecord o key) w = .yes := by
    rw [hfield]
    rfl
  rw [htells]
  refine hasks.row_passes_iff o fun r hr => ?_
  have hr := ho r hr
  rcases hcomplete.getOrNull hr key with hnull | ⟨a, ha⟩
  · have hparent : D.parent? r key target.name = none :=
      Store.parent?_of_isNull (by rw [hnull]; rfl)
    simp [Track.Passes, Track.ends, hparent, hnull, hasks.not_null]
  · have hnotNull := Value.isNull_of_atom ha
    obtain ⟨p, hp⟩ := hcomplete.referential.exists_parent hr hfield hnotNull
    -- the key is the identity of the parent, up to the width of an integer
    obtain ⟨id, c, hid, hc⟩ := hcomplete.exists_id hD
      (Store.holds_of_parent? (Schema.field_eq_belongsTo hfield).2 hp)
    rw [Store.parent?_of_not_isNull hnotNull] at hp
    have hagrees := (Store.find?_eq_some hp).2.2
    rw [hid, Option.any_some, Value.agrees_iff hc ha] at hagrees
    subst hagrees
    rw [hasks.congr ha hc]
    simp [Track.Passes, Track.ends, Store.parent?_of_not_isNull hnotNull, hp,
      Record.identityOrSelf_of_id hid]

include hseparator

/-- One name after the other, the joins lead along the track to the test. -/
theorem onPath_finds {names : List String} {track : Track}
    (h : track.NamedBy b.schema entity names) :
    ∃ property, Growth.Finds b.schema D op w entity track
      (b.onPath ⟨op, .value w⟩ (names.map .plain) (.done ⟨op, .value w⟩)).follow
      property := by
  induction h with
  | here => exact ⟨_, testIdentity_finds hasks htabular hD hcomplete⟩
  | column hfield =>
    exact step_finds hseparator (test_tells _ Entity.identity)
      (column_finds_iff hcomplete hasks hfield _)
  | @parent _ _ _ _ _ names _ hfield hrest ih =>
    obtain ⟨next, hnext⟩ := ih
    cases names with
    | nil =>
      cases hrest
      exact step_finds hseparator hnext.tells
        (key_finds_iff hD hcomplete hasks hfield _)
    | cons =>
      exact step_finds hseparator hnext.tells
        (parent_finds_iff htabular hD hfield hnext)
  | children hfield _ ih =>
    obtain ⟨next, hnext⟩ := ih
    exact step_finds hseparator hnext.tells
      (children_finds_iff htabular hD hcomplete hfield hnext)
  | self hfield hname _ ih =>
    obtain ⟨next, hnext⟩ := ih
    refine step_finds hseparator hnext.tells fun o ho => ?_
    rw [hfield]
    exact (and_iff_right hname).trans (hnext.iff o ho)

end

end Binder

end RowGuard
