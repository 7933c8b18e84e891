import RowGuard.Proofs.Evaluation.Ancestors
import RowGuard.Proofs.Evaluation.Offline
import RowGuard.Proofs.Value.Operands

/-!
# Evaluation through children

A `Track` is what a path of names stands for: the relations on the way and what
is read at the end.  Unlike a `Lineage` it may lead through children, so that it
has any number of ends.  `Track.ends` reads them off a store.

* `Store.Complete` says that nothing is missing from a store: rows have
  identities, and foreign keys lead to rows.
* `mem_addItems_iff` is the reason why it does not matter that repetitions are
  left out: of the values that a complete store has, no two are taken for one
  item.
* `Evaluator.evaluate_track`: an evaluator that follows the names from a stored
  record comes to a value with these ends, whatever has been loaded before.
-/

namespace RowGuard

/-! ## Tracks -/

/-- A way through relations. -/
inductive Track where
  /-- The row itself. -/
  | here
  /-- What is kept in a column. -/
  | column (columnName : String)
  /-- A parent and the way on from there. -/
  | parent (key : String) (target : Entity) (rest : Track)
  /-- Children and the way on from each of them. -/
  | children (child : Entity) (key : String) (rest : Track)

namespace Track

/-- Read from an entity, the names stand for the track: they are fields of the
schema, a column comes last, and an entity may name itself. -/
inductive NamedBy (s : Schema) : Entity → List String → Track → Prop where
  | here {entity} : NamedBy s entity [] .here
  | column {entity name columnName}
      (hfield : s.field entity name = .column columnName) :
      NamedBy s entity [name] (.column columnName)
  | parent {entity name key target optional names rest}
      (hfield : s.field entity name = .belongsTo key target optional)
      (hrest : NamedBy s target names rest) :
      NamedBy s entity (name :: names) (.parent key target rest)
  | children {entity name child inverse key names rest}
      (hfield : s.field entity name = .hasMany child inverse key)
      (hrest : NamedBy s child names rest) :
      NamedBy s entity (name :: names) (.children child key rest)
  | self {entity name names track} (hfield : s.field entity name = .unknown)
      (hname : name = entity.name) (hrest : NamedBy s entity names track) :
      NamedBy s entity (name :: names) track

/-- The values at the ends of the track from a record, without nulls. -/
def ends (D : Store) : Track → Record → List Value
  | .here, r => [.record r]
  | .column columnName, r => (r.getOrNull columnName).toItems
  | .parent key target rest, r =>
    (D.parent? r key target.name).toList.flatMap (rest.ends D)
  | .children child key rest, r =>
    (D.children r child.name key).flatMap (rest.ends D)

/-- Whether the track leads through children. -/
def toMany : Track → Bool
  | .here | .column _ => false
  | .parent _ _ rest => rest.toMany
  | .children .. => true

end Track

/-! ## Stores in which nothing is missing -/

/-- The record is one of the store, of an entity of the schema. -/
def Store.Holds (s : Schema) (D : Store) (entity : Entity)
    (r : Record) : Prop :=
  r ∈ D.contents ∧ s.entityOf? r = some entity

/-- Records have identities, and a foreign key that is not null leads to a
record. -/
structure Store.Referential (s : Schema) (D : Store) : Prop where
  identified : ∀ {entity r}, D.Holds s entity r → r.id?.isSome = true
  refers : ∀ {entity r}, D.Holds s entity r → ∀ relation ∈ entity.parents,
    (r.getOrNull relation.foreignKey).isNull = false →
      (D.parent? r relation.foreignKey relation.target).isSome = true

/-- Records have identities and no doubles, and a foreign key that is not null
leads to a record. -/
structure Store.Complete (s : Schema) (D : Store) : Prop where
  identified : ∀ {entity r}, D.Holds s entity r → r.id?.isSome = true
  exact : ∀ {entity r}, D.Holds s entity r →
    ∀ field ∈ r.fields, field.2.isNull = true ∨ field.2.atom?.isSome = true
  refers : ∀ {entity r}, D.Holds s entity r → ∀ relation ∈ entity.parents,
    (r.getOrNull relation.foreignKey).isNull = false →
      (D.parent? r relation.foreignKey relation.target).isSome = true

/-- The values to which tracks lead: records of the store, and scalars that are
no doubles. -/
inductive Store.Reaches (s : Schema) (D : Store) : Value → Prop where
  | record {entity r} (h : D.Holds s entity r) : Reaches s D (.record r)
  | atom {v a} (h : v.atom? = some a) : Reaches s D v

section

variable {s : Schema} {D : Store} {entity : Entity} {r : Record} {v w : Value}

theorem Store.Complete.referential (hcomplete : D.Complete s) :
    D.Referential s :=
  ⟨hcomplete.identified, hcomplete.refers⟩

theorem Store.Complete.getOrNull (hcomplete : D.Complete s)
    (h : D.Holds s entity r) (column : String) :
    r.getOrNull column = .null ∨ ∃ a, (r.getOrNull column).atom? = some a := by
  cases hget : r.get? column with
  | none => exact .inl (by rw [Record.getOrNull, hget, Option.getD_none])
  | some held =>
    rw [Record.getOrNull_of_get? hget]
    rcases hcomplete.exact h _ (Evaluator.mem_fields_of_get? hget) with
      hnull | hatom
    · exact .inl (Value.eq_null_of_isNull hnull)
    · exact .inr (Option.isSome_iff_exists.1 hatom)

/-- The identity of a record is a scalar. -/
theorem Store.Complete.exists_id (hcomplete : D.Complete s)
    (hD : D.Relational s) (h : D.Holds s entity r) :
    ∃ id a, r.id? = some id ∧ id.atom? = some a := by
  obtain ⟨id, hid⟩ := Option.isSome_iff_exists.1 (hcomplete.identified h)
  obtain ⟨a, ha⟩ := (hD.rows r h.1 h.2).atom_of_id hid
  exact ⟨id, a, hid, ha⟩

/-- A foreign key that is not null leads to a parent. -/
theorem Store.Referential.exists_parent (hD : D.Referential s)
    (h : D.Holds s entity r) {name key : String} {target : Entity}
    {optional : Bool}
    (hfield : s.field entity name = .belongsTo key target optional)
    (hnull : (r.getOrNull key).isNull = false) :
    ∃ p, D.parent? r key target.name = some p := by
  obtain ⟨relation, hmem, -, hkind, hfound, rfl, -⟩ :=
    Schema.exists_relation_of_belongsTo hfield
  have hparent : relation ∈ entity.parents :=
    List.mem_filter.2 ⟨hmem, beq_iff_eq.2 hkind⟩
  rw [Schema.entity?_name hfound]
  exact Option.isSome_iff_exists.1 (hD.refers h relation hparent hnull)

theorem Store.holds_of_parent? {p : Record} {key : String} {target : Entity}
    (htarget : s.entity? target.name = some target)
    (h : D.parent? r key target.name = some p) :
    D.Holds s target p :=
  Store.parent?_eq_some htarget h

theorem Store.holds_of_mem_children {child : Entity} {key : String}
    (hchild : s.entity? child.name = some child) {r' : Record}
    (h : r' ∈ D.children r child.name key) : D.Holds s child r' := by
  unfold Store.children at h
  split at h
  · cases h
  · obtain ⟨hmem, hname⟩ := List.mem_filter.1 (List.mem_filter.1 h).1
    exact ⟨hmem, Schema.entityOf?_eq_some_iff.2 ⟨beq_iff_eq.1 hname, hchild⟩⟩

namespace Store.Reaches

theorem isNull_eq (h : D.Reaches s v) : v.isNull = false := by
  cases h with
  | record => rfl
  | atom h => exact Value.isNull_of_atom h

theorem isList_eq (h : D.Reaches s v) : v.isList = false := by
  cases h with
  | record => rfl
  | atom h => exact Value.isList_of_atom h

/-- What stands for the value in a comparison is a scalar. -/
theorem identityOrSelf (hcomplete : D.Complete s) (hD : D.Relational s)
    (h : D.Reaches s v) :
    ∃ a, v.identityOrSelf.atom? = some a := by
  cases h with
  | record h =>
    obtain ⟨id, a, hid, ha⟩ := hcomplete.exists_id hD h
    rw [Record.identityOrSelf_of_id hid]
    exact ⟨a, ha⟩
  | atom h =>
    rw [Value.identityOrSelf_of_atom h]
    exact ⟨_, h⟩

/-- Two values are taken for one item only if they are one. -/
theorem sameItem_iff (hcomplete : D.Complete s) (hD : D.Relational s)
    (hv : D.Reaches s v) (hw : D.Reaches s w) :
    v.sameItem w = true ↔ v = w := by
  have hatom : ∀ {x y : Value} {a : Atom}, x.atom? = some a →
      x.sameItem y = x.same y := by
    intro x y a ha
    cases x <;> first | rfl | cases ha
  cases hv with
  | record hr =>
    obtain ⟨id, a, hid, ha⟩ := hcomplete.exists_id hD hr
    cases hw with
    | record hr' =>
      obtain ⟨id', a', hid', ha'⟩ := hcomplete.exists_id hD hr'
      simp only [Value.sameItem, hid, hid', Bool.and_eq_true, beq_iff_eq,
        Value.record.injEq]
      constructor
      · rintro ⟨hname, hagrees⟩
        have hdeclared : s.entityOf? _ = s.entityOf? _ :=
          congrArg (Option.bind · s.entity?) hname
        exact hD.unique _ hr.1 _ hr'.1 hr.2 (hdeclared ▸ hr.2) hid hid' hagrees
      · rintro rfl
        obtain rfl := Option.some.inj (hid.symm.trans hid')
        exact ⟨rfl, (Value.agrees_iff ha ha).2 rfl⟩
    | atom hw =>
      cases w <;> simp [Value.atom?, Value.sameItem, Value.same] at hw ⊢
  | atom hv =>
    rw [hatom hv]
    constructor
    · intro hsame
      rcases Value.cases_of_same hsame with
        rfl | ⟨_, _, rfl, -⟩ | ⟨_, _, rfl, -⟩ | ⟨_, _, rfl, -⟩
      · rfl
      all_goals cases hv
    · rintro rfl
      cases v <;> simp [Value.atom?, Value.same] at hv ⊢

end Store.Reaches

/-- A track leads to records and scalars. -/
theorem Track.NamedBy.ends_reach (hcomplete : D.Complete s)
    {names : List String} {track : Track} (h : NamedBy s entity names track)
    (hr : D.Holds s entity r) :
    ∀ x ∈ track.ends D r, D.Reaches s x := by
  induction h generalizing r with
  | here =>
    intro x hx
    rw [List.mem_singleton.1 hx]
    exact .record hr
  | @column _ _ columnName hfield =>
    intro x hx
    rw [Track.ends] at hx
    rcases hcomplete.getOrNull hr columnName with hnull | ⟨a, ha⟩
    · rw [hnull] at hx
      cases hx
    · rw [Value.toItems_of_single (Value.isNull_of_atom ha)
        (Value.isList_of_atom ha),
        List.mem_singleton] at hx
      rw [hx]
      exact .atom ha
  | parent hfield _ ih =>
    intro x hx
    obtain ⟨p, hp, hx⟩ := List.mem_flatMap.1 hx
    exact ih (Store.holds_of_parent? (Schema.field_eq_belongsTo hfield).2
      (Option.mem_toList.1 hp)) x hx
  | children hfield _ ih =>
    intro x hx
    obtain ⟨r', hr', hx⟩ := List.mem_flatMap.1 hx
    exact ih
      (Store.holds_of_mem_children (Schema.entity?_of_hasMany hfield) hr') x hx
  | self _ _ _ ih => exact ih hr

end

/-! ## Values with given items -/

/-- Among values that are taken for one item only if they are one, leaving out
repetitions does not change what is found. -/
theorem mem_addItems_iff {found items : List Value} {x : Value}
    (hdistinct : ItemsDistinct (found ++ items))
    (hself : ∀ v ∈ items, v.isNull = false ∧ v.sameItem v = true) :
    x ∈ addItems found items ↔ x ∈ found ∨ x ∈ items := by
  constructor
  · exact mem_of_mem_addItems
  · rintro (hfound | hitem)
    · exact subset_addItems found items hfound
    · obtain ⟨hnull, hsame⟩ := hself x hitem
      have hadded : ∃ w ∈ addItems found items, w.sameItem x = true :=
        exists_sameItem_of_mem hitem hnull hsame
      obtain ⟨w, hw, hwx⟩ := hadded
      have hmem : w ∈ found ++ items :=
        List.mem_append.2 (mem_of_mem_addItems hw)
      rwa [← hdistinct w hmem x (List.mem_append_right _ hitem) hwx]

/-- The value has the items, in any order, and is a list if there may be
many. -/
structure Value.Collects (v : Value) (items : List Value)
    (many : Bool) : Prop where
  mem_iff : ∀ x, x ∈ v.toItems ↔ x ∈ items
  isList_eq : v.isNull = false → v.isList = many

/-! ## Following a track -/

namespace Evaluator

variable {ev : Evaluator Store} {loader : Loader Store} {D : Store}
  {actor : Value} {entity : Entity} {r : Record}

/-- Sessions whose cache agrees with the store. -/
abbrev Fresh (ev : Evaluator Store) (D : Store) (actor : Value) :
    Session Store → Prop :=
  Coherent ev D.Serves D.reply (D.Known ev.schema actor)

/-- The children of a stored record are the records whose key leads to it. -/
theorem fieldValue_hasMany (hD : D.Relational ev.schema)
    (hsteady : ev.Steady loader D.Serves D.reply (D.Known ev.schema actor))
    (hr : D.Holds ev.schema entity r) {name inverse key : String}
    {child : Entity}
    (hfield : ev.schema.field entity name = .hasMany child inverse key) :
    Yields (ev.Fresh D actor) (ev.fieldValue r name)
      (.list ((D.children r child.name key).map .record)) := by
  obtain ⟨hmem, hentity⟩ := hr
  have hrelation : (ev.schema.field entity name).isRelation = true := by
    rw [hfield]
    rfl
  have hknown : D.Known ev.schema actor r :=
    .inl ⟨hmem, by rw [hentity, Option.isSome_some]⟩
  have hvalue := fieldValue_yields_reply hsteady hknown hentity
    ((hD.rows r hmem hentity).get?_of_relation hrelation) hrelation
  rw [hfield] at hvalue
  exact hvalue

/-- From a stored record of the entity, the computation comes to a value with
the ends of the track; from several, to the list of the ends of all of them. -/
structure Covers (ev : Evaluator Store) (D : Store) (actor : Value)
    (entity : Entity) (track : Track)
    (k : Value → EvalM Store Value) : Prop where
  null : k .null = pure .null
  record : ∀ r, D.Holds ev.schema entity r →
    ∃ v, Yields (ev.Fresh D actor) (k (.record r)) v ∧
      v.Collects (track.ends D r) track.toMany
  list : ∀ rs : List Record, (∀ r ∈ rs, D.Holds ev.schema entity r) →
    ∃ items, Yields (ev.Fresh D actor) (k (.list (rs.map .record)))
      (.list items) ∧
      ∀ x, x ∈ items ↔ x ∈ rs.flatMap (track.ends D)

theorem covers_pure : ev.Covers D actor entity .here pure where
  null := rfl
  record r _ := ⟨.record r, .pure _, fun _ => .rfl, fun _ => rfl⟩
  list rs _ := by
    refine ⟨rs.map .record, .pure _, fun x => ?_⟩
    simp [Track.ends, List.mem_flatMap, eq_comm]

section

variable {track : Track} {k : Value → EvalM Store Value}
  (hcomplete : D.Complete ev.schema) (hD : D.Relational ev.schema)
  (hends : ∀ r, D.Holds ev.schema entity r → ∀ x ∈ track.ends D r,
    D.Reaches ev.schema x)
  (hrecord : ∀ r, D.Holds ev.schema entity r → ∃ v,
    Yields (ev.Fresh D actor) (k (.record r)) v ∧
      v.Collects (track.ends D r) track.toMany)

include hcomplete hD hends hrecord

/-- What is found from several records is added to what has been found
before. -/
theorem fanOutItems_yields : ∀ (rs : List Record) (found : List Value),
    (∀ r ∈ rs, D.Holds ev.schema entity r) →
      (∀ x ∈ found, D.Reaches ev.schema x) →
      ∃ all, Yields (ev.Fresh D actor)
        (fanOutItems k found (rs.map .record)) all ∧
        ∀ x, x ∈ all ↔ x ∈ found ∨ x ∈ rs.flatMap (track.ends D)
  | [], found, _, _ => by
    refine ⟨found, ?_, fun x => by simp⟩
    unfold fanOutItems
    exact .pure found
  | r :: rs, found, hrs, hfound => by
    rw [List.forall_mem_cons] at hrs
    obtain ⟨hr, hrs⟩ := hrs
    obtain ⟨v, hv, hcollects⟩ := hrecord r hr
    have hitems : ∀ x ∈ v.toItems, D.Reaches ev.schema x := by
      intro x hx
      exact hends r hr x ((hcollects.mem_iff x).1 hx)
    have hreach : ∀ x ∈ found ++ v.toItems, D.Reaches ev.schema x :=
      List.forall_mem_append.2 ⟨hfound, hitems⟩
    have hdistinct : ItemsDistinct (found ++ v.toItems) := by
      intro x hx y hy hsame
      exact ((hreach x hx).sameItem_iff hcomplete hD (hreach y hy)).1 hsame
    have hself : ∀ x ∈ v.toItems, x.isNull = false ∧ x.sameItem x = true := by
      intro x hx
      exact ⟨(hitems x hx).isNull_eq,
        ((hitems x hx).sameItem_iff hcomplete hD (hitems x hx)).2 rfl⟩
    have hmem : ∀ x, x ∈ gather found v ↔ x ∈ found ∨ x ∈ track.ends D r := by
      intro x
      rw [gather_eq, mem_addItems_iff hdistinct hself, hcollects.mem_iff]
    have hgathered : ∀ x ∈ gather found v, D.Reaches ev.schema x := by
      intro x hx
      exact ((hmem x).1 hx).elim (hfound x) (hends r hr x)
    obtain ⟨all, hall, hiff⟩ :=
      fanOutItems_yields rs (gather found v) hrs hgathered
    refine ⟨all, ?_, fun x => ?_⟩
    · unfold fanOutItems
      rw [List.map_cons]
      dsimp only
      rw [fanOut_record]
      exact hv.bind hall
    · rw [hiff, hmem, List.flatMap_cons, List.mem_append, or_assoc]

theorem covers_fanOut : ev.Covers D actor entity track (fanOut k) where
  null := fanOut_null k
  record r hr := by
    rw [fanOut_record]
    exact hrecord r hr
  list rs hrs := by
    obtain ⟨all, hall, hiff⟩ :=
      fanOutItems_yields hcomplete hD hends hrecord rs [] hrs
        fun _ hx => nomatch hx
    refine ⟨all, ?_, fun x => ?_⟩
    · unfold fanOut
      exact hall.bind (.pure _)
    · rw [hiff, or_iff_right List.not_mem_nil]

end

/-- One field after the other, the names lead along the track. -/
theorem onPath_covers (hcomplete : D.Complete ev.schema)
    (hD : D.Relational ev.schema)
    (hsteady : ev.Steady loader D.Serves D.reply (D.Known ev.schema actor))
    {names : List String} {track : Track}
    (h : track.NamedBy ev.schema entity names) :
    ev.Covers D actor entity track
      (ev.onPath (names.map .plain) .done).follow := by
  induction h with
  | here => exact covers_pure
  | @column entity name columnName hfield =>
    refine covers_fanOut hcomplete hD
      (fun r hr => (Track.NamedBy.column hfield).ends_reach hcomplete hr)
      fun r hr => ⟨r.getOrNull columnName, ?_, fun _ => .rfl, fun hnull => ?_⟩
    · show Yields _ (ev.fieldValue r name >>= pure) _
      rw [fieldValue_column hD hr.1 hr.2 hfield]
      exact (Yields.pure (r.getOrNull columnName)).bind (.pure _)
    · rcases hcomplete.getOrNull hr columnName with heq | ⟨a, ha⟩
      · rw [heq] at hnull
        cases hnull
      · exact Value.isList_of_atom ha
  | @parent entity name key target optional names rest hfield hrest ih =>
    refine covers_fanOut hcomplete hD
      (fun r hr => (Track.NamedBy.parent hfield hrest).ends_reach hcomplete hr)
      fun r hr => ?_
    have hvalue := fieldValue_belongsTo hD hsteady hr.1 hr.2 hfield
    rw [Store.parent_eq] at hvalue
    cases hparent : D.parent? r key target.name with
    | none =>
      rw [hparent] at hvalue
      refine ⟨.null, hvalue.bind ?_, fun x => ?_, fun hnull => nomatch hnull⟩
      · rw [Option.elim_none, ih.null]
        exact .pure _
      · rw [Track.ends, hparent]
        rfl
    | some p =>
      rw [hparent] at hvalue
      have htarget := (Schema.field_eq_belongsTo hfield).2
      obtain ⟨v, hv, hcollects⟩ :=
        ih.record p (Store.holds_of_parent? htarget hparent)
      have hends : (Track.parent key target rest).ends D r = rest.ends D p := by
        rw [Track.ends, hparent, Option.toList_some, List.flatMap_singleton]
      refine ⟨v, hvalue.bind hv, ?_⟩
      rw [hends]
      exact hcollects
  | @children entity name child inverse key names rest hfield hrest ih =>
    refine covers_fanOut hcomplete hD
      (fun r hr =>
        (Track.NamedBy.children hfield hrest).ends_reach hcomplete hr)
      fun r hr => ?_
    have hvalue := fieldValue_hasMany hD hsteady hr hfield
    obtain ⟨items, hitems, hiff⟩ := ih.list (D.children r child.name key)
      fun r' hr' =>
      Store.holds_of_mem_children (Schema.entity?_of_hasMany hfield) hr'
    exact ⟨.list items, hvalue.bind hitems, hiff, fun _ => rfl⟩
  | @self entity name names track hfield hname hrest ih =>
    refine covers_fanOut hcomplete hD
      (fun r hr => hrest.ends_reach hcomplete hr) fun r hr => ?_
    obtain ⟨v, hv, hcollects⟩ := ih.record r hr
    refine ⟨v, ?_, hcollects⟩
    show Yields _ (ev.fieldValue r name >>= _) _
    rw [fieldValue_unknown hr.2 hfield hname]
    exact (Yields.pure (Value.record r)).bind hv

/-- A path of names leads from a stored record to the ends of its track. -/
theorem evaluate_track (hcomplete : D.Complete ev.schema)
    (hD : D.Relational ev.schema)
    (hsteady : ev.Steady loader D.Serves D.reply (D.Known ev.schema actor))
    {names : List String} {track : Track}
    (h : track.NamedBy ev.schema entity names)
    (hr : D.Holds ev.schema entity r) :
    ∃ v, Yields (ev.Fresh D actor)
      (ev.evaluate (names.map .plain) (.record r)) v ∧
      v.Collects (track.ends D r) track.toMany :=
  (onPath_covers hcomplete hD hsteady h).record r hr

end Evaluator

end RowGuard
