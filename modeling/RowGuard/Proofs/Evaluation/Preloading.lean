import RowGuard.Proofs.Evaluation.Tracks
import RowGuard.Proofs.Schema.Lookup

/-!
# Relations that a record already holds

A relation that has been loaded may be set in the record: reading it then needs
neither the foreign key nor the cache nor a load.  It comes to the same, and so
does every path that goes on from there, also if it comes back to the record in
the store, which does not hold the relation.

* `Store.Plain`: records are told apart by their identities, and hold columns
  only, none of them called like a relation.
* `Evaluator.fieldValue_set`: a relation that is set is read as it is.
* `Evaluator.evaluate_preloaded`: on such a store, setting a relation changes no
  result.
-/

namespace RowGuard

/-! ## Fields that are set -/

namespace Record

theorem lookup_setField (name : String) (value : Value)
    (fields : List (String × Value)) :
    (setField name value fields).lookup name = some value := by
  induction fields with
  | nil => rw [setField, List.lookup_cons_self]
  | cons field fields ih =>
    obtain ⟨other, held⟩ := field
    rw [setField]
    split
    · exact List.lookup_cons_self
    · next hother =>
      have hname : (name == other) = false :=
        beq_eq_false_iff_ne.2 fun h => hother (beq_iff_eq.2 h.symm)
      rw [List.lookup_cons, hname]
      exact ih

theorem get?_set (r : Record) (name : String) (value : Value) :
    (r.set name value).get? name = some value :=
  lookup_setField name value r.fields

theorem mem_setField {name : String} {value : Value}
    {fields : List (String × Value)} {field : String × Value}
    (h : field ∈ setField name value fields) :
    field = (name, value) ∨ field ∈ fields := by
  induction fields with
  | nil => exact .inl (List.mem_singleton.1 h)
  | cons first fields ih =>
    rw [setField] at h
    split at h
    · exact (List.mem_cons.1 h).imp_right (List.mem_cons_of_mem first)
    · rcases List.mem_cons.1 h with rfl | h
      · exact .inr (.head _)
      · exact (ih h).imp_right (List.mem_cons_of_mem first)

theorem lookup_setField_of_ne {name other : String} (h : other ≠ name)
    (value : Value) (fields : List (String × Value)) :
    (setField name value fields).lookup other = fields.lookup other := by
  have hother : (other == name) = false := beq_eq_false_iff_ne.2 h
  induction fields with
  | nil => rw [setField, List.lookup_cons, hother]
  | cons field fields ih =>
    rw [setField]
    split
    · next hname =>
        rw [List.lookup_cons, List.lookup_cons, hother,
          beq_iff_eq.1 hname, hother]
    · rw [List.lookup_cons, List.lookup_cons, ih]

theorem get?_set_of_ne (r : Record) {name other : String} (h : other ≠ name)
    (value : Value) :
    (r.set name value).get? other = r.get? other :=
  lookup_setField_of_ne h value r.fields

end Record

/-! ## Plain stores -/

/-- Records of declared entities have identities, and are told apart by them. -/
structure Store.Identified (s : Schema) (D : Store) : Prop where
  identified : ∀ {entity r}, D.Holds s entity r → r.id?.isSome = true
  unique : ∀ {entity r r'}, D.Holds s entity r → D.Holds s entity r' →
    ∀ {id id'}, r.id? = some id → r'.id? = some id' →
    id.agrees id' = true → r = r'

/-- No load fails.  The records of declared entities have identities and hold
scalars that are no doubles, none of them under the name of a relation. -/
structure Store.Plain (s : Schema) (D : Store) :
    Prop extends D.Identified s where
  intact : D.failing = []
  exact : ∀ {entity r}, D.Holds s entity r →
    ∀ field ∈ r.fields, field.2.isNull = true ∨ field.2.atom?.isSome = true
  bare : ∀ {entity r}, D.Holds s entity r → ∀ relation ∈ entity.relations,
    r.get? relation.name = none

namespace Store.Plain

variable {s : Schema} {D : Store} {entity : Entity} {r : Record}

theorem atom_of_id (hD : D.Plain s) (hr : D.Holds s entity r) {id : Value}
    (hid : r.id? = some id) : ∃ a, id.atom? = some a := by
  have hget : r.get? identityField = some id :=
    (Option.filter_eq_some_iff.1 hid).1
  rcases hD.exact hr _ (Evaluator.mem_fields_of_get? hget) with hnull | hatom
  · exact absurd hnull (by simp [Record.isNull_of_id hid])
  · exact Option.isSome_iff_exists.1 hatom

theorem flat (hD : D.Plain s) : D.Flat s where
  scalars r hr _ hentity field hfield := by
    refine (hD.exact ⟨hr, hentity⟩ field hfield).imp_right fun hatom => ?_
    cases hv : field.2 <;> simp [hv, Value.atom?, Value.isScalar] at hatom ⊢
  keyed r hr r' hr' entity hentity hentity' id id' hid hid' htext := by
    obtain ⟨a, ha⟩ := hD.atom_of_id ⟨hr, hentity⟩ hid
    obtain ⟨a', ha'⟩ := hD.atom_of_id ⟨hr', hentity'⟩ hid'
    have hagrees :=
      (Value.agrees_iff ha ha').2 ((identityText_eq_iff ha ha').1 htext)
    exact hD.unique ⟨hr, hentity⟩ ⟨hr', hentity'⟩ hid hid' hagrees

end Store.Plain

/-! ## Reading a relation that is set -/

namespace Evaluator

/-- A relation that is set to the answer of a store is read as it is. -/
theorem fieldValue_set {σ : Type} (ev : Evaluator σ) {r : Record}
    {entity : Entity} (hentity : ev.schema.entityOf? r = some entity)
    {name : String}
    (hrelation : (ev.schema.field entity name).isRelation = true) (D : Store) :
    ev.fieldValue (r.set name (D.reply r name (ev.schema.field entity name)))
      name = pure (D.reply r name (ev.schema.field entity name)) := by
  have hset (v : Value) : ev.schema.entityOf? (r.set name v) = some entity :=
    hentity
  cases hfield : ev.schema.field entity name with
  | belongsTo key target optional =>
    rw [fieldValue_of_belongsTo (hset _) hfield, parent, Record.get?_set]
  | hasMany target inverse key =>
    rw [fieldValue_of_hasMany (hset _) hfield, children, Record.get?_set,
      Store.reply]
    simp only [pure_bind, Value.toItems, Value.filter_map_record]
  | column | unknown => simp [hfield, Field.isRelation] at hrelation

/-- Let a relation of a stored record be set to what is loaded for it.  From the
new record every path through the relation comes to the value to which it comes
from the stored one, each without limits and with an empty cache. -/
theorem evaluate_preloaded {ev : Evaluator Store} {elapsed : Nat}
    (hloader : ev.loader = some (Store.loader elapsed))
    (hbudget : ev.budget = .unlimited) {D : Store} (hD : D.Plain ev.schema)
    {entity : Entity} {r : Record} (hr : D.Holds ev.schema entity r)
    {relation : Relation} (h : relation ∈ entity.relations)
    (aliasName : Option String) (rest : Path) :
    ∃ held w t t',
      D.answer r relation.name (ev.schema.field entity relation.name) =
        .ok held ∧
      Returns (ev.evaluate (.field relation.name aliasName :: rest)
        (.record (r.set relation.name held))) (.start D) w t ∧
      Returns (ev.evaluate (.field relation.name aliasName :: rest) (.record r))
        (.start D) w t' := by
  have hdeclared := Schema.entity?_mem (Schema.entityOf?_eq_some_iff.1 hr.2).2
  have hrelation := Schema.isRelation_field hdeclared h
  have hserves : D.Serves D := ⟨rfl, hD.intact⟩
  have hfamiliar : D.Familiar ev.schema .null :=
    fun r hr => by simp [Value.records] at hr
  have hsteady := hD.flat.steady hfamiliar rfl hloader hbudget
  have hknown : D.Known ev.schema .null r :=
    .inl ⟨hr.1, by rw [hr.2, Option.isSome_some]⟩
  have hover : (D.reply r relation.name
      (ev.schema.field entity relation.name)).Over
      (D.Known ev.schema .null) := hD.flat.over_reply r entity relation.name
  -- whatever the cache has become, the rest of the path has one value from what
  -- is loaded
  obtain ⟨w, -, hrest⟩ := evaluate_total hsteady rest _ hover
  have hstored := (fieldValue_yields_reply hsteady hknown hr.2
    (hD.bare hr relation h) hrelation).bind hrest
  have hset := (Yields.pure _).bind hrest
  rw [← ev.fieldValue_set hr.2 hrelation D, ← ev.evaluate_field _ aliasName]
    at hset
  rw [← ev.evaluate_field _ aliasName] at hstored
  obtain ⟨t, ht, -⟩ := hset _ (.start hserves)
  obtain ⟨t', ht', -⟩ := hstored _ (.start hserves)
  exact ⟨_, w, t, t', hserves.answer_eq hrelation, ht, ht'⟩

end Evaluator

/-! ## A ship and its captain -/

namespace Fleet

/-- A sailor serves on a ship. -/
def sailor : Entity :=
  { Entity.new "sailor" with relations := [.parent "ship" "ship"] }

/-- A ship has a captain. -/
def ship : Entity :=
  { Entity.new "ship" with relations := [.parent "captain" "sailor"] }

def evaluator : Evaluator Store where
  schema :=
    { entities := [sailor, ship]
      names_nodup := by decide
      targets_declared := by decide }
  loader := some (Store.loader 0)
  budget := .unlimited

def ahab : Record := ⟨some "sailor", [("id", .int64 1), ("ship_id", .int64 7)]⟩

def pequod : Record :=
  ⟨some "ship", [("id", .int64 7), ("captain_id", .int64 1)]⟩

def store : Store := ⟨[ahab, pequod], [], 0⟩

theorem holds_cases {entity : Entity} {r : Record}
    (h : store.Holds evaluator.schema entity r) :
    entity = sailor ∧ r = ahab ∨ entity = ship ∧ r = pequod := by
  obtain ⟨hmem, hentity⟩ := h
  have hmem : r = ahab ∨ r = pequod := by simpa [store] using hmem
  rcases hmem with rfl | rfl
  · exact .inl ⟨(Option.some.inj hentity).symm, rfl⟩
  · exact .inr ⟨(Option.some.inj hentity).symm, rfl⟩

theorem store_plain : store.Plain evaluator.schema where
  intact := rfl
  exact h := by rcases holds_cases h with ⟨-, rfl⟩ | ⟨-, rfl⟩ <;> decide
  bare h := by rcases holds_cases h with ⟨rfl, rfl⟩ | ⟨rfl, rfl⟩ <;> decide
  identified h := by rcases holds_cases h with ⟨-, rfl⟩ | ⟨-, rfl⟩ <;> rfl
  unique h h' _ _ _ _ _ := by
    rcases holds_cases h with ⟨rfl, rfl⟩ | ⟨rfl, rfl⟩ <;>
      rcases holds_cases h' with ⟨hentity, rfl⟩ | ⟨hentity, rfl⟩
    · rfl
    · exact absurd hentity (by decide)
    · exact absurd hentity (by decide)
    · rfl

end Fleet

open Fleet in
/-- The path comes back to the captain of the ship in the store. -/
theorem Evaluator.evaluate_preloaded_captain :
    evaluator.loader = some (Store.loader 0) ∧ evaluator.budget = .unlimited ∧
      store.Plain evaluator.schema ∧ store.Holds evaluator.schema ship pequod ∧
      Relation.parent "captain" "sailor" ∈ ship.relations ∧
      ∃ held w t t', store.answer pequod "captain"
        (evaluator.schema.field ship "captain") =
          .ok held ∧
        Returns (evaluator.evaluate (.ofNames ["captain", "ship", "captain"])
          (.record (pequod.set "captain" held))) (.start store) w t ∧
        Returns (evaluator.evaluate (.ofNames ["captain", "ship", "captain"])
          (.record pequod)) (.start store) w t' :=
  have hholds : store.Holds evaluator.schema ship pequod :=
    ⟨by simp [store], rfl⟩
  ⟨rfl, rfl, store_plain, hholds, .head _,
    evaluate_preloaded rfl rfl store_plain hholds (.head _) none
      (.ofNames ["ship", "captain"])⟩

end RowGuard
