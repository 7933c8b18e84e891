import RowGuard.Schema.Entity

/-!
# Schemas

A `Schema` is a list of entities with distinct names whose relations lead to
entities of the list. `Schema.ofEntities` accepts exactly such lists.
`Schema.field` tells what a name means on an entity.
-/

namespace RowGuard

/-- What is wrong with a list of entities, or with a look-up in a schema. -/
inductive SchemaError where
  | duplicateEntity (name : String)
  | unknownTarget (entity relation target : String)
  | unknownEntity (name : String)
deriving DecidableEq, Repr

/-- The text of the error. -/
def SchemaError.message : SchemaError → String
  | .duplicateEntity name => "duplicate entity: " ++ name
  | .unknownTarget entity relation target =>
    "relation " ++ entity ++ "." ++ relation ++
      " targets unknown entity " ++ target
  | .unknownEntity name => "unknown entity: " ++ name

/-- The first of the names that stands in `seen` or repeats an earlier one. -/
def firstRepeat? (seen : List String) : List String → Option String
  | [] => none
  | name :: names =>
    if name ∈ seen then some name else firstRepeat? (name :: seen) names

theorem firstRepeat?_eq_none_iff {seen names : List String} :
    firstRepeat? seen names = none ↔
      names.Nodup ∧ ∀ name ∈ names, name ∉ seen := by
  induction names generalizing seen with
  | nil => simp [firstRepeat?]
  | cons name names ih =>
    simp only [firstRepeat?]
    split
    · simp_all
    · next unseen =>
      rw [ih, List.nodup_cons, List.forall_mem_cons]
      constructor
      · rintro ⟨distinct, fresh⟩
        refine ⟨⟨fun repeated => fresh name repeated (.head _), distinct⟩,
          unseen, ?_⟩
        exact fun other member => fun old => fresh other member (.tail _ old)
      · rintro ⟨⟨once, distinct⟩, _, fresh⟩
        refine ⟨distinct, fun other member old => ?_⟩
        rcases List.mem_cons.1 old with same | old
        · exact once (same ▸ member)
        · exact fresh other member old

/-- The first relation of the entities whose target is not among `names`. -/
def firstDangling? (names : List String) (entities : List Entity) :
    Option (Entity × Relation) :=
  entities.findSome? fun entity =>
    (entity.relations.find? fun relation => !names.contains relation.target).map
      fun relation => (entity, relation)

theorem firstDangling?_eq_none_iff {names : List String}
    {entities : List Entity} :
    firstDangling? names entities = none ↔
      ∀ entity ∈ entities, ∀ relation ∈ entity.relations,
        relation.target ∈ names := by
  simp [firstDangling?, List.findSome?_eq_none_iff, List.find?_eq_none]

/-- Entities with distinct names that refer to each other only. -/
structure Schema where
  entities : List Entity
  names_nodup : (entities.map (·.name)).Nodup
  targets_declared :
    ∀ entity ∈ entities, ∀ relation ∈ entity.relations,
      relation.target ∈ entities.map (·.name)

namespace Schema

/-- The schema of a list of entities. Of two faults a repeated name is reported,
at its second place; then the first relation without a target. -/
def ofEntities (entities : List Entity) : Except SchemaError Schema :=
  match repeated : firstRepeat? [] (entities.map (·.name)) with
  | some name => .error (.duplicateEntity name)
  | none =>
    match dangling : firstDangling? (entities.map (·.name)) entities with
    | some (entity, relation) =>
      .error (.unknownTarget entity.name relation.name relation.target)
    | none =>
      .ok
        { entities
          names_nodup := (firstRepeat?_eq_none_iff.1 repeated).1
          targets_declared := firstDangling?_eq_none_iff.1 dangling }

/-- The entity of a name. -/
def entity? (s : Schema) (name : String) : Option Entity :=
  s.entities.find? (·.name == name)

theorem entity?_name {s : Schema} {name : String} {entity : Entity}
    (h : s.entity? name = some entity) : entity.name = name := by
  simpa using List.find?_some h

/-- What is found under a name is in the schema. -/
theorem entity?_mem {s : Schema} {name : String} {entity : Entity}
    (h : s.entity? name = some entity) : entity ∈ s.entities :=
  List.mem_of_find?_eq_some h

/-- The entity of a name, or the error that there is none. -/
def require (s : Schema) (name : String) : Except SchemaError Entity :=
  match s.entity? name with
  | some entity => .ok entity
  | none => .error (.unknownEntity name)

end Schema

/-- What a name means on an entity. -/
inductive Field where
  | column (name : String)
  | belongsTo (column : String) (target : Entity) (optional : Bool)
  | hasMany (target : Entity) (inverse foreignKey : String)
  | unknown
deriving DecidableEq, Repr

/-- Whether the field leads to other rows. -/
def Field.isRelation : Field → Bool
  | .belongsTo .. | .hasMany .. => true
  | .column _ | .unknown => false

/-- The column of the children that holds the key of an entity's row: that of
the relation `inverse` if it leads to a parent, else the default for the
entity. -/
def Entity.childKey (owner target : Entity) (inverse : String) : String :=
  match target.relation? inverse with
  | some back =>
    if back.kind = .belongsTo then back.foreignKey
      else Relation.defaultKey owner.name
  | none => Relation.defaultKey owner.name

/-- What a relation of `entity` to `target` means. -/
def Relation.field (entity target : Entity) (relation : Relation) : Field :=
  match relation.kind with
  | .belongsTo => .belongsTo relation.foreignKey target relation.optional
  | .hasMany =>
    let inverse := relation.inverse.getD entity.name
    .hasMany target inverse (entity.childKey target inverse)

/-- What a name means on an entity: a relation first, then an attribute, then
the identity. -/
def Schema.field (s : Schema) (entity : Entity) (name : String) : Field :=
  match entity.relation? name with
  | some relation =>
    match s.entity? relation.target with
    | some target => relation.field entity target
    | none => .unknown
  | none =>
    match entity.attribute? name with
    | some found => .column found.columnName
    | none =>
      if name = entity.identity then .column entity.identity else .unknown

end RowGuard
