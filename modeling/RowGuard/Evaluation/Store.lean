import RowGuard.Evaluation.Session

/-!
# Records in memory

A `Store` keeps records and answers loads from them: a parent is the first
record whose identity agrees with the foreign key, and the children are all the
records whose foreign key agrees with the identity, in the order of their
insertion.
-/

namespace RowGuard

/-- Records in the order of their insertion, all of them instances; the
relations whose loads fail; and the number of loads served. -/
structure Store where
  contents : List Record
  failing : List (String × String)
  served : Nat

namespace Store

/-- A store without records. -/
def empty : Store := ⟨[], [], 0⟩

/-- Adds a record. A plain map belongs to no entity and is left out. -/
def insert (s : Store) (r : Record) : Store :=
  if r.entity.isSome then { s with contents := s.contents ++ [r] } else s

/-- Lets loads of a relation fail. -/
def failOn (s : Store) (entity relation : String) : Store :=
  { s with failing := (entity, relation) :: s.failing }

/-- The records of an entity. -/
def records (s : Store) (entity : String) : List Record :=
  s.contents.filter (·.entity == some entity)

/-- The first record of an entity whose identity agrees with `id`. -/
def find? (s : Store) (entity : String) (id : Value) : Option Record :=
  (s.records entity).find? fun r => r.id?.any (·.agrees id)

/-- The parent that a foreign key leads to, or null. -/
def parent (s : Store) (owner : Record) (key : String)
    (target : String) : Value :=
  match (owner.get? key).filter (!·.isNull) with
  | some value => (s.find? target value).elim .null .record
  | none => .null

/-- The records whose foreign key leads to the owner. -/
def children (s : Store) (owner : Record) (target : String) (key : String) :
    List Record :=
  match owner.id? with
  | none => []
  | some id => (s.records target).filter fun r => (r.get? key).any (·.agrees id)

/-- The answer to a load. -/
def answer (s : Store) (owner : Record) (relation : String) (field : Field) :
    Except LoadError Value :=
  let entity := owner.entity.getD ""
  if s.failing.contains (entity, relation) then
    .error ⟨entity, relation, "simulated storage failure"⟩
  else
    match field with
    | .belongsTo column target _ => .ok (s.parent owner column target.name)
    | .hasMany target _ key =>
      .ok (.list ((s.children owner target.name key).map .record))
    | .column _ | .unknown => .error ⟨entity, relation, "not a relation"⟩

/-- The store as a storage that counts its loads and in which `elapsed`
nanoseconds of the session have passed. -/
def loader (elapsed : Nat) : Loader Store where
  load s owner relation field :=
    (s.answer owner relation field, { s with served := s.served + 1 })
  elapsed _ := elapsed

end Store

end RowGuard
