import RowGuard.Proofs.Evaluation.Tracks
import RowGuard.Proofs.Graph.Ancestry

/-!
# Children and their parents

A relation to children names the relation by which the children lead back.  One
load scans for equal foreign keys, the other takes the first record with an
equal identity.  In a store whose identities tell the records apart they are
inverse to each other: the children of a record are the records whose parent it
is (`Store.answer_inverse`).

Both loads compare scalars, so both come down to one equation between atoms:
that of the foreign key of the child and the identity of the parent
(`Store.Linked.mem_children_iff` and `Store.Linked.parent_eq_record_iff`).
-/

namespace RowGuard

/-! ## Relations that lead back -/

/-- `children` leads from the owner to rows of the target, and `back`, which it
names, is a relation of the target to the owner. -/
structure Schema.Mutual (s : Schema) (owner target : Entity)
    (children back : Relation) : Prop where
  owner_mem : owner ∈ s.entities
  target_mem : target ∈ s.entities
  children_mem : children ∈ owner.relations
  children_kind : children.kind = .hasMany
  children_target : children.target = target.name
  inverse_eq : children.inverse.getD owner.name = back.name
  back_mem : back ∈ target.parents
  back_target : back.target = owner.name

namespace Schema.Mutual

variable {s : Schema} {owner target : Entity} {children back : Relation}

/-- The children are found by the foreign key of the relation that leads
back. -/
theorem field_children (h : s.Mutual owner target children back)
    (hdistinct : s.FieldsDistinct) :
    s.field owner children.name =
      .hasMany target back.name back.foreignKey := by
  obtain ⟨hmem, hkind⟩ := Entity.mem_parents_iff.1 h.back_mem
  have hchildren : owner.relation? children.name = some children :=
    Entity.relation?_of_mem (hdistinct owner h.owner_mem) h.children_mem
  have hback : target.relation? back.name = some back :=
    Entity.relation?_of_mem (hdistinct target h.target_mem) hmem
  have htarget : s.entity? children.target = some target := by
    rw [h.children_target]
    exact entity?_of_mem h.target_mem
  simp only [field, hchildren, htarget, Relation.field, h.children_kind,
    h.inverse_eq, Entity.childKey, hback, hkind, if_true]

theorem field_back (h : s.Mutual owner target children back)
    (hdistinct : s.FieldsDistinct) :
    s.field target back.name =
      .belongsTo back.foreignKey owner back.optional := by
  refine field_of_parent (hdistinct target h.target_mem) h.back_mem ?_
  rw [h.back_target]
  exact entity?_of_mem h.owner_mem

end Schema.Mutual

/-! ## Stores with identities -/

/-- The identity of a record, whatever the width of an integer, if it is a
scalar and no double. -/
def Record.idAtom? (r : Record) : Option Atom := r.id?.bind Value.atom?

/-- Identities tell the records of an entity apart, and foreign keys may be
null.  Both are scalars and no doubles.  No load fails. -/
structure Store.Linked (s : Schema) (D : Store) : Prop where
  intact : D.failing = []
  identified : ∀ {entity r}, D.Holds s entity r → r.idAtom?.isSome = true
  unique : ∀ entity ∈ s.entities,
    ((D.records entity.name).map Record.idAtom?).Nodup
  keys : ∀ {entity r}, D.Holds s entity r → ∀ relation ∈ entity.parents,
    (r.getOrNull relation.foreignKey).isNull = true ∨
      (r.getOrNull relation.foreignKey).atom?.isSome = true

section

variable {s : Schema} {D : Store} {entity : Entity} {r p c : Record}
  {v : Value} {a : Atom}

theorem Store.mem_records_iff (hentity : entity ∈ s.entities) :
    r ∈ D.records entity.name ↔ D.Holds s entity r := by
  rw [Store.records, List.mem_filter, beq_iff_eq, Store.Holds,
    Schema.entityOf?_eq_some_iff, and_iff_left (Schema.entity?_of_mem hentity)]

theorem Value.atom?_of_isNull (h : v.isNull = true) : v.atom? = none := by
  rw [Value.eq_null_of_isNull h, Value.atom?]

/-- The field of a record agrees with a scalar if both are one atom, and not if
it is null. -/
theorem Record.any_get?_agrees_atom_iff {key : String}
    (hkey : (r.getOrNull key).isNull = true ∨
      (r.getOrNull key).atom?.isSome = true)
    (hv : v.atom? = some a) :
    (r.get? key).any (·.agrees v) = true ↔
      (r.getOrNull key).atom? = some a := by
  cases hget : r.get? key with
  | none => simp [Record.getOrNull, hget, Value.atom?]
  | some w =>
    rw [Record.getOrNull_of_get? hget] at hkey ⊢
    rw [Option.any_some]
    rcases hkey with hnull | hatom
    · obtain rfl := Value.eq_null_of_isNull hnull
      simp [Value.agrees, Value.identityOrSelf_of_atom hv,
        Value.null_atomsEqual hv, Value.atom?]
    · obtain ⟨b, hb⟩ := Option.isSome_iff_exists.1 hatom
      rw [Value.agrees_iff hb hv, hb, Option.some.injEq]

theorem Record.any_id?_agrees_atom_iff (hid : r.idAtom?.isSome = true)
    (hv : v.atom? = some a) :
    r.id?.any (·.agrees v) = true ↔ r.idAtom? = some a := by
  obtain ⟨b, hb⟩ := Option.isSome_iff_exists.1 hid
  obtain ⟨id, hidentity, hatom⟩ := Option.bind_eq_some_iff.1 hb
  rw [hidentity, Option.any_some, Value.agrees_iff hatom hv, hb,
    Option.some.injEq]

namespace Store.Linked

variable {key : String}

/-- A record is found by the atom of its identity. -/
theorem find?_eq_some_iff (hD : D.Linked s) (hentity : entity ∈ s.entities)
    (hv : v.atom? = some a) :
    D.find? entity.name v = some p ↔
      D.Holds s entity p ∧ p.idAtom? = some a := by
  have hfound : ∀ {r}, D.find? entity.name v = some r →
      r ∈ D.records entity.name ∧ r.idAtom? = some a := by
    intro r hfind
    obtain ⟨hmem, hname, hagrees⟩ := Store.find?_eq_some hfind
    have hr : r ∈ D.records entity.name :=
      List.mem_filter.2 ⟨hmem, beq_iff_eq.2 hname⟩
    have hid := hD.identified ((Store.mem_records_iff hentity).1 hr)
    exact ⟨hr, (Record.any_id?_agrees_atom_iff hid hv).1 hagrees⟩
  rw [← Store.mem_records_iff hentity]
  refine ⟨hfound, fun ⟨hp, hatom⟩ => ?_⟩
  cases hfind : D.find? entity.name v with
  | none =>
    have hid := hD.identified ((Store.mem_records_iff hentity).1 hp)
    rw [Store.find?, List.find?_eq_none] at hfind
    exact absurd ((Record.any_id?_agrees_atom_iff hid hv).2 hatom) (hfind p hp)
  | some q =>
    obtain ⟨hq, hatom'⟩ := hfound hfind
    rw [List.inj_on_of_nodup_map (hD.unique entity hentity) hq hp
      (hatom'.trans hatom.symm)]

/-- The parent is the record whose identity is the foreign key. -/
theorem parent_eq_record_iff (hD : D.Linked s) (hentity : entity ∈ s.entities)
    (hp : D.Holds s entity p) (hkey : (c.getOrNull key).isNull = true ∨
      (c.getOrNull key).atom?.isSome = true) :
    D.parent c key entity.name = .record p ↔
      (c.getOrNull key).atom? = p.idAtom? := by
  obtain ⟨b, hb⟩ := Option.isSome_iff_exists.1 (hD.identified hp)
  have hparent : D.parent c key entity.name = .record p ↔
      D.parent? c key entity.name = some p := by
    rw [Store.parent_eq]
    cases D.parent? c key entity.name <;> simp
  rw [hparent, hb]
  rcases hkey with hnull | hatom
  · rw [Store.parent?_of_isNull hnull, Value.atom?_of_isNull hnull]
    simp
  · obtain ⟨a, ha⟩ := Option.isSome_iff_exists.1 hatom
    rw [Store.parent?_of_not_isNull (Value.isNull_of_atom ha),
      hD.find?_eq_some_iff hentity ha, and_iff_right hp, hb, ha]
    exact eq_comm

/-- The children are the records whose foreign key is the identity. -/
theorem mem_children_iff (hD : D.Linked s) (hentity : entity ∈ s.entities)
    {owner : Entity} (hp : D.Holds s owner p) (hkey : ∀ c, D.Holds s entity c →
      (c.getOrNull key).isNull = true ∨ (c.getOrNull key).atom?.isSome = true) :
    c ∈ D.children p entity.name key ↔
      D.Holds s entity c ∧ (c.getOrNull key).atom? = p.idAtom? := by
  obtain ⟨b, hb⟩ := Option.isSome_iff_exists.1 (hD.identified hp)
  obtain ⟨id, hidentity, hatom⟩ := Option.bind_eq_some_iff.1 hb
  have hchildren : D.children p entity.name key =
      (D.records entity.name).filter fun r =>
        (r.get? key).any (·.agrees id) := by
    rw [Store.children, hidentity]
  rw [hchildren, List.mem_filter, Store.mem_records_iff hentity, hb]
  exact and_congr_right fun hc =>
    Record.any_get?_agrees_atom_iff (hkey c hc) hatom

/-- Children are records in the order of their insertion. -/
theorem children_sublist (D : Store) (p : Record) (target key : String) :
    (D.children p target key).Sublist (D.records target) := by
  rw [Store.children]
  cases p.id? with
  | none => exact List.nil_sublist _
  | some id => exact List.filter_sublist

end Store.Linked

/-- The load of the children and that of the parent are inverse to each other:
the children of a record are those records of the target, each once and in the
order of their insertion, of which the load of the relation that leads back
returns the record. -/
theorem Store.answer_inverse {owner target : Entity} {children back : Relation}
    (hdistinct : s.FieldsDistinct)
    (hmutual : s.Mutual owner target children back) (hD : D.Linked s)
    (hp : D.Holds s owner p) :
    ∃ found : List Record,
      D.answer p children.name (s.field owner children.name) =
        .ok (.list (found.map .record)) ∧
      found.Sublist (D.records target.name) ∧ found.Nodup ∧
      ∀ c, c ∈ found ↔ D.Holds s target c ∧
        D.answer c back.name (s.field target back.name) = .ok (.record p) := by
  have hserves : D.Serves D := ⟨rfl, hD.intact⟩
  have hkey : ∀ c, D.Holds s target c →
      (c.getOrNull back.foreignKey).isNull = true ∨
      (c.getOrNull back.foreignKey).atom?.isSome = true :=
    fun c hc => hD.keys hc back hmutual.back_mem
  have hsublist := Store.Linked.children_sublist D p target.name back.foreignKey
  have hnodup : (D.records target.name).Nodup :=
    (hD.unique target hmutual.target_mem).of_map _
  refine ⟨D.children p target.name back.foreignKey, ?_, hsublist,
    hsublist.nodup hnodup, fun c => ?_⟩
  · rw [hmutual.field_children hdistinct, hserves.answer_eq rfl, Store.reply]
  · rw [hD.mem_children_iff hmutual.target_mem hp hkey]
    refine and_congr_right fun hc => ?_
    rw [hmutual.field_back hdistinct, hserves.answer_eq rfl, Store.reply,
      Except.ok.injEq, hD.parent_eq_record_iff hmutual.owner_mem hp (hkey c hc)]

end

/-! ## Mothers and children -/

namespace Genealogy

def toMother : Relation :=
  { Relation.parent "mother" "person" with
    column := some "mother_number", optional := true }

def toChildren : Relation := .children "children" "person" "mother"

/-- A person is the child of another one, and her number is kept in either
width. -/
def person : Entity :=
  { Entity.new "person" with relations := [toChildren, toMother] }

def schema : Schema where
  entities := [person]
  names_nodup := by decide
  targets_declared := by decide

def eve : Record :=
  ⟨some "person", [("id", .int32 1), ("mother_number", .null)]⟩

def ann : Record :=
  ⟨some "person", [("id", .int64 2), ("mother_number", .int64 1)]⟩

def bea : Record :=
  ⟨some "person", [("mother_number", .int32 1), ("id", .string "1")]⟩

def store : Store := ⟨[bea, eve, ann], [], 0⟩

theorem person_mutual : schema.Mutual person person toChildren toMother := by
  constructor <;> decide

theorem entity_of_holds {entity : Entity} {r : Record}
    (h : store.Holds schema entity r) :
    entity = person := by
  obtain ⟨hr, hentity⟩ := h
  simp only [store, List.mem_cons, List.not_mem_nil, or_false] at hr
  rcases hr with rfl | rfl | rfl <;> exact (Option.some.inj hentity).symm

theorem store_linked : store.Linked schema where
  intact := rfl
  identified := by
    rintro entity r ⟨hr, -⟩
    simp only [store, List.mem_cons, List.not_mem_nil, or_false] at hr
    rcases hr with rfl | rfl | rfl <;> rfl
  unique := by decide
  keys := by
    intro entity r h relation hrelation
    obtain rfl := entity_of_holds h
    obtain rfl : relation = toMother := List.mem_singleton.1 hrelation
    obtain ⟨hr, -⟩ := h
    simp only [store, List.mem_cons, List.not_mem_nil, or_false] at hr
    rcases hr with rfl | rfl | rfl
    · exact .inr rfl
    · exact .inl rfl
    · exact .inr rfl

theorem eve_holds : store.Holds schema person eve := ⟨by simp [store], rfl⟩

end Genealogy

open Genealogy in
theorem Store.answer_inverse_eve :
    schema.FieldsDistinct ∧ schema.Mutual person person toChildren toMother ∧
      store.Linked schema ∧ store.Holds schema person eve ∧
      ∃ found : List Record,
        store.answer eve "children" (schema.field person "children") =
          .ok (.list (found.map .record)) ∧
        found.Sublist (store.records "person") ∧ found.Nodup ∧
        ∀ c, c ∈ found ↔ store.Holds schema person c ∧
          store.answer c "mother" (schema.field person "mother") =
            .ok (.record eve) := by
  have hdistinct : schema.FieldsDistinct := by decide
  exact ⟨hdistinct, person_mutual, store_linked, eve_holds,
    answer_inverse hdistinct person_mutual store_linked eve_holds⟩

end RowGuard
