import Mathlib.Data.List.Nodup
import RowGuard.Schema.Basic

/-!
# Names in a schema

A name tells the entity, and a relation of an entity always leads to one: the
names of the entities are distinct and every target is declared.
-/

namespace RowGuard

theorem find?_of_nodup {α : Type} {key : α → String} {items : List α}
    (hnodup : (items.map key).Nodup) {a : α} (ha : a ∈ items) :
    items.find? (key · == key a) = some a := by
  cases hfound : items.find? (key · == key a) with
  | none =>
    rw [List.find?_eq_none] at hfound
    exact absurd (beq_self_eq_true _) (hfound a ha)
  | some b =>
    have hkey : key b = key a := by simpa using List.find?_some hfound
    rw [List.inj_on_of_nodup_map hnodup (List.mem_of_find?_eq_some hfound)
      ha hkey]

theorem Relation.isRelation_field (relation : Relation)
    (entity target : Entity) :
    (relation.field entity target).isRelation = true := by
  rw [Relation.field]
  cases relation.kind <;> rfl

namespace Schema

variable {s : Schema} {e e' : Entity} {relation : Relation} {name : String}

/-- Every entity of a schema is found under its name. -/
theorem entity?_of_mem (h : e ∈ s.entities) : s.entity? e.name = some e :=
  find?_of_nodup s.names_nodup h

/-- The name tells the entity. -/
theorem entity_eq_of_name (h : e ∈ s.entities) (h' : e' ∈ s.entities)
    (hname : e.name = e'.name) :
    e = e' :=
  List.inj_on_of_nodup_map s.names_nodup h h' hname

theorem entity?_eq_some_iff : s.entity? name = some e ↔
    e ∈ s.entities ∧ e.name = name := by
  constructor
  · intro h
    exact ⟨entity?_mem h, entity?_name h⟩
  · rintro ⟨hmem, rfl⟩
    exact entity?_of_mem hmem

theorem entity?_eq_none_iff : s.entity? name = none ↔
    ∀ e ∈ s.entities, e.name ≠ name := by
  simp [entity?]

/-- A relation of an entity leads to an entity. Of several that have its name
the first counts. -/
theorem exists_field_of_mem (he : e ∈ s.entities) (h : relation ∈ e.relations) :
    ∃ first target, e.relation? relation.name = some first ∧
      s.entity? first.target = some target ∧
      s.field e relation.name = first.field e target := by
  obtain ⟨first, hfirst⟩ : ∃ first, e.relation? relation.name = some first :=
    Option.isSome_iff_exists.1
      (List.find?_isSome.2 ⟨relation, h, beq_self_eq_true _⟩)
  have hdeclared :=
    s.targets_declared e he first (List.mem_of_find?_eq_some hfirst)
  obtain ⟨target, htarget, hname⟩ := List.mem_map.1 hdeclared
  have hfound : s.entity? first.target = some target :=
    entity?_eq_some_iff.2 ⟨htarget, hname⟩
  exact ⟨first, target, hfirst, hfound,
    by rw [field, hfirst]; simp only [hfound]⟩

/-- A relation of an entity is one in the schema. -/
theorem isRelation_field (he : e ∈ s.entities) (h : relation ∈ e.relations) :
    (s.field e relation.name).isRelation = true := by
  obtain ⟨first, target, -, -, hfield⟩ := exists_field_of_mem he h
  rw [hfield]
  exact first.isRelation_field e target

end Schema

end RowGuard
