import RowGuard.Proofs.Graph.Search
import RowGuard.Proofs.Repetition
import RowGuard.Proofs.Schema.Lookup

/-!
# Walks in the graph of a schema

A walk in the graph of a schema goes up through parents and may end at a field.
This module reads walks as chains of relations and back.

* `Schema.FieldsDistinct`: no two fields of an entity have one name, so that a
  name tells the field.
* `Schema.Ascent` is a chain of relations from an entity to an ancestor.
* `Entity.Keeps` says that the entity has a field of a name in a column.
* `Schema.mem_edgesFrom_iff` has the edges of the graph,
  `EntityGraph.ofSchema_closed` says that they stay inside of it.
* `Schema.Arrives` is a vertex at the end of an ascent, with the names on the
  way.  `EntityGraph.Walk.arrives` and `Schema.Arrives.exists_walk` are the two
  directions.
-/

namespace RowGuard

/-! ## Fields with distinct names -/

/-- The names of the identity, the attributes and the relations of an entity.
An attribute may be the identity. -/
def Entity.fieldNames (e : Entity) : List String :=
  e.attributeNames ++ e.relations.map (·.name)

/-- No two fields of an entity have one name. -/
def Schema.FieldsDistinct (s : Schema) : Prop :=
  ∀ e ∈ s.entities, e.fieldNames.Nodup

instance (s : Schema) : Decidable s.FieldsDistinct :=
  inferInstanceAs (Decidable (∀ e ∈ s.entities, e.fieldNames.Nodup))

namespace Entity

variable {e : Entity} {r r' : Relation} {name column : String}

theorem mem_parents_iff : r ∈ e.parents ↔
    r ∈ e.relations ∧ r.kind = .belongsTo := by
  simp [parents, List.mem_filter]

theorem mem_attributeNames_iff : name ∈ e.attributeNames ↔
    (∃ a ∈ e.attributes, a.name = name) ∨
      name = e.identity ∧ e.attribute? name = none := by
  have hdeclared : (e.attribute? name).isSome ↔
      ∃ a ∈ e.attributes, a.name = name := by
    simp [attribute?]
  rw [attributeNames, List.mem_append, List.mem_map, or_comm]
  refine or_congr_right ?_
  constructor
  · intro h
    split at h
    · cases h
    · next hnone =>
      obtain rfl := List.mem_singleton.1 h
      exact ⟨rfl, by simpa using hnone⟩
  · rintro ⟨rfl, hnone⟩
    rw [hnone]
    exact List.mem_singleton_self _

theorem mem_attributeNames_iff_identity : name ∈ e.attributeNames ↔
    name = e.identity ∨ ∃ a ∈ e.attributes, a.name = name := by
  rw [mem_attributeNames_iff]
  constructor
  · rintro (hstored | ⟨rfl, -⟩)
    · exact .inr hstored
    · exact .inl rfl
  · rintro (rfl | hstored)
    · cases hfound : e.attribute? e.identity with
      | none => exact .inr ⟨rfl, rfl⟩
      | some a =>
        have hname : a.name = e.identity := by
          simpa using List.find?_some hfound
        exact .inl ⟨a, List.mem_of_find?_eq_some hfound, hname⟩
    · exact .inl hstored

/-- The entity keeps a field of the name in the column: the foreign key of a
parent, an attribute, or the identity. -/
inductive Keeps (e : Entity) : (name column : String) → Prop where
  | parent {r : Relation} (hr : r ∈ e.parents) : Keeps e r.name r.foreignKey
  | stored {a : Attribute} (ha : a ∈ e.attributes) : Keeps e a.name a.columnName
  | identity (hnone : e.attribute? e.identity = none) :
      Keeps e e.identity e.identity

/-- The fields that are kept in columns are the vertices of the entity. -/
theorem exists_keeps_iff :
    (∃ column, e.Keeps name column) ↔
      (∃ r ∈ e.parents, r.name = name) ∨ name ∈ e.attributeNames := by
  rw [mem_attributeNames_iff]
  constructor
  · rintro ⟨_, hr | ha | hnone⟩
    · exact .inl ⟨_, hr, rfl⟩
    · exact .inr (.inl ⟨_, ha, rfl⟩)
    · exact .inr (.inr ⟨rfl, hnone⟩)
  · rintro (⟨r, hr, rfl⟩ | ⟨a, ha, rfl⟩ | ⟨rfl, hnone⟩)
    · exact ⟨_, .parent hr⟩
    · exact ⟨_, .stored ha⟩
    · exact ⟨_, .identity hnone⟩

section

variable (hdistinct : e.fieldNames.Nodup)

include hdistinct

theorem relation?_of_mem (hr : r ∈ e.relations) : e.relation? r.name = some r :=
  find?_of_nodup (List.nodup_append.1 hdistinct).2.1 hr

theorem parents_nodup : (e.parents.map Relation.name).Nodup :=
  (List.nodup_append.1 hdistinct).2.1.sublist (List.filter_sublist.map _)

theorem parent?_of_mem (hr : r ∈ e.parents) :
    e.parents.find? (·.name == r.name) = some r :=
  find?_of_nodup (parents_nodup hdistinct) hr

theorem parent_eq_of_name (hr : r ∈ e.parents) (hr' : r' ∈ e.parents)
    (h : r.name = r'.name) :
    r = r' := by
  have hfound := parent?_of_mem hdistinct hr
  rw [h, parent?_of_mem hdistinct hr'] at hfound
  exact (Option.some.inj hfound).symm

theorem relation?_of_attribute (h : name ∈ e.attributeNames) :
    e.relation? name = none := by
  rw [relation?, List.find?_eq_none]
  intro r hr
  have hne :=
    (List.nodup_append.1 hdistinct).2.2 name h r.name (List.mem_map_of_mem hr)
  simpa using hne.symm

theorem parent?_of_attribute (h : name ∈ e.attributeNames) :
    e.parents.find? (·.name == name) = none := by
  have hnone := relation?_of_attribute hdistinct h
  rw [relation?, List.find?_eq_none] at hnone
  rw [List.find?_eq_none]
  exact fun r hr => hnone r (mem_parents_iff.1 hr).1

theorem attribute?_of_mem {a : Attribute} (ha : a ∈ e.attributes) :
    e.attribute? a.name = some a := by
  have hnodup := (List.nodup_append.1 hdistinct).1
  rw [attributeNames, List.nodup_append] at hnodup
  exact find?_of_nodup hnodup.2.1 ha

end

end Entity

namespace Schema

variable {s : Schema} {e p t : Entity} {r : Relation} {name column : String}

theorem field_of_parent (hdistinct : e.fieldNames.Nodup) (hr : r ∈ e.parents)
    (hp : s.entity? r.target = some p) :
    s.field e r.name = .belongsTo r.foreignKey p r.optional := by
  obtain ⟨hmem, hkind⟩ := Entity.mem_parents_iff.1 hr
  simp only [field, Entity.relation?_of_mem hdistinct hmem, hp,
    Relation.field, hkind]

theorem field_of_attribute (hdistinct : e.fieldNames.Nodup) {a : Attribute}
    (ha : a ∈ e.attributes) : s.field e a.name = .column a.columnName := by
  have hmem : a.name ∈ e.attributeNames :=
    Entity.mem_attributeNames_iff.2 (.inl ⟨a, ha, rfl⟩)
  simp only [field, Entity.relation?_of_attribute hdistinct hmem,
    Entity.attribute?_of_mem hdistinct ha]

/-- What is kept in a column is found there under its name. -/
theorem field_of_keeps (hdistinct : s.FieldsDistinct) (he : e ∈ s.entities)
    (h : e.Keeps name column) :
    s.field e name = .column column ∨
      ∃ parent optional, s.field e name =
        .belongsTo column parent optional := by
  have hnames := hdistinct e he
  cases h with
  | @parent r hr =>
    have htarget := s.targets_declared e he r (Entity.mem_parents_iff.1 hr).1
    obtain ⟨p, hp, hname⟩ := List.mem_map.1 htarget
    have hfound : s.entity? r.target = some p := hname ▸ entity?_of_mem hp
    exact .inr ⟨p, r.optional, field_of_parent hnames hr hfound⟩
  | stored ha => exact .inl (field_of_attribute hnames ha)
  | identity hnone =>
    have hmem : e.identity ∈ e.attributeNames :=
      Entity.mem_attributeNames_iff.2 (.inr ⟨rfl, hnone⟩)
    left
    simp only [field, Entity.relation?_of_attribute hnames hmem, hnone, if_pos]

/-! ## Ascents -/

/-- A chain of relations, each to a parent, from an entity to another. -/
inductive Ascent (s : Schema) : Entity → List Relation → Entity → Prop where
  | here (e : Entity) : Ascent s e [] e
  | up {e p t : Entity} {r : Relation} {rs : List Relation} (hr : r ∈ e.parents)
      (hp : s.entity? r.target = some p) (rest : Ascent s p rs t) :
      Ascent s e (r :: rs) t

/-- What it costs to join the parents of a chain. -/
def joinCost : List Relation → Nat
  | [] => 0
  | r :: rs => r.weight + joinCost rs

variable {rs : List Relation}

theorem joinCost_concat : joinCost (rs ++ [r]) = joinCost rs + r.weight := by
  induction rs with
  | nil => simp [joinCost]
  | cons first rs ih =>
    simp only [List.cons_append, joinCost, ih]
    omega

theorem Ascent.concat (h : s.Ascent e rs t) (hr : r ∈ t.parents)
    (hp : s.entity? r.target = some p) : s.Ascent e (rs ++ [r]) p := by
  induction h with
  | here => exact .up hr hp (.here p)
  | up hfirst hfound _ ih => exact .up hfirst hfound (ih hr)

theorem Ascent.declared (h : s.Ascent e rs t) (he : e ∈ s.entities) :
    t ∈ s.entities := by
  induction h with
  | here => exact he
  | up _ hfound _ ih => exact ih (entity?_mem hfound)

/-- An ascent that passes no entity twice goes on from each that it passes. -/
theorem Ascent.exists_from (h : s.Ascent e rs t) (he : e ∈ s.entities)
    (hnodup : (e.name :: rs.map (·.target)).Nodup) {name : String}
    (hname : name ∈ e.name :: rs.map (·.target)) :
    ∃ e' rs', e' ∈ s.entities ∧ e'.name = name ∧ s.Ascent e' rs' t ∧
      (e'.name :: rs'.map (·.target)).Nodup := by
  induction h with
  | here e =>
    obtain rfl := List.mem_singleton.1 hname
    exact ⟨e, [], he, rfl, .here e, hnodup⟩
  | @up e p t r rs hr hp rest ih =>
    rcases List.mem_cons.1 hname with rfl | hname
    · exact ⟨e, r :: rs, he, rfl, .up hr hp rest, hnodup⟩
    · rw [List.map_cons, ← entity?_name hp] at hname hnodup
      exact ih (entity?_mem hp) (List.nodup_cons.1 hnodup).2 hname

/-- Where there is an ascent there is one that passes no entity twice. -/
theorem Ascent.exists_nodup (h : s.Ascent e rs t) (he : e ∈ s.entities) :
    ∃ rs', s.Ascent e rs' t ∧ (e.name :: rs'.map (·.target)).Nodup := by
  induction h with
  | here e => exact ⟨[], .here e, List.nodup_singleton _⟩
  | @up e p t r rs hr hp _ ih =>
    obtain ⟨rs', hrest, hnodup⟩ := ih (entity?_mem hp)
    by_cases hpassed : e.name ∈ p.name :: rs'.map (·.target)
    · -- the ascent comes back to where it starts
      obtain ⟨e', rs'', he', hname, hrest', hnodup'⟩ :=
        hrest.exists_from (entity?_mem hp) hnodup hpassed
      obtain rfl := entity_eq_of_name he' he hname
      exact ⟨rs'', hrest', hnodup'⟩
    · refine ⟨r :: rs', .up hr hp hrest, ?_⟩
      rw [List.map_cons, ← entity?_name hp]
      exact List.nodup_cons.2 ⟨hpassed, hnodup⟩

theorem Ascent.passed_subset (h : s.Ascent e rs t) (he : e ∈ s.entities) :
    e.name :: rs.map (·.target) ⊆ s.entities.map (·.name) := by
  induction h with
  | here => exact List.cons_subset.2 ⟨List.mem_map_of_mem he, List.nil_subset _⟩
  | up _ hp _ ih =>
    have hrest := ih (entity?_mem hp)
    rw [entity?_name hp] at hrest
    exact List.cons_subset.2 ⟨List.mem_map_of_mem he, hrest⟩

theorem weight_le (r : Relation) : r.weight ≤ optionalWeight := by
  rw [Relation.weight]
  split <;> decide

theorem requiredWeight_le (r : Relation) : requiredWeight ≤ r.weight := by
  rw [Relation.weight]
  split <;> decide

theorem joinCost_le (rs : List Relation) :
    joinCost rs ≤ optionalWeight * rs.length := by
  induction rs with
  | nil => exact Nat.le_refl _
  | cons r rs ih =>
    have hweight := weight_le r
    rw [joinCost, List.length_cons, Nat.mul_succ]
    omega

/-- Where there is an ascent there is one that costs no more than all entities
but one. -/
theorem Ascent.exists_joinCost_le (h : s.Ascent e rs t) (he : e ∈ s.entities) :
    ∃ rs', s.Ascent e rs' t ∧
      joinCost rs' + optionalWeight ≤ optionalWeight * s.entities.length := by
  obtain ⟨rs', hascent, hnodup⟩ := h.exists_nodup he
  refine ⟨rs', hascent, ?_⟩
  have hlength :=
    (List.subperm_of_subset hnodup (hascent.passed_subset he)).length_le
  simp only [List.length_cons, List.length_map] at hlength
  calc joinCost rs' + optionalWeight
      ≤ optionalWeight * (rs'.length + 1) :=
    Nat.add_le_add_right (joinCost_le rs') _
    _ ≤ optionalWeight * s.entities.length := Nat.mul_le_mul_left _ hlength

/-! ## Vertices and edges -/

theorem vertices_nodup (s : Schema) : s.vertices.Nodup := nodup_eraseDups _

theorem mem_vertices_iff {v : Vertex} : v ∈ s.vertices ↔
    (∃ e ∈ s.entities, .entity e.name = v) ∨
      ∃ e ∈ s.entities, v ∈ e.fieldVertices := by
  simp [vertices, List.mem_eraseDups]

theorem entity_mem_vertices (he : e ∈ s.entities) :
    .entity e.name ∈ s.vertices :=
  mem_vertices_iff.2 (.inl ⟨e, he, rfl⟩)

/-- The arcs of the vertices of entities are those of the declared fields. -/
theorem mem_arcs_entity_iff (he : e ∈ s.entities) {w : Vertex} {cost : Nat} :
    (w, cost) ∈ s.arcs (.entity e.name) ↔
      (∃ a ∈ e.attributeNames, w = .attributeOf e.name a ∧ cost = 0) ∨
        ∃ r ∈ e.parents, w = .parentOf e.name r.name ∧ cost = r.weight := by
  simp only [arcs, entity?_of_mem he, Option.elim_some, Entity.arcs,
    List.mem_append, List.mem_map, Prod.mk.injEq, eq_comm]

theorem mem_arcs_parent_iff (he : e ∈ s.entities) {w : Vertex} {cost : Nat} :
    (w, cost) ∈ s.arcs (.parentOf e.name name) ↔
      ∃ r ∈ e.parents, r.name = name ∧ w = .entity r.target ∧ cost = 0 := by
  simp only [arcs, entity?_of_mem he, Option.elim_some, Entity.arcsOfParent,
    List.mem_map, List.mem_filter, beq_iff_eq, Prod.mk.injEq, and_assoc,
    eq_comm (a := w), eq_comm (a := cost)]

/-- Arcs start at entities and at the parents that they have. -/
theorem exists_of_mem_arcs {v w : Vertex} {cost : Nat}
    (h : (w, cost) ∈ s.arcs v) :
    ∃ e ∈ s.entities, v = .entity e.name ∨
      ∃ name, v = .parentOf e.name name := by
  cases v with
  | attributeOf owner name => cases h
  | entity name =>
    cases hfound : s.entity? name with
    | none => simp [arcs, hfound] at h
    | some e =>
      exact ⟨e, entity?_mem hfound, .inl (by rw [entity?_name hfound])⟩
  | parentOf owner name =>
    cases hfound : s.entity? owner with
    | none => simp [arcs, hfound] at h
    | some e =>
      exact ⟨e, entity?_mem hfound, .inr ⟨name, by rw [entity?_name hfound]⟩⟩

/-- Arcs lead to vertices of the schema. -/
theorem arcs_mem_vertices {v w : Vertex} {cost : Nat}
    (h : (w, cost) ∈ s.arcs v) :
    w ∈ s.vertices := by
  rw [mem_vertices_iff]
  obtain ⟨e, he, rfl | ⟨name, rfl⟩⟩ := exists_of_mem_arcs h
  · refine .inr ⟨e, he, ?_⟩
    rw [Entity.fieldVertices, List.mem_append, List.mem_map, List.mem_map]
    rcases (mem_arcs_entity_iff he).1 h with ⟨a, ha, rfl, -⟩ | ⟨r, hr, rfl, -⟩
    · exact .inl ⟨a, ha, rfl⟩
    · exact .inr ⟨r, hr, rfl⟩
  · obtain ⟨r, hr, -, rfl, -⟩ := (mem_arcs_parent_iff he).1 h
    obtain ⟨p, hp, hname⟩ := List.mem_map.1
      (s.targets_declared e he r (Entity.mem_parents_iff.1 hr).1)
    exact .inl ⟨p, hp, congrArg _ hname⟩

/-- The edges of the graph are the arcs of the schema, by number. -/
theorem mem_edgesFrom_iff {id : Nat} {edge : Edge} :
    edge ∈ (EntityGraph.ofSchema s).edgesFrom id ↔
      ∃ v, s.vertices[id]? = some v ∧ ∃ w cost, (w, cost) ∈ s.arcs v ∧
        edge = ⟨s.vertices.idxOf w, cost⟩ := by
  rw [EntityGraph.edgesFrom, EntityGraph.ofSchema]
  dsimp only
  rw [List.getElem?_map]
  cases s.vertices[id]? with
  | none => simp
  | some v => simp [eq_comm]

/-- The number of a vertex finds it again. -/
theorem vertex?_idxOf {v : Vertex} (h : v ∈ s.vertices) :
    (EntityGraph.ofSchema s).vertex? (s.vertices.idxOf v) = some v :=
  List.getElem?_idxOf h

/-- A vertex has one number. -/
theorem eq_idxOf_of_vertex? {id : Nat} {v : Vertex}
    (h : (EntityGraph.ofSchema s).vertex? id = some v) :
    id = s.vertices.idxOf v := by
  obtain ⟨hlt, rfl⟩ := List.getElem?_eq_some_iff.1 h
  exact (s.vertices_nodup.idxOf_getElem id hlt).symm

/-- An edge follows an arc. -/
theorem exists_arc {id : Nat} {v : Vertex} {edge : Edge}
    (hv : (EntityGraph.ofSchema s).vertex? id = some v)
    (hedge : edge ∈ (EntityGraph.ofSchema s).edgesFrom id) :
    ∃ w, (w, edge.weight) ∈ s.arcs v ∧
      (EntityGraph.ofSchema s).vertex? edge.target = some w := by
  obtain ⟨v', hv', w, weight, harc, rfl⟩ := mem_edgesFrom_iff.1 hedge
  obtain rfl : v' = v := Option.some.inj (hv'.symm.trans hv)
  exact ⟨w, harc, vertex?_idxOf (arcs_mem_vertices harc)⟩

theorem entityVertex?_of_mem (he : e ∈ s.entities) :
    (EntityGraph.ofSchema s).entityVertex? e.name =
      some (s.vertices.idxOf (.entity e.name)) := by
  have hmem := entity_mem_vertices he
  rw [EntityGraph.entityVertex?, EntityGraph.ofSchema]
  dsimp only
  cases hfound : s.vertices.idxOf? (.entity e.name) with
  | none => exact absurd hmem (List.idxOf?_eq_none_iff.1 hfound)
  | some id =>
    obtain ⟨hlt, hvertex, -⟩ := List.idxOf?_eq_some_iff.1 hfound
    rw [← hvertex, s.vertices_nodup.idxOf_getElem id hlt]

theorem entityVertex?_eq_none (h : s.entity? name = none) :
    (EntityGraph.ofSchema s).entityVertex? name = none := by
  rw [EntityGraph.entityVertex?, EntityGraph.ofSchema]
  dsimp only
  rw [List.idxOf?_eq_none_iff]
  intro hmem
  rw [mem_vertices_iff] at hmem
  rcases hmem with ⟨e, he, hname⟩ | ⟨e, -, hfield⟩
  · rw [Vertex.entity.injEq] at hname
    rw [← hname, entity?_of_mem he] at h
    cases h
  · simp [Entity.fieldVertices] at hfield

end Schema

theorem EntityGraph.ofSchema_closed (s : Schema) :
    (EntityGraph.ofSchema s).Closed := by
  intro id edge hedge
  obtain ⟨v, -, w, cost, harc, rfl⟩ := Schema.mem_edgesFrom_iff.1 hedge
  exact List.idxOf_lt_length_iff.2 (Schema.arcs_mem_vertices harc)

/-! ## Arrivals -/

/-- The name of an entity's vertex. -/
def Vertex.entityName? : Vertex → Option String
  | .entity name => some name
  | _ => none

/-- The vertex is a field of the name. -/
def Vertex.IsField (name : String) (v : Vertex) : Prop :=
  ∃ owner, v = .parentOf owner name ∨ v = .attributeOf owner name

namespace EntityGraph

/-- The entities along a trail of vertices. -/
def passedOn (g : EntityGraph) (trail : List Nat) : List String :=
  trail.filterMap fun id => (g.vertex? id).bind Vertex.entityName?

variable {g : EntityGraph} {id : Nat} {v : Vertex}

theorem namesOn_concat (h : g.vertex? id = some v) (trail : List Nat) :
    g.namesOn (trail ++ [id]) = g.namesOn trail ++ if v.isEntity then []
      else [v.name] := by
  simp only [namesOn, List.filterMap_append, List.filterMap_cons, h,
    List.filterMap_nil, List.filter_append, List.map_append]
  cases v <;> rfl

theorem passedOn_concat (h : g.vertex? id = some v) (trail : List Nat) :
    g.passedOn (trail ++ [id]) = g.passedOn trail ++ v.entityName?.toList := by
  simp only [passedOn, List.filterMap_append, List.filterMap_cons, h,
    List.filterMap_nil, Option.bind_some]
  cases v <;> rfl

/-- A trail without repetitions passes every entity once. -/
theorem passedOn_nodup {s : Schema} {trail : List Nat} (h : trail.Nodup) :
    ((ofSchema s).passedOn trail).Nodup := by
  refine h.filterMap ?_
  intro id id' name hname hname'
  obtain ⟨v, hv, hentity⟩ := Option.bind_eq_some_iff.1 hname
  obtain ⟨v', hv', hentity'⟩ := Option.bind_eq_some_iff.1 hname'
  have hsame : v = v' := by
    cases v <;> cases v' <;> simp_all [Vertex.entityName?]
  rw [Schema.eq_idxOf_of_vertex? hv, Schema.eq_idxOf_of_vertex? hv', hsame]

end EntityGraph

namespace Schema

variable {s : Schema} {start e t : Entity} {rs : List Relation}

/-- A vertex at the end of an ascent: the entity there or one of its fields.
With it come the names on the way, the entities that have been passed and the
cost. -/
inductive Arrives (s : Schema) (start : Entity) :
    Vertex → (names passed : List String) → (cost : Nat) → Prop where
  | entity {rs : List Relation} {e : Entity} (h : s.Ascent start rs e) :
      Arrives s start (.entity e.name) (rs.map (·.name))
        (start.name :: rs.map (·.target)) (joinCost rs)
  | field {rs : List Relation} {e : Entity} {name : String}
      (h : s.Ascent start rs e) (hname : name ∈ e.attributeNames) :
      Arrives s start (.attributeOf e.name name) (rs.map (·.name) ++ [name])
        (start.name :: rs.map (·.target)) (joinCost rs)
  | parent {rs : List Relation} {e : Entity} {r : Relation}
      (h : s.Ascent start rs e) (hr : r ∈ e.parents) :
      Arrives s start (.parentOf e.name r.name) (rs.map (·.name) ++ [r.name])
        (start.name :: rs.map (·.target)) (joinCost rs + r.weight)

/-- Along an arc an arrival goes on. -/
theorem Arrives.along (hdistinct : s.FieldsDistinct)
    (hstart : start ∈ s.entities) {v w : Vertex} {names passed : List String}
    {cost weight : Nat} (h : s.Arrives start v names passed cost)
    (harc : (w, weight) ∈ s.arcs v) :
    s.Arrives start w (names ++ if w.isEntity then [] else [w.name])
      (passed ++ w.entityName?.toList) (cost + weight) := by
  cases h with
  | @entity rs e h =>
    rcases (mem_arcs_entity_iff (h.declared hstart)).1 harc with
      ⟨name, hname, rfl, rfl⟩ | ⟨r, hr, rfl, rfl⟩
    · simpa [Vertex.isEntity, Vertex.name, Vertex.entityName?]
        using Arrives.field h hname
    · simpa [Vertex.isEntity, Vertex.name, Vertex.entityName?]
        using Arrives.parent h hr
  | field => cases harc
  | @parent rs e r h hr =>
    have he := h.declared hstart
    obtain ⟨r', hr', hname, rfl, rfl⟩ := (mem_arcs_parent_iff he).1 harc
    obtain rfl : r' = r :=
      Entity.parent_eq_of_name (hdistinct e he) hr' hr hname
    obtain ⟨p, hp, htarget⟩ := List.mem_map.1
      (s.targets_declared e he r' (Entity.mem_parents_iff.1 hr).1)
    have harrives := Arrives.entity (h.concat hr (htarget ▸ entity?_of_mem hp))
    rw [joinCost_concat, htarget] at harrives
    simpa [Vertex.isEntity, Vertex.entityName?] using harrives

/-- A walk to a vertex, with the names and the entities on it. -/
structure WalkTo (s : Schema) (source : Nat) (v : Vertex) (trail : List Nat)
    (names passed : List String) (cost : Nat) : Prop where
  walk : (EntityGraph.ofSchema s).Walk source (s.vertices.idxOf v :: trail) cost
  names_eq : (EntityGraph.ofSchema s).namesOn
    (s.vertices.idxOf v :: trail).reverse = names
  passed_eq : (EntityGraph.ofSchema s).passedOn
    (s.vertices.idxOf v :: trail).reverse = passed

/-- The walk that stays where it starts. -/
theorem walkTo_start (he : e ∈ s.entities) :
    s.WalkTo (s.vertices.idxOf (.entity e.name)) (.entity e.name) [] []
      [e.name] 0 := by
  have hvertex := vertex?_idxOf (entity_mem_vertices he)
  refine ⟨.start, ?_, ?_⟩
  · exact EntityGraph.namesOn_concat hvertex []
  · exact EntityGraph.passedOn_concat hvertex []

end Schema

/-- A walk from an entity arrives at its last vertex. -/
theorem EntityGraph.Walk.arrives {s : Schema} {start : Entity}
    (hdistinct : s.FieldsDistinct) (hstart : start ∈ s.entities)
    {trail : List Nat} {cost : Nat}
    (h : (EntityGraph.ofSchema s).Walk (s.vertices.idxOf (.entity start.name))
      trail cost) :
    ∃ v, trail.head?.bind (EntityGraph.ofSchema s).vertex? = some v ∧
      s.Arrives start v ((EntityGraph.ofSchema s).namesOn trail.reverse)
        ((EntityGraph.ofSchema s).passedOn trail.reverse) cost := by
  induction h with
  | start =>
    have hvertex := Schema.vertex?_idxOf (Schema.entity_mem_vertices hstart)
    have hwalk := Schema.walkTo_start hstart
    refine ⟨_, hvertex, ?_⟩
    rw [hwalk.names_eq, hwalk.passed_eq]
    exact .entity (.here start)
  | @step id trail cost edge _ hedge ih =>
    obtain ⟨v, hv, harrives⟩ := ih
    obtain ⟨w, harc, hw⟩ := Schema.exists_arc hv hedge
    refine ⟨w, hw, ?_⟩
    rw [List.reverse_cons, EntityGraph.namesOn_concat hw,
      EntityGraph.passedOn_concat hw]
    exact harrives.along hdistinct hstart harc

namespace Schema

variable {s : Schema} {start e t : Entity} {rs : List Relation}

/-- A walk goes on along an arc. -/
theorem WalkTo.along {source : Nat} {v w : Vertex} {trail : List Nat}
    {names passed : List String} {cost weight : Nat}
    (h : s.WalkTo source v trail names passed cost) (hv : v ∈ s.vertices)
    (harc : (w, weight) ∈ s.arcs v) :
    s.WalkTo source w (s.vertices.idxOf v :: trail)
      (names ++ if w.isEntity then [] else [w.name])
      (passed ++ w.entityName?.toList) (cost + weight) := by
  have hedge : ⟨s.vertices.idxOf w, weight⟩ ∈
      (EntityGraph.ofSchema s).edgesFrom (s.vertices.idxOf v) :=
    mem_edgesFrom_iff.2 ⟨v, List.getElem?_idxOf hv, w, weight, harc, rfl⟩
  have hw := vertex?_idxOf (arcs_mem_vertices harc)
  refine ⟨h.walk.step hedge, ?_, ?_⟩
  · rw [List.reverse_cons, EntityGraph.namesOn_concat hw, h.names_eq]
  · rw [List.reverse_cons, EntityGraph.passedOn_concat hw, h.passed_eq]

/-- A walk goes on along an ascent. -/
theorem Ascent.exists_walk {source : Nat} (h : s.Ascent e rs t)
    (he : e ∈ s.entities) {trail : List Nat} {names passed : List String}
    {cost : Nat}
    (hwalk : s.WalkTo source (.entity e.name) trail names passed cost) :
    ∃ trail', s.WalkTo source (.entity t.name) trail' (names ++ rs.map (·.name))
      (passed ++ rs.map (·.target)) (cost + joinCost rs) := by
  induction h generalizing trail names passed cost with
  | here => exact ⟨trail, by simpa [joinCost] using hwalk⟩
  | @up e p t r rs hr hp _ ih =>
    have hfield : (.parentOf e.name r.name, r.weight) ∈ s.arcs
        (.entity e.name) :=
      (mem_arcs_entity_iff he).2 (.inr ⟨r, hr, rfl, rfl⟩)
    have htarget : (.entity p.name, 0) ∈ s.arcs (.parentOf e.name r.name) :=
      (mem_arcs_parent_iff he).2 ⟨r, hr, rfl, congrArg _ (entity?_name hp), rfl⟩
    have hwalk' :=
      (hwalk.along (entity_mem_vertices he) hfield).along
        (arcs_mem_vertices hfield) htarget
    obtain ⟨trail', htrail'⟩ := ih (entity?_mem hp) hwalk'
    refine ⟨trail', ?_⟩
    rw [Nat.add_zero, Nat.add_assoc] at htrail'
    simpa [Vertex.isEntity, Vertex.name, Vertex.entityName?, entity?_name hp,
      joinCost]
      using htrail'

/-- Where there is an arrival there is a walk with its names and of its cost. -/
theorem Arrives.exists_walk (hstart : start ∈ s.entities) {v : Vertex}
    {names passed : List String} {cost : Nat}
    (h : s.Arrives start v names passed cost) :
    ∃ trail, s.WalkTo (s.vertices.idxOf (.entity start.name)) v trail names
      passed cost := by
  have hascent : ∀ {rs e}, s.Ascent start rs e → ∃ trail,
      s.WalkTo (s.vertices.idxOf (.entity start.name)) (.entity e.name) trail
        (rs.map (·.name)) (start.name :: rs.map (·.target)) (joinCost rs) := by
    intro rs e h
    obtain ⟨trail, hwalk⟩ := h.exists_walk hstart (walkTo_start hstart)
    rw [Nat.zero_add] at hwalk
    exact ⟨trail, hwalk⟩
  cases h with
  | entity h => exact hascent h
  | @field rs e name h hname =>
    obtain ⟨trail, hwalk⟩ := hascent h
    have he := h.declared hstart
    have harc : (.attributeOf e.name name, 0) ∈ s.arcs (.entity e.name) :=
      (mem_arcs_entity_iff he).2 (.inl ⟨name, hname, rfl, rfl⟩)
    exact ⟨_, by simpa [Vertex.isEntity, Vertex.name, Vertex.entityName?] using
      hwalk.along (entity_mem_vertices he) harc⟩
  | @parent rs e r h hr =>
    obtain ⟨trail, hwalk⟩ := hascent h
    have he := h.declared hstart
    have harc : (.parentOf e.name r.name, r.weight) ∈ s.arcs (.entity e.name) :=
      (mem_arcs_entity_iff he).2 (.inr ⟨r, hr, rfl, rfl⟩)
    exact ⟨_, by simpa [Vertex.isEntity, Vertex.name, Vertex.entityName?] using
      hwalk.along (entity_mem_vertices he) harc⟩

/-- An arrival at a field is an ascent to its entity. -/
theorem Arrives.field_cases {v : Vertex} {field : String}
    {names passed : List String} {cost : Nat}
    (h : s.Arrives start v names passed cost) (hfield : v.IsField field) :
    ∃ rs t, s.Ascent start rs t ∧ names = rs.map (·.name) ++ [field] ∧
      passed = start.name :: rs.map (·.target) ∧
      (v = .attributeOf t.name field ∧ field ∈ t.attributeNames ∧
        cost = joinCost rs ∨
        ∃ r ∈ t.parents, r.name = field ∧ v = .parentOf t.name field ∧
          cost = joinCost rs + r.weight) := by
  obtain ⟨owner, hv⟩ := hfield
  cases h with
  | entity h => simp at hv
  | @field rs t name h hname =>
    obtain ⟨-, rfl⟩ : t.name = owner ∧ name = field := by simpa using hv
    exact ⟨rs, t, h, rfl, rfl, .inl ⟨rfl, hname, rfl⟩⟩
  | @parent rs t r h hr =>
    obtain ⟨-, rfl⟩ : t.name = owner ∧ r.name = field := by simpa using hv
    exact ⟨rs, t, h, rfl, rfl, .inr ⟨r, hr, rfl, rfl, rfl⟩⟩

/-- An arrival at a field ends at an entity that keeps the field. -/
theorem Arrives.exists_keeps {v : Vertex} {field : String}
    {names passed : List String} {cost : Nat}
    (h : s.Arrives start v names passed cost) (hfield : v.IsField field) :
    ∃ rs t column, s.Ascent start rs t ∧ t.Keeps field column ∧
      names = rs.map (·.name) ++ [field] ∧
      passed = start.name :: rs.map (·.target) := by
  obtain ⟨rs, t, hascent, hnames, hpassed,
    ⟨-, hname, -⟩ | ⟨r, hr, hname, -, -⟩⟩ :=
    h.field_cases hfield
  · obtain ⟨column, hkeeps⟩ := Entity.exists_keeps_iff.2 (.inr hname)
    exact ⟨rs, t, column, hascent, hkeeps, hnames, hpassed⟩
  · obtain ⟨column, hkeeps⟩ := Entity.exists_keeps_iff.2 (.inl ⟨r, hr, hname⟩)
    exact ⟨rs, t, column, hascent, hkeeps, hnames, hpassed⟩

/-- Where an ascent ends at an entity that keeps a field there is an arrival at
the field. -/
theorem Ascent.exists_arrives {field column : String} (h : s.Ascent start rs t)
    (hkeeps : t.Keeps field column) :
    ∃ v names passed cost, s.Arrives start v names passed cost ∧
      v.IsField field ∧ cost ≤ joinCost rs + optionalWeight := by
  rcases Entity.exists_keeps_iff.1 ⟨column, hkeeps⟩ with ⟨r, hr, rfl⟩ | hname
  · exact ⟨_, _, _, _, .parent h hr, ⟨_, .inl rfl⟩,
      Nat.add_le_add_left (weight_le r) _⟩
  · exact ⟨_, _, _, _, .field h hname, ⟨_, .inr rfl⟩, Nat.le_add_right ..⟩

end Schema

end RowGuard
