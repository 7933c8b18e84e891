import RowGuard.Proofs.Graph.Bounds
import RowGuard.Proofs.Graph.Cheapest
import RowGuard.Proofs.Graph.Construction

/-!
# The built graph is well formed and mirrors the schema

What a builder has recorded is well formed whatever it was given
(`GraphBuilder.WellFormed`), and no search in it goes out of bounds
(`GraphBuilder.InBounds`).  The built graph has the vertices and the arcs of the
schema, relations to children excepted (`GraphBuilder.Depicts`).  If the names
of fields are distinct, it has each of them once, and its indexes are those that
the searches use (`GraphBuilder.Mirrors`).
-/

namespace RowGuard

/-! ## Numbers of the vertices with a property -/

namespace EntityGraph

variable {g : EntityGraph}

/-- The numbers of some of the vertices, in the order of the vertices. -/
theorem numbersWhere_eq (hnodup : g.vertices.Nodup) (p : Vertex → Bool) :
    g.numbersWhere p = (g.vertices.filter p).map (g.vertices.idxOf ·) := by
  have hnumbers : g.vertices.map (g.vertices.idxOf ·) =
      List.range g.vertexCount := by
    refine List.ext_getElem (by rw [List.length_map, List.length_range]; rfl)
      fun id hid _ => ?_
    rw [List.getElem_map, List.getElem_range]
    exact hnodup.idxOf_getElem id (List.length_map _ ▸ hid)
  have hproperty : ∀ v ∈ g.vertices,
      (g.vertex? (g.vertices.idxOf v)).any p = p v := by
    intro v hv
    rw [vertex?, List.getElem?_idxOf hv, Option.any_some]
  rw [numbersWhere, ← hnumbers, List.filter_map]
  exact congrArg _ (List.filter_congr hproperty)

theorem numbersWhere_nodup (p : Vertex → Bool) : (g.numbersWhere p).Nodup :=
  List.nodup_range.filter _

end EntityGraph

namespace GraphBuilder

variable {b : GraphBuilder} {entered vs : List Vertex} {links : List Link}
  {parents attributes : List Vertex} {names : List (String × List Nat)}
  {s : Schema}

/-! ## Well-formed builders -/

/-- The vertices are distinct and found by their positions, and every number
that is kept is the position of a vertex. -/
structure WellFormed (b : GraphBuilder) : Prop where
  nodup : b.vertices.Nodup
  index_iff : ∀ v id, b.index.lookup v = some id ↔ b.vertices[id]? = some v
  edges_length : b.edges.length = b.vertices.length
  target_lt : ∀ edges ∈ b.edges, ∀ edge ∈ edges, edge.target < b.vertices.length
  parent_lt : ∀ name, ∀ id ∈ b.parentsNamed name, id < b.vertices.length
  attribute_lt : ∀ name, ∀ id ∈ b.attributesNamed name, id < b.vertices.length

theorem Lists.lt (h : Lists entered names vs) (name : String) :
    ∀ id ∈ numbersOf names name, id < entered.eraseDups.length := by
  intro id hid
  rw [h.numbers] at hid
  obtain ⟨v, hv, rfl⟩ := List.mem_map.1 hid
  exact numberOf_lt (h.mem v (List.mem_filter.1 hv).1)

/-- What has been recorded is well formed. -/
theorem Records.wellFormed (h : b.Records entered links parents attributes) :
    b.WellFormed where
  nodup := h.nodup
  index_iff v id := by
    rw [h.lookup_eq, h.vertices_eq]
    constructor
    · intro hlookup
      split at hlookup
      · next hv =>
        rw [← Option.some.inj hlookup]
        exact List.getElem?_idxOf (List.mem_eraseDups.2 hv)
      · cases hlookup
    · intro hvertex
      obtain ⟨hlt, rfl⟩ := List.getElem?_eq_some_iff.1 hvertex
      rw [if_pos (List.mem_eraseDups.1 (List.getElem_mem hlt)), numberOf,
        (nodup_eraseDups entered).idxOf_getElem id hlt]
  edges_length := by rw [h.edges_eq, List.length_map, h.vertices_eq]
  target_lt := by
    rw [h.edges_eq, h.vertices_eq]
    intro edges hedges edge hedge
    obtain ⟨v, -, rfl⟩ := List.mem_map.1 hedges
    obtain ⟨l, hl, rfl⟩ := List.mem_map.1 hedge
    exact numberOf_lt (h.links_mem l (List.mem_filter.1 hl).1).2
  parent_lt name := h.vertices_eq ▸ h.parents.lt name
  attribute_lt name := h.vertices_eq ▸ h.attributes.lt name

/-- The searches from every vertex read and write only what is there. -/
structure InBounds (b : GraphBuilder) : Prop where
  search : ∀ source < b.vertices.length,
    b.graph.searchFrom? source = some (b.graph.searchFrom source)
  parents : ∀ source < b.vertices.length, ∀ name,
    (b.graph.searchFrom source).routesTo? (b.parentsNamed name) =
      some ((b.graph.searchFrom source).routesTo (b.parentsNamed name))
  attributes : ∀ source < b.vertices.length, ∀ name,
    (b.graph.searchFrom source).routesTo? (b.attributesNamed name) =
      some ((b.graph.searchFrom source).routesTo (b.attributesNamed name))
  trails : ∀ source < b.vertices.length, ∀ targets room,
    b.graph.simpleTrails? targets room source [source] =
      some (b.graph.simpleTrails targets room source [source])

theorem WellFormed.inBounds (h : b.WellFormed) : b.InBounds := by
  have hsound : b.graph.Sound := ⟨h.edges_length, h.target_lt⟩
  constructor
  · intro source hsource
    exact (EntityGraph.searchFrom?_eq hsound hsource).1
  · intro source hsource name
    have hlength := (EntityGraph.searchFrom?_eq hsound hsource).2
    exact Search.routesTo?_eq fun id hid => hlength ▸ h.parent_lt name id hid
  · intro source hsource name
    have hlength := (EntityGraph.searchFrom?_eq hsound hsource).2
    exact Search.routesTo?_eq fun id hid => hlength ▸ h.attribute_lt name id hid
  · intro source hsource targets room
    exact EntityGraph.simpleTrails?_eq hsound targets room hsource [source]

/-! ## Indexes by name -/

/-- What entities have of their own is distinct if it is for each entity. -/
theorem nodup_flatMap_own {f : Entity → List Vertex}
    (hnodup : ∀ e ∈ s.entities, (f e).Nodup)
    (hown : ∀ e, ∀ v ∈ f e, v.owner = e.name) :
    (s.entities.flatMap f).Nodup := by
  refine List.nodup_flatMap.2 ⟨hnodup, ?_⟩
  refine (List.pairwise_map.1 s.names_nodup).imp fun {e e'} hne => ?_
  intro v hv hv'
  exact hne ((hown e v hv).symm.trans (hown e' v hv'))

/-- An index by names has the numbers that the searches look for. -/
theorem Lists.eq_numbersWhere
    (h : Lists ((s.entities.map fun e => .entity e.name) ++
      s.entities.flatMap Entity.entered) names vs)
    (hnodup : vs.Nodup) {p : Vertex → Bool} {name : String}
    (hfilter : ((s.entities.map fun e => Vertex.entity e.name) ++
      s.entities.flatMap Entity.fieldVertices).filter p =
      vs.filter (·.name == name)) :
    numbersOf names name = (EntityGraph.ofSchema s).numbersWhere p := by
  have hvertices : s.vertices.filter p = vs.filter (·.name == name) := by
    rw [Schema.vertices, filter_eraseDups, hfilter,
      eraseDups_of_nodup (hnodup.filter _)]
  rw [h.numbers, EntityGraph.numbersWhere_eq s.vertices_nodup]
  show _ = (s.vertices.filter p).map _
  rw [hvertices]
  refine List.map_congr_left fun v _ => ?_
  rw [numberOf, Schema.vertices_eq]
  rfl

theorem filter_map_eq_nil {α : Type} {f : α → Vertex} {p : Vertex → Bool}
    (h : ∀ a, p (f a) = false) (l : List α) : (l.map f).filter p = [] := by
  refine List.filter_eq_nil_iff.2 fun v hv => ?_
  obtain ⟨a, -, rfl⟩ := List.mem_map.1 hv
  rw [h]
  decide

/-- The vertices with a property that no entity has are fields with it. -/
theorem filter_fields {p : Vertex → Bool}
    (hentity : ∀ name, p (.entity name) = false) :
    ((s.entities.map fun e => Vertex.entity e.name) ++
        s.entities.flatMap Entity.fieldVertices).filter p =
      s.entities.flatMap fun e =>
        e.attributeVertices.filter p ++ e.parentVertices.filter p := by
  rw [List.filter_append, filter_map_eq_nil fun _ => hentity _, List.nil_append,
    List.filter_flatMap]
  exact List.flatMap_congr fun e _ => List.filter_append ..

theorem filter_parents {p : Vertex → Bool} {name : String}
    (hentity : ∀ other, p (.entity other) = false)
    (hattribute : ∀ owner other, p (.attributeOf owner other) = false)
    (hparent : ∀ owner other, p (.parentOf owner other) = (other == name)) :
    ((s.entities.map fun e => Vertex.entity e.name) ++
        s.entities.flatMap Entity.fieldVertices).filter p =
      (s.entities.flatMap Entity.parentVertices).filter (·.name == name) := by
  rw [filter_fields hentity, List.filter_flatMap]
  refine List.flatMap_congr fun e _ => ?_
  rw [Entity.attributeVertices, filter_map_eq_nil fun _ => hattribute _ _,
    List.nil_append]
  refine List.filter_congr fun v hv => ?_
  obtain ⟨r, -, rfl⟩ := List.mem_map.1 hv
  exact hparent _ _

theorem filter_attributes {p : Vertex → Bool} {name : String}
    (hentity : ∀ other, p (.entity other) = false)
    (hattribute : ∀ owner other, p (.attributeOf owner other) = (other == name))
    (hparent : ∀ owner other, p (.parentOf owner other) = false) :
    ((s.entities.map fun e => Vertex.entity e.name) ++
        s.entities.flatMap Entity.fieldVertices).filter p =
      (s.entities.flatMap Entity.attributeVertices).filter
        (·.name == name) := by
  rw [filter_fields hentity, List.filter_flatMap]
  refine List.flatMap_congr fun e _ => ?_
  rw [Entity.parentVertices, filter_map_eq_nil fun _ => hparent _ _,
    List.append_nil]
  refine List.filter_congr fun v hv => ?_
  obtain ⟨a, -, rfl⟩ := List.mem_map.1 hv
  exact hattribute _ _

theorem parentsNamed_eq (hnames : ∀ e ∈ s.entities, e.NamesDistinct)
    (name : String) :
    (ofSchema s).parentsNamed name =
      (EntityGraph.ofSchema s).parentsNamed name := by
  refine (ofSchema_records s).parents.eq_numbersWhere (nodup_flatMap_own ?_ ?_)
    (filter_parents (fun _ => rfl) (fun _ _ => rfl) fun _ _ => rfl)
  · intro e he
    refine List.Nodup.of_map Vertex.name ?_
    rw [Entity.parentVertices, List.map_map]
    exact (hnames e he).parents_nodup
  · intro e v hv
    obtain ⟨r, -, rfl⟩ := List.mem_map.1 hv
    rfl

theorem attributesNamed_eq (hnames : ∀ e ∈ s.entities, e.NamesDistinct)
    (name : String) :
    (ofSchema s).attributesNamed name =
      (EntityGraph.ofSchema s).attributesNamed name := by
  refine (ofSchema_records s).attributes.eq_numbersWhere
    (nodup_flatMap_own ?_ ?_)
    (filter_attributes (fun _ => rfl) (fun _ _ => rfl) fun _ _ => rfl)
  · intro e he
    refine List.Nodup.of_map Vertex.name ?_
    rw [Entity.attributeVertices, List.map_map]
    exact (List.map_id _).symm ▸ (hnames e he).attributeNames_nodup
  · intro e v hv
    obtain ⟨a, -, rfl⟩ := List.mem_map.1 hv
    rfl

end GraphBuilder

/-! ## What a schema has -/

namespace Schema

/-- The vertices of a schema: its entities, their attributes and identities, and
their relations to parents. -/
inductive HasVertex (s : Schema) : Vertex → Prop where
  | entity {e : Entity} (he : e ∈ s.entities) : HasVertex s (.entity e.name)
  | identity {e : Entity} (he : e ∈ s.entities) :
      HasVertex s (.attributeOf e.name e.identity)
  | stored {e : Entity} {a : Attribute} (he : e ∈ s.entities)
      (ha : a ∈ e.attributes) :
      HasVertex s (.attributeOf e.name a.name)
  | parent {e : Entity} {r : Relation} (he : e ∈ s.entities)
      (hr : r ∈ e.relations) (hkind : r.kind = .belongsTo) :
      HasVertex s (.parentOf e.name r.name)

/-- The arcs of a schema with their weights: from an entity to its identity and
attributes, from an entity to its relations to parents, and from these to the
parents. -/
inductive HasArc (s : Schema) : Vertex → Vertex → Nat → Prop where
  | identity {e : Entity} (he : e ∈ s.entities) :
      HasArc s (.entity e.name) (.attributeOf e.name e.identity) 0
  | stored {e : Entity} {a : Attribute} (he : e ∈ s.entities)
      (ha : a ∈ e.attributes) :
      HasArc s (.entity e.name) (.attributeOf e.name a.name) 0
  | required {e : Entity} {r : Relation} (he : e ∈ s.entities)
      (hr : r ∈ e.relations) (hkind : r.kind = .belongsTo)
      (hoptional : r.optional = false) :
      HasArc s (.entity e.name) (.parentOf e.name r.name) 1
  | optional {e : Entity} {r : Relation} (he : e ∈ s.entities)
      (hr : r ∈ e.relations) (hkind : r.kind = .belongsTo)
      (hoptional : r.optional = true) :
      HasArc s (.entity e.name) (.parentOf e.name r.name) 2
  | target {e : Entity} {r : Relation} (he : e ∈ s.entities)
      (hr : r ∈ e.relations) (hkind : r.kind = .belongsTo) :
      HasArc s (.parentOf e.name r.name) (.entity r.target) 0

variable {s : Schema} {v w : Vertex} {weight : Nat}

theorem hasVertex_iff : s.HasVertex v ↔ v ∈ s.vertices := by
  rw [mem_vertices_iff]
  constructor
  · intro h
    cases h with
    | entity he => exact .inl ⟨_, he, rfl⟩
    | @identity e he =>
      refine .inr ⟨e, he, List.mem_append_left _ (List.mem_map_of_mem ?_)⟩
      exact Entity.mem_attributeNames_iff_identity.2 (.inl rfl)
    | @stored e a he ha =>
      refine .inr ⟨e, he, List.mem_append_left _ (List.mem_map_of_mem ?_)⟩
      exact Entity.mem_attributeNames_iff_identity.2 (.inr ⟨a, ha, rfl⟩)
    | @parent e r he hr hkind =>
      refine .inr ⟨e, he, List.mem_append_right _ (List.mem_map.2 ⟨r, ?_, rfl⟩)⟩
      exact Entity.mem_parents_iff.2 ⟨hr, hkind⟩
  · intro h
    rcases h with ⟨e, he, rfl⟩ | ⟨e, he, hfield⟩
    · exact .entity he
    · rcases List.mem_append.1 hfield with hattribute | hparent
      · obtain ⟨name, hname, rfl⟩ := List.mem_map.1 hattribute
        rcases Entity.mem_attributeNames_iff_identity.1 hname with
          rfl | ⟨a, ha, rfl⟩
        · exact .identity he
        · exact .stored he ha
      · obtain ⟨r, hr, rfl⟩ := List.mem_map.1 hparent
        obtain ⟨hr, hkind⟩ := Entity.mem_parents_iff.1 hr
        exact .parent he hr hkind

/-- A relation has a vertex only if it leads to a parent. -/
theorem hasVertex_parentOf_iff {owner name : String} :
    s.HasVertex (.parentOf owner name) ↔
      ∃ e ∈ s.entities, e.name = owner ∧
        ∃ r ∈ e.relations, r.name = name ∧ r.kind = .belongsTo := by
  constructor
  · intro h
    generalize hv : Vertex.parentOf owner name = v at h
    cases h with
    | @parent e r he hr hkind =>
      obtain ⟨rfl, rfl⟩ := Vertex.parentOf.inj hv
      exact ⟨e, he, rfl, r, hr, rfl, hkind⟩
    | _ => cases hv
  · rintro ⟨e, he, rfl, r, hr, rfl, hkind⟩
    exact .parent he hr hkind

theorem hasArc_iff : s.HasArc v w weight ↔ (w, weight) ∈ s.arcs v := by
  constructor
  · intro h
    cases h with
    | identity he =>
      exact (mem_arcs_entity_iff he).2
        (.inl ⟨_, Entity.mem_attributeNames_iff_identity.2 (.inl rfl),
          rfl, rfl⟩)
    | stored he ha =>
      exact (mem_arcs_entity_iff he).2
        (.inl ⟨_, Entity.mem_attributeNames_iff_identity.2 (.inr ⟨_, ha, rfl⟩),
          rfl, rfl⟩)
    | @required e r he hr hkind hoptional =>
      refine (mem_arcs_entity_iff he).2
        (.inr ⟨r, Entity.mem_parents_iff.2 ⟨hr, hkind⟩, rfl, ?_⟩)
      rw [Relation.weight, if_neg (by rw [hoptional]; decide)]
      rfl
    | @optional e r he hr hkind hoptional =>
      refine (mem_arcs_entity_iff he).2
        (.inr ⟨r, Entity.mem_parents_iff.2 ⟨hr, hkind⟩, rfl, ?_⟩)
      rw [Relation.weight, if_pos hoptional]
      rfl
    | @target e r he hr hkind =>
      exact (mem_arcs_parent_iff he).2
        ⟨r, Entity.mem_parents_iff.2 ⟨hr, hkind⟩, rfl, rfl, rfl⟩
  · intro h
    obtain ⟨e, he, rfl | ⟨name, rfl⟩⟩ := exists_of_mem_arcs h
    · rcases (mem_arcs_entity_iff he).1 h with
        ⟨name, hname, rfl, rfl⟩ | ⟨r, hr, rfl, rfl⟩
      · rcases Entity.mem_attributeNames_iff_identity.1 hname with
          rfl | ⟨a, ha, rfl⟩
        · exact .identity he
        · exact .stored he ha
      · obtain ⟨hr, hkind⟩ := Entity.mem_parents_iff.1 hr
        rw [Relation.weight]
        by_cases hoptional : r.optional = true
        · rw [if_pos hoptional]
          exact .optional he hr hkind hoptional
        · rw [if_neg hoptional]
          exact .required he hr hkind (Bool.eq_false_iff.2 hoptional)
    · obtain ⟨r, hr, rfl, rfl, rfl⟩ := (mem_arcs_parent_iff he).1 h
      obtain ⟨hr, hkind⟩ := Entity.mem_parents_iff.1 hr
      exact .target he hr hkind

theorem HasArc.source (h : s.HasArc v w weight) : s.HasVertex v := by
  cases h with
  | identity he => exact .entity he
  | stored he _ => exact .entity he
  | required he _ _ _ => exact .entity he
  | optional he _ _ _ => exact .entity he
  | target he hr hkind => exact .parent he hr hkind

/-- The arcs of a schema are the edges between its vertices. -/
theorem hasArc_iff_edge : s.HasArc v w weight ↔
    ∃ id edge, (EntityGraph.ofSchema s).vertex? id = some v ∧
      edge ∈ (EntityGraph.ofSchema s).edgesFrom id ∧
      (EntityGraph.ofSchema s).vertex? edge.target = some w ∧
      edge.weight = weight := by
  constructor
  · intro h
    have hv := vertex?_idxOf (hasVertex_iff.1 h.source)
    rw [hasArc_iff] at h
    have hedge := mem_edgesFrom_iff.2 ⟨v, hv, w, weight, h, rfl⟩
    exact ⟨_, _, hv, hedge, vertex?_idxOf (arcs_mem_vertices h), rfl⟩
  · rintro ⟨id, edge, hv, hedge, hw, rfl⟩
    obtain ⟨w', harc, hw'⟩ := exists_arc hv hedge
    obtain rfl := Option.some.inj (hw'.symm.trans hw)
    exact hasArc_iff.2 harc

end Schema

/-! ## The mirror -/

namespace GraphBuilder

/-- The graph has the vertices and the arcs of the schema and no others.
Relations to children are not in it, whatever the names are. -/
structure Depicts (b : GraphBuilder) (s : Schema) : Prop where
  mem_vertices_iff : ∀ v, v ∈ b.vertices ↔ s.HasVertex v
  edge_iff : ∀ v w weight, s.HasArc v w weight ↔
    ∃ id edge, b.graph.vertex? id = some v ∧ edge ∈ b.graph.edgesFrom id ∧
      b.graph.vertex? edge.target = some w ∧ edge.weight = weight

/-- The graph has the vertices and the arcs of the schema, each once, and its
indexes list the vertices of each name. A relation to children has no vertex of
its name. -/
structure Mirrors (b : GraphBuilder) (s : Schema) :
    Prop extends b.Depicts s where
  edges_nodup : ∀ id, ((b.graph.edgesFrom id).map Edge.target).Nodup
  mem_parentsNamed_iff : ∀ name id, id ∈ b.parentsNamed name ↔
    ∃ owner, b.graph.vertex? id = some (.parentOf owner name)
  parentsNamed_nodup : ∀ name, (b.parentsNamed name).Nodup
  mem_attributesNamed_iff : ∀ name id, id ∈ b.attributesNamed name ↔
    ∃ owner, b.graph.vertex? id = some (.attributeOf owner name)
  attributesNamed_nodup : ∀ name, (b.attributesNamed name).Nodup
  children_notMem : ∀ e ∈ s.entities, ∀ r ∈ e.relations, r.kind = .hasMany →
    .parentOf e.name r.name ∉ b.vertices

theorem ofSchema_vertices (s : Schema) : (ofSchema s).vertices = s.vertices :=
  congrArg EntityGraph.vertices (ofSchema_graph s)

theorem ofSchema_depicts (s : Schema) : (ofSchema s).Depicts s where
  mem_vertices_iff v := by rw [ofSchema_vertices, Schema.hasVertex_iff]
  edge_iff v w weight := by
    rw [ofSchema_graph]
    exact Schema.hasArc_iff_edge

/-- A relation to children shares its name with no relation to a parent. -/
theorem children_notMem_vertices {s : Schema}
    (hnames : ∀ e ∈ s.entities, e.NamesDistinct) {e : Entity}
    (he : e ∈ s.entities) {r : Relation} (hr : r ∈ e.relations)
    (hkind : r.kind = .hasMany) : ¬ s.HasVertex (.parentOf e.name r.name) := by
  intro h
  obtain ⟨e', he', hname, r', hr', hname', hkind'⟩ :=
    Schema.hasVertex_parentOf_iff.1 h
  obtain rfl := Schema.entity_eq_of_name he' he hname
  obtain rfl := List.inj_on_of_nodup_map (hnames e' he').relations hr' hr hname'
  rw [hkind] at hkind'
  cases hkind'

/-- The graph that is built for a schema is well formed, and no search in it
goes out of bounds. It has the vertices and the arcs of the schema. If the names
of the attributes and of the relations of each entity are distinct, it has each
of them once and lists them by their names. -/
theorem ofSchema_mirrors (s : Schema) :
    (ofSchema s).WellFormed ∧ (ofSchema s).InBounds ∧ (ofSchema s).Depicts s ∧
      ((∀ e ∈ s.entities, e.NamesDistinct) → (ofSchema s).Mirrors s) := by
  have hformed := (ofSchema_records s).wellFormed
  have hdepicts := ofSchema_depicts s
  refine ⟨hformed, hformed.inBounds, hdepicts,
    fun hnames => ⟨hdepicts, ?_, ?_, ?_, ?_, ?_, ?_⟩⟩
  · intro id
    rw [ofSchema_graph]
    exact Schema.edgesFrom_nodup hnames id
  · intro name id
    rw [ofSchema_graph, parentsNamed_eq hnames]
    exact EntityGraph.mem_parentsNamed_iff
  · intro name
    rw [parentsNamed_eq hnames]
    exact EntityGraph.numbersWhere_nodup _
  · intro name id
    rw [ofSchema_graph, attributesNamed_eq hnames]
    exact EntityGraph.mem_attributesNamed_iff
  · intro name
    rw [attributesNamed_eq hnames]
    exact EntityGraph.numbersWhere_nodup _
  · intro e he r hr hkind
    rw [hdepicts.mem_vertices_iff]
    exact children_notMem_vertices hnames he hr hkind

end GraphBuilder

/-! ## An example -/

namespace Weblog

/-- A comment is on a post, which is declared later; it may answer another
comment and may have an editor. -/
def comment : Entity :=
  { Entity.new "comment" with
    attributes := [⟨"body", .string, none⟩]
    relations := [.parent "post" "post",
      (Relation.parent "answered" "comment").nullable,
      (Relation.parent "editor" "user").nullable] }

def post : Entity :=
  { Entity.new "post" with
    attributes := [⟨"id", .integer, none⟩, ⟨"title", .string, none⟩]
    relations :=
      [.parent "user" "user", .children "comments" "comment" "post"] }

def user : Entity :=
  { Entity.new "user" with
    attributes := [⟨"name", .string, none⟩]
    relations := [.children "posts" "post" "user"] }

def schema : Schema where
  entities := [comment, post, user]
  names_nodup := by decide
  targets_declared := by decide

end Weblog

/-- The graph of the weblog has three entities, six attributes and four
relations to parents. -/
theorem GraphBuilder.ofSchema_mirrors_weblog :
    (GraphBuilder.ofSchema Weblog.schema).Mirrors Weblog.schema ∧
      (GraphBuilder.ofSchema Weblog.schema).vertices.length = 13 ∧
      (GraphBuilder.ofSchema Weblog.schema).graph.edgeCount = 14 ∧
      (GraphBuilder.ofSchema Weblog.schema).parentsNamed "user" = [10] ∧
      (GraphBuilder.ofSchema Weblog.schema).attributesNamed "id" =
        [3, 8, 11] := by
  have hnames : ∀ e ∈ Weblog.schema.entities, e.NamesDistinct := by
    intro e he
    rcases List.mem_cons.1 he with rfl | he
    · exact ⟨by decide, by decide⟩
    · rcases List.mem_pair.1 he with rfl | rfl
      · exact ⟨by decide, by decide⟩
      · exact ⟨by decide, by decide⟩
  refine ⟨(ofSchema_mirrors Weblog.schema).2.2.2 hnames, ?_, ?_, ?_, ?_⟩
  all_goals decide

end RowGuard
