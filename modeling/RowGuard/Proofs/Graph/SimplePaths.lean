import RowGuard.Proofs.Graph.Cheapest

/-!
# The simple paths are the chains of parents

`EntityGraph.allPaths` searches the graph by depth and leaves the entities out
of what it finds.  This module says which paths these are in terms of the
schema.

* `EntityGraph.simpleTrails_nodup` and `EntityGraph.simpleTrails_room`: the
  search finds no trail twice, and it is over when it has room for every vertex.
* `EntityGraph.Walk.nodup`: a walk repeats no vertex if it passes no entity
  twice.
* `EntityGraph.Walk.eq_of_namesOn`: the names tell the walk.
* `Schema.Means` says which fields of the ancestors a name means.
* `EntityGraph.allPaths_simple` is the result: every chain of parents that
  passes no entity twice is listed once, followed by the name, if the name means
  a field of its last entity.
* `EntityGraph.shortestPath_own`: the cheapest path to a field of the entity
  itself is the field.
-/

namespace RowGuard

namespace EntityGraph

variable {g : EntityGraph} {targets : List Nat} {room last source id : Nat}
  {trail longer : List Nat}

/-! ## The search by depth -/

/-- The search is over if there is room for every vertex. -/
theorem simpleTrails_of_full (hclosed : g.Closed)
    (hnodup : (last :: trail).Nodup)
    (hlt : ∀ id ∈ last :: trail, id < g.vertexCount)
    (hfull : g.vertexCount ≤ (last :: trail).length) :
    g.simpleTrails targets (room + 1) last (last :: trail) =
      g.simpleTrails targets 0 last (last :: trail) := by
  have hsubset : last :: trail ⊆ List.range g.vertexCount := fun id hid =>
    List.mem_range.2 (hlt id hid)
  have hperm : (last :: trail).Perm (List.range g.vertexCount) := by
    refine (List.subperm_of_subset hnodup hsubset).perm_of_length_le ?_
    rwa [List.length_range]
  -- every vertex has been visited
  have hnone : ((g.edgesFrom last).flatMap fun edge =>
      if (last :: trail).contains edge.target then []
      else g.simpleTrails targets room edge.target
        (edge.target :: last :: trail)) = [] := by
    rw [List.flatMap_eq_nil_iff]
    intro edge hedge
    have hvisited : edge.target ∈ last :: trail :=
      hperm.mem_iff.2 (List.mem_range.2 (hclosed last edge hedge))
    rw [if_pos (List.contains_iff_mem.2 hvisited)]
  rw [simpleTrails, simpleTrails, hnone, List.append_nil]

/-- More room than for every vertex changes nothing. -/
theorem simpleTrails_succ (hclosed : g.Closed) (hnodup : (last :: trail).Nodup)
    (hlt : ∀ id ∈ last :: trail, id < g.vertexCount)
    (hroom : g.vertexCount ≤ (last :: trail).length + room) :
    g.simpleTrails targets (room + 1) last (last :: trail) =
      g.simpleTrails targets room last (last :: trail) := by
  induction room generalizing last trail with
  | zero => exact simpleTrails_of_full hclosed hnodup hlt hroom
  | succ room ih =>
    rw [simpleTrails, simpleTrails]
    refine congrArg _ (List.flatMap_congr fun edge hedge => ?_)
    split
    · rfl
    · next hfresh =>
      have hfresh : edge.target ∉ last :: trail := by simpa using hfresh
      have hlt' : ∀ id ∈ edge.target :: last :: trail, id < g.vertexCount :=
        List.forall_mem_cons.2 ⟨hclosed last edge hedge, hlt⟩
      refine ih (List.nodup_cons.2 ⟨hfresh, hnodup⟩) hlt' ?_
      simp only [List.length_cons] at hroom ⊢
      omega

/-- With room for every vertex the search finds whatever it finds with more. -/
theorem simpleTrails_room (hclosed : g.Closed)
    (hsource : source < g.vertexCount) (targets : List Nat) (extra : Nat) :
    g.simpleTrails targets (g.vertexCount + extra) source [source] =
      g.simpleTrails targets g.vertexCount source [source] := by
  induction extra with
  | zero => rfl
  | succ extra ih =>
    rw [← ih]
    refine simpleTrails_succ hclosed (List.nodup_singleton source)
      (by simpa using hsource) ?_
    exact Nat.le_trans (Nat.le_add_right ..) (Nat.le_add_left ..)

/-- If a vertex has one edge to each vertex then the search finds no trail
twice. -/
theorem simpleTrails_nodup
    (hedges : ∀ id, ((g.edgesFrom id).map Edge.target).Nodup) :
    (g.simpleTrails targets room last (last :: trail)).Nodup := by
  have hfound : ∀ (last : Nat) (trail : List Nat),
      (if targets.contains last then [trail] else []).Nodup := by
    intro last trail
    split <;> simp
  induction room generalizing last trail with
  | zero => exact hfound last (last :: trail)
  | succ room ih =>
    have hsuffix : ∀ edge : Edge,
        ∀ longer ∈ (if (last :: trail).contains edge.target then []
          else g.simpleTrails targets room edge.target
            (edge.target :: last :: trail)),
        (edge.target :: last :: trail) <:+ longer := by
      intro edge longer hlonger
      split at hlonger
      · cases hlonger
      · exact (mem_simpleTrails_iff.1 hlonger).1.suffix
    rw [simpleTrails, List.nodup_append]
    refine ⟨hfound last (last :: trail), ?_, ?_⟩
    · rw [List.nodup_flatMap]
      refine ⟨fun edge _ => ?_, ?_⟩
      · split
        · exact List.nodup_nil
        · exact ih
      · refine (List.pairwise_map.1 (hedges last)).imp
          fun {edge other} hne => ?_
        -- two extensions of one trail part at its end
        intro longer hlonger hother
        have hpart := List.suffix_of_suffix_length_le
          (hsuffix edge longer hlonger)
          (hsuffix other longer hother) (Nat.le_refl _)
        exact hne (List.cons.inj (hpart.eq_of_length rfl)).1
    · intro found hmem longer hlonger
      obtain ⟨edge, -, hlonger⟩ := List.mem_flatMap.1 hlonger
      have hle := (hsuffix edge longer hlonger).length_le
      rw [(mem_stop_iff.1 hmem).1]
      rintro rfl
      simp only [List.length_cons] at hle
      omega

end EntityGraph

/-! ## Arcs -/

/-- The entity of the vertex: itself, or the one whose field it is. -/
def Vertex.owner : Vertex → String
  | .entity name => name
  | .attributeOf owner _ => owner
  | .parentOf owner _ => owner

/-- The attributes of an entity have different names, and so have its
relations. -/
structure Entity.NamesDistinct (e : Entity) : Prop where
  attributes : (e.attributes.map (·.name)).Nodup
  relations : (e.relations.map (·.name)).Nodup

namespace Entity.NamesDistinct

variable {e : Entity}

theorem attributeNames_nodup (h : e.NamesDistinct) :
    e.attributeNames.Nodup := by
  rw [attributeNames]
  split
  · exact h.attributes
  · next hnone =>
    refine List.nodup_cons.2 ⟨fun hmem => hnone ?_, h.attributes⟩
    obtain ⟨a, ha, hname⟩ := List.mem_map.1 hmem
    exact List.find?_isSome.2 ⟨a, ha, beq_iff_eq.2 hname⟩

theorem parents_nodup (h : e.NamesDistinct) :
    (e.parents.map Relation.name).Nodup :=
  h.relations.sublist (List.filter_sublist.map _)

end Entity.NamesDistinct

theorem Schema.FieldsDistinct.names {s : Schema} (h : s.FieldsDistinct) :
    ∀ e ∈ s.entities, e.NamesDistinct := fun e he => by
  obtain ⟨hattributes, hrelations, -⟩ := List.nodup_append.1 (h e he)
  rw [Entity.attributeNames, List.nodup_append] at hattributes
  exact ⟨hattributes.2.1, hrelations⟩

namespace Schema

variable {s : Schema} {v w w' : Vertex} {weight weight' : Nat}

/-- An arc leads from an entity to a field of it, or from a relation to an
entity. -/
theorem arcs_cases (h : (w, weight) ∈ s.arcs v) :
    w.isEntity = false ∧ v = .entity w.owner ∨
      w.isEntity = true ∧ v.isEntity = false := by
  obtain ⟨e, he, rfl | ⟨name, rfl⟩⟩ := exists_of_mem_arcs h
  · rcases (mem_arcs_entity_iff he).1 h with ⟨a, -, rfl, -⟩ | ⟨r, -, rfl, -⟩
    · exact .inl ⟨rfl, rfl⟩
    · exact .inl ⟨rfl, rfl⟩
  · obtain ⟨r, -, -, rfl, -⟩ := (mem_arcs_parent_iff he).1 h
    exact .inr ⟨rfl, rfl⟩

/-- A vertex has one arc to an entity, and one to each of its fields. -/
theorem arcs_unique (hdistinct : s.FieldsDistinct) (h : (w, weight) ∈ s.arcs v)
    (h' : (w', weight') ∈ s.arcs v)
    (hname : w.isEntity = false → w.name = w'.name) :
    w = w' := by
  obtain ⟨e, he, rfl | ⟨name, rfl⟩⟩ := exists_of_mem_arcs h
  · have hfields := (List.nodup_append.1 (hdistinct e he)).2.2
    rcases (mem_arcs_entity_iff he).1 h with
      ⟨a, ha, rfl, -⟩ | ⟨r, hr, rfl, -⟩ <;>
      rcases (mem_arcs_entity_iff he).1 h' with
        ⟨a', ha', rfl, -⟩ | ⟨r', hr', rfl, -⟩
    · rw [show a = a' from hname rfl]
    · have hne := hfields a ha r'.name
        (List.mem_map_of_mem (Entity.mem_parents_iff.1 hr').1)
      exact absurd (hname rfl) hne
    · have hne := hfields a' ha' r.name
        (List.mem_map_of_mem (Entity.mem_parents_iff.1 hr).1)
      exact absurd (hname rfl).symm hne
    · rw [show r.name = r'.name from hname rfl]
  · obtain ⟨r, hr, rfl, rfl, -⟩ := (mem_arcs_parent_iff he).1 h
    obtain ⟨r', hr', hsame, rfl, -⟩ := (mem_arcs_parent_iff he).1 h'
    rw [Entity.parent_eq_of_name (hdistinct e he) hr' hr hsame]

/-- No two arcs of a vertex lead to one vertex. -/
theorem arcs_nodup (hnames : ∀ e ∈ s.entities, e.NamesDistinct) (v : Vertex) :
    ((s.arcs v).map Prod.fst).Nodup := by
  cases v with
  | attributeOf owner name => exact List.nodup_nil
  | entity name =>
    rw [arcs]
    cases hfound : s.entity? name with
    | none => exact List.nodup_nil
    | some e =>
      have hattributes := (hnames e (entity?_mem hfound)).attributeNames_nodup
      have hparents := (hnames e (entity?_mem hfound)).parents_nodup
      rw [Option.elim_some, Entity.arcs, List.map_append, List.map_map,
        List.map_map, List.nodup_append]
      refine ⟨hattributes.map fun a a' h => (Vertex.attributeOf.inj h).2,
        ?_, ?_⟩
      · refine List.Nodup.of_map Vertex.name ?_
        rwa [List.map_map]
      · simp
  | parentOf owner name =>
    rw [arcs]
    cases hfound : s.entity? owner with
    | none => exact List.nodup_nil
    | some e =>
      have hparents :=
        List.pairwise_map.1 (hnames e (entity?_mem hfound)).parents_nodup
      rw [Option.elim_some, Entity.arcsOfParent, List.map_map]
      -- there is only one relation of the name
      refine List.pairwise_map.2
        ((hparents.filter _).imp_of_mem fun {r r'} hr hr' hne => ?_)
      have hname := beq_iff_eq.1 (List.mem_filter.1 hr).2
      have hname' := beq_iff_eq.1 (List.mem_filter.1 hr').2
      exact absurd (hname.trans hname'.symm) hne

/-- The edges of a vertex lead to different vertices. -/
theorem edgesFrom_nodup (hnames : ∀ e ∈ s.entities, e.NamesDistinct)
    (id : Nat) :
    (((EntityGraph.ofSchema s).edgesFrom id).map Edge.target).Nodup := by
  rw [EntityGraph.edgesFrom, EntityGraph.ofSchema]
  dsimp only
  rw [List.getElem?_map]
  cases s.vertices[id]? with
  | none => exact List.nodup_nil
  | some v =>
    rw [Option.map_some, Option.getD_some, List.map_map]
    refine List.pairwise_map.2
      ((List.pairwise_map.1 (arcs_nodup hnames v)).imp_of_mem ?_)
    rintro ⟨w, weight⟩ ⟨w', weight'⟩ harc - hne hsame
    exact hne (List.idxOf_inj (arcs_mem_vertices harc) |>.1 hsame)

end Schema

/-! ## Walks and names -/

namespace EntityGraph

variable {s : Schema} {source id : Nat} {trail trail' : List Nat}
  {cost cost' : Nat} {edge : Edge} {v v' : Vertex}

theorem eq_of_vertex? {id' : Nat} (h : (ofSchema s).vertex? id = some v)
    (h' : (ofSchema s).vertex? id' = some v) : id = id' := by
  rw [Schema.eq_idxOf_of_vertex? h, Schema.eq_idxOf_of_vertex? h']

theorem Walk.exists_vertex (h : (ofSchema s).Walk source (id :: trail) cost)
    (hsource : source < (ofSchema s).vertexCount) :
    ∃ v, (ofSchema s).vertex? id = some v := by
  have hlt :=
    h.lt_vertexCount (ofSchema_closed s) hsource id (List.mem_cons_self ..)
  exact ⟨_, List.getElem?_eq_getElem hlt⟩

/-- A walk has been a walk before its last step. -/
theorem Walk.before (h : (ofSchema s).Walk source (id :: trail) cost)
    (hne : trail ≠ []) :
    ∃ cost', (ofSchema s).Walk source trail cost' := by
  cases h with
  | start => exact absurd rfl hne
  | step before _ => exact ⟨_, before⟩

/-- The walk comes to a field from its entity. -/
theorem Walk.owner_mem (hsource : source < (ofSchema s).vertexCount)
    (hentity : ∃ name, (ofSchema s).vertex? source = some (.entity name))
    (h : (ofSchema s).Walk source trail cost) (hid : id ∈ trail)
    (hv : (ofSchema s).vertex? id = some v) :
    ∃ id' ∈ trail, (ofSchema s).vertex? id' = some (.entity v.owner) := by
  induction h with
  | start =>
    obtain rfl := List.mem_singleton.1 hid
    obtain ⟨name, hname⟩ := hentity
    obtain rfl := Option.some.inj (hname.symm.trans hv)
    exact ⟨_, List.mem_singleton_self _, hname⟩
  | @step last trail cost edge before hedge ih =>
    rcases List.mem_cons.1 hid with rfl | hid
    · obtain ⟨u, hu⟩ := before.exists_vertex hsource
      obtain ⟨w, harc, hw⟩ := Schema.exists_arc hu hedge
      obtain rfl := Option.some.inj (hw.symm.trans hv)
      rcases Schema.arcs_cases harc with ⟨-, rfl⟩ | ⟨hentity, -⟩
      · exact ⟨last, List.mem_cons_of_mem _ (List.mem_cons_self ..), hu⟩
      · cases w with
        | entity name => exact ⟨_, List.mem_cons_self .., hv⟩
        | _ => cases hentity
    · obtain ⟨id', hmem, hid'⟩ := ih hid
      exact ⟨id', List.mem_cons_of_mem _ hmem, hid'⟩

/-- A walk from an entity that passes no entity twice repeats no vertex at
all. -/
theorem Walk.nodup (hsource : source < (ofSchema s).vertexCount)
    (hentity : ∃ name, (ofSchema s).vertex? source = some (.entity name))
    (h : (ofSchema s).Walk source trail cost)
    (hnodup : ((ofSchema s).passedOn trail.reverse).Nodup) : trail.Nodup := by
  induction h with
  | start => exact List.nodup_singleton _
  | @step last trail cost edge before hedge ih =>
    obtain ⟨u, hu⟩ := before.exists_vertex hsource
    obtain ⟨w, harc, hw⟩ := Schema.exists_arc hu hedge
    rw [List.reverse_cons, passedOn_concat hw, List.nodup_append] at hnodup
    obtain ⟨hbefore, -, hfresh⟩ := hnodup
    have htrail := ih hbefore
    refine List.nodup_cons.2 ⟨fun hmem => ?_, htrail⟩
    rcases Schema.arcs_cases harc with ⟨hfield, rfl⟩ | ⟨hpassed, -⟩
    · -- the walk has come to the field before, from the entity where it is now
      have hmem : edge.target ∈ trail := by
        refine (List.mem_cons.1 hmem).resolve_left ?_
        rintro hsame
        rw [hsame, hu] at hw
        rw [← Option.some.inj hw] at hfield
        cases hfield
      obtain ⟨cost', hwalk⟩ := before.before (List.ne_nil_of_mem hmem)
      obtain ⟨id', hid', hv'⟩ := hwalk.owner_mem hsource hentity hmem hw
      obtain rfl := eq_of_vertex? hv' hu
      exact (List.nodup_cons.1 htrail).1 hid'
    · cases w with
      | entity name =>
        have hname : name ∈ (ofSchema s).passedOn (last :: trail).reverse :=
          List.mem_filterMap.2
            ⟨edge.target, List.mem_reverse.2 hmem, by rw [hw]; rfl⟩
        exact hfresh name hname name (List.mem_singleton_self _) rfl
      | _ => cases hpassed

/-- A walk back to an entity has a name on it. -/
theorem Walk.eq_start (hsource : source < (ofSchema s).vertexCount)
    (h : (ofSchema s).Walk source trail cost)
    (hv : trail.head?.bind (ofSchema s).vertex? = some v)
    (hentity : v.isEntity = true)
    (hnames : (ofSchema s).namesOn trail.reverse = []) :
    trail = [source] := by
  cases h with
  | start => rfl
  | @step last trail cost edge before hedge =>
    obtain ⟨u, hu⟩ := before.exists_vertex hsource
    obtain ⟨w, harc, hw⟩ := Schema.exists_arc hu hedge
    obtain rfl := Option.some.inj (hw.symm.trans hv)
    rw [List.reverse_cons, namesOn_concat hw, hentity, List.reverse_cons,
      namesOn_concat hu] at hnames
    rcases Schema.arcs_cases harc with ⟨hfield, -⟩ | ⟨-, hfield⟩
    · rw [hfield] at hentity
      cases hentity
    · simp [hfield] at hnames

/-- The names on a walk from an entity tell the walk, up to the entity of a
parent that it ends with. -/
theorem Walk.eq_of_namesOn (hdistinct : s.FieldsDistinct)
    (hsource : source < (ofSchema s).vertexCount)
    (hentity : ∃ name, (ofSchema s).vertex? source = some (.entity name))
    (h : (ofSchema s).Walk source trail cost)
    (h' : (ofSchema s).Walk source trail' cost')
    (hv : trail.head?.bind (ofSchema s).vertex? = some v)
    (hv' : trail'.head?.bind (ofSchema s).vertex? = some v')
    (hkind : v.isEntity = v'.isEntity)
    (hnames : (ofSchema s).namesOn trail.reverse =
      (ofSchema s).namesOn trail'.reverse) :
    trail = trail' := by
  obtain ⟨name, hstart⟩ := hentity
  induction h generalizing trail' cost' v v' with
  | start =>
    obtain rfl := Option.some.inj (hstart.symm.trans hv)
    refine (h'.eq_start hsource hv' hkind.symm ?_).symm
    rw [← hnames, List.reverse_singleton]
    exact namesOn_concat hstart []
  | @step last trail cost edge before hedge ih =>
    cases h' with
    | start =>
      obtain rfl := Option.some.inj (hstart.symm.trans hv')
      refine (before.step hedge).eq_start hsource hv hkind ?_
      rw [hnames, List.reverse_singleton]
      exact namesOn_concat hstart []
    | @step last' trail' cost' edge' before' hedge' =>
      obtain ⟨u, hu⟩ := before.exists_vertex hsource
      obtain ⟨u', hu'⟩ := before'.exists_vertex hsource
      obtain ⟨w, harc, hw⟩ := Schema.exists_arc hu hedge
      obtain ⟨w', harc', hw'⟩ := Schema.exists_arc hu' hedge'
      obtain rfl := Option.some.inj (hw.symm.trans hv)
      obtain rfl := Option.some.inj (hw'.symm.trans hv')
      rw [List.reverse_cons, namesOn_concat hw,
        List.reverse_cons (a := edge'.target), namesOn_concat hw',
        ← hkind] at hnames
      -- both walks have come from an entity to a field, or both from a field to
      -- an entity
      have hsplit : u.isEntity = u'.isEntity ∧
          (w.isEntity = false → w.name = w'.name) ∧
          (ofSchema s).namesOn (last :: trail).reverse =
            (ofSchema s).namesOn (last' :: trail').reverse := by
        rcases Schema.arcs_cases harc with ⟨hfield, rfl⟩ | ⟨hpassed, hu⟩ <;>
          rcases Schema.arcs_cases harc' with ⟨hfield', rfl⟩ | ⟨hpassed', hu'⟩
        · simp only [hfield, Bool.false_eq_true, if_false] at hnames
          obtain ⟨hbefore, hname⟩ := List.append_inj' hnames rfl
          exact ⟨rfl, fun _ => List.head_eq_of_cons_eq hname, hbefore⟩
        · rw [hfield, hpassed'] at hkind
          cases hkind
        · rw [hpassed, hfield'] at hkind
          cases hkind
        · simp only [hpassed, if_true, List.append_nil] at hnames
          exact ⟨hu.trans hu'.symm,
            fun hfield => absurd (hpassed.symm.trans hfield) (by decide),
            hnames⟩
      obtain ⟨hkind', hname, hbefore⟩ := hsplit
      have hsame := ih before' hu hu' hkind' hbefore
      obtain ⟨rfl, rfl⟩ := List.cons.inj hsame
      obtain rfl := Option.some.inj (hu.symm.trans hu')
      obtain rfl := Schema.arcs_unique hdistinct harc harc' hname
      rw [eq_of_vertex? hw hw']

end EntityGraph

/-! ## What a name means -/

namespace Schema

variable {s : Schema} {e t : Entity} {field : String}

/-- A field of the entity `t` that costs `weight` can be paid for from `e`. -/
def InReach (s : Schema) (e t : Entity) (weight : Nat) : Prop :=
  ∃ rs, s.Ascent e rs t ∧ joinCost rs + weight < Route.costLimit

/-- What a name means from an entity on: the parents of the name that are in
reach, or else the attributes of the name that are in reach. -/
def Means (s : Schema) (e t : Entity) (field : String) : Prop :=
  (∃ r ∈ t.parents, r.name = field ∧ s.InReach e t r.weight) ∨
    field ∈ t.attributeNames ∧ s.InReach e t 0 ∧
      ∀ t' ∈ s.entities, ∀ r ∈ t'.parents, r.name = field →
        ¬ s.InReach e t' r.weight

/-- An arrival is at a vertex of the schema. -/
theorem Arrives.mem_vertices {v : Vertex} {names passed : List String}
    {cost : Nat} (h : s.Arrives e v names passed cost) (he : e ∈ s.entities) :
    v ∈ s.vertices := by
  cases h with
  | entity h => exact entity_mem_vertices (h.declared he)
  | field h hname =>
    exact arcs_mem_vertices
      ((mem_arcs_entity_iff (h.declared he)).2 (.inl ⟨_, hname, rfl, rfl⟩))
  | parent h hr =>
    exact arcs_mem_vertices
      ((mem_arcs_entity_iff (h.declared he)).2 (.inr ⟨_, hr, rfl, rfl⟩))

theorem exists_arrives_parent_iff (he : e ∈ s.entities) (ht : t ∈ s.entities) :
    (∃ names passed cost,
      s.Arrives e (.parentOf t.name field) names passed cost ∧
        cost < Route.costLimit) ↔
      ∃ r ∈ t.parents, r.name = field ∧ s.InReach e t r.weight := by
  constructor
  · rintro ⟨names, passed, cost, harrives, hlt⟩
    obtain ⟨rs, t', hascent, -, -, ⟨hv, -⟩ | ⟨r, hr, hname, hv, rfl⟩⟩ :=
      harrives.field_cases ⟨t.name, .inl rfl⟩
    · cases hv
    · obtain ⟨howner, -⟩ := Vertex.parentOf.inj hv
      obtain rfl := entity_eq_of_name ht (hascent.declared he) howner
      exact ⟨r, hr, hname, rs, hascent, hlt⟩
  · rintro ⟨r, hr, rfl, rs, hascent, hlt⟩
    exact ⟨_, _, _, .parent hascent hr, hlt⟩

theorem exists_arrives_attribute_iff (he : e ∈ s.entities)
    (ht : t ∈ s.entities) :
    (∃ names passed cost,
      s.Arrives e (.attributeOf t.name field) names passed cost ∧
        cost < Route.costLimit) ↔
      field ∈ t.attributeNames ∧ s.InReach e t 0 := by
  constructor
  · rintro ⟨names, passed, cost, harrives, hlt⟩
    obtain ⟨rs, t', hascent, -, -, ⟨hv, hfield, rfl⟩ | ⟨r, -, -, hv, -⟩⟩ :=
      harrives.field_cases ⟨t.name, .inr rfl⟩
    · obtain ⟨howner, -⟩ := Vertex.attributeOf.inj hv
      obtain rfl := entity_eq_of_name ht (hascent.declared he) howner
      exact ⟨hfield, rs, hascent, hlt⟩
    · cases hv
  · rintro ⟨hfield, rs, hascent, hlt⟩
    exact ⟨_, _, _, .field hascent hfield, hlt⟩

/-- In a schema of ordinary size whatever can be reached is in reach. -/
theorem inReach_iff (he : e ∈ s.entities)
    (hsize : optionalWeight * s.entities.length < Route.costLimit)
    {weight : Nat} (hweight : weight ≤ optionalWeight) : s.InReach e t weight ↔
      ∃ rs, s.Ascent e rs t := by
  constructor
  · rintro ⟨rs, hascent, -⟩
    exact ⟨rs, hascent⟩
  · rintro ⟨rs, hascent⟩
    obtain ⟨rs', hascent', hcost⟩ := hascent.exists_joinCost_le he
    exact ⟨rs', hascent', by omega⟩

/-- In a schema of ordinary size a name means every parent of the name that can
be reached, or else every attribute. -/
theorem means_iff (he : e ∈ s.entities)
    (hsize : optionalWeight * s.entities.length < Route.costLimit)
    {rs : List Relation} (h : s.Ascent e rs t) :
    s.Means e t field ↔ (∃ r ∈ t.parents, r.name = field) ∨
      (field = t.identity ∨ ∃ a ∈ t.attributes, a.name = field) ∧
        ∀ rs' t', s.Ascent e rs' t' → ∀ r ∈ t'.parents, r.name ≠ field := by
  have hreach : ∀ t' weight, weight ≤ optionalWeight →
      (s.InReach e t' weight ↔ ∃ rs, s.Ascent e rs t') :=
    fun _ _ => inReach_iff he hsize
  rw [Means, Entity.mem_attributeNames_iff_identity, hreach t 0 (Nat.zero_le _)]
  constructor
  · rintro (⟨r, hr, hname, -⟩ | ⟨hfield, -, hfar⟩)
    · exact .inl ⟨r, hr, hname⟩
    · refine .inr ⟨hfield, fun rs' t' hascent r hr hname => ?_⟩
      exact hfar t' (hascent.declared he) r hr hname
        ((hreach t' r.weight (weight_le r)).2 ⟨rs', hascent⟩)
  · rintro (⟨r, hr, hname⟩ | ⟨hfield, hnone⟩)
    · exact .inl ⟨r, hr, hname, (hreach t r.weight (weight_le r)).2 ⟨rs, h⟩⟩
    · refine .inr ⟨hfield, ⟨rs, h⟩, fun t' _ r hr hname hclose => ?_⟩
      obtain ⟨rs', hascent, -⟩ := hclose
      exact hnone rs' t' hascent r hr hname

end Schema

namespace EntityGraph

variable {s : Schema} {e t : Entity} {field : String} {id : Nat} {v : Vertex}

/-- Short paths come first. -/
theorem allPaths_pairwise (g : EntityGraph) (entity field : String) :
    (g.allPaths entity field).Pairwise fun p q => p.length ≤ q.length := by
  rw [allPaths]
  split
  · exact List.pairwise_singleton ..
  · split
    · exact List.Pairwise.nil
    · dsimp only
      split
      · exact List.Pairwise.nil
      · let shorter (p q : List String) : Bool := p.length ≤ q.length
        have htrans : ∀ p q r, shorter p q = true → shorter q r = true →
            shorter p r = true := by
          simpa [shorter] using fun p q r => Nat.le_trans
        have htotal : ∀ p q, (shorter p q || shorter q p) = true := by
          simpa [shorter] using fun p q => Nat.le_total ..
        exact (List.pairwise_mergeSort htrans htotal _).imp fun h => by
          simpa [shorter] using h

section

variable (hdistinct : s.FieldsDistinct) (he : e ∈ s.entities)

include hdistinct he

/-- The search has a route to a vertex if some arrival there costs less than the
limit. -/
theorem exists_route?_iff (hv : (ofSchema s).vertex? id = some v) :
    (∃ r, ((ofSchema s).searchFrom (s.vertices.idxOf (.entity e.name))).route?
      id = some r) ↔
      ∃ names passed cost, s.Arrives e v names passed cost ∧
        cost < Route.costLimit := by
  constructor
  · rintro ⟨r, hroute⟩
    obtain ⟨harrives, -, hlt⟩ := arrives_of_route? hdistinct he hv hroute
    exact ⟨_, _, _, harrives, hlt⟩
  · rintro ⟨names, passed, cost, harrives, hlt⟩
    exact Search.exists_route
      (Nat.lt_of_le_of_lt (searchFrom_cost_le_of_arrives he hv harrives) hlt)

/-- No parent of the name is reached if none of an entity is in reach. -/
theorem parents_unreached_iff :
    (∀ other owner, (ofSchema s).vertex? other = some (.parentOf owner field) →
        ((ofSchema s).searchFrom (s.vertices.idxOf (.entity e.name))).route?
          other = none) ↔
      ∀ t ∈ s.entities, ∀ r ∈ t.parents, r.name = field →
        ¬ s.InReach e t r.weight := by
  constructor
  · intro hnone t ht r hr hname hreach
    have harc : (.parentOf t.name field, r.weight) ∈ s.arcs (.entity t.name) :=
      (Schema.mem_arcs_entity_iff ht).2 (.inr ⟨r, hr, by rw [hname], rfl⟩)
    have hv := Schema.vertex?_idxOf (Schema.arcs_mem_vertices harc)
    obtain ⟨route, hroute⟩ := (exists_route?_iff hdistinct he hv).2
      ((Schema.exists_arrives_parent_iff he ht).2 ⟨r, hr, hname, hreach⟩)
    rw [hnone _ _ hv] at hroute
    cases hroute
  · intro hfar other owner hv
    rw [Option.eq_none_iff_forall_ne_some]
    intro route hroute
    obtain ⟨names, passed, cost, harrives, hlt⟩ :=
      (exists_route?_iff hdistinct he hv).1 ⟨route, hroute⟩
    obtain ⟨rs, t, hascent, -, -, ⟨hattribute, -⟩ | ⟨r, hr, hname, -, rfl⟩⟩ :=
      harrives.field_cases ⟨owner, .inl rfl⟩
    · cases hattribute
    · exact hfar t (hascent.declared he) r hr hname ⟨rs, hascent, hlt⟩

/-- The targets are the fields that are in reach, and the attributes only if no
parent of the name is. -/
theorem exists_target_iff (hv : (ofSchema s).vertex? id = some v) :
    (∃ r, (id, r) ∈ (ofSchema s).targets
        ((ofSchema s).searchFrom (s.vertices.idxOf (.entity e.name))) field) ↔
      (∃ names passed cost, s.Arrives e v names passed cost ∧
        cost < Route.costLimit) ∧
        ((∃ owner, v = .parentOf owner field) ∨
          (∃ owner, v = .attributeOf owner field) ∧
          ∀ t ∈ s.entities, ∀ r ∈ t.parents, r.name = field →
            ¬ s.InReach e t r.weight) := by
  simp only [mem_targets_iff, hv, Option.some.injEq,
    parents_unreached_iff hdistinct he, exists_and_right,
    exists_route?_iff hdistinct he hv]

/-- The simple paths are the names of the arrivals at the targets that pass no
entity twice. -/
theorem mem_allPaths_iff_arrives (hne : e.name ≠ field) {path : List String} :
    path ∈ (ofSchema s).allPaths e.name field ↔
      ∃ v passed cost, s.Arrives e v path passed cost ∧ passed.Nodup ∧
        ∃ r, (s.vertices.idxOf v, r) ∈ (ofSchema s).targets
          ((ofSchema s).searchFrom (s.vertices.idxOf (.entity e.name)))
          field := by
  rw [mem_allPaths_iff (ofSchema_closed s) (source_lt he) hne
    (Schema.entityVertex?_of_mem he)]
  constructor
  · rintro ⟨trail, cost, hwalk, hnodup, ⟨⟨id, r⟩, htarget, hhead⟩, rfl⟩
    obtain ⟨v, hv, harrives⟩ := hwalk.arrives hdistinct he
    rw [hhead, Option.bind_some] at hv
    obtain rfl := Schema.eq_idxOf_of_vertex? hv
    exact ⟨v, _, cost, harrives, passedOn_nodup (List.nodup_reverse.2 hnodup),
      r, htarget⟩
  · rintro ⟨v, passed, cost, harrives, hpassed, r, htarget⟩
    obtain ⟨trail, hwalk, hnames, rfl⟩ := harrives.exists_walk he
    have hsource := Schema.vertex?_idxOf (Schema.entity_mem_vertices he)
    exact ⟨_, _, hwalk, hwalk.nodup (source_lt he) ⟨e.name, hsource⟩ hpassed,
      ⟨_, htarget, rfl⟩, hnames⟩

/-- A simple path goes up through parents, to no entity twice, and ends with the
name where it means a field. -/
theorem mem_allPaths_iff_means (hne : e.name ≠ field) {path : List String} :
    path ∈ (ofSchema s).allPaths e.name field ↔
      ∃ rs t, s.Ascent e rs t ∧ (e.name :: rs.map (·.target)).Nodup ∧
        path = rs.map (·.name) ++ [field] ∧ s.Means e t field := by
  rw [mem_allPaths_iff_arrives hdistinct he hne]
  constructor
  · rintro ⟨v, passed, cost, harrives, hpassed, htarget⟩
    have hv := Schema.vertex?_idxOf (harrives.mem_vertices he)
    obtain ⟨hreached, hkind⟩ := (exists_target_iff hdistinct he hv).1 htarget
    have hfield : v.IsField field := by
      rcases hkind with ⟨owner, rfl⟩ | ⟨⟨owner, rfl⟩, -⟩
      · exact ⟨owner, .inl rfl⟩
      · exact ⟨owner, .inr rfl⟩
    obtain ⟨rs, t, hascent, rfl, rfl, ⟨rfl, -⟩ | ⟨r, -, -, rfl, -⟩⟩ :=
      harrives.field_cases hfield
    · obtain ⟨hname, hreach⟩ :=
        (Schema.exists_arrives_attribute_iff he (hascent.declared he)).1
          hreached
      rcases hkind with ⟨owner, hparent⟩ | ⟨-, hfar⟩
      · cases hparent
      · exact ⟨rs, t, hascent, hpassed, rfl, .inr ⟨hname, hreach, hfar⟩⟩
    · have hmeans :=
        (Schema.exists_arrives_parent_iff he (hascent.declared he)).1 hreached
      exact ⟨rs, t, hascent, hpassed, rfl, .inl hmeans⟩
  · rintro ⟨rs, t, hascent, hpassed, rfl, ⟨r, hr, rfl, hreach⟩ |
      ⟨hname, hreach, hfar⟩⟩
    · have harrives := Schema.Arrives.parent hascent hr
      have hv := Schema.vertex?_idxOf (harrives.mem_vertices he)
      have hreached := (Schema.exists_arrives_parent_iff he
        (hascent.declared he)).2 ⟨r, hr, rfl, hreach⟩
      exact ⟨_, _, _, harrives, hpassed,
        (exists_target_iff hdistinct he hv).2 ⟨hreached, .inl ⟨_, rfl⟩⟩⟩
    · have harrives := Schema.Arrives.field hascent hname
      have hv := Schema.vertex?_idxOf (harrives.mem_vertices he)
      have hreached := (Schema.exists_arrives_attribute_iff he
        (hascent.declared he)).2 ⟨hname, hreach⟩
      exact ⟨_, _, _, harrives, hpassed,
        (exists_target_iff hdistinct he hv).2 ⟨hreached, .inr ⟨⟨_, rfl⟩, hfar⟩⟩⟩

/-- The search by depth finds different trails, and different trails have
different names. -/
theorem allPaths_nodup (hne : e.name ≠ field) :
    ((ofSchema s).allPaths e.name field).Nodup := by
  rw [allPaths, if_neg hne, Schema.entityVertex?_of_mem he]
  dsimp only
  split
  · exact List.nodup_nil
  · rw [(List.mergeSort_perm _ _).nodup_iff]
    refine List.Nodup.map_on ?_
      (simpleTrails_nodup (Schema.edgesFrom_nodup hdistinct.names))
    have hwalk : ∀ trail ∈ (ofSchema s).simpleTrails
          (((ofSchema s).targets
            ((ofSchema s).searchFrom (s.vertices.idxOf (.entity e.name)))
            field).map (·.1))
          (ofSchema s).vertexCount (s.vertices.idxOf (.entity e.name))
          [s.vertices.idxOf (.entity e.name)],
        ∃ v cost,
          (ofSchema s).Walk (s.vertices.idxOf (.entity e.name)) trail cost ∧
          trail.head?.bind (ofSchema s).vertex? = some v ∧
          v.isEntity = false := by
      intro trail htrail
      obtain ⟨hextends, -, id, hid, hhead⟩ := mem_simpleTrails_iff.1 htrail
      obtain ⟨-, cost, hwalk⟩ := extends_iff.1 hextends
      obtain ⟨target, htarget, rfl⟩ := List.mem_map.1 hid
      obtain ⟨-, v, hv, owner, rfl | rfl⟩ := route?_of_mem_targets htarget
      · exact ⟨_, cost, hwalk, by rw [hhead, Option.bind_some, hv], rfl⟩
      · exact ⟨_, cost, hwalk, by rw [hhead, Option.bind_some, hv], rfl⟩
    intro trail htrail trail' htrail' hnames
    obtain ⟨v, cost, hwalk₁, hv, hfield⟩ := hwalk trail htrail
    obtain ⟨v', cost', hwalk₂, hv', hfield'⟩ := hwalk trail' htrail'
    have hsource := Schema.vertex?_idxOf (Schema.entity_mem_vertices he)
    exact hwalk₁.eq_of_namesOn hdistinct (source_lt he) ⟨e.name, hsource⟩
      hwalk₂ hv hv' (hfield.trans hfield'.symm) hnames

/-- A field of the entity itself is the cheapest path if every other path costs
more. -/
theorem shortestPath_eq_field (hne : e.name ≠ field)
    (hmem : [field] ∈ (ofSchema s).allPaths e.name field)
    (hmore : ∀ path ∈ (ofSchema s).allPaths e.name field, path ≠ [field] →
      s.pathCost e.name [field] < s.pathCost e.name path) :
    (ofSchema s).shortestPath e.name field = some [field] := by
  cases hpath : (ofSchema s).shortestPath e.name field with
  | none =>
    rw [allPaths_eq_nil he hne hpath] at hmem
    cases hmem
  | some path =>
    obtain ⟨hlisted, hle⟩ := shortestPath_le hdistinct he hne hpath
    by_contra hother
    have hlt := hmore path hlisted fun hsame => hother (congrArg some hsame)
    exact absurd (hle [field] hmem) (Nat.not_le.2 hlt)

/-- A path of more than one name costs the first join and what the name at its
end costs. -/
theorem lt_pathCost_of_mem_allPaths (hne : e.name ≠ field) {path : List String}
    (h : path ∈ (ofSchema s).allPaths e.name field) (hlonger : path ≠ [field]) :
    ∃ t, s.Means e t field ∧
      s.pathCost t.name [field] < s.pathCost e.name path := by
  obtain ⟨rs, t, hascent, -, rfl, hmeans⟩ :=
    (mem_allPaths_iff_means hdistinct he hne).1 h
  refine ⟨t, hmeans, ?_⟩
  rw [hascent.pathCost_append hdistinct he]
  cases rs with
  | nil => exact absurd rfl hlonger
  | cons r rs =>
    have hweight := Schema.requiredWeight_le r
    rw [requiredWeight] at hweight
    rw [Schema.joinCost]
    omega

end

/-- The simple paths to a name are the chains of parents that pass no entity
twice, followed by the name.  At the end of the chain the name means a parent
or, if no entity that can be reached has a parent of the name, an attribute or
the identity.  Each path is listed once, and short ones come first.  The search
has room for all of them: with more room it finds nothing else. -/
theorem allPaths_simple (hdistinct : s.FieldsDistinct) (he : e ∈ s.entities)
    (hne : field ≠ e.name) :
    ((ofSchema s).allPaths e.name field).Nodup ∧
      (((ofSchema s).allPaths e.name field).Pairwise fun p q =>
        p.length ≤ q.length) ∧
      (∀ path, path ∈ (ofSchema s).allPaths e.name field ↔
        ∃ rs t, s.Ascent e rs t ∧ (e.name :: rs.map (·.target)).Nodup ∧
          path = rs.map (·.name) ++ [field] ∧ s.Means e t field) ∧
      (optionalWeight * s.entities.length < Route.costLimit →
        ∀ path, path ∈ (ofSchema s).allPaths e.name field ↔
          ∃ rs t, s.Ascent e rs t ∧ (e.name :: rs.map (·.target)).Nodup ∧
            path = rs.map (·.name) ++ [field] ∧
            ((∃ r ∈ t.parents, r.name = field) ∨
              (field = t.identity ∨ ∃ a ∈ t.attributes, a.name = field) ∧
                ∀ rs' t', s.Ascent e rs' t' →
                  ∀ r ∈ t'.parents, r.name ≠ field)) ∧
      ∀ source targets extra, (ofSchema s).entityVertex? e.name = some source →
        (ofSchema s).simpleTrails targets ((ofSchema s).vertexCount + extra)
          source [source] =
          (ofSchema s).simpleTrails targets (ofSchema s).vertexCount source
            [source] := by
  refine ⟨allPaths_nodup hdistinct he hne.symm, allPaths_pairwise _ _ _,
    fun path => mem_allPaths_iff_means hdistinct he hne.symm,
    fun hsize path => ?_, ?_⟩
  · rw [mem_allPaths_iff_means hdistinct he hne.symm]
    refine exists_congr fun rs => exists_congr fun t =>
      and_congr_right fun hascent => ?_
    rw [Schema.means_iff he hsize hascent]
  · intro source targets extra hsource
    obtain rfl :=
      Option.some.inj ((Schema.entityVertex?_of_mem he).symm.trans hsource)
    exact simpleTrails_room (ofSchema_closed s) (source_lt he) targets extra

/-- The name of the author of its topic is on a simple path from a post. -/
theorem allPaths_simple_name :
    Forum.schema.FieldsDistinct ∧ Forum.post ∈ Forum.schema.entities ∧
      "name" ≠ Forum.post.name ∧
      optionalWeight * Forum.schema.entities.length < Route.costLimit ∧
      ((ofSchema Forum.schema).allPaths "post" "name").Nodup ∧
      ["topic", "author", "name"] ∈ (ofSchema Forum.schema).allPaths "post"
        "name" := by
  have hdistinct : Forum.schema.FieldsDistinct := by decide
  have hpost : Forum.post ∈ Forum.schema.entities := by decide
  have hne : "name" ≠ Forum.post.name := by decide
  have hsize : optionalWeight * Forum.schema.entities.length <
      Route.costLimit := by decide
  obtain ⟨hnodup, -, -, hpaths, -⟩ := allPaths_simple hdistinct hpost hne
  refine ⟨hdistinct, hpost, hne, hsize, hnodup, (hpaths hsize _).2 ?_⟩
  have hascent : Forum.schema.Ascent Forum.post
      [(Relation.parent "topic" "topic").nullable, .parent "author" "user"]
      Forum.user :=
    .up (by decide) rfl (.up (by decide) rfl (.here _))
  have hstored : ∃ a ∈ Forum.user.attributes, a.name = "name" := by decide
  refine ⟨_, _, hascent, by decide, rfl, .inr ⟨.inr hstored, ?_⟩⟩
  intro rs t hascent
  have hnone : ∀ t ∈ Forum.schema.entities, ∀ r ∈ t.parents,
      r.name ≠ "name" := by decide
  exact hnone t (hascent.declared hpost)

/-- An attribute of the entity or its identity is the cheapest path to its name
if no entity that can be reached has a parent of the name.  A parent that is
always there is the cheapest path to its name whatever other entities have. -/
theorem shortestPath_own (hdistinct : s.FieldsDistinct) (he : e ∈ s.entities)
    (hne : field ≠ e.name) :
    ((field = e.identity ∨ ∃ a ∈ e.attributes, a.name = field) →
        (∀ rs t, s.Ascent e rs t → ∀ r ∈ t.parents, r.name ≠ field) →
        (ofSchema s).shortestPath e.name field = some [field]) ∧
      ∀ r ∈ e.parents, r.name = field → r.optional = false →
        (ofSchema s).shortestPath e.name field = some [field] := by
  have hmeans_mem : s.Means e e field →
      [field] ∈ (ofSchema s).allPaths e.name field :=
    fun hmeans => (mem_allPaths_iff_means hdistinct he hne.symm).2
      ⟨[], e, .here e, List.nodup_singleton _, rfl, hmeans⟩
  constructor
  · intro hfield hnone
    have hname := Entity.mem_attributeNames_iff_identity.2 hfield
    have hmeans : s.Means e e field := by
      refine .inr ⟨hname, ⟨[], .here e, by decide⟩,
        fun t _ r hr hsame hreach => ?_⟩
      obtain ⟨rs, hascent, -⟩ := hreach
      exact hnone rs t hascent r hr hsame
    refine shortestPath_eq_field hdistinct he hne.symm (hmeans_mem hmeans) ?_
    intro path hpath hlonger
    obtain ⟨t, -, hlt⟩ :=
      lt_pathCost_of_mem_allPaths hdistinct he hne.symm hpath hlonger
    rw [Schema.pathCost_of_attribute hdistinct he hname]
    omega
  · rintro r hr rfl hrequired
    have hweight : r.weight = 1 := by
      rw [Relation.weight, hrequired]
      rfl
    have hreach : s.InReach e e r.weight :=
      ⟨[], .here e, by rw [hweight]; decide⟩
    refine shortestPath_eq_field hdistinct he hne.symm
      (hmeans_mem (.inl ⟨r, hr, rfl, hreach⟩)) ?_
    intro path hpath hlonger
    obtain ⟨t, hmeans, hlt⟩ :=
      lt_pathCost_of_mem_allPaths hdistinct he hne.symm hpath hlonger
    rw [Schema.pathCost_of_parent hdistinct he hr, hweight, Schema.pathCost]
    -- the name does not mean an attribute: the relation itself is in reach
    rcases hmeans with ⟨r', hr', hname, rs, hascent, -⟩ | ⟨-, -, hfar⟩
    · have hjoin := Schema.requiredWeight_le r'
      rw [requiredWeight] at hjoin
      rw [← hname, Schema.pathCost_of_parent hdistinct
        (hascent.declared he) hr'] at hlt
      omega
    · exact absurd hreach (hfar e he r hr rfl)

/-- The author of a topic is its own one, whatever relation to its author a post
has, and the name of a user is its own one. -/
theorem shortestPath_own_author :
    Forum.schema.FieldsDistinct ∧ Forum.topic ∈ Forum.schema.entities ∧
      Forum.user ∈ Forum.schema.entities ∧ "author" ≠ Forum.topic.name ∧
      "name" ≠ Forum.user.name ∧
      (ofSchema Forum.schema).shortestPath "topic" "author" = some ["author"] ∧
      (ofSchema Forum.schema).shortestPath "user" "name" = some ["name"] := by
  have hdistinct : Forum.schema.FieldsDistinct := by decide
  have htopic : Forum.topic ∈ Forum.schema.entities := by decide
  have huser : Forum.user ∈ Forum.schema.entities := by decide
  have hauthor : "author" ≠ Forum.topic.name := by decide
  have hname : "name" ≠ Forum.user.name := by decide
  have hparent : Relation.parent "author" "user" ∈ Forum.topic.parents := by
    decide
  have hstored : ∃ a ∈ Forum.user.attributes, a.name = "name" := by decide
  refine ⟨hdistinct, htopic, huser, hauthor, hname, ?_, ?_⟩
  · exact (shortestPath_own hdistinct htopic hauthor).2 _ hparent rfl rfl
  · refine (shortestPath_own hdistinct huser hname).1 (.inr hstored) ?_
    intro rs t hascent
    have hnone : ∀ t ∈ Forum.schema.entities, ∀ r ∈ t.parents,
        r.name ≠ "name" := by decide
    exact hnone t (hascent.declared huser)

end EntityGraph

end RowGuard
