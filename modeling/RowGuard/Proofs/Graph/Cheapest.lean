import RowGuard.Graph.Simple
import RowGuard.Proofs.Graph.Ancestry

/-!
# The cheapest path and all simple paths

`EntityGraph.shortestPath` searches by cost, `EntityGraph.allPaths` searches by
depth.  Both aim at the same vertices, and this module compares what they find.

* `EntityGraph.mem_targets_iff`: both aim at fields of the name that can be
  reached.
* `EntityGraph.shortestPath_eq_none_iff` and `EntityGraph.shortestPath_eq_some`
  say where the cheapest path leads.
* `EntityGraph.Extends` is the relation between the trails of the search by
  depth, and `EntityGraph.extends_iff` says that it reaches every walk without
  repetitions.
* `Schema.pathCost` reads the cost of a path off its names.
* `EntityGraph.shortestPath_cheapest` is the comparison: the cheapest path is
  one of the simple paths, none of which costs less, and there is none only if
  there is no simple path either.
-/

namespace RowGuard

namespace EntityGraph

variable {g : EntityGraph} {source id : Nat} {r : Route} {field entity : String}

/-! ## Targets -/

theorem mem_numbersWhere_iff {p : Vertex → Bool} :
    id ∈ g.numbersWhere p ↔ ∃ v, g.vertex? id = some v ∧ p v = true := by
  rw [numbersWhere, List.mem_filter, List.mem_range, Option.any_eq_true,
    vertexCount]
  constructor
  · rintro ⟨-, v, hv⟩
    exact ⟨v, hv⟩
  · rintro ⟨v, hv, hp⟩
    exact ⟨(List.getElem?_eq_some_iff.1 hv).1, v, hv, hp⟩

theorem mem_parentsNamed_iff :
    id ∈ g.parentsNamed field ↔
      ∃ owner, g.vertex? id = some (.parentOf owner field) := by
  rw [parentsNamed, mem_numbersWhere_iff]
  constructor
  · rintro ⟨v, hv, hname⟩
    cases v <;> simp_all
  · rintro ⟨owner, hv⟩
    exact ⟨_, hv, beq_self_eq_true field⟩

theorem mem_attributesNamed_iff :
    id ∈ g.attributesNamed field ↔
      ∃ owner, g.vertex? id = some (.attributeOf owner field) := by
  rw [attributesNamed, mem_numbersWhere_iff]
  constructor
  · rintro ⟨v, hv, hname⟩
    cases v <;> simp_all
  · rintro ⟨owner, hv⟩
    exact ⟨_, hv, beq_self_eq_true field⟩

/-- No parent of the name is reached. -/
theorem routesTo_parentsNamed_eq_nil_iff {s : Search} :
    s.routesTo (g.parentsNamed field) = [] ↔
      ∀ id owner, g.vertex? id = some (.parentOf owner field) →
        s.route? id = none := by
  rw [List.eq_nil_iff_forall_not_mem]
  constructor
  · intro hnone id owner hv
    rw [Option.eq_none_iff_forall_ne_some]
    intro r hroute
    exact hnone (id, r)
      (Search.mem_routesTo_iff.2 ⟨mem_parentsNamed_iff.2 ⟨owner, hv⟩, hroute⟩)
  · rintro hnone ⟨id, r⟩ hmem
    obtain ⟨hparent, hroute⟩ := Search.mem_routesTo_iff.1 hmem
    obtain ⟨owner, hv⟩ := mem_parentsNamed_iff.1 hparent
    rw [hnone id owner hv] at hroute
    cases hroute

/-- The targets are the parents of the name that are reached.  If there are none
then they are the attributes of the name that are reached. -/
theorem mem_targets_iff {s : Search} :
    (id, r) ∈ g.targets s field ↔ s.route? id = some r ∧
      ((∃ owner, g.vertex? id = some (.parentOf owner field)) ∨
        (∃ owner, g.vertex? id = some (.attributeOf owner field)) ∧
          ∀ other owner, g.vertex? other = some (.parentOf owner field) →
            s.route? other = none) := by
  rw [targets]
  split
  · next hempty =>
    have hnone := routesTo_parentsNamed_eq_nil_iff.1 hempty
    rw [Search.mem_routesTo_iff, mem_attributesNamed_iff]
    constructor
    · rintro ⟨hv, hroute⟩
      exact ⟨hroute, .inr ⟨hv, hnone⟩⟩
    · rintro ⟨hroute, ⟨owner, hv⟩ | ⟨hv, -⟩⟩
      · rw [hnone id owner hv] at hroute
        cases hroute
      · exact ⟨hv, hroute⟩
  · next hparents =>
    rw [Search.mem_routesTo_iff, mem_parentsNamed_iff]
    constructor
    · rintro ⟨hv, hroute⟩
      exact ⟨hroute, .inl hv⟩
    · rintro ⟨hroute, hv | ⟨-, hnone⟩⟩
      · exact ⟨hv, hroute⟩
      · exact absurd (routesTo_parentsNamed_eq_nil_iff.2 hnone) hparents

/-- A target is a field of the name with a route. -/
theorem route?_of_mem_targets {s : Search} (h : (id, r) ∈ g.targets s field) :
    s.route? id = some r ∧ ∃ v, g.vertex? id = some v ∧ v.IsField field := by
  obtain ⟨hroute, ⟨owner, hv⟩ | ⟨⟨owner, hv⟩, -⟩⟩ := mem_targets_iff.1 h
  · exact ⟨hroute, _, hv, owner, .inl rfl⟩
  · exact ⟨hroute, _, hv, owner, .inr rfl⟩

/-- There are no targets only if no field of the name has a route. -/
theorem targets_eq_nil_iff {s : Search} :
    g.targets s field = [] ↔
      ∀ id v, g.vertex? id = some v → v.IsField field → s.route? id = none := by
  rw [List.eq_nil_iff_forall_not_mem]
  constructor
  · intro hnil
    have hparents : ∀ id owner, g.vertex? id = some (.parentOf owner field) →
        s.route? id = none := by
      intro id owner hv
      rw [Option.eq_none_iff_forall_ne_some]
      exact fun r hroute =>
        hnil (id, r) (mem_targets_iff.2 ⟨hroute, .inl ⟨owner, hv⟩⟩)
    rintro id v hv ⟨owner, rfl | rfl⟩
    · exact hparents id owner hv
    · rw [Option.eq_none_iff_forall_ne_some]
      exact fun r hroute =>
        hnil (id, r) (mem_targets_iff.2 ⟨hroute, .inr ⟨⟨owner, hv⟩, hparents⟩⟩)
  · rintro hnone ⟨id, r⟩ hmem
    obtain ⟨hroute, v, hv, hfield⟩ := route?_of_mem_targets hmem
    rw [hnone id v hv hfield] at hroute
    cases hroute

/-! ## The cheapest path -/

theorem shortestPath_self : g.shortestPath field field = some [] := by
  rw [shortestPath, if_pos rfl]

theorem shortestPath_eq_map (hne : entity ≠ field)
    (hsource : g.entityVertex? entity = some source) :
    g.shortestPath entity field =
      (firstLeast? (·.2.cost) (g.targets (g.searchFrom source) field)).map
        fun target =>
        g.namesOn target.2.trail.reverse := by
  rw [shortestPath, if_neg hne, hsource]
  cases hfirst : firstLeast? (·.2.cost)
    (g.targets (g.searchFrom source) field) <;>
    simp [hfirst]

section

variable {s : Schema} {e : Entity} (hdistinct : s.FieldsDistinct)
  (he : e ∈ s.entities)

include he

/-- The search starts inside of the graph. -/
theorem source_lt : s.vertices.idxOf (.entity e.name) <
    (ofSchema s).vertexCount :=
  List.idxOf_lt_length_iff.2 (Schema.entity_mem_vertices he)

include hdistinct in
/-- A route of the search arrives at its vertex. -/
theorem arrives_of_route? {v : Vertex} (hv : (ofSchema s).vertex? id = some v)
    (h : ((ofSchema s).searchFrom (s.vertices.idxOf (.entity e.name))).route?
      id = some r) :
    s.Arrives e v ((ofSchema s).namesOn r.trail.reverse)
        ((ofSchema s).passedOn r.trail.reverse) r.cost ∧
      ((ofSchema s).passedOn r.trail.reverse).Nodup ∧
      r.cost < Route.costLimit := by
  obtain ⟨hwalk, hhead, hnodup, hlt⟩ :=
    searchFrom_route (ofSchema_closed s) (source_lt he) h
  obtain ⟨v', hv', harrives⟩ := hwalk.arrives hdistinct he
  rw [hhead, Option.bind_some, hv] at hv'
  obtain rfl := Option.some.inj hv'
  exact ⟨harrives, passedOn_nodup (List.nodup_reverse.2 hnodup), hlt⟩

/-- No arrival at a vertex costs less than the search says. -/
theorem searchFrom_cost_le_of_arrives {v : Vertex} {names passed : List String}
    {cost : Nat} (hv : (ofSchema s).vertex? id = some v)
    (h : s.Arrives e v names passed cost) :
    ((ofSchema s).searchFrom (s.vertices.idxOf (.entity e.name))).cost
      id ≤ cost := by
  obtain ⟨trail, hwalk, -⟩ := h.exists_walk he
  refine searchFrom_cost_le (ofSchema_closed s) (source_lt he) hwalk id ?_
  rw [List.head?_cons, Schema.eq_idxOf_of_vertex? hv]

include hdistinct

/-- There is no cheapest path only if arriving at a field of the name always
costs too much. -/
theorem shortestPath_eq_none_iff (hne : e.name ≠ field) :
    (ofSchema s).shortestPath e.name field = none ↔
      ∀ v names passed cost, s.Arrives e v names passed cost → v.IsField field →
        Route.costLimit ≤ cost := by
  rw [shortestPath_eq_map hne (Schema.entityVertex?_of_mem he),
    Option.map_eq_none_iff, firstLeast?_eq_none_iff, targets_eq_nil_iff]
  constructor
  · intro hnone v names passed cost harrives hfield
    obtain ⟨trail, hwalk, -⟩ := harrives.exists_walk he
    have hlt := hwalk.lt_vertexCount (ofSchema_closed s) (source_lt he) _
      (List.mem_cons_self ..)
    have hv := Schema.vertex?_idxOf (List.idxOf_lt_length_iff.1 hlt)
    have hle := searchFrom_cost_le_of_arrives he hv harrives
    rwa [Search.cost, hnone _ v hv hfield, Option.elim_none] at hle
  · intro hcost id v hv hfield
    cases hroute : ((ofSchema s).searchFrom
      (s.vertices.idxOf (.entity e.name))).route? id with
    | none => rfl
    | some r =>
      obtain ⟨harrives, -, hlt⟩ := arrives_of_route? hdistinct he hv hroute
      have hle := hcost v _ _ _ harrives hfield
      omega

/-- The cheapest path arrives at a field of the name and passes no entity
twice. -/
theorem shortestPath_eq_some (hne : e.name ≠ field) {names : List String}
    (h : (ofSchema s).shortestPath e.name field = some names) :
    ∃ v passed cost, s.Arrives e v names passed cost ∧ v.IsField field ∧
      passed.Nodup := by
  rw [shortestPath_eq_map hne (Schema.entityVertex?_of_mem he),
    Option.map_eq_some_iff] at h
  obtain ⟨⟨id, r⟩, hfirst, rfl⟩ := h
  obtain ⟨hroute, v, hv, hfield⟩ :=
    route?_of_mem_targets (firstLeast?_eq_some hfirst).1
  obtain ⟨harrives, hnodup, -⟩ := arrives_of_route? hdistinct he hv hroute
  exact ⟨v, _, _, harrives, hfield, hnodup⟩

end

/-! ## Simple trails -/

/-- The trail becomes a longer one along edges, without repetitions. -/
inductive Extends (g : EntityGraph) : (trail longer : List Nat) → Prop where
  | here (trail : List Nat) : Extends g trail trail
  | next {last : Nat} {trail longer : List Nat} {edge : Edge}
      (hedge : edge ∈ g.edgesFrom last) (hfresh : edge.target ∉ last :: trail)
      (rest : Extends g (edge.target :: last :: trail) longer) :
      Extends g (last :: trail) longer

theorem Extends.concat {trail longer : List Nat} {last : Nat} {edge : Edge}
    (h : g.Extends trail (last :: longer)) (hedge : edge ∈ g.edgesFrom last)
    (hfresh : edge.target ∉ last :: longer) :
    g.Extends trail (edge.target :: last :: longer) := by
  generalize hend : last :: longer = reached at h
  induction h with
  | here trail =>
    subst hend
    exact .next hedge hfresh (.here _)
  | next hfirst hfresh' _ ih => exact .next hfirst hfresh' (ih hend)

/-- The extensions of the start are the walks without repetitions. -/
theorem extends_iff {longer : List Nat} :
    g.Extends [source] longer ↔
      longer.Nodup ∧ ∃ cost, g.Walk source longer cost := by
  constructor
  · have hwalk : ∀ {trail}, g.Extends trail longer → trail.Nodup →
        (∃ cost, g.Walk source trail cost) → longer.Nodup ∧
          ∃ cost, g.Walk source longer cost := by
      intro trail h
      induction h with
      | here trail => exact fun hnodup hwalk => ⟨hnodup, hwalk⟩
      | next hedge hfresh _ ih =>
        rintro hnodup ⟨cost, hwalk⟩
        exact ih (List.nodup_cons.2 ⟨hfresh, hnodup⟩) ⟨_, hwalk.step hedge⟩
    intro h
    exact hwalk h (List.nodup_singleton source) ⟨0, .start⟩
  · rintro ⟨hnodup, cost, hwalk⟩
    induction hwalk with
    | start => exact .here _
    | step before hedge ih =>
      obtain ⟨hfresh, hnodup⟩ := List.nodup_cons.1 hnodup
      exact (ih hnodup).concat hedge hfresh

theorem Extends.suffix {trail longer : List Nat} (h : g.Extends trail longer) :
    trail <:+ longer := by
  induction h with
  | here => exact List.suffix_refl _
  | next _ _ _ ih => exact (List.suffix_cons _ _).trans ih

/-- Where a trail may stop. -/
theorem mem_stop_iff {targets : List Nat} {last : Nat}
    {trail longer : List Nat} :
    longer ∈ (if targets.contains last then [trail] else []) ↔
      longer = trail ∧ last ∈ targets := by
  by_cases hlast : last ∈ targets <;> simp [hlast]

/-- The search by depth finds the extensions that end in a target and fit the
room. -/
theorem mem_simpleTrails_iff {targets : List Nat} {room last : Nat}
    {trail longer : List Nat} :
    longer ∈ g.simpleTrails targets room last (last :: trail) ↔
      g.Extends (last :: trail) longer ∧
        longer.length ≤ trail.length + 1 + room ∧
        ∃ id ∈ targets, longer.head? = some id := by
  induction room generalizing last trail with
  | zero =>
    rw [simpleTrails, mem_stop_iff]
    constructor
    · rintro ⟨rfl, hlast⟩
      exact ⟨.here _, by simp, last, hlast, rfl⟩
    · rintro ⟨hextends, hlength, id, hid, hhead⟩
      cases hextends with
      | here =>
        obtain rfl := Option.some.inj hhead
        exact ⟨rfl, hid⟩
      | next _ _ rest =>
        have hle := rest.suffix.length_le
        simp only [List.length_cons] at hle
        omega
  | succ room ih =>
    rw [simpleTrails, List.mem_append, mem_stop_iff, List.mem_flatMap]
    constructor
    · rintro (⟨rfl, hlast⟩ | ⟨edge, hedge, hmem⟩)
      · exact ⟨.here _, by simp, last, hlast, rfl⟩
      · split at hmem
        · cases hmem
        · next hfresh =>
          obtain ⟨hextends, hlength, hid⟩ := ih.1 hmem
          rw [List.length_cons] at hlength
          exact ⟨.next hedge (by simpa using hfresh) hextends, by omega, hid⟩
    · rintro ⟨hextends, hlength, id, hid, hhead⟩
      cases hextends with
      | here =>
        obtain rfl := Option.some.inj hhead
        exact .inl ⟨rfl, hid⟩
      | @next _ _ _ edge hedge hfresh rest =>
        refine .inr ⟨edge, hedge, ?_⟩
        have hfresh' : ¬ (last :: trail).contains edge.target = true := by
          simpa using hfresh
        rw [if_neg hfresh']
        refine ih.2 ⟨rest, ?_, id, hid, hhead⟩
        rw [List.length_cons]
        omega

/-! ## All simple paths -/

/-- The simple paths are the names on the walks without repetitions to the
targets. -/
theorem mem_allPaths_iff (hclosed : g.Closed) (hlt : source < g.vertexCount)
    (hne : entity ≠ field) (hsource : g.entityVertex? entity = some source)
    {path : List String} :
    path ∈ g.allPaths entity field ↔
      ∃ trail cost, g.Walk source trail cost ∧ trail.Nodup ∧
      (∃ target ∈ g.targets (g.searchFrom source) field,
        trail.head? = some target.1) ∧
        g.namesOn trail.reverse = path := by
  have hroom : ∀ {trail cost}, g.Walk source trail cost → trail.Nodup →
      trail.length ≤ 0 + 1 + g.vertexCount := by
    intro trail cost hwalk hnodup
    have hsubset : trail ⊆ List.range g.vertexCount := fun id hid =>
      List.mem_range.2 (hwalk.lt_vertexCount hclosed hlt id hid)
    have hle := (List.subperm_of_subset hnodup hsubset).length_le
    rw [List.length_range] at hle
    omega
  rw [allPaths, if_neg hne, hsource]
  dsimp only
  split
  · next hempty =>
    rw [List.isEmpty_iff, List.map_eq_nil_iff] at hempty
    simp [hempty]
  · rw [List.mem_mergeSort, List.mem_map]
    constructor
    · rintro ⟨trail, htrail, rfl⟩
      obtain ⟨hextends, -, id, hid, hhead⟩ := mem_simpleTrails_iff.1 htrail
      obtain ⟨hnodup, cost, hwalk⟩ := extends_iff.1 hextends
      obtain ⟨target, htarget, rfl⟩ := List.mem_map.1 hid
      exact ⟨trail, cost, hwalk, hnodup, ⟨target, htarget, hhead⟩, rfl⟩
    · rintro ⟨trail, cost, hwalk, hnodup, ⟨target, htarget, hhead⟩, rfl⟩
      refine ⟨trail, mem_simpleTrails_iff.2 ⟨?_, hroom hwalk hnodup, ?_⟩, rfl⟩
      · exact extends_iff.2 ⟨hnodup, cost, hwalk⟩
      · exact ⟨target.1, List.mem_map_of_mem htarget, hhead⟩

end EntityGraph

/-! ## The cost of a path -/

namespace Schema

variable {s : Schema} {e t : Entity}

/-- What the relations on a path cost, from an entity on.  Attributes cost
nothing. -/
def pathCost (s : Schema) : (entity : String) → (path : List String) → Nat
  | _, [] => 0
  | entity, name :: path =>
    match (s.entity? entity).bind fun e => e.parents.find? (·.name == name) with
    | some r => r.weight + s.pathCost r.target path
    | none => 0

theorem pathCost_of_parent (hdistinct : s.FieldsDistinct) (he : e ∈ s.entities)
    {r : Relation} (hr : r ∈ e.parents) (path : List String) :
    s.pathCost e.name (r.name :: path) =
      r.weight + s.pathCost r.target path := by
  rw [pathCost, entity?_of_mem he, Option.bind_some,
    Entity.parent?_of_mem (hdistinct e he) hr]

theorem pathCost_of_attribute (hdistinct : s.FieldsDistinct)
    (he : e ∈ s.entities) {name : String} (hname : name ∈ e.attributeNames)
    (path : List String) :
    s.pathCost e.name (name :: path) = 0 := by
  rw [pathCost, entity?_of_mem he, Option.bind_some,
    Entity.parent?_of_attribute (hdistinct e he) hname]

/-- A path costs the ascent it starts with and what remains from there. -/
theorem Ascent.pathCost_append (hdistinct : s.FieldsDistinct)
    {rs : List Relation} (h : s.Ascent e rs t) (he : e ∈ s.entities)
    (path : List String) :
    s.pathCost e.name (rs.map (·.name) ++ path) =
      joinCost rs + s.pathCost t.name path := by
  induction h with
  | here => rw [List.map_nil, List.nil_append, joinCost, Nat.zero_add]
  | up hr hp _ ih =>
    rw [List.map_cons, List.cons_append, pathCost_of_parent hdistinct he hr,
      ← entity?_name hp, ih (entity?_mem hp), joinCost, Nat.add_assoc]

/-- The cost of an arrival can be read off its names. -/
theorem Arrives.pathCost_eq (hdistinct : s.FieldsDistinct) (he : e ∈ s.entities)
    {v : Vertex} {names passed : List String} {cost : Nat}
    (h : s.Arrives e v names passed cost) :
    s.pathCost e.name names = cost := by
  cases h with
  | entity h =>
    have hcost := h.pathCost_append hdistinct he []
    rwa [List.append_nil, pathCost, Nat.add_zero] at hcost
  | field h hname =>
    rw [h.pathCost_append hdistinct he,
      pathCost_of_attribute hdistinct (h.declared he) hname, Nat.add_zero]
  | parent h hr =>
    rw [h.pathCost_append hdistinct he,
      pathCost_of_parent hdistinct (h.declared he) hr, pathCost, Nat.add_zero]

end Schema

/-! ## The comparison -/

namespace EntityGraph

variable {s : Schema}

/-- The cost of a walk from an entity can be read off its names. -/
theorem Walk.pathCost_eq {e : Entity} (hdistinct : s.FieldsDistinct)
    (he : e ∈ s.entities) {trail : List Nat} {cost : Nat}
    (h : (ofSchema s).Walk (s.vertices.idxOf (.entity e.name)) trail cost) :
    s.pathCost e.name ((ofSchema s).namesOn trail.reverse) = cost := by
  obtain ⟨v, -, harrives⟩ := h.arrives hdistinct he
  exact harrives.pathCost_eq hdistinct he

/-- The cheapest path from a declared entity is a simple path, and no simple
path costs less. -/
theorem shortestPath_le {e : Entity} (hdistinct : s.FieldsDistinct)
    (he : e ∈ s.entities) {field : String} (hne : e.name ≠ field)
    {path : List String}
    (h : (ofSchema s).shortestPath e.name field = some path) :
    path ∈ (ofSchema s).allPaths e.name field ∧
      ∀ other ∈ (ofSchema s).allPaths e.name field,
        s.pathCost e.name path ≤ s.pathCost e.name other := by
  have hclosed := ofSchema_closed s
  have hlt := source_lt he
  have hsource := Schema.entityVertex?_of_mem he
  rw [shortestPath_eq_map hne hsource, Option.map_eq_some_iff] at h
  obtain ⟨⟨id, r⟩, hfirst, rfl⟩ := h
  obtain ⟨hmem, hleast⟩ := firstLeast?_eq_some hfirst
  obtain ⟨hroute, -⟩ := route?_of_mem_targets hmem
  obtain ⟨hwalk, hhead, hnodup, -⟩ := searchFrom_route hclosed hlt hroute
  refine ⟨(mem_allPaths_iff hclosed hlt hne hsource).2
    ⟨r.trail, r.cost, hwalk, hnodup, ⟨(id, r), hmem, hhead⟩, rfl⟩, ?_⟩
  intro other hother
  obtain ⟨trail, cost, hwalk', -, ⟨⟨id', r'⟩, hmem', hhead'⟩, rfl⟩ :=
    (mem_allPaths_iff hclosed hlt hne hsource).1 hother
  rw [hwalk.pathCost_eq hdistinct he, hwalk'.pathCost_eq hdistinct he]
  -- the search compares the targets by their routes, and a route is a cheapest
  -- walk
  calc r.cost ≤ r'.cost := hleast (id', r') hmem'
    _ = ((ofSchema s).searchFrom _).cost id' :=
      (Search.cost_of_route? (route?_of_mem_targets hmem').1).symm
    _ ≤ cost := searchFrom_cost_le hclosed hlt hwalk' id' hhead'

/-- Without a cheapest path from a declared entity there is no simple path. -/
theorem allPaths_eq_nil {e : Entity} (he : e ∈ s.entities) {field : String}
    (hne : e.name ≠ field) (h : (ofSchema s).shortestPath e.name field = none) :
    (ofSchema s).allPaths e.name field = [] := by
  have hsource := Schema.entityVertex?_of_mem he
  rw [shortestPath_eq_map hne hsource, Option.map_eq_none_iff,
    firstLeast?_eq_none_iff] at h
  rw [List.eq_nil_iff_forall_not_mem]
  intro path hpath
  obtain ⟨_, _, -, -, ⟨target, htarget, -⟩, -⟩ :=
    (mem_allPaths_iff (ofSchema_closed s) (source_lt he) hne hsource).1 hpath
  rw [h] at htarget
  cases htarget

/-- The cheapest path is one of the simple paths, none of which costs less, and
there is none only if there are no simple paths. -/
theorem shortestPath_cheapest (hdistinct : s.FieldsDistinct)
    (entity field : String) :
    ((ofSchema s).shortestPath entity field = none ↔
      (ofSchema s).allPaths entity field = []) ∧
      ∀ path, (ofSchema s).shortestPath entity field = some path →
        path ∈ (ofSchema s).allPaths entity field ∧
          ∀ other ∈ (ofSchema s).allPaths entity field,
            s.pathCost entity path ≤ s.pathCost entity other := by
  by_cases hne : entity = field
  · subst hne
    simp [shortestPath_self, allPaths, Schema.pathCost]
  cases hfound : s.entity? entity with
  | none =>
    have hsource := Schema.entityVertex?_eq_none hfound
    simp [shortestPath, allPaths, hne, hsource]
  | some e =>
    obtain rfl := Schema.entity?_name hfound
    have he := Schema.entity?_mem hfound
    refine ⟨⟨allPaths_eq_nil he hne, ?_⟩,
      fun path => shortestPath_le hdistinct he hne⟩
    intro hnil
    cases hpath : (ofSchema s).shortestPath e.name field with
    | none => rfl
    | some path =>
      obtain ⟨hmem, -⟩ := shortestPath_le hdistinct he hne hpath
      rw [hnil] at hmem
      cases hmem

end EntityGraph

/-! ## An example -/

namespace Forum

/-- A user has a name. -/
def user : Entity :=
  { Entity.new "user" with attributes := [⟨"name", .string, none⟩] }

/-- A topic may be part of another one and has an author. -/
def topic : Entity :=
  { Entity.new "topic" with
    relations :=
      [(Relation.parent "parent" "topic").nullable, .parent "author" "user"] }

/-- A post may be on a topic and may have an author. -/
def post : Entity :=
  { Entity.new "post" with
    relations := [(Relation.parent "topic" "topic").nullable,
      (Relation.parent "author" "user").nullable] }

def schema : Schema where
  entities := [post, topic, user]
  names_nodup := by decide
  targets_declared := by decide

/-- The name of the author of a post is nearer than that of the author of its
topic. -/
theorem post_name_cheapest : schema.FieldsDistinct ∧
    ["author", "name"] ∈ (EntityGraph.ofSchema schema).allPaths "post" "name" ∧
      ∀ other ∈ (EntityGraph.ofSchema schema).allPaths "post" "name",
        2 ≤ schema.pathCost "post" other := by
  have hdistinct : schema.FieldsDistinct := by decide
  have hfound : (EntityGraph.ofSchema schema).shortestPath "post" "name" =
      some ["author", "name"] := by decide
  have hcost : schema.pathCost "post" ["author", "name"] = 2 := by decide
  obtain ⟨hmem, hle⟩ :=
    (EntityGraph.shortestPath_cheapest hdistinct "post" "name").2 _ hfound
  exact ⟨hdistinct, hmem, fun other hother => hcost ▸ hle other hother⟩

end Forum

end RowGuard
