import RowGuard.Graph.Construction
import RowGuard.Proofs.Graph.SimplePaths

/-!
# The graph that is built is the graph of the schema

A builder keeps a record of what it was given: the vertices that were entered,
the links between them, and the vertices that were named
(`GraphBuilder.Records`).  Interning a vertex, adding an edge and naming a
vertex each add one thing to the record, and a pass over the entities adds what
the entities have, by induction (`GraphBuilder.ofSchema_records`).  What was
built is read off the record: it is `EntityGraph.ofSchema`
(`GraphBuilder.ofSchema_graph`).
-/

namespace RowGuard

/-! ## Numbers in the order of entering -/

section Numbers

variable {entered more : List Vertex} {v : Vertex}

/-- The number of a vertex: how many others were entered before it. -/
def numberOf (entered : List Vertex) (v : Vertex) : Nat :=
  entered.eraseDups.idxOf v

theorem numberOf_lt (h : v ∈ entered) :
    numberOf entered v < entered.eraseDups.length :=
  List.idxOf_lt_length_of_mem (List.mem_eraseDups.2 h)

/-- A vertex keeps its number. -/
theorem numberOf_append (h : v ∈ entered) (more : List Vertex) :
    numberOf (entered ++ more) v = numberOf entered v := by
  rw [numberOf, List.eraseDups_append,
    List.idxOf_append_of_mem (List.mem_eraseDups.2 h)]
  rfl

theorem mem_concat_iff_of_mem {w : Vertex} (h : v ∈ entered) :
    w ∈ entered ++ [v] ↔ w ∈ entered := by
  rw [List.mem_append, List.mem_singleton, or_iff_left_of_imp]
  exact fun heq => heq ▸ h

/-- Nothing gets another number if a vertex is entered again. -/
theorem numberOf_concat_of_mem (h : v ∈ entered) :
    numberOf (entered ++ [v]) = numberOf entered := by
  funext w
  rw [numberOf, eraseDups_concat_of_mem h, numberOf]

/-- A new vertex gets the next number. -/
theorem numberOf_concat_of_notMem (h : v ∉ entered) :
    numberOf (entered ++ [v]) v = entered.eraseDups.length := by
  rw [numberOf, eraseDups_concat_of_not_mem h, List.idxOf_append_of_notMem,
    List.idxOf_cons_self, Nat.add_zero]
  exact mt List.mem_eraseDups.1 h

/-- What is kept for one of the vertices is changed under its number. -/
theorem modify_idxOf {α : Type} {vertices : List Vertex}
    (hnodup : vertices.Nodup) {f g : Vertex → α} {change : α → α}
    (hv : g v = change (f v)) (hne : ∀ w, w ≠ v → g w = f w) :
    (vertices.map f).modify (vertices.idxOf v) change = vertices.map g := by
  refine List.ext_getElem? fun id => ?_
  rw [List.getElem?_modify, List.getElem?_map, List.getElem?_map]
  cases hid : vertices[id]? with
  | none => rfl
  | some w =>
    obtain ⟨hlt, rfl⟩ := List.getElem?_eq_some_iff.1 hid
    by_cases hsame : vertices.idxOf v = id
    · have hw : vertices[id] = v := by
        subst hsame
        exact List.getElem_idxOf hlt
      simp only [Option.map_some, Functor.map, if_pos hsame, hw, hv]
    · have hw : vertices[id] ≠ v := by
        intro heq
        rw [← heq, hnodup.idxOf_getElem id hlt] at hsame
        exact hsame rfl
      simp only [Option.map_some, Functor.map, if_neg hsame, hne _ hw]

end Numbers

/-! ## The record of a builder -/

/-- An edge by the vertices that it joins. -/
structure Link where
  source : Vertex
  target : Vertex
  weight : Nat

/-- The edge in numbers. -/
def Link.edge (entered : List Vertex) (l : Link) : Edge :=
  ⟨numberOf entered l.target, l.weight⟩

theorem Link.edge_append {entered : List Vertex} {l : Link}
    (h : l.target ∈ entered) (more : List Vertex) :
    l.edge (entered ++ more) = l.edge entered := by
  rw [edge, numberOf_append h, edge]

namespace GraphBuilder

/-- An index by names lists the numbers of these vertices, in their order. -/
structure Lists (entered : List Vertex) (names : List (String × List Nat))
    (vs : List Vertex) : Prop where
  mem : ∀ v ∈ vs, v ∈ entered
  numbers : ∀ name, numbersOf names name =
    (vs.filter (·.name == name)).map (numberOf entered)

/-- The builder has been given the vertices `entered`, in this order and with
repetitions, the links, and the names of parent relations and of attributes. -/
structure Records (b : GraphBuilder) (entered : List Vertex) (links : List Link)
    (parents attributes : List Vertex) : Prop where
  vertices_eq : b.vertices = entered.eraseDups
  lookup_eq : ∀ v, b.index.lookup v = if v ∈ entered then
    some (numberOf entered v) else none
  edges_eq : b.edges = entered.eraseDups.map fun v =>
    (links.filter (·.source == v)).map (Link.edge entered)
  links_mem : ∀ l ∈ links, l.source ∈ entered ∧ l.target ∈ entered
  parents : Lists entered b.parentsByName parents
  attributes : Lists entered b.attributesByName attributes

variable {b : GraphBuilder} {entered more : List Vertex} {links : List Link}
  {parents attributes vs : List Vertex} {names : List (String × List Nat)}
  {v w : Vertex}

theorem Lists.append (h : Lists entered names vs) (more : List Vertex) :
    Lists (entered ++ more) names vs where
  mem v hv := List.mem_append_left _ (h.mem v hv)
  numbers name := by
    rw [h.numbers]
    refine List.map_congr_left fun v hv => (numberOf_append ?_ more).symm
    exact h.mem v (List.mem_filter.1 hv).1

theorem numbersOf_addName (names : List (String × List Nat))
    (name other : String) (id : Nat) :
    numbersOf (addName names name id) other =
      if other = name then numbersOf names other ++ [id]
        else numbersOf names other := by
  by_cases hname : other = name
  · rw [if_pos hname, hname, numbersOf, addName, List.lookup_cons_self,
      Option.getD_some]
  · rw [if_neg hname, numbersOf, addName, List.lookup_cons,
      beq_eq_false_iff_ne.2 hname]
    rfl

theorem Lists.addName (h : Lists entered names vs) (hv : v ∈ entered) :
    Lists entered (addName names v.name (numberOf entered v)) (vs ++ [v]) where
  mem :=
    List.forall_mem_append.2 ⟨h.mem, fun w hw => List.mem_singleton.1 hw ▸ hv⟩
  numbers name := by
    rw [numbersOf_addName, h.numbers, List.filter_append, List.map_append]
    by_cases hname : name = v.name
    · rw [if_pos hname, List.filter_cons, if_pos (beq_iff_eq.2 hname.symm)]
      rfl
    · rw [if_neg hname, List.filter_cons,
        if_neg (mt beq_iff_eq.1 (Ne.symm hname))]
      exact (List.append_nil _).symm

theorem empty_records : empty.Records [] [] [] [] where
  vertices_eq := rfl
  lookup_eq _ := rfl
  edges_eq := rfl
  links_mem := List.forall_mem_nil _
  parents := ⟨List.forall_mem_nil _, fun _ => rfl⟩
  attributes := ⟨List.forall_mem_nil _, fun _ => rfl⟩

namespace Records

theorem nodup (h : b.Records entered links parents attributes) :
    b.vertices.Nodup := by
  rw [h.vertices_eq]
  exact nodup_eraseDups entered

theorem links_mem_append (h : b.Records entered links parents attributes)
    (more : List Vertex) :
    ∀ l ∈ links, l.source ∈ entered ++ more ∧ l.target ∈ entered ++ more := by
  intro l hl
  obtain ⟨hsource, htarget⟩ := h.links_mem l hl
  exact ⟨List.mem_append_left _ hsource, List.mem_append_left _ htarget⟩

/-- A vertex that was entered may be entered again. -/
theorem reenter (h : b.Records entered links parents attributes)
    (hv : v ∈ entered) :
    b.Records (entered ++ [v]) links parents attributes where
  vertices_eq := by rw [eraseDups_concat_of_mem hv, h.vertices_eq]
  lookup_eq w := by
    rw [h.lookup_eq, numberOf_concat_of_mem hv]
    exact if_congr (mem_concat_iff_of_mem hv).symm rfl rfl
  edges_eq := by
    rw [h.edges_eq, eraseDups_concat_of_mem hv]
    unfold Link.edge
    rw [numberOf_concat_of_mem hv]
  links_mem := h.links_mem_append [v]
  parents := h.parents.append [v]
  attributes := h.attributes.append [v]

/-- A new vertex is the last one, and no link starts at it. -/
theorem enter (h : b.Records entered links parents attributes)
    (hv : v ∉ entered) :
    { b with
      vertices := b.vertices ++ [v]
      index := (v, b.vertices.length) :: b.index
      edges := b.edges ++ [[]]
        }.Records (entered ++ [v]) links parents attributes where
  vertices_eq := by rw [eraseDups_concat_of_not_mem hv, h.vertices_eq]
  lookup_eq w := by
    rw [List.lookup_cons]
    by_cases hw : w = v
    · rw [hw, beq_self_eq_true, if_pos (List.mem_append_right _ (.head _)),
        numberOf_concat_of_notMem hv, h.vertices_eq]
    · have hmem : w ∈ entered ++ [v] ↔ w ∈ entered := by
        rw [List.mem_append, List.mem_singleton, or_iff_left hw]
      rw [beq_eq_false_iff_ne.2 hw]
      refine (h.lookup_eq w).trans ?_
      by_cases hold : w ∈ entered
      · rw [if_pos hold, if_pos (hmem.2 hold), numberOf_append hold]
      · rw [if_neg hold, if_neg (mt hmem.1 hold)]
  edges_eq := by
    have hnone : links.filter (·.source == v) = [] :=
      List.filter_eq_nil_iff.2 fun l hl heq =>
        hv (beq_iff_eq.1 heq ▸ (h.links_mem l hl).1)
    have hold : (entered.eraseDups.map fun w =>
          (links.filter (·.source == w)).map (Link.edge entered)) =
        entered.eraseDups.map fun w =>
          (links.filter (·.source == w)).map (Link.edge (entered ++ [v])) := by
      refine List.map_congr_left fun w _ => List.map_congr_left fun l hl => ?_
      exact (Link.edge_append (h.links_mem l (List.mem_filter.1 hl).1).2
        [v]).symm
    rw [eraseDups_concat_of_not_mem hv, List.map_append, List.map_singleton,
      hnone, h.edges_eq, hold]
    rfl
  links_mem := h.links_mem_append [v]
  parents := h.parents.append [v]
  attributes := h.attributes.append [v]

/-- Interning enters a vertex and has its number. -/
theorem intern (h : b.Records entered links parents attributes) (v : Vertex) :
    (b.intern v).1 = numberOf (entered ++ [v]) v ∧
      (b.intern v).2.Records (entered ++ [v]) links parents attributes := by
  have hlookup := h.lookup_eq v
  by_cases hv : v ∈ entered
  · rw [if_pos hv] at hlookup
    rw [GraphBuilder.intern, hlookup, numberOf_concat_of_mem hv]
    exact ⟨rfl, h.reenter hv⟩
  · rw [if_neg hv] at hlookup
    rw [GraphBuilder.intern, hlookup, numberOf_concat_of_notMem hv,
      ← h.vertices_eq]
    exact ⟨rfl, h.enter hv⟩

/-- An edge between two vertices that were entered adds a link. -/
theorem addEdge (h : b.Records entered links parents attributes)
    (hv : v ∈ entered) (hw : w ∈ entered) (weight : Nat) :
    (b.addEdge (numberOf entered v) (numberOf entered w) weight).Records entered
      (links ++ [⟨v, w, weight⟩]) parents attributes where
  vertices_eq := h.vertices_eq
  lookup_eq := h.lookup_eq
  edges_eq := by
    rw [GraphBuilder.addEdge, h.edges_eq]
    refine modify_idxOf (nodup_eraseDups entered) ?_ fun u hu => ?_
    · rw [List.filter_append, List.map_append, List.filter_cons,
        if_pos (beq_self_eq_true v)]
      rfl
    · rw [List.filter_append, List.filter_cons,
        if_neg (mt beq_iff_eq.1 (Ne.symm hu))]
      exact congrArg _ (List.append_nil _)
  links_mem := List.forall_mem_append.2 ⟨h.links_mem, fun l hl => by
    rw [List.mem_singleton.1 hl]
    exact ⟨hv, hw⟩⟩
  parents := h.parents
  attributes := h.attributes

theorem nameParent (h : b.Records entered links parents attributes)
    (hv : v ∈ entered) :
    { b with
      parentsByName := addName b.parentsByName v.name (numberOf entered v)
    }.Records entered links (parents ++ [v]) attributes :=
  { h with parents := h.parents.addName hv }

theorem nameAttribute (h : b.Records entered links parents attributes)
    (hv : v ∈ entered) :
    { b with
      attributesByName := addName b.attributesByName v.name (numberOf entered v)
    }.Records entered links parents (attributes ++ [v]) :=
  { h with attributes := h.attributes.addName hv }

/-! ## What the steps add -/

variable {owner : String}

theorem addAttribute (h : b.Records entered links parents attributes)
    (howner : .entity owner ∈ entered) (name : String) :
    (addAttribute (numberOf entered (.entity owner)) owner b name).Records
      (entered ++ [.attributeOf owner name])
      (links ++ [⟨.entity owner, .attributeOf owner name, 0⟩]) parents
      (attributes ++ [.attributeOf owner name]) := by
  obtain ⟨hnumber, h⟩ := h.intern (.attributeOf owner name)
  have hnew : .attributeOf owner name ∈ entered ++ [.attributeOf owner name] :=
    List.mem_append_right _ (.head _)
  rw [GraphBuilder.addAttribute]
  dsimp only
  rw [hnumber, ← numberOf_append howner [.attributeOf owner name]]
  exact (h.addEdge (List.mem_append_left _ howner) hnew 0).nameAttribute hnew

theorem addParent (h : b.Records entered links parents attributes)
    (howner : .entity owner ∈ entered) (r : Relation) :
    (addParent (numberOf entered (.entity owner)) owner b r).Records
      (entered ++ [.parentOf owner r.name, .entity r.target])
      (links ++ [⟨.entity owner, .parentOf owner r.name, r.weight⟩,
        ⟨.parentOf owner r.name, .entity r.target, 0⟩])
      (parents ++ [.parentOf owner r.name]) attributes := by
  obtain ⟨hnumber, h⟩ := h.intern (.parentOf owner r.name)
  obtain ⟨hnumber', h⟩ := h.intern (.entity r.target)
  have hassoc : entered ++ [.parentOf owner r.name] ++ [.entity r.target] =
      entered ++ [.parentOf owner r.name, .entity r.target] :=
    List.append_assoc ..
  have hnew : .parentOf owner r.name ∈ entered ++ [.parentOf owner r.name] :=
    List.mem_append_right _ (.head _)
  rw [← numberOf_append hnew [.entity r.target]] at hnumber
  rw [hassoc] at h hnumber hnumber'
  have hmem : .parentOf owner r.name ∈ entered ++
      [.parentOf owner r.name, .entity r.target] :=
    List.mem_append_right _ (.head _)
  have hmem' : .entity r.target ∈ entered ++
      [.parentOf owner r.name, .entity r.target] :=
    List.mem_append_right _ (.tail _ (.head _))
  rw [GraphBuilder.addParent]
  dsimp only
  rw [hnumber, hnumber',
    ← numberOf_append howner [.parentOf owner r.name, .entity r.target]]
  have hup := h.addEdge (List.mem_append_left _ howner) hmem r.weight
  have hlinks := (hup.addEdge hmem hmem' 0).nameParent hmem
  rw [List.append_assoc] at hlinks
  exact hlinks

/-! ## What the passes add -/

theorem addAttributes (h : b.Records entered links parents attributes)
    (howner : .entity owner ∈ entered) (names : List String) :
    (names.foldl (GraphBuilder.addAttribute (numberOf entered (.entity owner))
      owner) b).Records (entered ++ names.map (.attributeOf owner))
      (links ++ names.map fun name =>
        ⟨.entity owner, .attributeOf owner name, 0⟩) parents
      (attributes ++ names.map (.attributeOf owner)) := by
  induction names generalizing b entered links attributes with
  | nil => simpa using h
  | cons name names ih =>
    have hmore :=
      ih (h.addAttribute howner name) (List.mem_append_left _ howner)
    rw [numberOf_append howner] at hmore
    simpa using hmore

theorem addParents (h : b.Records entered links parents attributes)
    (howner : .entity owner ∈ entered) (rs : List Relation) :
    (rs.foldl (GraphBuilder.addParent (numberOf entered (.entity owner)) owner)
      b).Records
      (entered ++ rs.flatMap fun r =>
        [.parentOf owner r.name, .entity r.target])
      (links ++ rs.flatMap fun r =>
        [⟨.entity owner, .parentOf owner r.name, r.weight⟩,
          ⟨.parentOf owner r.name, .entity r.target, 0⟩])
      (parents ++ rs.map fun r => .parentOf owner r.name) attributes := by
  induction rs generalizing b entered links parents with
  | nil => simpa using h
  | cons r rs ih =>
    have hmore := ih (h.addParent howner r) (List.mem_append_left _ howner)
    rw [numberOf_append howner] at hmore
    simpa using hmore

end Records

end GraphBuilder

/-! ## The record of a schema -/

namespace Entity

/-- The vertices that are entered for the fields of an entity. -/
def entered (e : Entity) : List Vertex :=
  .entity e.name :: e.attributeNames.map (.attributeOf e.name) ++
    e.parents.flatMap fun r => [.parentOf e.name r.name, .entity r.target]

/-- The links of the fields of an entity. -/
def links (e : Entity) : List Link :=
  e.attributeNames.map
    (fun name => ⟨.entity e.name, .attributeOf e.name name, 0⟩) ++
    e.parents.flatMap fun r =>
      [⟨.entity e.name, .parentOf e.name r.name, r.weight⟩,
        ⟨.parentOf e.name r.name, .entity r.target, 0⟩]

/-- The vertices of the relations of an entity to parents. -/
def parentVertices (e : Entity) : List Vertex :=
  e.parents.map fun r => .parentOf e.name r.name

/-- The vertices of the columns of an entity that are fields. -/
def attributeVertices (e : Entity) : List Vertex :=
  e.attributeNames.map (.attributeOf e.name)

end Entity

namespace GraphBuilder

variable {b : GraphBuilder} {entered : List Vertex} {links : List Link}
  {parents attributes : List Vertex}

namespace Records

theorem addFields (h : b.Records entered links parents attributes)
    (e : Entity) :
    (b.addFields e).Records (entered ++ e.entered) (links ++ e.links)
      (parents ++ e.parentVertices) (attributes ++ e.attributeVertices) := by
  obtain ⟨hnumber, h⟩ := h.intern (.entity e.name)
  have howner : .entity e.name ∈ entered ++ [.entity e.name] :=
    List.mem_append_right _ (.head _)
  have hattributes := h.addAttributes howner e.attributeNames
  have hparents :=
    hattributes.addParents (List.mem_append_left _ howner) e.parents
  rw [numberOf_append howner, ← hnumber, List.append_assoc, List.append_assoc,
    List.append_assoc] at hparents
  exact hparents

theorem addEntities (h : b.Records entered links parents attributes)
    (es : List Entity) :
    (es.foldl addEntity b).Records (entered ++ es.map fun e => .entity e.name)
      links parents attributes := by
  induction es generalizing b entered with
  | nil => simpa using h
  | cons e es ih =>
    have hfirst : (b.addEntity e).Records (entered ++ [.entity e.name]) links
        parents attributes :=
      (h.intern (.entity e.name)).2
    simpa using ih hfirst

theorem addAllFields (h : b.Records entered links parents attributes)
    (es : List Entity) :
    (es.foldl GraphBuilder.addFields b).Records
      (entered ++ es.flatMap Entity.entered)
      (links ++ es.flatMap Entity.links)
      (parents ++ es.flatMap Entity.parentVertices)
      (attributes ++ es.flatMap Entity.attributeVertices) := by
  induction es generalizing b entered links parents attributes with
  | nil => simpa using h
  | cons e es ih => simpa using ih (h.addFields e)

end Records

/-- The builder of a schema has been given the entities and then their
fields. -/
theorem ofSchema_records (s : Schema) :
    (ofSchema s).Records
      ((s.entities.map fun e => .entity e.name) ++
        s.entities.flatMap Entity.entered)
      (s.entities.flatMap Entity.links)
      (s.entities.flatMap Entity.parentVertices)
      (s.entities.flatMap Entity.attributeVertices) :=
  (empty_records.addEntities s.entities).addAllFields s.entities

end GraphBuilder

/-! ## Vertices and edges -/

namespace Schema

variable {s : Schema}

/-- The second pass enters only fields that are new. -/
theorem vertices_eq (s : Schema) :
    ((s.entities.map fun e => Vertex.entity e.name) ++
      s.entities.flatMap Entity.entered).eraseDups = s.vertices := by
  rw [vertices, List.eraseDups_append, List.eraseDups_append]
  congr 2
  unfold List.removeAll
  rw [List.filter_flatMap, List.filter_flatMap]
  refine List.flatMap_congr fun e he => ?_
  have hself : (Vertex.entity e.name) ∈ s.entities.map fun e =>
      Vertex.entity e.name :=
    List.mem_map_of_mem he
  have htarget : ∀ r ∈ e.parents,
      Vertex.entity r.target ∈ s.entities.map fun e =>
        Vertex.entity e.name := by
    intro r hr
    obtain ⟨p, hp, hname⟩ := List.mem_map.1
      (s.targets_declared e he r (Entity.mem_parents_iff.1 hr).1)
    exact List.mem_map.2 ⟨p, hp, congrArg _ hname⟩
  unfold Entity.entered Entity.fieldVertices
  rw [List.cons_append, List.filter_cons_of_neg (by simpa using hself),
    List.filter_append, List.filter_append, List.filter_flatMap,
    List.map_eq_flatMap (l := e.parents), List.filter_flatMap]
  congr 1
  refine List.flatMap_congr fun r hr => ?_
  have hold : [Vertex.entity r.target].removeAll
      (s.entities.map fun e => Vertex.entity e.name) = [] :=
    List.filter_eq_nil_iff.2 fun v hv => by
      rw [List.mem_singleton.1 hv, List.elem_eq_true_of_mem (htarget r hr)]
      decide
  refine (List.filter_append [Vertex.parentOf e.name r.name]
    [Vertex.entity r.target]).trans ?_
  rw [← List.removeAll, ← List.removeAll, hold, List.append_nil]

/-- What one entity alone has of a name is what the entity of the name has. -/
theorem flatMap_entity {α : Type} (s : Schema) (f : Entity → List α)
    {name : String} (h : ∀ e ∈ s.entities, e.name ≠ name → f e = []) :
    s.entities.flatMap f = (s.entity? name).elim [] f := by
  have hnames := s.names_nodup
  rw [entity?]
  generalize s.entities = es at h hnames
  induction es with
  | nil => rfl
  | cons e es ih =>
    obtain ⟨hfresh, hnames⟩ := List.nodup_cons.1 hnames
    obtain ⟨hfirst, hrest⟩ := List.forall_mem_cons.1 h
    rw [List.flatMap_cons, List.find?_cons]
    by_cases hname : e.name = name
    · have hnone : es.flatMap f = [] := by
        refine List.flatMap_eq_nil_iff.2 fun other hother =>
          hrest other hother fun heq => hfresh ?_
        exact List.mem_map.2 ⟨other, hother, heq.trans hname.symm⟩
      rw [beq_iff_eq.2 hname, hnone, List.append_nil]
      rfl
    · rw [beq_eq_false_iff_ne.2 hname, hfirst hname, List.nil_append]
      exact ih hrest hnames

end Schema

namespace Entity

variable {e : Entity} {v : Vertex}

/-- The links of an entity start at it or at one of its relations. -/
theorem source_of_mem_links {l : Link} (h : l ∈ e.links) :
    l.source = .entity e.name ∨
      ∃ r ∈ e.parents, l.source = .parentOf e.name r.name := by
  rw [links, List.mem_append, List.mem_map, List.mem_flatMap] at h
  rcases h with ⟨name, -, rfl⟩ | ⟨r, hr, hl⟩
  · exact .inl rfl
  · rcases List.mem_pair.1 hl with rfl | rfl
    · exact .inl rfl
    · exact .inr ⟨r, hr, rfl⟩

/-- What the links of one source lead to. -/
def linksFrom (e : Entity) (v : Vertex) : List (Vertex × Nat) :=
  (e.links.filter (·.source == v)).map fun l => (l.target, l.weight)

theorem linksFrom_eq (e : Entity) (v : Vertex) :
    e.linksFrom v =
      (if v = .entity e.name then e.attributeNames.map fun name =>
        (.attributeOf e.name name, 0)
        else []) ++
      e.parents.flatMap fun r =>
        (if v = .entity e.name then [(.parentOf e.name r.name, r.weight)]
          else []) ++
          if v = .parentOf e.name r.name then [(.entity r.target, 0)]
            else [] := by
  rw [linksFrom, links, List.filter_append, List.map_append,
    List.filter_flatMap, List.map_flatMap]
  congr 1
  · by_cases hv : v = .entity e.name
    · rw [if_pos hv, List.filter_eq_self.2, List.map_map]
      · rfl
      · intro l hl
        obtain ⟨name, -, rfl⟩ := List.mem_map.1 hl
        exact beq_iff_eq.2 hv.symm
    · rw [if_neg hv, List.filter_eq_nil_iff.2, List.map_nil]
      intro l hl hsource
      obtain ⟨name, -, rfl⟩ := List.mem_map.1 hl
      exact hv (beq_iff_eq.1 hsource).symm
  · refine List.flatMap_congr fun r _ => ?_
    rw [List.filter_cons, List.filter_cons, List.filter_nil]
    by_cases hv : v = .entity e.name
    · simp [hv]
    · by_cases hv' : v = .parentOf e.name r.name
      · simp [hv']
      · simp [hv, hv', Ne.symm hv, Ne.symm hv']

theorem linksFrom_entity (e : Entity) :
    e.linksFrom (.entity e.name) = e.arcs := by
  rw [linksFrom_eq, if_pos rfl, arcs, List.map_eq_flatMap (l := e.parents)]
  simp

theorem linksFrom_parentOf (e : Entity) (name : String) :
    e.linksFrom (.parentOf e.name name) = e.arcsOfParent name := by
  rw [linksFrom_eq, if_neg (by simp), List.nil_append, arcsOfParent]
  induction e.parents with
  | nil => rfl
  | cons r rs ih =>
    rw [List.flatMap_cons, ih, List.filter_cons]
    by_cases hname : r.name = name
    · simp [hname]
    · simp [hname, Ne.symm hname]

theorem linksFrom_attributeOf (e : Entity) (owner name : String) :
    e.linksFrom (.attributeOf owner name) = [] := by
  rw [linksFrom_eq]
  simp

theorem linksFrom_of_owner_ne (h : e.name ≠ v.owner) : e.linksFrom v = [] := by
  refine List.map_eq_nil_iff.2
    (List.filter_eq_nil_iff.2 fun l hl hsource => h ?_)
  rw [← beq_iff_eq.1 hsource]
  rcases source_of_mem_links hl with hl | ⟨r, -, hl⟩
  · rw [hl, Vertex.owner]
  · rw [hl, Vertex.owner]

end Entity

namespace Schema

variable {s : Schema}

/-- The links of a schema from one source are its arcs. -/
theorem linksFrom_eq_arcs (s : Schema) (v : Vertex) :
    s.entities.flatMap (·.linksFrom v) = s.arcs v := by
  rw [flatMap_entity s _ fun e _ hne => Entity.linksFrom_of_owner_ne hne]
  cases hfound : s.entity? v.owner with
  | none => cases v <;> simp_all [arcs, Vertex.owner]
  | some e =>
    have hname := entity?_name hfound
    cases v with
    | entity name =>
      obtain rfl : e.name = name := hname
      rw [arcs, show s.entity? e.name = some e from hfound]
      exact e.linksFrom_entity
    | attributeOf owner name => exact e.linksFrom_attributeOf owner name
    | parentOf owner name =>
      obtain rfl : e.name = owner := hname
      rw [arcs, show s.entity? e.name = some e from hfound]
      exact e.linksFrom_parentOf name

end Schema

namespace GraphBuilder

/-- The vertices and edges that are built are those of the schema. -/
theorem ofSchema_graph (s : Schema) :
    (ofSchema s).graph = EntityGraph.ofSchema s := by
  have h := ofSchema_records s
  have hvertices := h.vertices_eq
  have hedges := h.edges_eq
  rw [Schema.vertices_eq] at hvertices hedges
  rw [graph, EntityGraph.ofSchema, hvertices, hedges]
  congr 1
  refine List.map_congr_left fun v _ => ?_
  rw [← Schema.linksFrom_eq_arcs, List.filter_flatMap, List.map_flatMap,
    List.map_flatMap]
  refine List.flatMap_congr fun e _ => ?_
  rw [Entity.linksFrom, List.map_map]
  refine List.map_congr_left fun l _ => ?_
  rw [Link.edge, numberOf, Schema.vertices_eq]
  rfl

end GraphBuilder

end RowGuard
