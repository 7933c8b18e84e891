import RowGuard.Graph.Basic

/-!
# Building the graph of a schema

`GraphBuilder.ofSchema` builds the graph step by step.  A vertex gets its number
when it is first met and is found by its number from then on; an edge goes to
the end of the list of its source.  A first pass numbers the entities, so that a
relation may lead to an entity that is declared later.  The second pass adds the
fields of each entity.
-/

namespace RowGuard

/-- A graph under construction.  Of two entries of an index the one in front
counts. -/
structure GraphBuilder where
  vertices : List Vertex
  /-- The numbers of the vertices. -/
  index : List (Vertex × Nat)
  /-- The edges that leave each vertex. -/
  edges : List (List Edge)
  /-- The parent relations of each name, in the order in which they were
  added. -/
  parentsByName : List (String × List Nat)
  /-- The attributes of each name, in the order in which they were added. -/
  attributesByName : List (String × List Nat)
deriving DecidableEq, Repr

namespace GraphBuilder

/-- No vertices. -/
def empty : GraphBuilder := ⟨[], [], [], [], []⟩

/-- The numbers that an index keeps for a name. -/
def numbersOf (names : List (String × List Nat)) (name : String) : List Nat :=
  (names.lookup name).getD []

/-- Adds a number to those of a name. -/
def addName (names : List (String × List Nat)) (name : String) (id : Nat) :
    List (String × List Nat) :=
  (name, numbersOf names name ++ [id]) :: names

/-- The number of a vertex, which is added if it is not there. -/
def intern (b : GraphBuilder) (v : Vertex) : Nat × GraphBuilder :=
  match b.index.lookup v with
  | some id => (id, b)
  | none =>
    let id := b.vertices.length
    (id, { b with
      vertices := b.vertices ++ [v]
      index := (v, id) :: b.index
      edges := b.edges ++ [[]] })

/-- Adds an edge from the vertex with the number `source`. -/
def addEdge (b : GraphBuilder) (source target weight : Nat) : GraphBuilder :=
  { b with edges := b.edges.modify source (· ++ [⟨target, weight⟩]) }

/-- Adds an attribute of the entity that has the number `owner`. -/
def addAttribute (owner : Nat) (entity : String) (b : GraphBuilder)
    (name : String) :
    GraphBuilder :=
  let (vertex, b) := b.intern (.attributeOf entity name)
  let b := b.addEdge owner vertex 0
  { b with attributesByName := addName b.attributesByName name vertex }

/-- Adds a relation of the entity that has the number `owner` to a parent. -/
def addParent (owner : Nat) (entity : String) (b : GraphBuilder)
    (r : Relation) : GraphBuilder :=
  let (vertex, b) := b.intern (.parentOf entity r.name)
  let (target, b) := b.intern (.entity r.target)
  let b := b.addEdge owner vertex r.weight
  let b := b.addEdge vertex target 0
  { b with parentsByName := addName b.parentsByName r.name vertex }

/-- Adds an entity. -/
def addEntity (b : GraphBuilder) (e : Entity) : GraphBuilder :=
  (b.intern (.entity e.name)).2

/-- Adds the fields of an entity. -/
def addFields (b : GraphBuilder) (e : Entity) : GraphBuilder :=
  let (owner, b) := b.intern (.entity e.name)
  let b := e.attributeNames.foldl (addAttribute owner e.name) b
  e.parents.foldl (addParent owner e.name) b

/-- The graph of a schema, built in two passes. -/
def ofSchema (s : Schema) : GraphBuilder :=
  s.entities.foldl addFields (s.entities.foldl addEntity empty)

/-- The vertices and edges that have been added. -/
def graph (b : GraphBuilder) : EntityGraph := ⟨b.vertices, b.edges⟩

/-- The parent relations of a name. -/
def parentsNamed (b : GraphBuilder) (field : String) : List Nat :=
  numbersOf b.parentsByName field

/-- The attributes of a name. -/
def attributesNamed (b : GraphBuilder) (field : String) : List Nat :=
  numbersOf b.attributesByName field

end GraphBuilder

end RowGuard
