import RowGuard.Schema.Basic

/-!
# The graph of a schema

The vertices are the entities, their attributes and their relations to parents.
An entity leads to its attributes at no cost and to its parent relations at the
cost of a join, which is higher where the parent may be missing; a parent
relation leads to the parent itself. `EntityGraph.ofSchema` numbers the vertices
in the order of the schema: first the entities, then for each of them its own
fields.
-/

namespace RowGuard

/-- A vertex of the graph. -/
inductive Vertex where
  | entity (name : String)
  | attributeOf (owner name : String)
  | parentOf (owner name : String)
deriving DecidableEq, Repr

namespace Vertex

/-- The name by which a path step calls the vertex. -/
def name : Vertex → String
  | .entity name => name
  | .attributeOf _ name => name
  | .parentOf _ name => name

/-- Whether the vertex is an entity. -/
def isEntity : Vertex → Bool
  | .entity _ => true
  | _ => false

/-- The text of the vertex. -/
def display : Vertex → String
  | .entity name => name
  | .attributeOf owner name => owner ++ "." ++ name
  | .parentOf owner name => owner ++ "->" ++ name

end Vertex

/-- The cost of a parent that is always there. -/
def requiredWeight : Nat := 1

/-- The cost of a parent that may be missing. -/
def optionalWeight : Nat := 2

/-- The cost of the join to a parent. -/
def Relation.weight (r : Relation) : Nat :=
  if r.optional then optionalWeight else requiredWeight

namespace Entity

/-- The names of the columns that are fields: the identity, unless an attribute
has its name, and the attributes. -/
def attributeNames (e : Entity) : List String :=
  (if (e.attribute? e.identity).isSome then [] else [e.identity]) ++
    e.attributes.map (·.name)

/-- The vertices of an entity's fields. -/
def fieldVertices (e : Entity) : List Vertex :=
  e.attributeNames.map (.attributeOf e.name) ++
    e.parents.map fun r => .parentOf e.name r.name

/-- What an entity leads to, with costs. -/
def arcs (e : Entity) : List (Vertex × Nat) :=
  e.attributeNames.map (fun name => (.attributeOf e.name name, 0)) ++
    e.parents.map fun r => (.parentOf e.name r.name, r.weight)

/-- What a parent relation of the entity leads to. -/
def arcsOfParent (e : Entity) (name : String) : List (Vertex × Nat) :=
  (e.parents.filter (·.name == name)).map fun r => (.entity r.target, 0)

end Entity

namespace Schema

/-- The vertices of a schema, each one once. -/
def vertices (s : Schema) : List Vertex :=
  (s.entities.map (fun e => Vertex.entity e.name) ++
    s.entities.flatMap Entity.fieldVertices).eraseDups

/-- What a vertex leads to, with costs. -/
def arcs (s : Schema) : Vertex → List (Vertex × Nat)
  | .entity name => (s.entity? name).elim [] Entity.arcs
  | .parentOf owner name => (s.entity? owner).elim [] (·.arcsOfParent name)
  | .attributeOf _ _ => []

end Schema

/-- An arc to the vertex with the number `target`. -/
structure Edge where
  target : Nat
  weight : Nat
deriving DecidableEq, Repr

/-- Numbered vertices and the edges that leave each of them. -/
structure EntityGraph where
  vertices : List Vertex
  edges : List (List Edge)
deriving DecidableEq, Repr

namespace EntityGraph

/-- The graph of a schema. -/
def ofSchema (s : Schema) : EntityGraph :=
  let vertices := s.vertices
  { vertices
    edges := vertices.map fun v =>
      (s.arcs v).map fun (target, weight) => ⟨vertices.idxOf target, weight⟩ }

/-- The number of vertices. -/
def vertexCount (g : EntityGraph) : Nat := g.vertices.length

/-- The number of edges. -/
def edgeCount (g : EntityGraph) : Nat := g.edges.flatten.length

/-- The vertex of a number. -/
def vertex? (g : EntityGraph) (id : Nat) : Option Vertex := g.vertices[id]?

/-- The edges that leave the vertex of a number. -/
def edgesFrom (g : EntityGraph) (id : Nat) : List Edge := g.edges[id]?.getD []

/-- The number of an entity's vertex. -/
def entityVertex? (g : EntityGraph) (name : String) : Option Nat :=
  g.vertices.idxOf? (.entity name)

/-- The numbers of the vertices with a property, in increasing order. -/
def numbersWhere (g : EntityGraph) (p : Vertex → Bool) : List Nat :=
  (List.range g.vertexCount).filter fun id => (g.vertex? id).any p

/-- The parent relations of a name. -/
def parentsNamed (g : EntityGraph) (field : String) : List Nat :=
  g.numbersWhere fun
    | .parentOf _ name => name == field
    | _ => false

/-- The attributes of a name. -/
def attributesNamed (g : EntityGraph) (field : String) : List Nat :=
  g.numbersWhere fun
    | .attributeOf _ name => name == field
    | _ => false

/-- The names along a trail of vertices. Entities have none, since a path passes
through them without a step. -/
def namesOn (g : EntityGraph) (trail : List Nat) : List String :=
  ((trail.filterMap g.vertex?).filter (!·.isEntity)).map Vertex.name

end EntityGraph

end RowGuard
