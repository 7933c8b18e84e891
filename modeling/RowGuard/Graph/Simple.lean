import RowGuard.Graph.Shortest

/-!
# All simple paths to a field

`EntityGraph.allPaths` lists every path from an entity to a field of a given
name that visits no vertex twice, the shortest first and otherwise in the order
of a depth-first search.
-/

namespace RowGuard

namespace EntityGraph

/-- The trails that extend `trail`, which ends in `last`, to one of the targets
without visiting a vertex twice. Trails are listed last vertex first. No trail
has more than `room` further vertices. -/
def simpleTrails (g : EntityGraph) (targets : List Nat) (room last : Nat)
    (trail : List Nat) : List (List Nat) :=
  let found := if targets.contains last then [trail] else []
  match room with
  | 0 => found
  | room + 1 =>
    found ++ (g.edgesFrom last).flatMap fun edge =>
      if trail.contains edge.target then []
      else g.simpleTrails targets room edge.target (edge.target :: trail)

/-- The names on every simple path from an entity to a field, in the order of
their number. An entity's own name is the empty path. -/
def allPaths (g : EntityGraph) (entity field : String) : List (List String) :=
  if entity = field then [[]]
  else
    match g.entityVertex? entity with
    | none => []
    | some source =>
      let targets := (g.targets (g.searchFrom source) field).map (·.1)
      if targets.isEmpty then []
      else
        let trails := g.simpleTrails targets g.vertexCount source [source]
        (trails.map fun trail => g.namesOn trail.reverse).mergeSort
          fun p q => p.length ≤ q.length

end EntityGraph

end RowGuard
