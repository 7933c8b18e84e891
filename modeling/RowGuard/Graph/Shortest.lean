import RowGuard.Graph.Basic

/-!
# The cheapest path to a field

`EntityGraph.shortestPath` finds the cheapest chain of fields from an entity to
a field of a given name. It settles vertices one by one in the order of their
cost, and of their number where costs are equal, and keeps a route to each
vertex until a strictly cheaper one turns up. Parent relations of the name come
before attributes of the name, among what can be reached.
-/

namespace RowGuard

/-- The first of the items with the least key. -/
def firstLeast? {α : Type} (key : α → Nat) : List α → Option α
  | [] => none
  | a :: as =>
    match firstLeast? key as with
    | none => some a
    | some b => if key b < key a then some b else some a

/-- A way to a vertex: what it costs and the vertices on it, the last one
first. -/
structure Route where
  cost : Nat
  trail : List Nat
deriving DecidableEq, Repr

namespace Route

/-- A way costs less than this; costs do not grow beyond it. -/
def costLimit : Nat := 0xFFFFFFFF

/-- The way that goes on along an edge. -/
def along (r : Route) (edge : Edge) : Route :=
  ⟨min (r.cost + edge.weight) costLimit, edge.target :: r.trail⟩

end Route

/-- A search in progress: the best route to each vertex, by number, and the
vertices whose route is final. -/
structure Search where
  routes : List (Option Route)
  settled : List Nat
deriving DecidableEq, Repr

namespace Search

/-- The search at its start. -/
def start (size source : Nat) : Search :=
  ⟨(List.replicate size none).set source (some ⟨0, [source]⟩), []⟩

/-- The route to a vertex. -/
def route? (s : Search) (id : Nat) : Option Route :=
  s.routes[id]?.join

/-- The cost of the route to a vertex, or the limit if there is none. -/
def cost (s : Search) (id : Nat) : Nat :=
  (s.route? id).elim Route.costLimit Route.cost

/-- Keeps a route to its last vertex if it is cheaper than the one known. -/
def offer (s : Search) (id : Nat) (r : Route) : Search :=
  if r.cost < s.cost id then
    { s with routes := s.routes.set id (some r) } else s

/-- The routes to some vertices. -/
def routesTo (s : Search) (ids : List Nat) : List (Nat × Route) :=
  ids.filterMap fun id => (s.route? id).map fun r => (id, r)

/-- The vertex to settle next: the cheapest one that is not settled. -/
def nearest? (s : Search) : Option (Nat × Route) :=
  let unsettled := (List.range s.routes.length).filter (!s.settled.contains ·)
  firstLeast? (·.2.cost) (s.routesTo unsettled)

end Search

namespace EntityGraph

/-- Settles one more vertex and follows its edges. -/
def settleNext (g : EntityGraph) (s : Search) : Search :=
  match s.nearest? with
  | none => s
  | some (id, r) =>
    (g.edgesFrom id).foldl (fun s edge => s.offer edge.target (r.along edge))
      { s with settled := id :: s.settled }

/-- The finished search from a vertex: each round settles a vertex, so as many
rounds as vertices are enough. -/
def searchFrom (g : EntityGraph) (source : Nat) : Search :=
  (List.range g.vertexCount).foldl (fun s _ => g.settleNext s)
    (.start g.vertexCount source)

/-- The vertices that a name may mean for a finished search: the parent
relations of the name that are reached, or else the attributes. -/
def targets (g : EntityGraph) (s : Search) (field : String) :
    List (Nat × Route) :=
  match s.routesTo (g.parentsNamed field) with
  | [] => s.routesTo (g.attributesNamed field)
  | parents => parents

/-- The names on the cheapest path from an entity to a field. An entity's own
name is the empty path; there is none if the field cannot be reached. -/
def shortestPath (g : EntityGraph) (entity field : String) :
    Option (List String) :=
  if entity = field then some []
  else do
    let source ← g.entityVertex? entity
    let (_, route) ← firstLeast? (·.2.cost)
      (g.targets (g.searchFrom source) field)
    return g.namesOn route.trail.reverse

end EntityGraph

end RowGuard
