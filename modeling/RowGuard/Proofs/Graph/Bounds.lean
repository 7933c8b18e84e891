import RowGuard.Graph.Simple
import RowGuard.Proofs.Graph.Search

/-!
# Searches stay inside of the graph

Every place of the searches that is read or written by number has here a form
that fails if the number is out of bounds: the costs and routes of a search
(`Search.offer?`, `Search.routesTo?`), and the edges of a vertex.  In a graph
with a list of edges for each vertex, all of them leading to vertices, nothing
fails: both searches do the same with and without these checks
(`EntityGraph.searchFrom?_eq`, `EntityGraph.simpleTrails?_eq`).
-/

namespace RowGuard

/-! ## Steps that may fail -/

section

variable {α β σ : Type}

/-- A fold over steps that do not fail where an invariant holds does not
fail. -/
theorem foldlM_eq_some {m : σ → α → Option σ} {f : σ → α → σ} {P : σ → Prop}
    {l : List α} (hstep : ∀ s, P s → ∀ a ∈ l, m s a = some (f s a) ∧ P (f s a))
    {s : σ} (hs : P s) :
    l.foldlM m s = some (l.foldl f s) ∧ P (l.foldl f s) := by
  induction l generalizing s with
  | nil => exact ⟨rfl, hs⟩
  | cons a l ih =>
    obtain ⟨hfirst, hnext⟩ := hstep s hs a (.head _)
    rw [List.foldlM_cons, List.foldl_cons, hfirst]
    exact ih (fun s hs a ha => hstep s hs a (.tail _ ha)) hnext

theorem mapM_eq_some {m : α → Option β} {f : α → β} {l : List α}
    (h : ∀ a ∈ l, m a = some (f a)) : l.mapM m = some (l.map f) := by
  induction l with
  | nil => rw [List.mapM_nil, List.map_nil]; rfl
  | cons a l ih =>
    obtain ⟨hfirst, hrest⟩ := List.forall_mem_cons.1 h
    rw [List.mapM_cons, hfirst, ih hrest]
    rfl

end

namespace Search

variable {s : Search} {id : Nat} {r : Route}

/-- Offers a route to a vertex for which there must be a place. -/
def offer? (s : Search) (id : Nat) (r : Route) : Option Search := do
  let known ← s.routes[id]?
  return if r.cost < known.elim Route.costLimit Route.cost then
    { s with routes := s.routes.set id (some r) }
  else s

/-- The routes to some vertices, for each of which there must be a place. -/
def routesTo? (s : Search) (ids : List Nat) : Option (List (Nat × Route)) := do
  let places ← ids.mapM fun id => (s.routes[id]?).map fun route => (id, route)
  return places.filterMap fun (id, route) => route.map fun r => (id, r)

theorem offer?_eq (h : id < s.routes.length) :
    s.offer? id r = some (s.offer id r) := by
  have hplace : s.routes[id]? = some s.routes[id] := List.getElem?_eq_getElem h
  rw [offer?, offer, cost, route?, hplace]
  rfl

theorem routesTo?_eq {ids : List Nat} (h : ∀ id ∈ ids, id < s.routes.length) :
    s.routesTo? ids = some (s.routesTo ids) := by
  have hplaces : ids.mapM
      (fun id => (s.routes[id]?).map fun route => (id, route)) =
      some (ids.map fun id => (id, s.route? id)) := by
    refine mapM_eq_some fun id hid => ?_
    rw [route?, List.getElem?_eq_getElem (h id hid)]
    rfl
  rw [routesTo?, hplaces]
  exact congrArg some List.filterMap_map

end Search

namespace EntityGraph

variable {g : EntityGraph} {source : Nat}

/-- There is a list of edges for each vertex, and each edge leads to a
vertex. -/
structure Sound (g : EntityGraph) : Prop where
  edges_length : g.edges.length = g.vertexCount
  target_lt : ∀ edges ∈ g.edges, ∀ edge ∈ edges, edge.target < g.vertexCount

theorem Sound.exists_edges (h : g.Sound) {id : Nat} (hid : id < g.vertexCount) :
    g.edges[id]? = some (g.edgesFrom id) ∧
      ∀ edge ∈ g.edgesFrom id, edge.target < g.vertexCount := by
  have hlt : id < g.edges.length := h.edges_length ▸ hid
  have hedges : g.edgesFrom id = g.edges[id] := by
    rw [edgesFrom, List.getElem?_eq_getElem hlt, Option.getD_some]
  rw [hedges]
  exact ⟨List.getElem?_eq_getElem hlt, h.target_lt _ (List.getElem_mem hlt)⟩

/-! ## The cheapest paths -/

/-- Settles one more vertex; all that is read or written must be there. -/
def settleNext? (g : EntityGraph) (s : Search) : Option Search :=
  match s.nearest? with
  | none => some s
  | some (id, r) => do
    let edges ← g.edges[id]?
    edges.foldlM (fun s edge => s.offer? edge.target (r.along edge))
      { s with settled := id :: s.settled }

/-- The finished search from a vertex; all that is read or written must be
there. -/
def searchFrom? (g : EntityGraph) (source : Nat) : Option Search := do
  let _ ← (List.replicate g.vertexCount (none : Option Route))[source]?
  (List.range g.vertexCount).foldlM (fun s _ => g.settleNext? s)
    (.start g.vertexCount source)

/-- A round finds all that it reads and keeps a place for each vertex. -/
theorem settleNext?_eq (h : g.Sound) {s : Search}
    (hlength : s.routes.length = g.vertexCount) :
    g.settleNext? s = some (g.settleNext s) ∧
      (g.settleNext s).routes.length = g.vertexCount := by
  unfold settleNext? settleNext
  cases hnearest : s.nearest? with
  | none => exact ⟨rfl, hlength⟩
  | some found =>
    obtain ⟨id, r⟩ := found
    have hid := Search.route?_lt (Search.nearest?_eq_some hnearest).2.1
    obtain ⟨hedges, htargets⟩ := h.exists_edges (hlength ▸ hid)
    have hoffers := foldlM_eq_some
      (P := fun t : Search => t.routes.length = g.vertexCount)
      (m := fun t edge => t.offer? edge.target (r.along edge))
      (f := fun t edge => t.offer edge.target (r.along edge))
      (l := g.edgesFrom id)
      (fun t ht edge hedge => ⟨Search.offer?_eq (ht ▸ htargets edge hedge),
        Search.offer_length.trans ht⟩)
      (s := { s with settled := id :: s.settled }) hlength
    dsimp only
    rw [hedges]
    exact hoffers

theorem searchFrom?_eq (h : g.Sound) (hsource : source < g.vertexCount) :
    g.searchFrom? source = some (g.searchFrom source) ∧
      (g.searchFrom source).routes.length = g.vertexCount := by
  have hstart : (Search.start g.vertexCount source).routes.length =
      g.vertexCount := by
    simp [Search.start]
  have hplace : (List.replicate g.vertexCount (none : Option Route))[source]? =
      some none := by
    rw [List.getElem?_replicate, if_pos hsource]
  rw [searchFrom?, hplace, searchFrom]
  exact foldlM_eq_some (P := fun t : Search => t.routes.length = g.vertexCount)
    (fun t ht _ _ => settleNext?_eq h ht) hstart

/-! ## All simple paths -/

/-- The trails that extend a trail to one of the targets; each vertex that is
visited must have its list of edges. -/
def simpleTrails? (g : EntityGraph) (targets : List Nat) (room last : Nat)
    (trail : List Nat) :
    Option (List (List Nat)) :=
  let found := if targets.contains last then [trail] else []
  match room with
  | 0 => some found
  | room + 1 => do
    let edges ← g.edges[last]?
    let further ← edges.mapM fun edge =>
      if trail.contains edge.target then some []
      else g.simpleTrails? targets room edge.target (edge.target :: trail)
    return found ++ further.flatten

theorem simpleTrails?_eq (h : g.Sound) (targets : List Nat) (room : Nat)
    {last : Nat} (hlast : last < g.vertexCount) (trail : List Nat) :
    g.simpleTrails? targets room last trail =
      some (g.simpleTrails targets room last trail) := by
  induction room generalizing last trail with
  | zero => rw [simpleTrails?, simpleTrails]
  | succ room ih =>
    obtain ⟨hedges, htargets⟩ := h.exists_edges hlast
    have hfurther := mapM_eq_some
      (m := fun edge => if trail.contains edge.target then some []
        else g.simpleTrails? targets room edge.target (edge.target :: trail))
      (f := fun edge => if trail.contains edge.target then []
        else g.simpleTrails targets room edge.target (edge.target :: trail))
      (l := g.edgesFrom last) fun edge hedge => by
        by_cases hpassed : trail.contains edge.target
        · rw [if_pos hpassed, if_pos hpassed]
        · rw [if_neg hpassed, if_neg hpassed, ih (htargets edge hedge)]
    rw [simpleTrails?, simpleTrails, hedges]
    dsimp only [Option.bind_eq_bind, Option.bind_some]
    rw [hfurther, List.flatMap_def]
    rfl

end EntityGraph

end RowGuard
