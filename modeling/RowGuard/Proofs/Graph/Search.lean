import Mathlib.Data.List.Nodup
import Mathlib.Data.List.Perm.Subperm
import RowGuard.Graph.Shortest

/-!
# The search finds the cheapest walks

`EntityGraph.searchFrom` settles the vertices of a graph one by one.  This
module says what the finished search knows.  Nothing here mentions schemas: the
graph is any whose edges stay inside of it (`EntityGraph.Closed`).

* `EntityGraph.Walk` is a walk along edges, with its vertices and its cost.
* `Search.Relaxed` says what following the edges of a vertex does to the routes
  of a search.  `Search.offerAll_relaxed` is the induction over the edges.
* `Search.Valid` is the invariant of the rounds: routes are walks through
  settled vertices, the settled vertices are the cheapest ones, and their edges
  have been followed.  `Search.Valid.settle` is the step.
* A search has one more settled vertex after every round, until all vertices
  with a route are settled (`EntityGraph.searchFrom_finished`).
* `EntityGraph.searchFrom_route` and `EntityGraph.searchFrom_cost_le` are the
  results: a route is a walk without repetitions, and no walk costs less.
-/

namespace RowGuard

/-! ## The first least item -/

section

variable {α : Type} {key : α → Nat} {items : List α} {a : α}

theorem firstLeast?_eq_none_iff : firstLeast? key items = none ↔
    items = [] := by
  cases items with
  | nil => simp [firstLeast?]
  | cons b items =>
    simp only [firstLeast?, reduceCtorEq, iff_false]
    cases firstLeast? key items with
    | none => simp
    | some c => dsimp only; split <;> simp

/-- The first least item is one of the items, and none has a smaller key. -/
theorem firstLeast?_eq_some (h : firstLeast? key items = some a) :
    a ∈ items ∧ ∀ b ∈ items, key a ≤ key b := by
  induction items generalizing a with
  | nil => simp [firstLeast?] at h
  | cons b items ih =>
    rw [firstLeast?] at h
    cases hrest : firstLeast? key items with
    | none =>
      rw [firstLeast?_eq_none_iff] at hrest
      subst hrest
      simp only [firstLeast?, Option.some.injEq] at h
      subst h
      simp
    | some c =>
      rw [hrest] at h
      obtain ⟨hmem, hle⟩ := ih hrest
      dsimp only at h
      split at h
      · next hlt =>
        obtain rfl := Option.some.inj h
        refine ⟨List.mem_cons_of_mem _ hmem, ?_⟩
        intro d hd
        rcases List.mem_cons.1 hd with rfl | hd
        · omega
        · exact hle d hd
      · next hge =>
        obtain rfl := Option.some.inj h
        refine ⟨List.mem_cons_self .., ?_⟩
        intro d hd
        rcases List.mem_cons.1 hd with rfl | hd
        · omega
        · have hd' := hle d hd
          omega

end

/-! ## Walks -/

namespace EntityGraph

/-- The edges of the graph lead to vertices of the graph. -/
def Closed (g : EntityGraph) : Prop :=
  ∀ id, ∀ edge ∈ g.edgesFrom id, edge.target < g.vertexCount

/-- A walk along edges, with its vertices, the last one first, and its cost. -/
inductive Walk (g : EntityGraph) (source : Nat) :
    (trail : List Nat) → (cost : Nat) → Prop where
  | start : Walk g source [source] 0
  | step {id : Nat} {trail : List Nat} {cost : Nat} {edge : Edge}
      (before : Walk g source (id :: trail) cost)
      (hedge : edge ∈ g.edgesFrom id) :
      Walk g source (edge.target :: id :: trail) (cost + edge.weight)

theorem Walk.lt_vertexCount {g : EntityGraph} {source : Nat}
    (hclosed : g.Closed) (hsource : source < g.vertexCount) {trail : List Nat}
    {cost : Nat} (h : g.Walk source trail cost) :
    ∀ id ∈ trail, id < g.vertexCount := by
  induction h with
  | start => simpa using hsource
  | step before hedge ih => exact List.forall_mem_cons.2 ⟨hclosed _ _ hedge, ih⟩

end EntityGraph

/-! ## Offers -/

namespace Search

variable {s t : Search} {id other : Nat} {r : Route}

theorem route?_lt (h : s.route? id = some r) : id < s.routes.length := by
  rw [route?, Option.join_eq_some_iff, List.getElem?_eq_some_iff] at h
  exact h.1

theorem cost_of_route? (h : s.route? id = some r) : s.cost id = r.cost := by
  rw [cost, h, Option.elim_some]

theorem cost_congr (h : s.route? id = t.route? id) : s.cost id = t.cost id := by
  rw [cost, cost, h]

/-- A vertex whose cost is below the limit has a route. -/
theorem exists_route (h : s.cost id < Route.costLimit) :
    ∃ r, s.route? id = some r := by
  cases hroute : s.route? id with
  | none => simp [cost, hroute] at h
  | some r => exact ⟨r, rfl⟩

theorem offer_settled : (s.offer id r).settled = s.settled := by
  rw [offer]
  split <;> rfl

theorem offer_length : (s.offer id r).routes.length = s.routes.length := by
  rw [offer]
  split
  · simp
  · rfl

/-- An offer is taken by its own vertex, if it is cheaper. -/
theorem offer_route? : (s.offer id r).route? other =
    if other = id ∧ id < s.routes.length ∧ r.cost < s.cost id then some r
    else s.route? other := by
  rw [offer]
  by_cases hcheaper : r.cost < s.cost id
  · rw [if_pos hcheaper, route?, List.getElem?_set]
    by_cases hother : id = other
    · subst hother
      by_cases hlt : id < s.routes.length
      · simp [hlt, hcheaper]
      · simp [hlt, route?]
    · rw [if_neg hother, if_neg (fun h => hother h.1.symm), route?]
  · rw [if_neg hcheaper, if_neg (fun h => hcheaper h.2.2)]

/-- What the offers of routes along some edges do to a search. -/
structure Relaxed (r : Route) (edges : List Edge) (s t : Search) : Prop where
  settled_eq : t.settled = s.settled
  length_eq : t.routes.length = s.routes.length
  /-- A route stays, or is a cheaper one along an edge. -/
  cases : ∀ id, t.route? id = s.route? id ∨
    ∃ edge ∈ edges, edge.target = id ∧ t.route? id = some (r.along edge) ∧
      (r.along edge).cost < s.cost id
  cost_le : ∀ id, t.cost id ≤ s.cost id
  taken : ∀ edge ∈ edges, edge.target < s.routes.length →
    t.cost edge.target ≤ (r.along edge).cost

theorem offer_relaxed (s : Search) (r : Route) (edge : Edge) :
    Relaxed r [edge] s (s.offer edge.target (r.along edge)) := by
  have hcases : ∀ id, (s.offer edge.target (r.along edge)).route? id =
      s.route? id ∨
      edge.target = id ∧ (s.offer edge.target (r.along edge)).route? id = some
        (r.along edge) ∧
        (r.along edge).cost < s.cost id := by
    intro id
    rw [offer_route?]
    split
    · next h =>
      obtain ⟨rfl, -, hcheaper⟩ := h
      exact .inr ⟨rfl, rfl, hcheaper⟩
    · exact .inl rfl
  refine ⟨offer_settled, offer_length, ?_, ?_, ?_⟩
  · intro id
    rcases hcases id with hsame | hnew
    · exact .inl hsame
    · exact .inr ⟨edge, List.mem_singleton_self _, hnew⟩
  · intro id
    rcases hcases id with hsame | ⟨-, hnew, hcheaper⟩
    · exact Nat.le_of_eq (cost_congr hsame)
    · rw [cost_of_route? hnew]
      omega
  · intro taken htaken hlt
    obtain rfl := List.mem_singleton.1 htaken
    by_cases hcheaper : (r.along taken).cost < s.cost taken.target
    · have hnew : (s.offer taken.target (r.along taken)).route? taken.target =
          some (r.along taken) := by
        rw [offer_route?, if_pos ⟨rfl, hlt, hcheaper⟩]
      exact Nat.le_of_eq (cost_of_route? hnew)
    · have hsame : (s.offer taken.target (r.along taken)).route? taken.target =
          s.route? taken.target := by
        rw [offer_route?, if_neg (fun h => hcheaper h.2.2)]
      rw [cost_congr hsame]
      omega

theorem Relaxed.trans {u : Search} {edges more : List Edge}
    (h : Relaxed r edges s t) (h' : Relaxed r more t u) :
    Relaxed r (edges ++ more) s u := by
  refine ⟨h'.settled_eq.trans h.settled_eq, h'.length_eq.trans h.length_eq,
    ?_, ?_, ?_⟩
  · intro id
    rcases h'.cases id with hsame | ⟨edge, hedge, htarget, hnew, hcheaper⟩
    · rcases h.cases id with hold | ⟨edge, hedge, htarget, hnew, hcheaper⟩
      · exact .inl (hsame.trans hold)
      · exact .inr ⟨edge, List.mem_append_left _ hedge, htarget,
          hsame.trans hnew, hcheaper⟩
    · have hle := h.cost_le id
      exact .inr ⟨edge, List.mem_append_right _ hedge, htarget, hnew, by omega⟩
  · intro id
    exact Nat.le_trans (h'.cost_le id) (h.cost_le id)
  · intro edge hedge hlt
    rcases List.mem_append.1 hedge with hedge | hedge
    · exact Nat.le_trans (h'.cost_le _) (h.taken edge hedge hlt)
    · exact h'.taken edge hedge (h.length_eq ▸ hlt)

theorem offerAll_relaxed (r : Route) (edges : List Edge) (s : Search) :
    Relaxed r edges s
      (edges.foldl (fun s edge => s.offer edge.target (r.along edge)) s) := by
  induction edges generalizing s with
  | nil =>
    exact ⟨rfl, rfl, fun _ => .inl rfl, fun _ => Nat.le_refl _, by simp⟩
  | cons edge edges ih =>
    exact (offer_relaxed s r edge).trans (ih _)

/-! ## The next vertex -/

theorem mem_routesTo_iff {ids : List Nat} :
    (id, r) ∈ s.routesTo ids ↔ id ∈ ids ∧ s.route? id = some r := by
  simp only [routesTo, List.mem_filterMap, Option.map_eq_some_iff,
    Prod.mk.injEq]
  constructor
  · rintro ⟨_, hmem, _, hroute, rfl, rfl⟩
    exact ⟨hmem, hroute⟩
  · rintro ⟨hmem, hroute⟩
    exact ⟨id, hmem, r, hroute, rfl, rfl⟩

theorem mem_unsettled_iff :
    id ∈ (List.range s.routes.length).filter (!s.settled.contains ·) ↔
    id < s.routes.length ∧ id ∉ s.settled := by
  simp [List.mem_filter, List.mem_range]

/-- The next vertex is the cheapest one that is not settled. -/
theorem nearest?_eq_some (h : s.nearest? = some (id, r)) :
    id ∉ s.settled ∧ s.route? id = some r ∧
      ∀ other r', other ∉ s.settled → s.route? other = some r' →
        r.cost ≤ r'.cost := by
  obtain ⟨hmem, hle⟩ := firstLeast?_eq_some h
  rw [mem_routesTo_iff, mem_unsettled_iff] at hmem
  refine ⟨hmem.1.2, hmem.2, ?_⟩
  intro other r' hother hroute
  have hunsettled := mem_unsettled_iff.2 ⟨route?_lt hroute, hother⟩
  exact hle (other, r') (mem_routesTo_iff.2 ⟨hunsettled, hroute⟩)

/-- All vertices with a route are settled. -/
def Finished (s : Search) : Prop :=
  ∀ id r, s.route? id = some r → id ∈ s.settled

theorem finished_of_nearest? (h : s.nearest? = none) : s.Finished := by
  intro id r hroute
  by_contra hunsettled
  have hempty := firstLeast?_eq_none_iff.1 h
  have hmem : (id, r) ∈ s.routesTo
      ((List.range s.routes.length).filter (!s.settled.contains ·)) :=
    mem_routesTo_iff.2
      ⟨mem_unsettled_iff.2 ⟨route?_lt hroute, hunsettled⟩, hroute⟩
  rw [hempty] at hmem
  cases hmem

/-! ## The invariant of the rounds -/

/-- A route is a walk without repetitions through settled vertices, below the
limit of costs. -/
structure ValidRoute (g : EntityGraph) (source : Nat) (s : Search) (id : Nat)
    (r : Route) : Prop where
  walk : g.Walk source r.trail r.cost
  cost_lt : r.cost < Route.costLimit
  nodup : r.trail.Nodup
  through : ∃ passed, r.trail = id :: passed ∧ ∀ x ∈ passed, x ∈ s.settled

/-- What is true of a search from `source` after every round. -/
structure Valid (g : EntityGraph) (source : Nat) (s : Search) : Prop where
  length_eq : s.routes.length = g.vertexCount
  source_cost : s.cost source = 0
  routes : ∀ id r, s.route? id = some r → ValidRoute g source s id r
  settled_nodup : s.settled.Nodup
  reached : ∀ id ∈ s.settled, ∃ r, s.route? id = some r
  /-- What is settled is not more expensive than what is not. -/
  ordered : ∀ id ∈ s.settled, ∀ other r, other ∉ s.settled →
    s.route? other = some r → s.cost id ≤ r.cost
  /-- The edges of settled vertices have been followed. -/
  followed : ∀ id ∈ s.settled, ∀ edge ∈ g.edgesFrom id, s.cost edge.target ≤
    s.cost id + edge.weight

variable {g : EntityGraph} {source : Nat}

theorem Valid.cost_le_limit (h : Valid g source s) (id : Nat) :
    s.cost id ≤ Route.costLimit := by
  cases hroute : s.route? id with
  | none => simp [cost, hroute]
  | some r =>
    have hlt := (h.routes id r hroute).cost_lt
    rw [cost_of_route? hroute]
    omega

/-- The start of a search is valid. -/
theorem start_valid (hsource : source < g.vertexCount) :
    Valid g source (start g.vertexCount source) := by
  have hroute? : ∀ id, (start g.vertexCount source).route? id =
      if id = source then some ⟨0, [source]⟩ else none := by
    intro id
    rw [start, route?, List.getElem?_set]
    by_cases hid : source = id
    · subst hid
      simp [hsource]
    · rw [if_neg hid, if_neg (Ne.symm hid), List.getElem?_replicate]
      split <;> rfl
  refine ⟨by simp [start], ?_, ?_, List.nodup_nil, by simp [start],
    by simp [start], by simp [start]⟩
  · rw [cost_of_route? (hroute? source ▸ if_pos rfl)]
  · intro id r hroute
    rw [hroute?] at hroute
    split at hroute
    · next heq =>
      subst heq
      obtain rfl := Option.some.inj hroute
      exact ⟨.start, by simp [Route.costLimit], by simp, [], rfl, by simp⟩
    · cases hroute

section

variable (hclosed : g.Closed) (hvalid : Valid g source s) (hid : id ∉ s.settled)
  (hroute : s.route? id = some r)
  (hleast : ∀ other r', other ∉ s.settled → s.route? other = some r' →
    r.cost ≤ r'.cost)
  (hrelaxed : Relaxed r (g.edgesFrom id)
    { s with settled := id :: s.settled } t)

include hvalid hroute

theorem Valid.along_cost_ge (edge : Edge) : r.cost ≤ (r.along edge).cost := by
  have hlt := (hvalid.routes id r hroute).cost_lt
  simp only [Route.along]
  omega

include hid in
theorem Valid.cost_le_of_settled {x : Nat} (hx : x ∈ id :: s.settled) :
    s.cost x ≤ r.cost := by
  rcases List.mem_cons.1 hx with rfl | hx
  · exact Nat.le_of_eq (cost_of_route? hroute)
  · exact hvalid.ordered x hx id r hid hroute

include hid hrelaxed

/-- Routes to settled vertices are final. -/
theorem Valid.route?_eq_of_settled {x : Nat} (hx : x ∈ id :: s.settled) :
    t.route? x = s.route? x := by
  rcases hrelaxed.cases x with hsame | ⟨edge, -, -, -, hcheaper⟩
  · exact hsame
  · have hle := hvalid.cost_le_of_settled hid hroute hx
    have hge := hvalid.along_cost_ge hroute edge
    have hcost : (r.along edge).cost < s.cost x := hcheaper
    omega

theorem Valid.validRoute_settle {other : Nat} {r' : Route}
    (hother : t.route? other = some r') :
    ValidRoute g source t other r' := by
  have hsettled : t.settled = id :: s.settled := hrelaxed.settled_eq
  rcases hrelaxed.cases other with
    hsame | ⟨edge, hedge, htarget, hnew, hcheaper⟩
  · obtain ⟨hwalk, hlt, hnodup, passed, htrail, hpassed⟩ :=
      hvalid.routes other r' (hsame.symm.trans hother)
    refine ⟨hwalk, hlt, hnodup, passed, htrail, ?_⟩
    intro x hx
    rw [hsettled]
    exact List.mem_cons_of_mem _ (hpassed x hx)
  · obtain rfl : r.along edge = r' := Option.some.inj (hnew.symm.trans hother)
    obtain ⟨hwalk, hlt, hnodup, passed, htrail, hpassed⟩ :=
      hvalid.routes id r hroute
    have hcheaper : (r.along edge).cost < s.cost other := hcheaper
    have hlimit := hvalid.cost_le_limit other
    have hcost : (r.along edge).cost = r.cost + edge.weight := by
      simp only [Route.along] at hcheaper ⊢
      omega
    have htrail' : (r.along edge).trail = edge.target :: r.trail := rfl
    have hthrough : ∀ x ∈ r.trail, x ∈ id :: s.settled := by
      rw [htrail]
      exact List.forall_mem_cons.2
        ⟨List.mem_cons_self ..,
          fun x hx => List.mem_cons_of_mem _ (hpassed x hx)⟩
    have hfresh : other ∉ r.trail := by
      intro hmem
      have hle := hvalid.cost_le_of_settled hid hroute (hthrough other hmem)
      have hge := hvalid.along_cost_ge hroute edge
      omega
    refine ⟨?_, by omega, ?_, r.trail, ?_, ?_⟩
    · rw [htrail', hcost, htrail]
      rw [htrail] at hwalk
      exact hwalk.step hedge
    · rw [htrail', htarget]
      exact List.nodup_cons.2 ⟨hfresh, hnodup⟩
    · rw [htrail', htarget]
    · rw [hsettled]
      exact hthrough

include hclosed hleast

/-- Settling the cheapest vertex keeps a search valid. -/
theorem Valid.settle : Valid g source t := by
  have hsettled : t.settled = id :: s.settled := hrelaxed.settled_eq
  have hfinal : ∀ x ∈ id :: s.settled, t.route? x = s.route? x := fun x hx =>
    hvalid.route?_eq_of_settled hid hroute hrelaxed hx
  have hreached : ∀ x ∈ id :: s.settled, ∃ r', s.route? x = some r' :=
    List.forall_mem_cons.2 ⟨⟨r, hroute⟩, hvalid.reached⟩
  have hcost_le : ∀ x, t.cost x ≤ s.cost x := hrelaxed.cost_le
  refine ⟨hrelaxed.length_eq.trans hvalid.length_eq, ?_, ?_, ?_, ?_, ?_, ?_⟩
  · have hzero := hcost_le source
    rw [hvalid.source_cost] at hzero
    omega
  · intro other r' hother
    exact hvalid.validRoute_settle hid hroute hrelaxed hother
  · rw [hsettled]
    exact List.nodup_cons.2 ⟨hid, hvalid.settled_nodup⟩
  · rw [hsettled]
    intro x hx
    rw [hfinal x hx]
    exact hreached x hx
  · rw [hsettled]
    intro x hx other r' hother hother'
    have hle := hvalid.cost_le_of_settled hid hroute hx
    rw [cost_congr (hfinal x hx)]
    rcases hrelaxed.cases other with hsame | ⟨edge, -, -, hnew, -⟩
    · have hunsettled : other ∉ s.settled :=
        fun h => hother (List.mem_cons_of_mem _ h)
      have hold := hleast other r' hunsettled (hsame.symm.trans hother')
      omega
    · obtain rfl : r.along edge = r' :=
        Option.some.inj (hnew.symm.trans hother')
      have hge := hvalid.along_cost_ge hroute edge
      omega
  · rw [hsettled]
    intro x hx edge hedge
    rw [cost_congr (hfinal x hx)]
    rcases List.mem_cons.1 hx with rfl | hx
    · have hlt : edge.target < s.routes.length :=
        hvalid.length_eq ▸ hclosed x edge hedge
      have htaken := hrelaxed.taken edge hedge hlt
      rw [cost_of_route? hroute]
      simp only [Route.along] at htaken
      omega
    · exact Nat.le_trans (hcost_le _) (hvalid.followed x hx edge hedge)

end

theorem Valid.settled_lt (h : Valid g source s) :
    ∀ id ∈ s.settled, id < g.vertexCount := by
  intro id hid
  obtain ⟨r, hroute⟩ := h.reached id hid
  exact h.length_eq ▸ route?_lt hroute

theorem Valid.settled_subset (h : Valid g source s) :
    s.settled ⊆ List.range g.vertexCount :=
  fun id hid => List.mem_range.2 (h.settled_lt id hid)

/-- If there are as many settled vertices as vertices then all are settled. -/
theorem Valid.finished_of_length (h : Valid g source s)
    (hlength : g.vertexCount ≤ s.settled.length) : s.Finished := by
  intro id r hroute
  have hperm : s.settled.Perm (List.range g.vertexCount) := by
    refine (List.subperm_of_subset h.settled_nodup
      h.settled_subset).perm_of_length_le ?_
    rw [List.length_range]
    exact hlength
  rw [hperm.mem_iff, List.mem_range]
  exact h.length_eq ▸ route?_lt hroute

end Search

/-! ## The finished search -/

namespace EntityGraph

variable {g : EntityGraph} {source : Nat}

/-- A round keeps a search valid, and settles a vertex unless the search is
finished. -/
theorem settleNext_valid (hclosed : g.Closed) {s : Search}
    (hvalid : s.Valid g source) :
    (g.settleNext s).Valid g source ∧
      ((g.settleNext s).Finished ∨
        (g.settleNext s).settled.length = s.settled.length + 1) := by
  rw [settleNext]
  cases hnearest : s.nearest? with
  | none => exact ⟨hvalid, .inl (Search.finished_of_nearest? hnearest)⟩
  | some next =>
    obtain ⟨id, r⟩ := next
    obtain ⟨hid, hroute, hleast⟩ := Search.nearest?_eq_some hnearest
    have hrelaxed :=
      Search.offerAll_relaxed r (g.edgesFrom id)
        { s with settled := id :: s.settled }
    refine ⟨hvalid.settle hclosed hid hroute hleast hrelaxed, .inr ?_⟩
    dsimp only
    rw [hrelaxed.settled_eq, List.length_cons]

/-- A finished search stays as it is. -/
theorem settleNext_of_finished {s : Search} (h : s.Finished) :
    g.settleNext s = s := by
  rw [settleNext]
  cases hnearest : s.nearest? with
  | none => rfl
  | some next =>
    obtain ⟨id, r⟩ := next
    obtain ⟨hid, hroute, -⟩ := Search.nearest?_eq_some hnearest
    exact absurd (h id r hroute) hid

/-- The search after some rounds. -/
def searchRounds (g : EntityGraph) (source rounds : Nat) : Search :=
  (List.range rounds).foldl (fun s _ => g.settleNext s)
    (.start g.vertexCount source)

theorem searchRounds_succ (rounds : Nat) :
    g.searchRounds source (rounds + 1) =
      g.settleNext (g.searchRounds source rounds) := by
  rw [searchRounds, List.range_succ, List.foldl_append, List.foldl_cons,
    List.foldl_nil, searchRounds]

theorem searchRounds_valid (hclosed : g.Closed)
    (hsource : source < g.vertexCount) (rounds : Nat) :
    (g.searchRounds source rounds).Valid g source ∧
      ((g.searchRounds source rounds).Finished ∨
        rounds ≤ (g.searchRounds source rounds).settled.length) := by
  induction rounds with
  | zero => exact ⟨Search.start_valid hsource, .inr (Nat.zero_le _)⟩
  | succ rounds ih =>
    rw [searchRounds_succ]
    obtain ⟨hvalid, hprogress⟩ := ih
    obtain ⟨hvalid', hprogress'⟩ := settleNext_valid hclosed hvalid
    refine ⟨hvalid', ?_⟩
    rcases hprogress with hfinished | hlength
    · rw [settleNext_of_finished hfinished]
      exact .inl hfinished
    · rcases hprogress' with hfinished | hlength'
      · exact .inl hfinished
      · exact .inr (by omega)

theorem searchFrom_valid (hclosed : g.Closed)
    (hsource : source < g.vertexCount) :
    (g.searchFrom source).Valid g source :=
  (searchRounds_valid hclosed hsource g.vertexCount).1

/-- As many rounds as vertices are enough. -/
theorem searchFrom_finished (hclosed : g.Closed)
    (hsource : source < g.vertexCount) :
    (g.searchFrom source).Finished := by
  obtain ⟨hvalid, hfinished | hlength⟩ :=
    searchRounds_valid hclosed hsource g.vertexCount
  · exact hfinished
  · exact hvalid.finished_of_length hlength

/-- The route to a vertex is a walk to it without repetitions. -/
theorem searchFrom_route (hclosed : g.Closed) (hsource : source < g.vertexCount)
    {id : Nat} {r : Route} (h : (g.searchFrom source).route? id = some r) :
    g.Walk source r.trail r.cost ∧ r.trail.head? = some id ∧ r.trail.Nodup ∧
      r.cost < Route.costLimit := by
  obtain ⟨hwalk, hlt, hnodup, passed, htrail, -⟩ :=
    (searchFrom_valid hclosed hsource).routes id r h
  exact ⟨hwalk, by rw [htrail, List.head?_cons], hnodup, hlt⟩

/-- No walk to a vertex costs less than the search says. -/
theorem searchFrom_cost_le (hclosed : g.Closed)
    (hsource : source < g.vertexCount) {trail : List Nat} {cost : Nat}
    (h : g.Walk source trail cost) :
    ∀ id, trail.head? = some id → (g.searchFrom source).cost id ≤ cost := by
  have hvalid := searchFrom_valid hclosed hsource
  induction h with
  | start =>
    intro id hid
    obtain rfl := Option.some.inj hid
    exact Nat.le_of_eq hvalid.source_cost
  | @step last trail cost edge before hedge ih =>
    intro id hid
    obtain rfl := Option.some.inj hid
    have hlast := ih last rfl
    have hlimit := hvalid.cost_le_limit edge.target
    by_cases hcost : cost < Route.costLimit
    · obtain ⟨r, hroute⟩ := Search.exists_route (Nat.lt_of_le_of_lt hlast hcost)
      have hsettled := searchFrom_finished hclosed hsource last r hroute
      have hfollowed := hvalid.followed last hsettled edge hedge
      omega
    · omega

end EntityGraph

end RowGuard
