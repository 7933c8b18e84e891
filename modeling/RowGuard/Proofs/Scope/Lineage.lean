import RowGuard.Proofs.Scope.Chain

/-!
# Paths through parents

A `Lineage` is what is left of a path if it leads through parents only: the
relations on the way and what is read at the end.  `Path.lineage?` resolves a
path in a schema.  There is none if the path crosses children, branches, goes on
from a column, names what is not there or ends with a wildcard.

Binding a path that has a lineage adds the joins on the way and one filter
(`Binder.bind_lineage`).
-/

namespace RowGuard

/-- A way through parents. -/
inductive Lineage where
  /-- The row itself. -/
  | identity
  /-- A field that is kept in a column. -/
  | column (name columnName : String)
  /-- A parent, of which the key is enough. -/
  | parent (name key : String) (target : Entity) (optional : Bool)
  /-- A parent and the way on from there. -/
  | hop (name key : String) (target : Entity) (optional : Bool) (rest : Lineage)
  /-- No row at all, since another entity is asserted. -/
  | nowhere

namespace Lineage

/-- The fields on the way are those of a schema. -/
inductive StartsAt (s : Schema) : Entity → Lineage → Prop where
  | identity {entity} : StartsAt s entity .identity
  | column {entity name columnName}
      (hfield : s.field entity name = .column columnName) :
      StartsAt s entity (.column name columnName)
  | parent {entity name key target optional}
      (hfield : s.field entity name = .belongsTo key target optional) :
      StartsAt s entity (.parent name key target optional)
  | hop {entity name key target optional rest}
      (hfield : s.field entity name = .belongsTo key target optional)
      (hrest : StartsAt s target rest) :
      StartsAt s entity (.hop name key target optional rest)
  | nowhere {entity} : StartsAt s entity .nowhere

/-- The joins on the way from an alias. -/
def joins (n : Naming) : (aliasName : String) → Lineage → List Join
  | aliasName, .hop name key target optional rest =>
    Binder.parentJoin aliasName key target optional (n.child aliasName name) ::
      rest.joins n (n.child aliasName name)
  | _, _ => []

/-- The test at the end of the way. -/
def condition (n : Naming) (t : Test) :
    Entity → (aliasName : String) → Lineage → Filter
  | entity, aliasName, .identity => t.filter aliasName entity.identity
  | _, aliasName, .column _ columnName => t.filter aliasName columnName
  | _, aliasName, .parent _ key _ _ => t.filter aliasName key
  | _, aliasName, .hop name _ target _ rest =>
    rest.condition n t target (n.child aliasName name)
  | _, _, .nowhere => .emptySet

/-- The fragment with the joins on the way and the test at its end. -/
def grow (n : Naming) (t : Test) (entity : Entity) (aliasName : String)
    (lineage : Lineage) (f : Fragment) : Fragment where
  joins := mergeJoins f.joins (lineage.joins n aliasName)
  filters := f.filters ++ [lineage.condition n t entity aliasName]

end Lineage

/-! ## The lineage of a path -/

/-- The lineages of the rest of a path: directly, and after a wildcard; and
whether nothing is left of the path. -/
structure Reach where
  follow : Entity → Option Lineage
  ascend : Entity → Option Lineage
  isEnd : Bool

namespace Reach

/-- The end of a path. -/
def done : Reach := ⟨fun _ => some .identity, fun _ => none, true⟩

/-- The lineage of a field and what comes after it. -/
def step (s : Schema) (name : String) (isEnd : Bool)
    (next : Entity → Option Lineage) (entity : Entity) : Option Lineage :=
  match s.field entity name with
  | .column columnName => if isEnd then some (.column name columnName) else none
  | .belongsTo key target optional =>
    if isEnd then some (.parent name key target optional)
    else (next target).map (.hop name key target optional)
  | .hasMany .. => none
  | .unknown => if name = entity.name then next entity else none

/-- The lineage of several fields and what comes after them. -/
def steps (s : Schema) (rest : Reach) : List String → Entity → Option Lineage
  | [] => rest.follow
  | [name] => step s name rest.isEnd rest.follow
  | name :: names => step s name false (steps s rest names)

/-- The lineages of a step and the rest after it. -/
def onStep (s : Schema) (g : EntityGraph) : Step → Reach → Reach
  | .field name _, rest =>
    { follow := step s name rest.isEnd rest.follow
      ascend := fun entity =>
        (g.shortestPath entity.name name).bind fun names =>
          steps s rest names entity
      isEnd := false }
  | .wildcard, rest =>
    { follow := rest.ascend, ascend := fun _ => none, isEnd := false }
  | .self name, rest =>
    { follow := fun entity => if name = entity.name then rest.follow entity
      else some .nowhere
      ascend := fun _ => none
      isEnd := false }
  | .alternatives _, _ => ⟨fun _ => none, fun _ => none, false⟩

/-- The lineages of a path and the rest after it. -/
def onPath (s : Schema) (g : EntityGraph) (path : Path)
    (rest : Reach) : Reach :=
  path.foldr (onStep s g) rest

end Reach

/-- The lineage of a path from an entity. -/
def Path.lineage? (s : Schema) (g : EntityGraph) (path : Path)
    (entity : Entity) : Option Lineage :=
  (Reach.onPath s g path .done).follow entity

/-! ## Binding along a lineage -/

namespace Binder

variable {b : Binder} {t : Test}

/-- From the entities for which there is a lineage, the growth follows it. -/
def Growth.Along (b : Binder) (t : Test) (lineage? : Entity → Option Lineage)
    (g : Growth) : Prop :=
  ∀ {entity lineage}, lineage? entity = some lineage →
    lineage.StartsAt b.schema entity ∧
      ∀ aliasName f, g entity aliasName f =
        lineage.grow b.naming t entity aliasName f

/-- Both ways to go on follow the lineages. -/
structure Onward.Along (b : Binder) (t : Test) (reach : Reach)
    (rest : Onward) : Prop where
  follow : rest.follow.Along b t reach.follow
  ascend : rest.ascend.Along b t reach.ascend
  isEnd : reach.isEnd = rest.isEnd

theorem along_none (g : Growth) : g.Along b t fun _ => none := by
  intro entity lineage h
  cases h

theorem step_along {name : String} {isEnd : Bool}
    {lineage? : Entity → Option Lineage} {next : Growth}
    (hnext : next.Along b t lineage?) :
    (b.step t name none isEnd next).Along b t
      (Reach.step b.schema name isEnd lineage?) := by
  intro entity lineage h
  unfold Reach.step at h
  unfold Binder.step
  cases hfield : b.schema.field entity name with
  | column columnName =>
    simp only [hfield, Option.ite_none_right_eq_some] at h ⊢
    obtain ⟨hend, heq⟩ := h
    obtain rfl := Option.some.inj heq
    exact ⟨.column hfield, fun _ _ => if_pos hend⟩
  | belongsTo key target optional =>
    simp only [hfield] at h ⊢
    split at h
    · next hend =>
      obtain rfl := Option.some.inj h
      exact ⟨.parent hfield, fun _ _ => if_pos hend⟩
    · next hend =>
      obtain ⟨rest, hrest, rfl⟩ := Option.map_eq_some_iff.1 h
      obtain ⟨hstarts, hgrow⟩ := hnext hrest
      refine ⟨.hop hfield hstarts, fun aliasName f => ?_⟩
      rw [if_neg hend, hgrow]
      rfl
  | hasMany child inverse key => simp [hfield] at h
  | unknown =>
    simp only [hfield, Option.ite_none_right_eq_some] at h ⊢
    obtain ⟨hstarts, hgrow⟩ := hnext h.2
    refine ⟨hstarts, fun aliasName f => ?_⟩
    rw [if_pos h.1, hgrow]

theorem steps_along {goal : String} {reach : Reach} {rest : Onward}
    (hrest : rest.Along b t reach) :
    ∀ names, (b.steps t goal none rest names).Along b t
      (Reach.steps b.schema reach names)
  | [] => hrest.follow
  | [name] => by
    unfold Binder.steps Reach.steps
    rw [ite_self, ← hrest.isEnd]
    exact step_along hrest.follow
  | _ :: next :: names => step_along (steps_along hrest (next :: names))

theorem climb_along {name : String} {reach : Reach} {rest : Onward}
    (hrest : rest.Along b t reach) :
    (b.climb t name none rest).Along b t fun entity =>
      (b.graph.shortestPath entity.name name).bind fun names =>
        Reach.steps b.schema reach names entity := by
  intro entity lineage h
  obtain ⟨names, hnames, hlineage⟩ := Option.bind_eq_some_iff.1 h
  obtain ⟨hstarts, hgrow⟩ := steps_along hrest names hlineage
  refine ⟨hstarts, fun aliasName f => ?_⟩
  unfold Binder.climb
  rw [hnames]
  exact hgrow aliasName f

theorem onStep_along {step : Step} {reach : Reach} {rest : Onward}
    (hstep : step.alias? = none) (hrest : rest.Along b t reach) :
    (b.onStep t step rest).Along b t (reach.onStep b.schema b.graph step) := by
  cases step with
  | field name given =>
    obtain rfl : given = none := hstep
    refine ⟨?_, climb_along hrest, rfl⟩
    show (b.step t name none rest.isEnd rest.follow).Along b t _
    rw [← hrest.isEnd]
    exact step_along hrest.follow
  | wildcard => exact ⟨hrest.ascend, along_none _, rfl⟩
  | self name =>
    refine ⟨?_, along_none _, rfl⟩
    intro entity lineage h
    unfold Reach.onStep at h
    unfold Binder.onStep
    dsimp only at h ⊢
    split at h
    · next hname =>
      obtain ⟨hstarts, hgrow⟩ := hrest.follow h
      refine ⟨hstarts, fun aliasName f => ?_⟩
      rw [if_pos hname, hgrow]
    · next hname =>
      obtain rfl := Option.some.inj h
      exact ⟨.nowhere, fun aliasName f => if_neg hname⟩
  | alternatives paths => exact ⟨along_none _, along_none _, rfl⟩

theorem onPath_along {path : Path} {reach : Reach} {rest : Onward}
    (hpath : path.Plain) (hrest : rest.Along b t reach) :
    (b.onPath t path rest).Along b t (reach.onPath b.schema b.graph path) := by
  induction path with
  | nil => exact hrest
  | cons step path ih =>
    refine onStep_along (hpath step (List.mem_cons_self ..)) (ih fun s hs => ?_)
    exact hpath s (List.mem_cons_of_mem _ hs)

theorem done_along : (Onward.done t).Along b t .done := by
  refine ⟨?_, along_none _, rfl⟩
  intro entity lineage h
  obtain rfl := Option.some.inj h
  exact ⟨.identity, fun _ _ => rfl⟩

/-- A path that has a lineage is bound by its joins and the test at its end. -/
theorem bind_lineage {path : Path} (hpath : path.Plain) {entity : Entity}
    {lineage : Lineage}
    (hlineage : path.lineage? b.schema b.graph entity = some lineage)
    (aliasName : String) :
    lineage.StartsAt b.schema entity ∧
      b.bind t path entity aliasName =
        lineage.grow b.naming t entity aliasName .empty := by
  obtain ⟨hstarts, hgrow⟩ := (onPath_along hpath done_along).follow hlineage
  exact ⟨hstarts, hgrow aliasName .empty⟩

end Binder

end RowGuard
