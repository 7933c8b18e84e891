import RowGuard.Proofs.Graph.Cheapest
import RowGuard.Proofs.Scope.Compilation

/-!
# A field behind a wildcard

The path of a wildcard and a field name is bound along the cheapest path of the
graph, whose names are looked up in the schema again.  This module says that
both readings of the names agree.

* `Fragment.EndsAt` says which entity the last join binds.
* `Binder.steps_ascent` is the induction over the relations on the way: each
  name is looked up as the relation that the graph meant, and each join is a new
  one.
* `Binder.bind_wildcard` says what the two steps add.
* `Compiler.wildcard_leaf` is the result: a leaf matches no row exactly if the
  field is out of reach, and tests a column of the field otherwise.
-/

namespace RowGuard

/-! ## Tests -/

theorem FilterValue.eq_of_ofValue?_empty {v : Value}
    (h : FilterValue.ofValue? v = some .empty) :
    v = .list [] := by
  cases v with
  | list items =>
    simp only [FilterValue.ofValue?, FilterValue.ofItems?] at h
    split at h
    · next hempty => rw [List.isEmpty_iff.1 hempty]
    · split_ifs at h <;> cases h
  | record r => cases hid : r.id? <;> simp [FilterValue.ofValue?, hid] at h
  | _ => cases h

/-- But for the empty list, a value is compared with the column. -/
theorem Test.filter_eq_comparison {op : Operator} {value : Value} {t : Test}
    (h : Test.of op value = .ok t) (hvalue : value ≠ .list []) :
    ∃ v, ∀ aliasName column, t.filter aliasName column =
      .comparison aliasName column op v := by
  rw [Test.of] at h
  cases hfilter : FilterValue.ofValue? value with
  | none => simp [hfilter] at h
  | some filterValue =>
    rw [hfilter] at h
    dsimp only at h
    split at h
    · cases h
    · cases h
      cases filterValue with
      | null => exact ⟨.null, fun _ _ => rfl⟩
      | empty => exact absurd (FilterValue.eq_of_ofValue?_empty hfilter) hvalue
      | value v => exact ⟨v, fun _ _ => rfl⟩

/-! ## Names looked up again -/

/-- The alias is that of the last join, which binds the entity; without joins it
is the alias of the root. -/
def EndsAt (start : Entity) (root : String) (joins : List Join) (e : Entity)
    (aliasName : String) : Prop :=
  match joins.getLast? with
  | none => e = start ∧ aliasName = root
  | some j =>
    j.entity = e.name ∧ j.table = e.tableName ∧ j.aliasName = aliasName

namespace Binder

variable {b : Binder} {t : Test} {field column : String} {given : Option String}
  {e T start : Entity} {root aliasName : String} {f : Fragment}

/-- A field that is kept in a column is tested there. -/
theorem step_end (hdistinct : b.schema.FieldsDistinct)
    (he : e ∈ b.schema.entities) (hkeeps : e.Keeps field column)
    {next : Growth} :
    b.step t field given true next e aliasName f =
      f.filter (t.filter aliasName column) := by
  rcases Schema.field_of_keeps hdistinct he hkeeps with
    hfield | ⟨parent, optional, hfield⟩ <;>
    simp only [step, hfield, if_pos]

/-- A parent on the way is joined. -/
theorem step_parent (hdistinct : b.schema.FieldsDistinct)
    (he : e ∈ b.schema.entities) {r : Relation} (hr : r ∈ e.parents)
    {p : Entity} (hp : b.schema.entity? r.target = some p) {next : Growth} :
    b.step t r.name none false next e aliasName f =
      next p (b.naming.child aliasName r.name)
        (f.join (parentJoin aliasName r.foreignKey p r.optional
          (b.naming.child aliasName r.name))) := by
  simp [step, Schema.field_of_parent (hdistinct e he) hr hp]

/-- The joins of different entities are different joins. -/
theorem joins_join_of_fresh {j : Join}
    (hfresh : ∀ i ∈ f.joins, i.entity ≠ j.entity) :
    (f.join j).joins = f.joins ++ [j] := by
  refine insertJoin_of_new fun i hi => ?_
  by_contra hsame
  rw [Bool.not_eq_false, Join.sameBinding_iff] at hsame
  have hentity : i.leftened.entity = j.leftened.entity :=
    congrArg Join.entity hsame
  exact hfresh i hi hentity

/-- The names of an ascent and of a field at its end lead to the field.  No
entity on the way has been passed before, so every step joins anew. -/
theorem steps_ascent (t : Test) (given : Option String)
    (hdistinct : b.schema.FieldsDistinct) {rs : List Relation}
    (h : b.schema.Ascent e rs T) (he : e ∈ b.schema.entities)
    (hkeeps : T.Keeps field column)
    (hends : EndsAt start root f.joins e aliasName) {passed : List String}
    (hpassed : ∀ j ∈ f.joins, j.entity ∈ passed)
    (hnodup : (passed ++ rs.map (·.target)).Nodup) :
    ∃ joins lastAlias, EndsAt start root joins T lastAlias ∧
      b.steps t field given (.done t) (rs.map (·.name) ++ [field]) e
        aliasName f = ⟨joins, f.filters ++ [t.filter lastAlias column]⟩ := by
  induction h generalizing aliasName f passed with
  | here => exact ⟨f.joins, aliasName, hends, step_end hdistinct he hkeeps⟩
  | @up e p T r rs hr hp _ ih =>
    obtain ⟨name, names, hnames⟩ : ∃ name names, rs.map (·.name) ++ [field] =
        name :: names :=
      List.exists_cons_of_ne_nil (by simp)
    have hname := Schema.entity?_name hp
    obtain ⟨j, hj⟩ : ∃ j, j = parentJoin aliasName r.foreignKey p r.optional
      (b.naming.child aliasName r.name) := ⟨_, rfl⟩
    have hentity : j.entity = r.target := by rw [hj, ← hname, parentJoin]
    have hsteps : b.steps t field given (.done t)
        ((r :: rs).map (·.name) ++ [field]) e aliasName
        f = b.steps t field given (.done t) (rs.map (·.name) ++ [field]) p
          (b.naming.child aliasName r.name) (f.join j) := by
      rw [List.map_cons, List.cons_append, hnames, steps,
        step_parent hdistinct he hr hp, hj]
      exact List.cons_ne_nil _ _
    have hfresh : r.target ∉ passed := by
      intro hmem
      exact (List.nodup_append.1 hnodup).2.2 _ hmem _
        (List.mem_cons_self ..) rfl
    have hjoins : (f.join j).joins = f.joins ++ [j] :=
      joins_join_of_fresh fun i hi hsame =>
        hfresh (hentity ▸ hsame ▸ hpassed i hi)
    have hends' : EndsAt start root (f.join j).joins p
        (b.naming.child aliasName r.name) := by
      rw [hjoins, EndsAt, List.getLast?_concat, hj]
      exact ⟨rfl, rfl, rfl⟩
    have hpassed' : ∀ i ∈ (f.join j).joins,
        i.entity ∈ passed ++ [r.target] := by
      rw [hjoins]
      intro i hi
      rcases List.mem_append.1 hi with hi | hi
      · exact List.mem_append_left _ (hpassed i hi)
      · obtain rfl := List.mem_singleton.1 hi
        rw [hentity]
        exact List.mem_append_right _ (List.mem_singleton_self _)
    rw [hsteps]
    refine ih (Schema.entity?_mem hp) hkeeps hends' hpassed' ?_
    rwa [List.append_assoc]

/-- A wildcard and a field name match no row, or test a column of the field
after the last join. -/
theorem bind_wildcard (t : Test) (given : Option String) (root : String)
    (hgraph : b.graph = .ofSchema b.schema)
    (hdistinct : b.schema.FieldsDistinct) (he : e ∈ b.schema.entities)
    (hne : e.name ≠ field) :
    (b.graph.shortestPath e.name field = none ∧
      b.bind t [.wildcard, .field field given] e root = .emptySet) ∨
    b.graph.shortestPath e.name field ≠ none ∧
      ∃ rs T column joins aliasName, b.schema.Ascent e rs T ∧
      T.Keeps field column ∧
        EndsAt e root joins T aliasName ∧
        b.bind t [.wildcard, .field field given] e root =
          ⟨joins, [t.filter aliasName column]⟩ := by
  have hbind : b.bind t [.wildcard, .field field given] e root =
      b.climb t field given (.done t) e root .empty := rfl
  rw [hbind, climb, hgraph]
  cases hpath : (EntityGraph.ofSchema b.schema).shortestPath e.name field with
  | none => exact .inl ⟨rfl, rfl⟩
  | some names =>
    right
    obtain ⟨v, passed, cost, harrives, hfield, hnodup⟩ :=
      EntityGraph.shortestPath_eq_some hdistinct he hne hpath
    obtain ⟨rs, T, column, hascent, hkeeps, rfl, rfl⟩ :=
      harrives.exists_keeps hfield
    have hroot : EndsAt e root Fragment.empty.joins e root := ⟨rfl, rfl⟩
    have hnone : ∀ j ∈ Fragment.empty.joins, j.entity ∈ [e.name] :=
      fun _ hj => nomatch hj
    obtain ⟨joins, aliasName, hends, hsteps⟩ :=
      steps_ascent t given hdistinct hascent he hkeeps hroot hnone hnodup
    exact ⟨Option.some_ne_none _, rs, T, column, joins, aliasName, hascent,
      hkeeps, hends, hsteps⟩

end Binder

/-! ## Reach -/

/-- A field is out of reach if arriving at it always costs too much. -/
def Schema.OutOfReach (s : Schema) (e : Entity) (field : String) : Prop :=
  ∀ v names passed cost, s.Arrives e v names passed cost → v.IsField field →
    Route.costLimit ≤ cost

/-- In a schema of ordinary size a field is out of reach only if no ancestor
keeps it. -/
theorem Schema.outOfReach_iff {s : Schema} {e : Entity} {field : String}
    (he : e ∈ s.entities)
    (hsize : optionalWeight * s.entities.length < Route.costLimit) :
    s.OutOfReach e field ↔
      ¬ ∃ rs T column, s.Ascent e rs T ∧ T.Keeps field column := by
  constructor
  · rintro hfar ⟨rs, T, column, hascent, hkeeps⟩
    obtain ⟨rs', hascent', hcost⟩ := hascent.exists_joinCost_le he
    obtain ⟨v, names, passed, cost, harrives, hfield, hle⟩ :=
      hascent'.exists_arrives hkeeps
    have hlimit := hfar v names passed cost harrives hfield
    omega
  · intro hnone v names passed cost harrives hfield
    obtain ⟨rs, T, column, hascent, hkeeps, -, -⟩ :=
      harrives.exists_keeps hfield
    exact absurd ⟨rs, T, column, hascent, hkeeps⟩ hnone

/-! ## Compilation -/

namespace Compiler

variable {σ : Type} {c : Compiler σ} {actor value : Value} {e : Entity}
  {op : Operator} {operand : Operand} {t : Test} {s s' : Session σ}

/-- A leaf with an accepted value is bound. -/
theorem leaf_returns_bind (e : Entity) (path : Path)
    (hvalue : Returns (c.evaluator.resolve actor operand) s value s')
    (htest : Test.of op value = .ok t) :
    Returns (c.leaf actor e op path operand) s
      (c.binder.bind t path e c.naming.root) s' :=
  leaf_returns_iff.2 ⟨value, t, hvalue, htest, rfl⟩

/-- A field behind a wildcard compiles.  It matches no row exactly if the field
is out of reach, that is, in a schema of ordinary size, if no chain of parents
leads to an entity that keeps it.  Otherwise it tests a column of the field in
the last table. -/
theorem wildcard_leaf {name field : String} (given : Option String)
    (hentity : c.evaluator.schema.entity? name = some e)
    (hgraph : c.evaluator.graph = .ofSchema c.evaluator.schema)
    (hdistinct : c.evaluator.schema.FieldsDistinct) (hne : field ≠ name)
    (hvalue : Returns (c.evaluator.resolve actor operand) s value s')
    (htest : Test.of op value = .ok t) (hsome : value ≠ .list []) :
    ∃ fragment, Returns (c.compile actor name
        (.leaf op [.wildcard, .field field given] operand)) s fragment s' ∧
      (fragment.filters = [.emptySet] ↔ c.evaluator.schema.OutOfReach e field) ∧
      (optionalWeight * c.evaluator.schema.entities.length < Route.costLimit →
        (fragment.filters = [.emptySet] ↔
          ¬ ∃ rs T column, c.evaluator.schema.Ascent e rs T ∧
            T.Keeps field column)) ∧
      (fragment.filters ≠ [.emptySet] →
        ∃ rs T column aliasName v, c.evaluator.schema.Ascent e rs T ∧
          T.Keeps field column ∧
          EndsAt e c.naming.root fragment.joins T aliasName ∧
          fragment.filters = [t.filter aliasName column] ∧
          t.filter aliasName column = .comparison aliasName column op v) := by
  obtain rfl := Schema.entity?_name hentity
  have he := Schema.entity?_mem hentity
  obtain ⟨v, hcomparison⟩ := Test.filter_eq_comparison htest hsome
  have hreturns :=
    leaf_returns_bind e [.wildcard, .field field given] hvalue htest
  have hreach := EntityGraph.shortestPath_eq_none_iff hdistinct he hne.symm
  rw [← hgraph] at hreach
  refine ⟨_, (compile_returns_iff hentity).2 hreturns, ?_⟩
  rcases c.binder.bind_wildcard t given c.naming.root hgraph hdistinct he
    hne.symm with
    ⟨hnone, hbind⟩ | ⟨hfound, rs, T, column, joins, aliasName, hascent, hkeeps,
      hends, hbind⟩
  · have hfar : c.evaluator.schema.OutOfReach e field := hreach.1 hnone
    rw [hbind]
    refine ⟨iff_of_true rfl hfar, fun hsize => iff_of_true rfl ?_,
      fun h => absurd rfl h⟩
    exact (Schema.outOfReach_iff he hsize).1 hfar
  · have hnear : ¬ c.evaluator.schema.OutOfReach e field :=
      fun hfar => hfound (hreach.2 hfar)
    have htested : [t.filter aliasName column] ≠ [.emptySet] := by
      rw [hcomparison]
      simp
    rw [hbind]
    refine ⟨iff_of_false htested hnear, fun hsize => iff_of_false htested ?_,
      fun _ => ?_⟩
    · exact fun hnone => hnear ((Schema.outOfReach_iff he hsize).2 hnone)
    · exact ⟨rs, T, column, aliasName, v, hascent, hkeeps, hends, rfl,
        hcomparison ..⟩

/-- The name behind a wildcard on a comment is that of the author of its
post. -/
theorem wildcard_leaf_name :
    Blog.schema.FieldsDistinct ∧ "name" ≠ "comment" ∧
      Test.of .eq (.string "x") = .ok ⟨.eq, .value (.string "x")⟩ ∧
      Value.string "x" ≠ .list [] ∧
      optionalWeight * Blog.schema.entities.length < Route.costLimit ∧
      ∃ fragment, Returns (Blog.compiler.compile .null "comment"
          (.leaf .eq [.wildcard, .plain "name"] (.literal (.string "x"))))
          (.start ()) fragment (.start ()) ∧
        (fragment.filters = [.emptySet] ↔
          ¬ ∃ rs T column, Blog.schema.Ascent Blog.comment rs T ∧
            T.Keeps "name" column) := by
  have hdistinct : Blog.schema.FieldsDistinct := by decide
  have hne : "name" ≠ "comment" := by decide
  have htest : Test.of .eq (.string "x") =
      .ok ⟨.eq, .value (.string "x")⟩ := rfl
  have hsome : Value.string "x" ≠ .list [] := by simp
  have hsize : optionalWeight * Blog.schema.entities.length <
      Route.costLimit := by decide
  have hvalue : Returns
      (Blog.compiler.evaluator.resolve .null (.literal (.string "x")))
    (.start ()) (.string "x") (.start ()) := rfl
  obtain ⟨fragment, hreturns, -, hempty, -⟩ :=
    wildcard_leaf none rfl rfl hdistinct hne hvalue htest hsome
  exact ⟨hdistinct, hne, htest, hsome, hsize, fragment, hreturns, hempty hsize⟩

end Compiler

end RowGuard
