import RowGuard.Proofs.Scope.Alternatives

/-!
# The course of a path

A path without alternatives and alias overrides takes one way through the
schema: it joins a table for each relation on it and ends with one filter.

* `Binder.Course` is this way, step by step: what has been joined, the entity
  that is reached, and what is left of the path there.
* `Binder.Reads` and `Binder.Fails` are the two ends of a way: a column is
  tested, or the next step does not resolve.
* `Binder.follow_course` says that binding follows the course, and
  `Binder.exists_course` that every path comes to one of the two ends.
* `Binder.JoinChain` is what the joins are, with the tables and columns of each,
  and `Binder.Course.joinChain` says that the joins of a course are such a
  chain.
* `Compiler.leaf_course` puts these together for a compiled leaf.
-/

namespace RowGuard

/-- The path gives no aliases and has no alternatives. -/
def Path.Single (path : Path) : Prop :=
  path.Plain ∧ ∀ paths, Step.alternatives paths ∉ path

theorem Path.Single.tail {step : Step} {path : Path}
    (h : Path.Single (step :: path)) :
    path.Single :=
  ⟨fun s hs => h.1 s (List.mem_cons_of_mem _ hs), fun paths hmem =>
    h.2 paths (List.mem_cons_of_mem _ hmem)⟩

namespace Binder

variable {b : Binder} {t : Test}

/-! ## Courses -/

/-- The way that a path takes from a row of an entity under an alias: the joins
on it, the entity and the alias that it leads to, and what is left of the path
there.  The key of a parent is enough at the end of a path, so that no parent is
joined there. -/
inductive Course (b : Binder) :
    Entity → (aliasName : String) → Path → List Join →
    (last : Entity) → (lastAlias : String) → (left : Path) → Prop where
  | here {entity aliasName path} :
      Course b entity aliasName path [] entity aliasName path
  | parent
      {entity aliasName name key target optional path joins last lastAlias left}
      (hfield : b.schema.field entity name = .belongsTo key target optional)
      (hmore : path ≠ [])
      (rest : Course b target (b.naming.child aliasName name) path joins last
        lastAlias left) :
      Course b entity aliasName (.plain name :: path)
        (parentJoin aliasName key target optional
          (b.naming.child aliasName name) :: joins)
        last lastAlias left
  | children
      {entity aliasName name child inverse key path joins last lastAlias left}
      (hfield : b.schema.field entity name = .hasMany child inverse key)
      (rest : Course b child (b.naming.child aliasName name) path joins last
        lastAlias left) :
      Course b entity aliasName (.plain name :: path)
        (childrenJoin aliasName key entity child
          (b.naming.child aliasName name) :: joins)
        last lastAlias left
  | own {entity aliasName name path joins last lastAlias left}
      (hfield : b.schema.field entity name = .unknown)
      (hname : name = entity.name)
      (rest : Course b entity aliasName path joins last lastAlias left) :
      Course b entity aliasName (.plain name :: path) joins last lastAlias left
  | self {entity aliasName name path joins last lastAlias left}
      (hname : name = entity.name)
      (rest : Course b entity aliasName path joins last lastAlias left) :
      Course b entity aliasName (.self name :: path) joins last lastAlias left
  | climb {entity aliasName name names path joins last lastAlias left}
      (hfound : b.graph.shortestPath entity.name name = some names)
      (rest : Course b entity aliasName (Path.ofNames names ++ path) joins last
        lastAlias left) :
      Course b entity aliasName (.wildcard :: .plain name :: path) joins last
        lastAlias left

/-- What is left of a path tests a column of the entity. -/
inductive Reads (b : Binder) (entity : Entity) :
    (left : Path) → (column : String) → Prop where
  | identity : Reads b entity [] entity.identity
  | wildcard : Reads b entity [.wildcard] entity.identity
  | column {name column}
      (hfield : b.schema.field entity name = .column column) :
      Reads b entity [.plain name] column
  | key {name key target optional}
      (hfield : b.schema.field entity name = .belongsTo key target optional) :
      Reads b entity [.plain name] key

/-- What is left of a path does not resolve on the entity. -/
inductive Fails (b : Binder) (entity : Entity) : (left : Path) → Prop where
  | unknown {name path} (hfield : b.schema.field entity name = .unknown)
      (hname : name ≠ entity.name) : Fails b entity (.plain name :: path)
  | column {name column path}
      (hfield : b.schema.field entity name = .column column)
      (hmore : path ≠ []) : Fails b entity (.plain name :: path)
  | self {name path} (hname : name ≠ entity.name) :
      Fails b entity (.self name :: path)
  | wildcard {step path} (hstep : step.name? = none) :
      Fails b entity (.wildcard :: step :: path)
  | unreachable {name path}
      (hnone : b.graph.shortestPath entity.name name = none) :
      Fails b entity (.wildcard :: .plain name :: path)

variable {entity last : Entity} {aliasName lastAlias column : String}
  {path left : Path} {joins : List Join} {f : Fragment}

theorem isEnd_onPath : (b.onPath t path (.done t)).isEnd = path.isEmpty := by
  cases path with
  | nil => rfl
  | cons step path => cases step <;> rfl

/-- A name is taken as the last step if nothing is left of the path after it. -/
theorem follow_plain {name : String} :
    (b.onPath t (.plain name :: path) (.done t)).follow =
    b.step t name none path.isEmpty (b.onPath t path (.done t)).follow := by
  rw [← isEnd_onPath (b := b) (t := t)]
  rfl

/-- Taking several names is taking a path of names. -/
theorem steps_eq_onPath (goal : String) {rest : Onward} : ∀ names : List String,
    b.steps t goal none (b.onPath t path rest) names =
      (b.onPath t (Path.ofNames names ++ path) rest).follow
  | [] => rfl
  | [name] => by
    rw [steps, ite_self]
    rfl
  | name :: next :: names => by
    rw [steps, steps_eq_onPath goal (next :: names)]
    · rfl
    · simp

/-- A join under a longer alias is the next one. -/
theorem join_eq_of_leads (hf : f.Leads aliasName) {j : Join}
    (hlonger : aliasName.length < j.aliasName.length) :
    f.join j = ⟨f.joins ++ [j], f.filters⟩ := by
  rw [← hf.joins_join hlonger]
  rfl

/-- Binding follows the course. -/
theorem follow_course (hseparator : b.naming.separator ≠ "")
    (h : b.Course entity aliasName path joins last lastAlias left)
    (hf : f.Leads aliasName) :
    (b.onPath t path (.done t)).follow entity aliasName f =
      (b.onPath t left (.done t)).follow last lastAlias
        ⟨f.joins ++ joins, f.filters⟩ := by
  have hchild (parent name : String) : parent.length <
      (b.naming.child parent name).length :=
    length_lt_child fun heq => hseparator (String.append_eq_empty_iff.1 heq).1
  induction h generalizing f with
  | here => rw [List.append_nil]
  | @parent entity aliasName name key target optional path joins _ _ _ hfield
    hmore _ ih =>
    let j :=
      parentJoin aliasName key target optional (b.naming.child aliasName name)
    have hlonger : aliasName.length < j.aliasName.length :=
      hchild aliasName name
    have hstep : b.step t name none path.isEmpty
        (b.onPath t path (.done t)).follow entity aliasName f =
          (b.onPath t path (.done t)).follow target
            (b.naming.child aliasName name) (f.join j) := by
      rw [List.isEmpty_eq_false_iff.2 hmore]
      simp only [step, hfield]
      rfl
    have hleads : (f.join j).Leads (b.naming.child aliasName name) :=
      hf.join hlonger
    rw [follow_plain, hstep, ih hleads, join_eq_of_leads hf hlonger,
      List.append_assoc]
    rfl
  | @children entity aliasName name child inverse key path joins _ _ _
    hfield _ ih =>
    let j :=
      childrenJoin aliasName key entity child (b.naming.child aliasName name)
    have hlonger : aliasName.length < j.aliasName.length :=
      hchild aliasName name
    have hstep : b.step t name none path.isEmpty
        (b.onPath t path (.done t)).follow entity aliasName f =
          (b.onPath t path (.done t)).follow child
            (b.naming.child aliasName name) (f.join j) := by
      simp only [step, hfield]
      rfl
    have hleads : (f.join j).Leads (b.naming.child aliasName name) :=
      hf.join hlonger
    rw [follow_plain, hstep, ih hleads, join_eq_of_leads hf hlonger,
      List.append_assoc]
    rfl
  | own hfield hname _ ih =>
    rw [follow_plain, ← ih hf]
    simp only [step, hfield, if_pos hname]
  | self hname _ ih =>
    rw [← ih hf]
    simp only [onPath, onStep, if_pos hname]
  | @climb entity aliasName name names path _ _ _ _ hfound _ ih =>
    rw [← ih hf, ← steps_eq_onPath name]
    simp only [onPath, Step.plain, onStep, climb, hfound]

theorem Reads.follow_eq (h : b.Reads entity left column) :
    (b.onPath t left (.done t)).follow entity aliasName f =
      f.filter (t.filter aliasName column) := by
  cases h with
  | identity | wildcard => rfl
  | column hfield | key hfield =>
    simp only [follow_plain, step, hfield, List.isEmpty_nil, if_true]

theorem Fails.follow_eq (h : b.Fails entity left) :
    (b.onPath t left (.done t)).follow entity aliasName f =
      f.filter .emptySet := by
  cases h with
  | unknown hfield hname =>
    simp only [follow_plain, step, hfield, if_neg hname, deny]
  | column hfield hmore =>
    simp only [follow_plain, step, hfield, List.isEmpty_iff, hmore,
      if_false, deny]
  | self hname => simp only [onPath, onStep, if_neg hname, deny]
  | @wildcard next path hstep =>
    cases next with
    | field => cases hstep
    | _ => rfl
  | unreachable hnone =>
    simp only [onPath, Step.plain, onStep, climb, hnone, deny]

/-! ## Every path has a course -/

/-- From every entity the path leads to a column or to a step that does not
resolve. -/
def Settled (b : Binder) (path : Path) : Prop :=
  ∀ entity aliasName, ∃ joins last lastAlias left,
    b.Course entity aliasName path joins last lastAlias left ∧
      (b.Fails last left ∨ ∃ column, b.Reads last left column)

theorem Settled.nil : b.Settled [] := fun entity aliasName =>
  ⟨[], entity, aliasName, [], .here, .inr ⟨_, .identity⟩⟩

theorem Settled.plain {name : String} (hpath : b.Settled path) :
    b.Settled (.plain name :: path) := by
  intro entity aliasName
  cases hfield : b.schema.field entity name with
  | column column =>
    refine ⟨[], entity, aliasName, _, .here, ?_⟩
    cases path with
    | nil => exact .inr ⟨_, .column hfield⟩
    | cons => exact .inl (.column hfield (by simp))
  | belongsTo key target optional =>
    cases path with
    | nil => exact ⟨[], entity, aliasName, _, .here, .inr ⟨_, .key hfield⟩⟩
    | cons =>
      obtain ⟨joins, last, lastAlias, left, hcourse, hend⟩ := hpath target _
      exact ⟨_, last, lastAlias, left, .parent hfield (by simp) hcourse, hend⟩
  | hasMany child inverse key =>
    obtain ⟨joins, last, lastAlias, left, hcourse, hend⟩ := hpath child _
    exact ⟨_, last, lastAlias, left, .children hfield hcourse, hend⟩
  | unknown =>
    by_cases hname : name = entity.name
    · obtain ⟨joins, last, lastAlias, left, hcourse, hend⟩ :=
        hpath entity aliasName
      exact ⟨joins, last, lastAlias, left, .own hfield hname hcourse, hend⟩
    · exact ⟨[], entity, aliasName, _, .here, .inl (.unknown hfield hname)⟩

theorem Settled.ofNames (hpath : b.Settled path) (names : List String) :
    b.Settled (Path.ofNames names ++ path) := by
  induction names with
  | nil => exact hpath
  | cons name names ih => exact ih.plain

theorem Settled.self {name : String} (hpath : b.Settled path) :
    b.Settled (.self name :: path) := by
  intro entity aliasName
  by_cases hname : name = entity.name
  · obtain ⟨joins, last, lastAlias, left, hcourse, hend⟩ :=
      hpath entity aliasName
    exact ⟨joins, last, lastAlias, left, .self hname hcourse, hend⟩
  · exact ⟨[], entity, aliasName, _, .here, .inl (.self hname)⟩

/-- A wildcard is settled by the step after it and what comes after that. -/
theorem Settled.climb {name : String} (hpath : b.Settled path) :
    b.Settled (.wildcard :: .plain name :: path) := by
  intro entity aliasName
  cases hfound : b.graph.shortestPath entity.name name with
  | none => exact ⟨[], entity, aliasName, _, .here, .inl (.unreachable hfound)⟩
  | some names =>
    obtain ⟨joins, last, lastAlias, left, hcourse, hend⟩ :=
      hpath.ofNames names entity aliasName
    exact ⟨joins, last, lastAlias, left, .climb hfound hcourse, hend⟩

/-- A path that takes one way leads to a column or to a step that does not
resolve. -/
theorem exists_course : ∀ path : Path, path.Single → b.Settled path
  | [], _ => .nil
  | .field name given :: path, h => by
    obtain rfl : given = none := h.1 _ (List.mem_cons_self ..)
    exact (exists_course path h.tail).plain
  | .self name :: path, h => (exists_course path h.tail).self
  | .alternatives paths :: path, h => absurd (List.mem_cons_self ..) (h.2 paths)
  | [.wildcard], _ => fun entity aliasName =>
    ⟨[], entity, aliasName, _, .here, .inr ⟨_, .wildcard⟩⟩
  | .wildcard :: .field name given :: path, h => by
    obtain rfl : given = none := h.tail.1 _ (List.mem_cons_self ..)
    exact (exists_course path h.tail.tail).climb
  | .wildcard :: .wildcard :: _, _ | .wildcard :: .self _ :: _, _
  | .wildcard :: .alternatives _ :: _, _ => fun entity aliasName =>
    ⟨[], entity, aliasName, _, .here, .inl (.wildcard rfl)⟩

/-! ## Chains of joins -/

/-- The join of the table to which a relation of an entity leads, off a row of
the entity under an alias. -/
structure Link (b : Binder) (owner : Entity) (aliasName : String) (r : Relation)
    (target : Entity) (j : Join) : Prop where
  declared : r ∈ owner.relations
  found : b.schema.entity? r.target = some target
  entity_eq : j.entity = target.name
  table_eq : j.table = target.tableName
  parentAlias_eq : j.parentAlias = aliasName
  aliasName_eq : j.aliasName = aliasName ++ b.naming.separator ++ r.name
  columns : match r.kind with
    | .belongsTo => j.kind = (if r.optional then .left else .inner) ∧
        j.column = target.identity ∧ j.parentColumn = r.foreignKey
    | .hasMany => j.kind = .left ∧
        j.column = owner.childKey target (r.inverse.getD owner.name) ∧
        j.parentColumn = owner.identity

/-- The joins of relations, each off the one before. -/
inductive JoinChain (b : Binder) : Entity → (aliasName : String) → List Join →
    (last : Entity) → (lastAlias : String) → Prop where
  | nil {entity : Entity} {aliasName : String} :
      JoinChain b entity aliasName [] entity aliasName
  | cons {entity target last : Entity} {aliasName lastAlias : String}
      {r : Relation} {j : Join} {joins : List Join}
      (hlink : b.Link entity aliasName r target j)
      (rest : JoinChain b target j.aliasName joins last lastAlias) :
      JoinChain b entity aliasName (j :: joins) last lastAlias

theorem exists_link_parent {name key : String} {target : Entity}
    {optional : Bool}
    (hfield : b.schema.field entity name = .belongsTo key target optional) :
    ∃ r, b.Link entity aliasName r target
      (parentJoin aliasName key target optional
        (b.naming.child aliasName name)) := by
  obtain ⟨r, hmem, hname, hkind, htarget, hkey, hoptional⟩ :=
    Schema.exists_relation_of_belongsTo hfield
  refine ⟨r, hmem, htarget, rfl, rfl, rfl, ?_, ?_⟩
  · rw [hname]
    rfl
  · rw [hkind, hkey, hoptional]
    exact ⟨rfl, rfl, rfl⟩

theorem exists_link_children {name inverse key : String} {child : Entity}
    (hfield : b.schema.field entity name = .hasMany child inverse key) :
    ∃ r, b.Link entity aliasName r child
      (childrenJoin aliasName key entity child
        (b.naming.child aliasName name)) := by
  obtain ⟨r, hmem, hname, hkind, htarget, hinverse, hkey⟩ :=
    Schema.exists_relation_of_hasMany hfield
  refine ⟨r, hmem, htarget, rfl, rfl, rfl, ?_, ?_⟩
  · rw [hname]
    rfl
  · rw [hkind, hinverse, hkey]
    exact ⟨rfl, rfl, rfl⟩

/-- The joins of a course hang off each other. -/
theorem Course.joinChain
    (h : b.Course entity aliasName path joins last lastAlias left) :
    b.JoinChain entity aliasName joins last lastAlias := by
  induction h with
  | here => exact .nil
  | parent hfield _ _ ih =>
    obtain ⟨r, hlink⟩ := exists_link_parent hfield
    exact .cons hlink ih
  | children hfield _ ih =>
    obtain ⟨r, hlink⟩ := exists_link_children hfield
    exact .cons hlink ih
  | own _ _ _ ih | self _ _ ih | climb _ _ ih => exact ih

/-- The aliases of a chain become longer, so that no two of them are one. -/
theorem JoinChain.nodup (hseparator : b.naming.separator ≠ "")
    (h : b.JoinChain entity aliasName joins last lastAlias) :
    (aliasName :: joins.map Join.aliasName).Nodup := by
  have hpairwise : (aliasName :: joins.map Join.aliasName).Pairwise fun x y =>
      x.length < y.length := by
    induction h with
    | nil => exact List.pairwise_singleton ..
    | @cons entity target _ aliasName _ r j joins hlink _ ih =>
      have hlonger : aliasName.length < j.aliasName.length := by
        have hchild : aliasName.length <
            (b.naming.child aliasName r.name).length :=
          length_lt_child fun heq =>
            hseparator (String.append_eq_empty_iff.1 heq).1
        rwa [hlink.aliasName_eq]
      refine List.pairwise_cons.2
        ⟨List.forall_mem_cons.2 ⟨hlonger, fun x hx => ?_⟩, ih⟩
      exact Nat.lt_trans hlonger ((List.pairwise_cons.1 ih).1 x hx)
  exact hpairwise.imp fun hlt heq => Nat.ne_of_lt hlt (congrArg _ heq)

end Binder

/-! ## Compilation -/

namespace Compiler

variable {σ : Type} {c : Compiler σ} {actor : Value} {name : String}
  {e : Entity} {op : Operator} {path : Path} {operand : Operand}
  {s s' : Session σ} {f : Fragment}

/-- A leaf without alternatives and alias overrides compiles to a chain of joins
with one filter.  The joins lead along the course of the path, under different
aliases.  The filter matches no row if a step does not resolve on the entity
that is reached, and is otherwise the test of the value against a column of the
table that was joined last. -/
theorem leaf_course (hentity : c.evaluator.schema.entity? name = some e)
    (hseparator : c.naming.separator ≠ "") (hsingle : path.Single)
    (h : Returns (c.compile actor name (.leaf op path operand)) s f s') :
    ∃ value t last lastAlias left,
      Returns (c.evaluator.resolve actor operand) s value s' ∧
        Test.of op value = .ok t ∧
      c.binder.Course e c.naming.root path f.joins last lastAlias left ∧
      c.binder.JoinChain e c.naming.root f.joins last lastAlias ∧
      (c.naming.root :: f.joins.map Join.aliasName).Nodup ∧
      (c.binder.Fails last left ∧ f.filters = [.emptySet] ∨
        ∃ column, c.binder.Reads last left column ∧
          f.filters = [t.filter lastAlias column]) ∧
      ∀ joins' last' lastAlias' left',
        c.binder.Course e c.naming.root path joins' last' lastAlias' left' →
          c.binder.Fails last' left' → f.filters = [.emptySet] := by
  rw [compile_returns_iff hentity, fragment] at h
  obtain ⟨value, t, hvalue, htest, hbind⟩ := leaf_returns_iff.1 h
  -- every course tells what the path is bound to
  have hfollow : ∀ {joins last lastAlias left},
      c.binder.Course e c.naming.root path joins last lastAlias left →
        f = (c.binder.onPath t left (.done t)).follow last lastAlias
          ⟨joins, []⟩ :=
    fun hcourse => hbind.trans (Binder.follow_course hseparator hcourse .empty)
  obtain ⟨joins, last, lastAlias, left, hcourse, hend⟩ :=
    Binder.exists_course (b := c.binder) path hsingle e c.naming.root
  have hjoins : f.joins = joins := by
    rw [hfollow hcourse]
    rcases hend with hfails | ⟨column, hreads⟩
    · rw [hfails.follow_eq]
      rfl
    · rw [hreads.follow_eq]
      rfl
  subst hjoins
  refine ⟨value, t, last, lastAlias, left, hvalue, htest, hcourse,
    hcourse.joinChain, hcourse.joinChain.nodup hseparator, ?_, ?_⟩
  · rcases hend with hfails | ⟨column, hreads⟩
    · refine .inl ⟨hfails, ?_⟩
      rw [hfollow hcourse, hfails.follow_eq]
      rfl
    · refine .inr ⟨column, hreads, ?_⟩
      rw [hfollow hcourse, hreads.follow_eq]
      rfl
  · intro joins' last' lastAlias' left' hcourse' hfails
    rw [hfollow hcourse', hfails.follow_eq]
    rfl

/-- The name that is nearest to a comment is that of the author of its post. -/
theorem leaf_course_name :
    Blog.compiler.evaluator.schema.entity? "comment" = some Blog.comment ∧
      Blog.compiler.naming.separator ≠ "" ∧
      Path.Single [.wildcard, .plain "name"] ∧
      Returns (Blog.compiler.compile .null "comment"
          (.leaf .eq [.wildcard, .plain "name"] (.literal (.string "x"))))
          (.start ())
        ⟨Blog.authorJoins .inner, [Blog.authorIs (.string "x")]⟩ (.start ()) ∧
      ("root" :: (Blog.authorJoins .inner).map Join.aliasName).Nodup ∧
      ∃ last lastAlias left, Blog.compiler.binder.JoinChain Blog.comment "root"
          (Blog.authorJoins .inner) last lastAlias ∧
        Blog.compiler.binder.Course Blog.comment "root"
          [.wildcard, .plain "name"]
          (Blog.authorJoins .inner) last lastAlias left := by
  have hseparator : Blog.compiler.naming.separator ≠ "" := by decide
  have hsingle : Path.Single [.wildcard, .plain "name"] := by
    refine ⟨?_, fun paths hmem => ?_⟩
    · simp [Path.Plain, Step.alias?, Step.plain]
    · simp [Step.plain] at hmem
  have hreturns : Returns (Blog.compiler.compile .null "comment"
      (.leaf .eq [.wildcard, .plain "name"] (.literal (.string "x"))))
      (.start ())
      ⟨Blog.authorJoins .inner, [Blog.authorIs (.string "x")]⟩ (.start ()) :=
    rfl
  obtain ⟨_, _, last, lastAlias, left, -, -, hcourse, hchain, hnodup, -⟩ :=
    leaf_course rfl hseparator hsingle hreturns
  exact ⟨rfl, hseparator, hsingle, hreturns, hnodup, last, lastAlias, left,
    hchain, hcourse⟩

end Compiler

end RowGuard
