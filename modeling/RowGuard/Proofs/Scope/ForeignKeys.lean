import RowGuard.Proofs.Scope.Course
import RowGuard.Proofs.Scope.Tracks

/-!
# Foreign keys in place of parents

A path of names that ends at a parent is bound without a join of the parent: the
foreign key is tested.  With a wildcard at the end it is bound to the join and a
test of the identity.  This module compares the two.

* `Engine.Alike` says that no comparison tells a key from an identity.  For
  scalars other than doubles it is equality (`Engine.comparator_alike`).
* `Database.Referential` says that every foreign key is the identity of a row.
* `Schema.EndsAtParent` are the paths, and `Binder.exists_course_parent` says
  where the two ways part.
* `Database.Referential.key_holds_iff` compares the two tests, and
  `Binder.follow_parent_iff` is the induction along the path.
* `Compiler.select_parent_key` is the result for compiled leaves.
-/

namespace RowGuard

/-! ## Keys and identities -/

/-- The values are equal, and no comparison tells one from the other. -/
structure Engine.Alike (e : Engine) (x y : Value) : Prop where
  equal : e.test .eq x y = .yes
  left : ∀ op v, e.test op x v = e.test op y v
  right : ∀ v, e.test .eq v x = e.test .eq v y

namespace Engine

variable {e : Engine} {op : Operator} {x y v : Value}

/-- Null passes no comparison. -/
theorem isNull_of_test (h : e.test op x v = .yes) :
    x.isNull = false ∧ v.isNull = false := by
  rw [test.eq_def] at h
  split at h
  · cases h
  · next hnull => simpa using hnull

/-- A value that equals itself is alike to itself. -/
theorem Alike.refl (h : e.test .eq x x = .yes) : e.Alike x x :=
  ⟨h, fun _ _ => rfl, fun _ => rfl⟩

theorem Alike.symm (h : e.Alike x y) : e.Alike y x := by
  refine ⟨?_, fun op v => (h.left op v).symm, fun v => (h.right v).symm⟩
  rw [← h.left, h.right, h.equal]

/-- Equal values are alike if the two comparisons do not tell them apart. -/
theorem Alike.of_congr (h : e.test .eq x y = .yes)
    (hequal : ∀ v, e.equal x v = e.equal y v)
    (hordered : ∀ op v, e.ordered op x v = e.ordered op y v)
    (hright : ∀ v, e.equal v x = e.equal v y) : e.Alike x y := by
  obtain ⟨hx, hy⟩ := isNull_of_test h
  refine ⟨h, fun op v => ?_, fun v => ?_⟩
  · cases op <;> simp [test, hx, hy, hequal, hordered]
  · simp [test, hx, hy, hright]

/-- Integers of the two widths that are one number are alike. -/
theorem comparator_alike_int32 (n : Int32) :
    comparator.Alike (.int32 n) (.int64 n.toInt64) := by
  have horder : ∀ v : Value, (Value.int32 n).order? v =
      (Value.int64 n.toInt64).order? v := by
    intro v
    cases v <;> simp [Value.order?, Value.toInt?, Value.float?]
  have hright : ∀ v : Value, v.atomsEqual (.int32 n) =
      v.atomsEqual (.int64 n.toInt64) := by
    intro v
    cases v with
    | int32 m =>
      rw [Value.int32_atomsEqual m, Value.int32_atomsEqual m]
      simp [Value.atomsEqual, Value.same]
    | _ => simp [Value.atomsEqual, Value.same]
  refine .of_congr ?_ (Value.int32_atomsEqual n) (fun op v => ?_) hright
  · simp [test, comparator, Value.isNull, Value.atomsEqual]
  · simp only [comparator, horder]

/-- Where storages compare like loaded data, scalars other than doubles are
alike if they are equal. -/
theorem comparator_alike {a b : Atom} (hx : x.atom? = some a)
    (hy : y.atom? = some b) (h : comparator.test .eq x y = .yes) :
    comparator.Alike x y := by
  have hequal := (test_eq_yes_iff (Value.isNull_of_atom hy)).1 h
  obtain rfl := (Value.atomsEqual_iff hx hy).1 hequal.2
  cases x <;> simp only [Value.atom?, Option.some.injEq, reduceCtorEq] at hx
  all_goals
    subst hx
    cases y <;>
      simp only [Value.atom?, Option.some.injEq, reduceCtorEq, Atom.bool.injEq,
        Atom.int.injEq, Atom.string.injEq, Atom.timestamp.injEq] at hy
  case int32.int32 =>
    obtain rfl := Int32.toInt_inj.1 hy
    exact .refl h
  case int32.int64 =>
    obtain rfl := Value.toInt64_eq_of_toInt_eq hy.symm
    exact comparator_alike_int32 _
  case int64.int32 =>
    obtain rfl := Value.toInt64_eq_of_toInt_eq hy
    exact (comparator_alike_int32 _).symm
  case int64.int64 =>
    obtain rfl := Int64.toInt_inj.1 hy
    exact .refl h
  all_goals
    subst hy
    exact .refl h

theorem Alike.compare_eq (h : e.Alike x y) (op : Operator) (v : Value) :
    e.compare op x v = e.compare op y v := by
  obtain ⟨hx, hy⟩ := isNull_of_test h.equal
  have htest : ∀ op, e.test op x = e.test op y := fun op => funext (h.left op)
  rw [compare.eq_def, compare.eq_def, hx, hy, htest, htest, htest]

/-- Null passes no comparison with scalars. -/
theorem not_compare_null (e : Engine) (op : Operator) (hv : v.Scalars) :
    e.compare op .null v ≠ .yes := by
  have htest : ∀ op v, e.test op .null v ≠ .yes := fun op v h => by
    cases (isNull_of_test h).1
  cases hv with
  | one h =>
    rw [compare.eq_def]
    cases v with
    | null | list | record => cases h
    | _ => exact htest op _
  | @several items hne h =>
    obtain ⟨item, hitem⟩ := List.exists_mem_of_ne_nil _ hne
    rw [compare.eq_def]
    dsimp only
    split
    · decide
    · split
      · rw [ne_eq, Truth.all_eq_yes_iff]
        exact fun hall => htest _ _ (hall _ (List.mem_map_of_mem hitem))
      · rw [ne_eq, Truth.any_eq_yes_iff]
        intro hmem
        obtain ⟨_, -, hyes⟩ := List.mem_map.1 hmem
        exact htest _ _ hyes

end Engine

/-- The rows of every entity have identities of their own, and every foreign key
that is not null is the identity of a parent. -/
structure Database.Referential (db : Database) (s : Schema) : Prop where
  keyed : ∀ e ∈ s.entities, db.Keyed e
  refers : ∀ e ∈ s.entities, ∀ r ∈ e.parents, ∀ target,
    s.entity? r.target = some target →
    ∀ row ∈ db.rows e.tableName, (row r.foreignKey).isNull = false →
      ∃ found ∈ db.rows target.tableName,
        db.engine.Alike (found target.identity) (row r.foreignKey)

/-- A table of one row is keyed if its identity equals itself. -/
theorem Database.Keyed.of_singleton {db : Database} {e : Entity} {row : Row}
    (hrows : db.rows e.tableName = [row])
    (hself : db.engine.test .eq (row e.identity) (row e.identity) = .yes) :
    db.Keyed e where
  identity_notNull found hfound := by
    rw [hrows, List.mem_singleton] at hfound
    rw [hfound]
    exact (Engine.isNull_of_test hself).1
  identity_equal_iff found hfound found' hfound' := by
    rw [hrows, List.mem_singleton] at hfound hfound'
    rw [hfound, hfound']
    refine iff_of_true ?_ rfl
    simpa [Engine.test, Engine.isNull_of_test hself] using hself

/-- A join binds a row of its table or the row of nulls. -/
theorem Join.mem_candidates {db : Database} {j : Join} {a : Assignment}
    {row : Row} (h : row ∈ j.candidates db a) :
    row ∈ db.rows j.table ∨ row = Row.null := by
  rw [candidates] at h
  split at h
  · cases h
  · exact .inr (List.mem_singleton.1 h)
  · exact .inl (List.mem_filter.1 h).1

/-- Properties that agree on the rows that a join may bind hold of one of them
alike. -/
theorem Join.exists_candidate_congr {db : Database} {j : Join} {a : Assignment}
    {P P' : Row → Prop}
    (h : ∀ row, row ∈ db.rows j.table ∨ row = Row.null → (P row ↔ P' row)) :
    (∃ row ∈ j.candidates db a, P row) ↔ ∃ row ∈ j.candidates db a, P' row :=
  exists_congr fun row => and_congr_right fun hrow =>
    h row (mem_candidates hrow)

section

variable {db : Database} {s : Schema} {e target : Entity} {name key : String}
  {optional : Bool} {op : Operator} {v : Value} {row : Row}

theorem Test.not_holdsOf_null (hv : v.Scalars) (column : String) :
    ¬ Test.HoldsOf db ⟨op, .value v⟩ column Row.null :=
  db.engine.not_compare_null op hv

/-- The key of a parent passes a test if the identity of the row passes it that
a join of the parent binds. -/
theorem Database.Referential.key_holds_iff (h : db.Referential s)
    (he : e ∈ s.entities)
    (hfield : s.field e name = .belongsTo key target optional) (hv : v.Scalars)
    (hrow : row ∈ db.rows e.tableName ∨ row = Row.null) :
    Test.HoldsOf db ⟨op, .value v⟩ key row ↔
      ∃ found ∈ (Binder.parentJoin "" key target optional "").candidates db
        fun _ => row,
        Test.HoldsOf db ⟨op, .value v⟩ target.identity found := by
  rw [Join.exists_candidate_iff (Test.not_holdsOf_null hv target.identity)]
  have hfound : ∀ found,
      found ∈ (Binder.parentJoin "" key target optional "").found db
      (fun _ => row) ↔ found ∈ db.rows target.tableName ∧
        db.engine.test .eq (found target.identity) (row key) = .yes := by
    intro found
    rw [Join.found, List.mem_filter, beq_iff_eq]
    rfl
  have hholds : ∀ column found, Test.HoldsOf db ⟨op, .value v⟩ column found ↔
      db.engine.compare op (found column) v = .yes := fun _ _ => Iff.rfl
  simp only [hfound, hholds]
  cases hnull : (row key).isNull with
  | true =>
    -- a key that is null passes no test and leads to no row
    constructor
    · intro hyes
      rw [Value.eq_null_of_isNull hnull] at hyes
      exact absurd hyes (db.engine.not_compare_null op hv)
    · rintro ⟨found, ⟨-, htest⟩, -⟩
      rw [(Engine.isNull_of_test htest).2] at hnull
      cases hnull
  | false =>
    have hrow : row ∈ db.rows e.tableName := by
      refine hrow.resolve_right ?_
      rintro rfl
      cases hnull
    obtain ⟨r, hr, -, hkind, htarget, rfl, -⟩ :=
      Schema.exists_relation_of_belongsTo hfield
    have hparent : r ∈ e.parents := List.mem_filter.2 ⟨hr, beq_iff_eq.2 hkind⟩
    obtain ⟨parent, hmem, halike⟩ :=
      h.refers e he r hparent target htarget row hrow hnull
    rw [← halike.compare_eq]
    constructor
    · exact fun hyes => ⟨parent, ⟨hmem, halike.equal⟩, hyes⟩
    · rintro ⟨found, ⟨hmem', htest⟩, hyes⟩
      rw [← halike.right] at htest
      have hkeyed := h.keyed target (Schema.entity?_mem htarget)
      obtain rfl := (hkeyed.test_eq_yes_iff hmem' hmem).1 htest
      exact hyes

end

/-! ## Paths that end at a parent -/

/-- From the entity the names lead along fields to a parent, or along names of
the entity itself.  The last name is that of a parent. -/
inductive Schema.EndsAtParent (s : Schema) :
    Entity → (names : List String) → Prop where
  | last {e name key target optional}
      (hfield : s.field e name = .belongsTo key target optional) :
      EndsAtParent s e [name]
  | parent {e name key target optional names}
      (hfield : s.field e name = .belongsTo key target optional)
      (rest : EndsAtParent s target names) : EndsAtParent s e (name :: names)
  | children {e name child inverse key names}
      (hfield : s.field e name = .hasMany child inverse key)
      (rest : EndsAtParent s child names) : EndsAtParent s e (name :: names)
  | own {e name names} (hfield : s.field e name = .unknown)
      (hname : name = e.name) (rest : EndsAtParent s e names) :
      EndsAtParent s e (name :: names)

theorem Schema.EndsAtParent.ne_nil {s : Schema} {e : Entity}
    {names : List String} (h : s.EndsAtParent e names) : names ≠ [] := by
  cases h <;> simp

namespace Binder

variable {b : Binder} {e : Entity} {names : List String}

/-- The ways of a path to a parent and of the same path with a wildcard part
before the last join. -/
theorem exists_course_parent (h : b.schema.EndsAtParent e names)
    (aliasName : String) :
    ∃ joins last lastAlias name key target optional,
      b.schema.field last name = .belongsTo key target optional ∧
      b.Course e aliasName (Path.ofNames names) joins last lastAlias
        [.plain name] ∧
      b.Course e aliasName (Path.ofNames names ++ [.wildcard])
        (joins ++ [parentJoin lastAlias key target optional
          (b.naming.child lastAlias name)])
        target (b.naming.child lastAlias name) [.wildcard] := by
  induction h generalizing aliasName with
  | @last e name key target optional hfield =>
    exact ⟨[], e, aliasName, name, key, target, optional, hfield, .here,
      .parent hfield (by simp) .here⟩
  | parent hfield hrest ih =>
    obtain ⟨joins, last, lastAlias, name, key, target, optional, hlast, hcourse,
      hcourse'⟩ :=
      ih (b.naming.child aliasName _)
    have hmore : Path.ofNames _ ≠ [] :=
      fun hnil => hrest.ne_nil (List.map_eq_nil_iff.1 hnil)
    exact ⟨_, last, lastAlias, name, key, target, optional, hlast,
      .parent hfield hmore hcourse, .parent hfield (by simp) hcourse'⟩
  | children hfield _ ih =>
    obtain ⟨joins, last, lastAlias, name, key, target, optional, hlast, hcourse,
      hcourse'⟩ :=
      ih (b.naming.child aliasName _)
    exact ⟨_, last, lastAlias, name, key, target, optional, hlast,
      .children hfield hcourse, .children hfield hcourse'⟩
  | own hfield hname _ ih =>
    obtain ⟨joins, last, lastAlias, name, key, target, optional, hlast, hcourse,
      hcourse'⟩ :=
      ih aliasName
    exact ⟨joins, last, lastAlias, name, key, target, optional, hlast,
      .own hfield hname hcourse, .own hfield hname hcourse'⟩

/-- What a path tells that starts with a name, given what the rest of it
tells. -/
theorem follow_plain_tells {db : Database} {t : Test} {path : Path}
    {name : String} {property : Entity → Row → Prop}
    (hseparator : b.naming.separator ≠ "")
    (hpath : (b.onPath t path (.done t)).follow.Tells db property) :
    (b.onPath t (.plain name :: path) (.done t)).follow.Tells db fun e row =>
      FieldTells db t name path.isEmpty property e row
        (b.schema.field e name) := by
  rw [follow_plain]
  exact step_tells hseparator hpath

/-- From a row of an entity, or from the row of nulls, a path to a parent tells
the same with and without the join of the parent. -/
theorem follow_parent_iff {db : Database} {op : Operator} {v : Value}
    (hseparator : b.naming.separator ≠ "") (href : db.Referential b.schema)
    (hv : v.Scalars) (h : b.schema.EndsAtParent e names)
    (he : e ∈ b.schema.entities) :
    ∃ property property' : Entity → Row → Prop,
      (b.onPath ⟨op, .value v⟩ (Path.ofNames names)
        (.done ⟨op, .value v⟩)).follow.Tells db property ∧
      (b.onPath ⟨op, .value v⟩ (Path.ofNames names ++ [.wildcard])
        (.done ⟨op, .value v⟩)).follow.Tells db property' ∧
      ∀ row, row ∈ db.rows e.tableName ∨ row = Row.null →
        (property e row ↔ property' e row) := by
  induction h with
  | @last e name key target optional hfield =>
    have hend : (b.onPath ⟨op, .value v⟩ [] (.done ⟨op, .value v⟩)).follow.Tells
        db fun e row => Test.HoldsOf db ⟨op, .value v⟩ e.identity row :=
      test_tells _ Entity.identity
    have hclimb : (b.onPath ⟨op, .value v⟩ [.wildcard]
        (.done ⟨op, .value v⟩)).follow.Tells db
        fun e row => Test.HoldsOf db ⟨op, .value v⟩ e.identity row :=
      test_tells _ Entity.identity
    refine ⟨_, _, follow_plain_tells hseparator hend,
      follow_plain_tells hseparator hclimb, fun row hrow => ?_⟩
    rw [hfield]
    exact href.key_holds_iff he hfield hv hrow
  | @parent e name key target optional names hfield hrest ih =>
    obtain ⟨relation, -, -, -, htarget, -⟩ :=
      Schema.exists_relation_of_belongsTo hfield
    obtain ⟨property, property', hproperty, hproperty', hiff⟩ :=
      ih (Schema.entity?_mem htarget)
    obtain ⟨first, more, rfl⟩ := List.exists_cons_of_ne_nil hrest.ne_nil
    refine ⟨_, _, follow_plain_tells hseparator hproperty,
      follow_plain_tells hseparator hproperty', fun row _ => ?_⟩
    rw [hfield]
    exact Join.exists_candidate_congr hiff
  | @children e name child inverse key names hfield _ ih =>
    obtain ⟨relation, -, -, -, hchild, -⟩ :=
      Schema.exists_relation_of_hasMany hfield
    obtain ⟨property, property', hproperty, hproperty', hiff⟩ :=
      ih (Schema.entity?_mem hchild)
    refine ⟨_, _, follow_plain_tells hseparator hproperty,
      follow_plain_tells hseparator hproperty', fun row _ => ?_⟩
    rw [hfield]
    exact Join.exists_candidate_congr hiff
  | own hfield _ _ ih =>
    obtain ⟨property, property', hproperty, hproperty', hiff⟩ := ih he
    refine ⟨_, _, follow_plain_tells hseparator hproperty,
      follow_plain_tells hseparator hproperty', fun row hrow => ?_⟩
    rw [hfield]
    exact and_congr_right fun _ => hiff row hrow

end Binder

/-! ## Compilation -/

namespace Compiler

variable {σ : Type} {c : Compiler σ} {actor value v : Value} {name : String}
  {e : Entity} {op : Operator} {operand : Operand} {names : List String}
  {s s' : Session σ} {db : Database}

/-- The select of a leaf whose path has been bound to one filter. -/
theorem select_leaf_returns {path : Path} {t : Test} {joins : List Join}
    {condition : Filter} (hentity : c.evaluator.schema.entity? name = some e)
    (hvalue : Returns (c.evaluator.resolve actor operand) s value s')
    (htest : Test.of op value = .ok t)
    (hbind : c.binder.bind t path e c.naming.root = ⟨joins, [condition]⟩) :
    ∃ select, Returns (c.select actor name (.leaf op path operand))
      s select s' ∧
      select.joins = joins ∧ select.filter = some condition ∧
      ∀ (db : Database) (row : Row), select.admits db row = true ↔
        (c.binder.bind t path e c.naming.root).Admits db c.naming.root row := by
  have hbuilt : (c.binder.bind t path e c.naming.root).Built c.naming.root :=
    (Binder.bind_closed path e _).toBuilt
  have honce : mergeJoins [] (c.binder.bind t path e c.naming.root).joins =
      (c.binder.bind t path e c.naming.root).joins :=
    mergeJoins_of_once hbuilt.once
  rw [hbind] at honce
  refine ⟨(c.binder.bind t path e c.naming.root).applyTo (c.root e), ?_, ?_, ?_,
    fun db row => admits_root_iff hbuilt⟩
  · rw [select_returns_iff hentity]
    exact ⟨_, leaf_returns_iff.2 ⟨value, t, hvalue, htest, rfl⟩, rfl⟩
  · rw [hbind]
    exact honce
  · rw [hbind]
    rfl

/-- A leaf whose path ends at a parent tests the foreign key, and joins no table
for it.  With a wildcard at the end of the path the parent is joined and its
identity is tested.  Where every foreign key is the identity of a row, both
admit the same rows. -/
theorem select_parent_key (hentity : c.evaluator.schema.entity? name = some e)
    (hseparator : c.naming.separator ≠ "")
    (hends : c.evaluator.schema.EndsAtParent e names)
    (hvalue : Returns (c.evaluator.resolve actor operand) s value s')
    (htest : Test.of op value = .ok ⟨op, .value v⟩) (hv : v.Scalars)
    (href : db.Referential c.evaluator.schema) :
    ∃ select select' joins last lastAlias field key target optional,
      Returns (c.select actor name (.leaf op (Path.ofNames names) operand))
        s select s' ∧
      Returns (c.select actor name
        (.leaf op (Path.ofNames names ++ [.wildcard]) operand)) s
        select' s' ∧
      c.evaluator.schema.field last field = .belongsTo key target optional ∧
      select.joins = joins ∧
      select.filter = some (.comparison lastAlias key op v) ∧
      select'.joins = joins ++
        [Binder.parentJoin lastAlias key target optional
          (c.naming.child lastAlias field)] ∧
      select'.filter =
        some
          (.comparison (c.naming.child lastAlias field) target.identity op v) ∧
      ∀ row ∈ db.rows e.tableName,
        select.admits db row = true ↔ select'.admits db row = true := by
  obtain ⟨joins, last, lastAlias, field, key, target, optional, hfield, hcourse,
    hcourse'⟩ :=
    Binder.exists_course_parent (b := c.binder) hends c.naming.root
  -- both ways end in a test of their own
  have hbind : c.binder.bind ⟨op, .value v⟩ (Path.ofNames names) e
      c.naming.root = ⟨joins, [.comparison lastAlias key op v]⟩ := by
    rw [Binder.bind, Binder.follow_course hseparator hcourse .empty,
      (Binder.Reads.key hfield).follow_eq]
    rfl
  have hbind' : c.binder.bind ⟨op, .value v⟩
      (Path.ofNames names ++ [.wildcard]) e c.naming.root = ⟨joins ++
        [Binder.parentJoin lastAlias key target optional
          (c.naming.child lastAlias field)],
        [.comparison (c.naming.child lastAlias field) target.identity
          op v]⟩ := by
    rw [Binder.bind, Binder.follow_course hseparator hcourse' .empty,
      Binder.Reads.wildcard.follow_eq]
    rfl
  obtain ⟨select, hselect, hjoins, hfilter, hadmits⟩ :=
    select_leaf_returns hentity hvalue htest hbind
  obtain ⟨select', hselect', hjoins', hfilter', hadmits'⟩ :=
    select_leaf_returns hentity hvalue htest hbind'
  obtain ⟨property, property', hproperty, hproperty', hiff⟩ :=
    Binder.follow_parent_iff (b := c.binder) hseparator href hv hends
      (Schema.entity?_mem hentity)
  refine ⟨select, select', joins, last, lastAlias, field, key, target,
    optional, hselect, hselect', hfield, hjoins, hfilter, hjoins', hfilter',
    fun row hrow => ?_⟩
  calc select.admits db row = true
      ↔ (c.binder.bind ⟨op, .value v⟩ (Path.ofNames names) e
        c.naming.root).Admits db
          c.naming.root row := hadmits db row
    _ ↔ property e row := hproperty.admits_iff e c.naming.root row
    _ ↔ property' e row := hiff row (.inl hrow)
    _ ↔ (c.binder.bind ⟨op, .value v⟩ (Path.ofNames names ++ [Step.wildcard]) e
          c.naming.root).Admits db c.naming.root row :=
        (hproperty'.admits_iff e c.naming.root row).symm
    _ ↔ select'.admits db row = true := (hadmits' db row).symm

end Compiler

namespace Blog

theorem test_eq_self (n : Int64) :
    Engine.comparator.test .eq (.int64 n) (.int64 n) = .yes := by
  simp [Engine.test, Engine.comparator, Value.isNull, Value.atomsEqual,
    Value.same]

/-- The comment in the thread is on the post there, which the user there
wrote. -/
theorem thread_referential : thread.Referential schema where
  keyed e he := by
    simp only [schema, List.mem_cons, List.not_mem_nil, or_false] at he
    rcases he with rfl | rfl | rfl
    · exact .of_singleton rfl (test_eq_self 3)
    · exact .of_singleton rfl (test_eq_self 7)
    · exact .of_singleton rfl (test_eq_self 1)
  refers e he r hr target htarget row hrow _ := by
    simp only [schema, List.mem_cons, List.not_mem_nil, or_false] at he
    rcases he with rfl | rfl | rfl
    · cases hr
    · obtain rfl := List.mem_singleton.1 hr
      obtain rfl := Option.some.inj htarget
      obtain rfl := List.mem_singleton.1 hrow
      exact ⟨_, List.mem_singleton_self _,
        Engine.comparator_alike rfl rfl (test_eq_self 3)⟩
    · obtain rfl := List.mem_singleton.1 hr
      obtain rfl := Option.some.inj htarget
      obtain rfl := List.mem_singleton.1 hrow
      exact ⟨_, List.mem_singleton_self _,
        Engine.comparator_alike rfl rfl (test_eq_self 7)⟩

end Blog

open Blog in
/-- Comments on posts that are not by the user 5 are found with and without the
table of users. -/
theorem Compiler.select_parent_key_author :
    compiler.evaluator.schema.entity? "comment" = some comment ∧
      compiler.naming.separator ≠ "" ∧
      schema.EndsAtParent comment ["post", "author"] ∧
      Returns (compiler.evaluator.resolve .null (.literal (.int64 5)))
        (.start ()) (.int64 5) (.start ()) ∧
      Test.of .neq (.int64 5) = .ok ⟨.neq, .value (.int64 5)⟩ ∧
      (Value.int64 5).Scalars ∧ thread.Referential schema ∧
      ∃ select select',
        Returns (compiler.select .null "comment"
          (.leaf .neq (Path.ofNames ["post", "author"]) (.literal (.int64 5))))
          (.start ()) select (.start ()) ∧
        Returns (compiler.select .null "comment" (.leaf .neq
          (Path.ofNames ["post", "author"] ++ [.wildcard])
          (.literal (.int64 5)))) (.start ()) select' (.start ()) ∧
        ∀ row ∈ thread.rows comment.tableName,
          select.admits thread row = true ↔
            select'.admits thread row = true := by
  have hentity : compiler.evaluator.schema.entity? "comment" =
      some comment := rfl
  have hseparator : compiler.naming.separator ≠ "" := by decide
  have hends : schema.EndsAtParent comment ["post", "author"] :=
    .parent rfl (.last rfl)
  have hvalue : Returns (compiler.evaluator.resolve .null (.literal (.int64 5)))
      (.start ()) (.int64 5) (.start ()) := rfl
  have htest : Test.of .neq (.int64 5) = .ok ⟨.neq, .value (.int64 5)⟩ := rfl
  have hscalars : (Value.int64 5).Scalars := .one rfl
  obtain ⟨select, select', _, _, _, _, _, _, _, hselect, hselect', -, -, -, -,
    -, hsame⟩ :=
    Compiler.select_parent_key hentity hseparator hends hvalue htest hscalars
      thread_referential
  exact ⟨hentity, hseparator, hends, hvalue, htest, hscalars,
    thread_referential, select, select', hselect, hselect', hsame⟩

end RowGuard
