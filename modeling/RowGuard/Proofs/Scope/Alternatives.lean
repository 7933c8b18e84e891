import RowGuard.Proofs.Scope.Closure

/-!
# Alternatives are a union

Each way of an alternative is bound from a root of its own, and the query asks
for the identity of the row to be among those that some way finds.  This is the
union of the ways, since an alias has no part in what a path admits.

* `Binder.Growth.Tells` says what a growth admits as a predicate on the row at
  which it starts.  Such a predicate knows neither the alias of the row nor the
  joins that led to it.
* `Binder.onPath_local` finds one for every path without alias overrides, with
  alternatives at any depth.
* `Compiler.select_alternatives` compares a path that starts with alternatives
  and the paths that start with one of them, where identities are keys.
-/

namespace RowGuard

variable {db : Database}

/-! ## Paths without alias overrides -/

mutual

/-- The step gives no alias, and no step inside it does. -/
def Step.PlainThroughout : Step → Prop
  | .field _ given => given = none
  | .wildcard => True
  | .self _ => True
  | .alternatives paths => PlainPaths paths

/-- No step of the path gives an alias, at any depth. -/
def PlainSteps : List Step → Prop
  | [] => True
  | step :: path => step.PlainThroughout ∧ PlainSteps path

/-- No step of the paths gives an alias, at any depth. -/
def PlainPaths : List (List Step) → Prop
  | [] => True
  | path :: paths => PlainSteps path ∧ PlainPaths paths

end

/-- No step of the path gives an alias, at any depth. -/
def Path.PlainThroughout (path : Path) : Prop := PlainSteps path

/-! ## One more join -/

theorem assignments_append (db : Database) (joins added : List Join)
    (a : Assignment) :
    assignments db (joins ++ added) a =
      (assignments db joins a).flatMap (assignments db added) := by
  induction joins generalizing a with
  | nil => simp [assignments]
  | cons j joins ih => simp [assignments, ih, List.flatMap_assoc]

theorem mem_assignments_concat {joins : List Join} {j : Join}
    {a b : Assignment} :
    b ∈ assignments db (joins ++ [j]) a ↔
      ∃ c ∈ assignments db joins a, ∃ row ∈ j.candidates db c,
        c.bind j.aliasName row = b := by
  simp [assignments_append, assignments, List.mem_flatMap, eq_comm]

/-- The fragment has joins only, and goes on from the longest of its aliases. -/
structure Fragment.Leads (aliasName : String) (f : Fragment) : Prop where
  unfiltered : f.filters = []
  longest : ∀ x ∈ f.joins.map Join.aliasName, x.length ≤ aliasName.length

namespace Fragment

variable {f : Fragment} {aliasName root : String} {row : Row}

theorem Leads.empty : Fragment.empty.Leads aliasName :=
  ⟨rfl, by simp [Fragment.empty]⟩

/-- A join under a longer alias is a new one. -/
theorem Leads.joins_join (hf : f.Leads aliasName) {j : Join}
    (hlonger : aliasName.length < j.aliasName.length) :
    (f.join j).joins = f.joins ++ [j] := by
  refine insertJoin_of_new fun k hk => Bool.eq_false_iff.2 fun hsame => ?_
  have hle := hf.longest _ (List.mem_map_of_mem hk)
  rw [Join.aliasName_eq_of_sameBinding hsame] at hle
  omega

theorem Leads.join (hf : f.Leads aliasName) {j : Join}
    (hlonger : aliasName.length < j.aliasName.length) :
    (f.join j).Leads j.aliasName := by
  refine ⟨hf.unfiltered, fun x hx => ?_⟩
  rw [hf.joins_join hlonger, List.map_append, List.mem_append] at hx
  rcases hx with hx | hx
  · have hle := hf.longest x hx
    omega
  · exact (List.mem_singleton.1 hx ▸ Nat.le_refl _)

/-- With its only filter the fragment admits what makes this filter true. -/
theorem Leads.admits_filter_iff (hf : f.Leads aliasName) {condition : Filter} :
    (f.filter condition).Admits db root row ↔
      ∃ a ∈ assignments db f.joins (.start root row),
        condition.truth db a = .yes := by
  simp [Fragment.Admits, Fragment.filter, hf.unfiltered]

end Fragment

/-! ## The rows of a subquery -/

theorem Select.mem_identities_iff {s : Select} {v : Value} :
    v ∈ s.identities db ↔
      ∃ row ∈ db.rows s.table, s.admits db row = true ∧ row s.identity = v := by
  cases s
  simp [Select.identities, Select.admits, and_assoc]

theorem selectIdentities_eq_map (db : Database) (members : List Select) :
    selectIdentities db members = members.map (·.identities db) := by
  induction members with
  | nil => rfl
  | cons member members ih => rw [selectIdentities, ih, List.map_cons]

/-- A column is in a union if it equals the identity of a row that some member
admits. -/
theorem Filter.truth_inSubquery_any_iff {aliasName column : String}
    {members : List Select} {a : Assignment} :
    (Filter.inSubquery aliasName column ⟨.any, members⟩).truth db a = .yes ↔
      ∃ member ∈ members, ∃ row ∈ db.rows member.table,
        member.admits db row = true ∧
        db.engine.test .eq (a aliasName column)
          (row member.identity) = .yes := by
  rw [Filter.truth, Truth.any_eq_yes_iff, Compound.identities,
    selectIdentities_eq_map]
  simp only [List.mem_map, List.mem_flatten]
  constructor
  · rintro ⟨v, ⟨_, ⟨member, hmember, rfl⟩, hv⟩, htest⟩
    obtain ⟨row, hrow, hadmits, rfl⟩ := Select.mem_identities_iff.1 hv
    exact ⟨member, hmember, row, hrow, hadmits, htest⟩
  · rintro ⟨member, hmember, row, hrow, hadmits, htest⟩
    exact ⟨_, ⟨_, ⟨member, hmember, rfl⟩,
      Select.mem_identities_iff.2 ⟨row, hrow, hadmits, rfl⟩⟩,
      htest⟩

/-! ## Tests of a row -/

/-- The test holds of a column of the row. -/
def Test.HoldsOf (db : Database) (t : Test) (column : String)
    (row : Row) : Prop :=
  (t.filter "" column).truth db (fun _ => row) = .yes

/-- A test reads the row under its alias. -/
theorem Test.truth_filter_iff {t : Test} {aliasName column : String}
    {a : Assignment} :
    (t.filter aliasName column).truth db a = .yes ↔
      t.HoldsOf db column (a aliasName) := by
  obtain ⟨op, value⟩ := t
  cases value with
  | empty =>
    show Filter.truth db (if op.isNegative then .always else .emptySet)
      a = .yes ↔
      Filter.truth db (if op.isNegative then .always else .emptySet) _ = .yes
    split <;> rfl
  | null | value v => rfl

namespace Binder

variable {b : Binder} {t : Test}

/-! ## What a growth tells of a row -/

/-- What the growth completes admits a row of the root if the joins lead from
there to a row with the property. -/
def Growth.Tells (db : Database) (g : Growth)
    (property : Entity → Row → Prop) : Prop :=
  ∀ (root : String) (entity : Entity) (aliasName : String) (f : Fragment)
    (row : Row),
    f.Leads aliasName →
      ((g entity aliasName f).Admits db root row ↔
        ∃ a ∈ assignments db f.joins (.start root row),
          property entity (a aliasName))

/-- The growth tells some property of the row at which it starts. -/
def Growth.Local (db : Database) (g : Growth) : Prop :=
  ∃ property, g.Tells db property

/-- Both ways to go on are local. -/
structure Onward.Local (db : Database) (rest : Onward) : Prop where
  follow : rest.follow.Local db
  ascend : rest.ascend.Local db

/-- From the root the growth admits the rows with the property, whatever the
root is called. -/
theorem Growth.Tells.admits_iff {g : Growth} {property : Entity → Row → Prop}
    (h : g.Tells db property) (entity : Entity) (root : String) (row : Row) :
    (g entity root .empty).Admits db root row ↔ property entity row := by
  rw [h root entity root .empty row .empty]
  simp [Fragment.empty, assignments, Assignment.start]

theorem deny_tells (db : Database) : Growth.Tells db deny fun _ _ => False := by
  intro root entity aliasName f row hf
  simp [deny, hf.admits_filter_iff, Filter.truth]

theorem test_tells (t : Test) (column : Entity → String) :
    Growth.Tells db
      (fun entity aliasName f => f.filter (t.filter aliasName (column entity)))
      fun entity row => t.HoldsOf db (column entity) row := by
  intro root entity aliasName f row hf
  simp only [hf.admits_filter_iff, Test.truth_filter_iff]

/-- A growth that joins a relation first tells of the rows that the join may
bind. -/
theorem Growth.Tells.of_join {next : Growth} {property : Entity → Row → Prop}
    (hnext : next.Tells db property) {root aliasName : String} {target : Entity}
    {f : Fragment} {j : Join} {row : Row} (hf : f.Leads aliasName)
    (hlonger : aliasName.length < j.aliasName.length) :
    (next target j.aliasName (f.join j)).Admits db root row ↔
      ∃ a ∈ assignments db f.joins (.start root row),
        ∃ found ∈ j.candidates db a, property target found := by
  rw [hnext root target j.aliasName _ row (hf.join hlonger),
    hf.joins_join hlonger]
  simp only [mem_assignments_concat]
  constructor
  · rintro ⟨_, ⟨a, ha, found, hfound, rfl⟩, hproperty⟩
    exact ⟨a, ha, found, hfound, by simpa [Assignment.bind] using hproperty⟩
  · rintro ⟨a, ha, found, hfound, hproperty⟩
    exact ⟨_, ⟨a, ha, found, hfound, rfl⟩,
      by simpa [Assignment.bind] using hproperty⟩

/-! ## Steps -/

/-- What a field tells of a row of an entity, given what comes after it tells.
The aliases of the joins do not matter. -/
def FieldTells (db : Database) (t : Test) (name : String) (isEnd : Bool)
    (next : Entity → Row → Prop) (entity : Entity) (row : Row) : Field → Prop
  | .column column => isEnd = true ∧ t.HoldsOf db column row
  | .belongsTo key parent optional =>
    if isEnd then t.HoldsOf db key row
    else ∃ found ∈ (parentJoin "" key parent optional "").candidates db
      fun _ => row,
      next parent found
  | .hasMany child _ key =>
    ∃ found ∈ (childrenJoin "" key entity child "").candidates db fun _ => row,
      next child found
  | .unknown => name = entity.name ∧ next entity row

theorem step_tells (hseparator : b.naming.separator ≠ "") {name : String}
    {isEnd : Bool} {next : Growth} {property : Entity → Row → Prop}
    (hnext : next.Tells db property) :
    (b.step t name none isEnd next).Tells db fun entity row =>
      FieldTells db t name isEnd property entity row
        (b.schema.field entity name) := by
  intro root entity aliasName f row hf
  have hlonger : aliasName.length < (b.naming.child aliasName name).length :=
    length_lt_child fun heq => hseparator (String.append_eq_empty_iff.1 heq).1
  have hdeny := deny_tells db root entity aliasName f row hf
  unfold Binder.step
  dsimp only
  cases hfield : b.schema.field entity name with
  | column column =>
    cases isEnd with
    | true =>
      simpa [FieldTells] using test_tells t (fun _ => column) root entity
        aliasName f row hf
    | false => simpa [FieldTells] using hdeny
  | belongsTo key parent optional =>
    cases isEnd with
    | true =>
      simpa [FieldTells] using test_tells t (fun _ => key) root entity
        aliasName f row hf
    | false =>
      exact hnext.of_join hf
        (j := parentJoin aliasName key parent optional _) hlonger
  | hasMany child inverse key =>
    exact hnext.of_join hf
      (j := childrenJoin aliasName key entity child _) hlonger
  | unknown =>
    by_cases hname : name = entity.name
    · simpa [FieldTells, hname] using hnext root entity aliasName f row hf
    · simpa [FieldTells, hname] using hdeny

theorem step_local (hseparator : b.naming.separator ≠ "") {name : String}
    {isEnd : Bool} {next : Growth} :
    next.Local db → (b.step t name none isEnd next).Local db
  | ⟨_, hnext⟩ => ⟨_, step_tells hseparator hnext⟩

theorem steps_local (hseparator : b.naming.separator ≠ "") {goal : String}
    {rest : Onward} (hrest : rest.Local db) :
    ∀ names, (b.steps t goal none rest names).Local db
  | [] => hrest.follow
  | [_] => by
    unfold Binder.steps
    rw [ite_self]
    exact step_local hseparator hrest.follow
  | _ :: next :: names =>
    step_local hseparator (steps_local hseparator hrest (next :: names))

theorem climb_local (hseparator : b.naming.separator ≠ "") {name : String}
    {rest : Onward} (hrest : rest.Local db) :
    (b.climb t name none rest).Local db := by
  have hlocal : ∀ names, (b.steps t name none rest names).Local db :=
    steps_local hseparator hrest
  choose property hsteps using hlocal
  refine ⟨fun entity row =>
    ∃ names ∈ b.graph.shortestPath entity.name name,
      property names entity row, ?_⟩
  intro root entity aliasName f row hf
  unfold Binder.climb
  split
  next names hnames =>
    simpa [hnames] using hsteps names root entity aliasName f row hf
  next hnames =>
    simpa [hnames] using deny_tells db root entity aliasName f row hf

/-- Alternatives tell that a row with the same identity has the property of some
way. -/
theorem branch_tells {ways : List Growth}
    (hclosed : ∀ way ∈ ways, way.KeepsClosed)
    (hways : ∀ way ∈ ways, way.Local db) :
    (b.branch ways).Tells db fun entity row =>
      ∃ way ∈ ways, ∃ property, way.Tells db property ∧
        ∃ found ∈ db.rows entity.tableName,
        property entity found ∧
          db.engine.test .eq (row entity.identity)
            (found entity.identity) = .yes := by
  intro root entity aliasName f row hf
  -- the select of a way admits what the way tells
  have hselect {way : Growth} (hway : way ∈ ways)
    {property : Entity → Row → Prop}
      (htells : way.Tells db property) (altRoot : String) (found : Row) :
      ((way entity altRoot .empty).applyTo (.fromEntity entity altRoot)).admits
        db found = true ↔
        property entity found := by
    have hbuilt := hclosed way hway altRoot entity altRoot .empty .empty
      (List.mem_cons_self ..)
    have hjoins : mergeJoins [] (way entity altRoot .empty).joins =
        (way entity altRoot .empty).joins := mergeJoins_of_once hbuilt.once
    rw [Fragment.admits_applyTo_iff hjoins rfl]
    exact htells.admits_iff entity altRoot found
  unfold Binder.branch combineSelects
  dsimp only
  split
  next query hquery =>
    split at hquery
    · cases hquery
    obtain rfl := Option.some.inj hquery
    simp only [hf.admits_filter_iff, Compound.ofSelects,
      Filter.truth_inSubquery_any_iff, List.mem_map,
      List.mem_zipIdx_iff_getElem?]
    refine exists_congr fun a => and_congr_right fun _ => ?_
    constructor
    · rintro ⟨_, ⟨_, ⟨⟨way, index⟩, hway, rfl⟩, rfl⟩, found, hfound,
        hadmits, htest⟩
      have hmem := List.mem_of_getElem? hway
      obtain ⟨property, htells⟩ := hways way hmem
      refine ⟨way, hmem, property, htells, found, hfound, ?_, htest⟩
      exact (hselect hmem htells _ found).1 hadmits
    · rintro ⟨way, hmem, property, htells, found, hfound, hproperty, htest⟩
      obtain ⟨index, hway⟩ := List.mem_iff_getElem?.1 hmem
      refine ⟨_, ⟨_, ⟨⟨way, index⟩, hway, rfl⟩, rfl⟩, found, hfound, ?_, htest⟩
      exact (hselect hmem htells _ found).2 hproperty
  next hnone =>
    split at hnone
    next hempty =>
      obtain rfl : ways = [] := by simpa using hempty
      simp [hf.admits_filter_iff, Filter.truth]
    next => cases hnone

/-! ## Paths -/

theorem Onward.done_local : (Onward.done t).Local db :=
  ⟨⟨_, test_tells t Entity.identity⟩, ⟨_, test_tells t Entity.identity⟩⟩

mutual

theorem onStep_local (hseparator : b.naming.separator ≠ "") :
    ∀ (step : Step) {rest : Onward},
    step.PlainThroughout → rest.KeepsClosed → rest.Local db →
      (b.onStep t step rest).Local db
  | .field _ _, _, hplain, _, hrest => by
    obtain rfl := hplain
    exact ⟨step_local hseparator hrest.follow, climb_local hseparator hrest⟩
  | .wildcard, _, _, _, hrest => ⟨hrest.ascend, ⟨_, deny_tells db⟩⟩
  | .self name, rest, _, _, hrest => by
    obtain ⟨property, hfollow⟩ := hrest.follow
    refine ⟨⟨fun entity row => name = entity.name ∧ property entity row, ?_⟩,
      ⟨_, deny_tells db⟩⟩
    intro root entity aliasName f row hf
    unfold Binder.onStep
    dsimp only
    split
    next hname => simpa [hname] using hfollow root entity aliasName f row hf
    next hname =>
      simpa [hname] using deny_tells db root entity aliasName f row hf
  | .alternatives paths, _, hplain, hclosed, hrest =>
    ⟨⟨_, branch_tells (onPaths_keepsClosed paths hclosed)
      (onPaths_local hseparator paths hplain hclosed hrest)⟩,
      ⟨_, deny_tells db⟩⟩

/-- A path without alias overrides tells a property of the row at which it
starts. -/
theorem onPath_local (hseparator : b.naming.separator ≠ "") :
    ∀ (path : List Step)
    {rest : Onward}, PlainSteps path → rest.KeepsClosed → rest.Local db →
      (b.onPath t path rest).Local db
  | [], _, _, _, hrest => hrest
  | step :: path, _, hplain, hclosed, hrest =>
    onStep_local hseparator step hplain.1 (onPath_keepsClosed path hclosed)
      (onPath_local hseparator path hplain.2 hclosed hrest)

theorem onPaths_local (hseparator : b.naming.separator ≠ "") :
    ∀ (paths : List (List Step))
    {rest : Onward}, PlainPaths paths → rest.KeepsClosed → rest.Local db →
      ∀ way ∈ b.onPaths t paths rest, way.Local db
  | [], _, _, _, _ => fun _ h => (List.not_mem_nil h).elim
  | path :: paths, _, hplain, hclosed, hrest =>
    List.forall_mem_cons.2
      ⟨(onPath_local hseparator path hplain.1 hclosed hrest).follow,
        onPaths_local hseparator paths hplain.2 hclosed hrest⟩

end

theorem onPath_append (path path' : List Step) (rest : Onward) :
    b.onPath t (path ++ path') rest =
      b.onPath t path (b.onPath t path' rest) := by
  induction path with
  | nil => rfl
  | cons step path ih => rw [List.cons_append, onPath, onPath, ih]

theorem onPaths_eq_map (paths : List (List Step)) (rest : Onward) :
    b.onPaths t paths rest = paths.map fun path =>
      (b.onPath t path rest).follow := by
  induction paths with
  | nil => rfl
  | cons path paths ih => rw [onPaths, ih, List.map_cons]

end Binder

/-! ## Identities as keys -/

/-- The rows of an entity have identities, each its own. -/
structure Database.Keyed (db : Database) (entity : Entity) : Prop where
  identity_notNull : ∀ row ∈ db.rows entity.tableName,
    (row entity.identity).isNull = false
  identity_equal_iff : ∀ row ∈ db.rows entity.tableName,
    ∀ row' ∈ db.rows entity.tableName,
    db.engine.equal (row entity.identity) (row' entity.identity) = true ↔
      row = row'

theorem Database.Keyed.test_eq_yes_iff {entity : Entity} (h : db.Keyed entity)
    {row row' : Row} (hrow : row ∈ db.rows entity.tableName)
    (hrow' : row' ∈ db.rows entity.tableName) :
    db.engine.test .eq (row entity.identity) (row' entity.identity) = .yes ↔
      row = row' := by
  simp [Engine.test, h.identity_notNull row hrow, h.identity_notNull row' hrow',
    h.identity_equal_iff row hrow row' hrow']

/-- From a row of its table, a path that starts with alternatives admits what
one of the paths admits that start with one of them. -/
theorem Binder.bind_alternatives_admits_iff {b : Binder} {t : Test}
    {entity : Entity} {paths : List Path} {rest : Path}
    (hseparator : b.naming.separator ≠ "")
    (hplain : Path.PlainThroughout (.alternatives paths :: rest))
    (hkeyed : db.Keyed entity) (root : String) {row : Row}
    (hrow : row ∈ db.rows entity.tableName) :
    (b.bind t (.alternatives paths :: rest) entity root).Admits db root row ↔
      ∃ path ∈ paths, (b.bind t (path ++ rest) entity root).Admits db
        root row := by
  have hclosed : (b.onPath t rest (.done t)).KeepsClosed :=
    onPath_keepsClosed rest Onward.done_keepsClosed
  have hrest : (b.onPath t rest (.done t)).Local db :=
    onPath_local hseparator rest hplain.2 Onward.done_keepsClosed
      Onward.done_local
  have hways := onPaths_local (t := t) hseparator paths hplain.1 hclosed hrest
  have hbranch :=
    branch_tells (b := b) (onPaths_keepsClosed paths hclosed) hways
  show (b.branch (b.onPaths t paths (b.onPath t rest (.done t))) entity root
    .empty).Admits db root row ↔ _
  rw [hbranch.admits_iff entity root row]
  simp only [bind, onPath_append, onPaths_eq_map, List.mem_map] at hways ⊢
  constructor
  · rintro ⟨_, ⟨path, hpath, rfl⟩, property, htells, found, hfound,
      hproperty, htest⟩
    obtain rfl := (hkeyed.test_eq_yes_iff hrow hfound).1 htest
    exact ⟨path, hpath, (htells.admits_iff entity root row).2 hproperty⟩
  · rintro ⟨path, hpath, hadmits⟩
    obtain ⟨property, htells⟩ := hways _ ⟨path, hpath, rfl⟩
    exact ⟨_, ⟨path, hpath, rfl⟩, property, htells, row, hrow,
      (htells.admits_iff entity root row).1 hadmits,
      (hkeyed.test_eq_yes_iff hrow hrow).2 rfl⟩

/-! ## Compilation -/

/-- For an operand with a value that a filter can carry, leaves compile with
every path.  A path that starts with alternatives then admits exactly the rows
that one of the paths admits which start with one of them. -/
theorem Compiler.select_alternatives {σ : Type} (c : Compiler σ) {actor : Value}
    {name : String} {entity : Entity} {op : Operator} {operand : Operand}
    {value : Value} {test : Test} {s s' : Session σ} {paths : List Path}
    {rest : Path} (hentity : c.evaluator.schema.entity? name = some entity)
    (hseparator : c.naming.separator ≠ "")
    (hplain : Path.PlainThroughout (.alternatives paths :: rest))
    (hvalue : Returns (c.evaluator.resolve actor operand) s value s')
    (haccepted : Test.of op value = .ok test) (hkeyed : db.Keyed entity) :
    ∃ select : Path → Select,
      (∀ path, Returns (c.select actor name (.leaf op path operand)) s
        (select path) s') ∧
        ∀ row ∈ db.rows entity.tableName,
          (select (.alternatives paths :: rest)).admits db row = true ↔
            ∃ path ∈ paths, (select (path ++ rest)).admits db row = true := by
  refine ⟨fun path => (c.binder.bind test path entity c.naming.root).applyTo
    (c.root entity),
    fun path => ?_, fun row hrow => ?_⟩
  · rw [select_returns_iff hentity]
    refine ⟨_, ?_, rfl⟩
    rw [fragment, leaf, returns_bind_iff]
    refine ⟨value, s', returns_adapt_iff.2 hvalue, ?_⟩
    rw [haccepted]
    exact returns_pure_iff.2 ⟨rfl, rfl⟩
  · have hbuilt (path : Path) :
        (c.binder.bind test path entity c.naming.root).Built c.naming.root :=
      (Binder.bind_closed path entity _).toBuilt
    simp only [admits_root_iff (hbuilt _)]
    exact Binder.bind_alternatives_admits_iff hseparator hplain hkeyed _ hrow

namespace Blog

/-- Two ways from a comment to its post, and one that stays at the comment. -/
def toPost : List Path :=
  [[.plain "post"], [.alternatives [[.self "comment", .plain "post"], []]]]

/-- The name of the author, which a post has and a comment has not. -/
def authorName : Path := [.plain "author", .plain "name"]

/-- A comment on the post 7, which the user 3 wrote. -/
def reply : Row := fun column =>
  if column = "id" then .int64 1 else if column = "post_id" then .int64 7
    else .null

/-- A storage with the comment, its post and the author. -/
def thread : Database where
  engine := .comparator
  rows table :=
    if table = "comment" then [reply]
    else if table = "post" then
      [fun column =>
        if column = "id" then .int64 7
          else if column = "author_id" then .int64 3 else .null]
    else if table = "user" then
      [fun column =>
        if column = "id" then .int64 3 else if column = "name" then .string "x"
          else .null]
    else []

theorem thread_keyed : thread.Keyed comment where
  identity_notNull row hrow := by
    rw [List.mem_singleton.1 hrow]
    rfl
  identity_equal_iff row hrow row' hrow' := by
    rw [List.mem_singleton.1 hrow, List.mem_singleton.1 hrow']
    refine iff_of_true ?_ rfl
    show (Value.int64 1).atomsEqual (.int64 1) = true
    simp [Value.atomsEqual, Value.same]

end Blog

open Blog in
theorem Compiler.select_alternatives_toPost :
    compiler.evaluator.schema.entity? "comment" = some comment ∧
      compiler.naming.separator ≠ "" ∧
      Path.PlainThroughout (.alternatives toPost :: authorName) ∧
      Returns (compiler.evaluator.resolve .null (.literal (.string "x")))
        (.start ()) (.string "x") (.start ()) ∧
      Test.of .eq (.string "x") = .ok ⟨.eq, .value (.string "x")⟩ ∧
      thread.Keyed comment ∧ ∃ select : Path → Select,
        (∀ path,
          Returns (compiler.select .null "comment"
            (.leaf .eq path (.literal (.string "x"))))
          (.start ()) (select path) (.start ())) ∧
        ∀ row ∈ thread.rows comment.tableName,
          (select (.alternatives toPost :: authorName)).admits thread
            row = true ↔
            ∃ path ∈ toPost, (select (path ++ authorName)).admits thread
              row = true := by
  have hplain : Path.PlainThroughout (.alternatives toPost :: authorName) := by
    simp [Path.PlainThroughout, PlainSteps, Step.PlainThroughout, PlainPaths,
      toPost, authorName, Step.plain]
  have hvalue : Returns
      (compiler.evaluator.resolve .null (.literal (.string "x"))) (.start ())
      (.string "x") (.start ()) := returns_pure_iff.2 ⟨rfl, rfl⟩
  exact ⟨rfl, by decide, hplain, hvalue, rfl, thread_keyed,
    Compiler.select_alternatives compiler rfl (by decide) hplain hvalue rfl
      thread_keyed⟩

end RowGuard
