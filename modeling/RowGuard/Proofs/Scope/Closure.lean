import RowGuard.Proofs.Policy.Restriction

/-!
# Every compiled query is closed

A query is closed if it mentions no alias before it is bound: every join hangs
off the root or an earlier join, every filter reads the root or a join, and the
selects of its subqueries are closed by themselves.

`Filter.aliases` stops at a subquery, and so does `Fragment.Built`.  Subqueries
come from alternatives, each way of which is bound from an alias of its own.
`Binder.onPath_keepsClosed` is therefore an induction on paths within paths.  It
needs nothing about aliases, so overridden ones are no exception.
-/

namespace RowGuard

/-! ## Closed queries -/

mutual

/-- The subqueries of a filter, at any depth of `and` and `or`. -/
def Filter.subqueries : Filter → List Compound
  | .comparison .. => []
  | .emptySet => []
  | .and parts => filterSubqueries parts
  | .or parts => filterSubqueries parts
  | .inSubquery _ _ query => [query]

/-- The subqueries of several filters. -/
def filterSubqueries : List Filter → List Compound
  | [] => []
  | part :: parts => part.subqueries ++ filterSubqueries parts

end

theorem mem_filterSubqueries {query : Compound} {parts : List Filter} :
    query ∈ filterSubqueries parts ↔
      ∃ part ∈ parts, query ∈ part.subqueries := by
  induction parts with
  | nil => simp [filterSubqueries]
  | cons part parts ih => simp [filterSubqueries, ih]

/-- Every join of a select hangs off its root or an earlier join, its filter
reads bound aliases, and so it is in the selects of its subqueries. -/
inductive Select.Closed : Select → Prop where
  | intro {s : Select} (rooted : Rooted [s.aliasName] s.joins)
      (bound : ∀ filter ∈ s.filter, ∀ x ∈ filter.aliases,
        x ∈ s.aliasName :: s.joins.map Join.aliasName)
      (members : ∀ filter ∈ s.filter, ∀ query ∈ filter.subqueries,
        ∀ member ∈ query.members, member.Closed) :
      s.Closed

/-- The selects of all subqueries are closed. -/
def Filter.MembersClosed (filter : Filter) : Prop :=
  ∀ query ∈ filter.subqueries, ∀ member ∈ query.members, member.Closed

/-- A fragment is built on the root, and the selects of its subqueries are
closed. -/
structure Fragment.Closed (root : String) (f : Fragment) :
    Prop extends f.Built root where
  members : ∀ filter ∈ f.filters, filter.MembersClosed

/-- What a select yields has no part in whether it is closed. -/
theorem Select.Closed.project {s : Select} (h : s.Closed)
    (projection : Projection) :
    Select.Closed { s with projection } := by
  obtain ⟨rooted, bound, members⟩ := h
  exact ⟨rooted, bound, members⟩

/-! ## The subqueries of combined filters -/

namespace Filter.MembersClosed

variable {combination : Combination} {parts : List Filter} {filter : Filter}

theorem emptySet : Filter.emptySet.MembersClosed :=
  fun _ h => (List.not_mem_nil h).elim

theorem ofParts (h : ∀ part ∈ parts, part.MembersClosed) :
    (Filter.ofParts combination parts).MembersClosed := by
  intro query hquery
  have hparts : query ∈ filterSubqueries parts := by
    cases combination <;> exact hquery
  obtain ⟨part, hpart, hquery⟩ := mem_filterSubqueries.1 hparts
  exact h part hpart query hquery

theorem of_mem_parts (h : filter.MembersClosed) {part : Filter}
    (hpart : part ∈ filter.parts combination) : part.MembersClosed := by
  cases combination <;> cases filter
  case all.and | any.or =>
    exact fun query hquery =>
      h query (mem_filterSubqueries.2 ⟨part, hpart, hquery⟩)
  all_goals
    rw [List.mem_singleton.1 hpart]
    exact h

theorem predicate {f : Fragment}
    (h : ∀ filter ∈ f.filters, filter.MembersClosed) :
    f.predicate.MembersClosed := by
  rw [Fragment.predicate]
  split
  · next single hsingle => exact h single (by simp [hsingle])
  · show (Filter.ofParts .all f.filters).MembersClosed
    exact ofParts h

end Filter.MembersClosed

theorem FilterValue.membersClosed_filter {value : FilterValue}
    {aliasName column : String} {op : Operator} :
    (value.filter aliasName column op).MembersClosed := by
  intro query hquery
  cases value with
  | empty =>
    rw [FilterValue.filter] at hquery
    split at hquery <;>
      simp [Filter.always, Filter.subqueries, filterSubqueries] at hquery
  | _ => simp [FilterValue.filter, Filter.subqueries] at hquery

/-! ## What keeps a fragment closed -/

namespace Fragment.Closed

variable {root : String} {f g : Fragment}

theorem empty : Fragment.empty.Closed root :=
  ⟨.empty, by simp [Fragment.empty]⟩

theorem emptySet : Fragment.emptySet.Closed root :=
  ⟨.emptySet, by simpa [Fragment.emptySet] using Filter.MembersClosed.emptySet⟩

theorem join (h : f.Closed root) {j : Join}
    (hparent : j.parentAlias ∈ root :: f.joins.map Join.aliasName) :
    (f.join j).Closed root :=
  ⟨h.toBuilt.join hparent, h.members⟩

theorem filter (h : f.Closed root) {condition : Filter}
    (hbound : ∀ x ∈ condition.aliases, x ∈ root :: f.joins.map Join.aliasName)
    (hmembers : condition.MembersClosed) :
    (f.filter condition).Closed root := by
  refine ⟨h.toBuilt.filter hbound, fun other hother => ?_⟩
  rcases List.mem_append.1 hother with hother | hother
  · exact h.members other hother
  · rw [List.mem_singleton.1 hother]
    exact hmembers

theorem merge (hf : f.Closed root) (hg : g.Closed root)
    (combination : Combination) :
    (f.merge combination g).Closed root := by
  refine ⟨hf.toBuilt.merge hg.toBuilt combination, fun other hother => ?_⟩
  rw [show other = _ from List.mem_singleton.1 hother]
  refine .ofParts fun part hpart => ?_
  rcases List.mem_append.1 hpart with hpart | hpart
  · exact (Filter.MembersClosed.predicate hf.members).of_mem_parts hpart
  · exact (Filter.MembersClosed.predicate hg.members).of_mem_parts hpart

/-- The select of a closed fragment is closed. -/
theorem applyTo (h : f.Closed root) (entity : Entity) :
    (f.applyTo (.fromEntity entity root)).Closed := by
  have hjoins : mergeJoins [] f.joins = f.joins := mergeJoins_of_once h.once
  refine .intro ?_ ?_ ?_
  · show Rooted [root] (mergeJoins [] f.joins)
    exact hjoins.symm ▸ h.rooted
  · rintro _ ⟨⟩ x hx
    show x ∈ root :: (mergeJoins [] f.joins).map Join.aliasName
    rw [hjoins]
    exact h.toBuilt.aliases_predicate_bound hx
  · rintro _ ⟨⟩
    exact Filter.MembersClosed.predicate h.members

end Fragment.Closed

/-! ## Binding a path -/

namespace Binder

variable {b : Binder} {t : Test}

/-- The growth keeps fragments closed when it starts at a bound alias. -/
def Growth.KeepsClosed (g : Growth) : Prop :=
  ∀ (root : String) (entity : Entity) (aliasName : String) (f : Fragment),
    f.Closed root →
    aliasName ∈ root :: f.joins.map Join.aliasName →
    (g entity aliasName f).Closed root

/-- The rest of a path keeps fragments closed. -/
structure Onward.KeepsClosed (rest : Onward) : Prop where
  follow : rest.follow.KeepsClosed
  ascend : rest.ascend.KeepsClosed

theorem deny_keepsClosed : Growth.KeepsClosed deny := fun _ _ _ _ hf _ =>
  hf.filter (by simp [Filter.aliases]) .emptySet

theorem test_keepsClosed (column : Entity → String) :
    Growth.KeepsClosed fun entity aliasName f =>
      f.filter (t.filter aliasName (column entity)) :=
  fun _ _ _ _ hf hbound =>
    hf.filter (fun x hx => FilterValue.aliases_filter x hx ▸ hbound)
      FilterValue.membersClosed_filter

theorem Onward.done_keepsClosed : (Onward.done t).KeepsClosed :=
  ⟨test_keepsClosed Entity.identity, test_keepsClosed Entity.identity⟩

/-- A growth that joins a relation first goes on from the alias of the join. -/
theorem Growth.KeepsClosed.of_join {next : Growth} (hnext : next.KeepsClosed)
    {root : String} {entity target : Entity} {aliasName name : String}
    {j : Join} {f : Fragment} (hf : f.Closed root)
    (hbound : aliasName ∈ root :: f.joins.map Join.aliasName)
    (hjoin : b.RelationJoin entity aliasName name target j) :
    (next target j.aliasName (f.join j)).Closed root := by
  refine hnext root target j.aliasName _ (hf.join ?_)
    (List.mem_cons_of_mem _ ?_)
  · exact hjoin.parentAlias_eq ▸ hbound
  · exact mem_aliases_insertJoin.2 (.inr rfl)

theorem step_keepsClosed {name : String} {given : Option String} {isEnd : Bool}
    {next : Growth} (hnext : next.KeepsClosed) :
    (b.step t name given isEnd next).KeepsClosed := by
  intro root entity aliasName f hf hbound
  unfold Binder.step
  split
  next column _ =>
    split
    · exact test_keepsClosed (fun _ => column) root entity aliasName f hf hbound
    · exact deny_keepsClosed root entity aliasName f hf hbound
  next key parent optional hfield =>
    split
    · exact test_keepsClosed (fun _ => key) root entity aliasName f hf hbound
    · exact hnext.of_join hf hbound (.parent _ hfield)
  next child inverse key hfield =>
    exact hnext.of_join hf hbound (.children _ hfield)
  next =>
    split
    · exact hnext root entity aliasName f hf hbound
    · exact deny_keepsClosed root entity aliasName f hf hbound

theorem steps_keepsClosed {goal : String} {given : Option String}
    {rest : Onward} (hrest : rest.KeepsClosed) :
    ∀ names, (b.steps t goal given rest names).KeepsClosed
  | [] => hrest.follow
  | [_] => step_keepsClosed hrest.follow
  | _ :: next :: names =>
    step_keepsClosed (steps_keepsClosed hrest (next :: names))

theorem climb_keepsClosed {name : String} {given : Option String}
    {rest : Onward} (hrest : rest.KeepsClosed) :
    (b.climb t name given rest).KeepsClosed := by
  intro root entity aliasName f hf hbound
  unfold Binder.climb
  split
  · exact steps_keepsClosed hrest _ root entity aliasName f hf hbound
  · exact deny_keepsClosed root entity aliasName f hf hbound

/-- Each way starts at the root of its own select, which is bound there whatever
its name is. -/
theorem branch_keepsClosed {ways : List Growth}
    (hways : ∀ way ∈ ways, way.KeepsClosed) :
    (b.branch ways).KeepsClosed := by
  intro root entity aliasName f hf hbound
  unfold Binder.branch combineSelects
  dsimp only
  split
  · next query hquery =>
    split at hquery
    · cases hquery
    · obtain rfl := Option.some.inj hquery
      refine hf.filter (by simpa [Filter.aliases] using hbound)
        fun query hquery => ?_
      rw [List.mem_singleton.1 hquery]
      intro member hmember
      simp only [Compound.ofSelects, List.mem_map, List.mem_zipIdx_iff_getElem?]
        at hmember
      obtain ⟨_, ⟨⟨way, index⟩, hway, rfl⟩, rfl⟩ := hmember
      have hclosed := hways way (List.mem_of_getElem? hway)
      refine (Fragment.Closed.applyTo ?_ entity).project _
      exact hclosed _ entity _ .empty .empty (List.mem_cons_self ..)
  · exact deny_keepsClosed root entity aliasName f hf hbound

mutual

theorem onStep_keepsClosed : ∀ (step : Step) {rest : Onward}, rest.KeepsClosed →
    (b.onStep t step rest).KeepsClosed
  | .field _ _, _, hrest =>
    ⟨step_keepsClosed hrest.follow, climb_keepsClosed hrest⟩
  | .wildcard, _, hrest => ⟨hrest.ascend, deny_keepsClosed⟩
  | .self name, rest, hrest => by
    refine ⟨fun root entity aliasName f hf hbound => ?_, deny_keepsClosed⟩
    unfold Binder.onStep
    dsimp only
    split
    · exact hrest.follow root entity aliasName f hf hbound
    · exact deny_keepsClosed root entity aliasName f hf hbound
  | .alternatives paths, _, hrest =>
    ⟨branch_keepsClosed (onPaths_keepsClosed paths hrest), deny_keepsClosed⟩

/-- Binding a path keeps fragments closed, with alternatives at any depth. -/
theorem onPath_keepsClosed :
    ∀ (path : List Step) {rest : Onward}, rest.KeepsClosed →
    (b.onPath t path rest).KeepsClosed
  | [], _, hrest => hrest
  | step :: path, _, hrest =>
    onStep_keepsClosed step (onPath_keepsClosed path hrest)

theorem onPaths_keepsClosed :
    ∀ (paths : List (List Step)) {rest : Onward}, rest.KeepsClosed →
    ∀ way ∈ b.onPaths t paths rest, way.KeepsClosed
  | [], _, _ => fun _ h => (List.not_mem_nil h).elim
  | path :: paths, _, hrest =>
    List.forall_mem_cons.2 ⟨(onPath_keepsClosed path hrest).follow,
      onPaths_keepsClosed paths hrest⟩

end

theorem bind_closed (path : Path) (entity : Entity) (root : String) :
    (b.bind t path entity root).Closed root :=
  (onPath_keepsClosed path Onward.done_keepsClosed).follow root entity root
    .empty .empty (List.mem_cons_self ..)

end Binder

/-! ## Compilation -/

/-- What an expression compiles to is closed on the root, and so is the scope of
a set of policies. -/
theorem Compiler.compiled_closed {σ : Type} (c : Compiler σ) (actor : Value)
    (name : String) {s s' : Session σ} {f : Fragment} :
    (∀ e, Returns (c.compile actor name e) s f s' → f.Closed c.naming.root) ∧
      ∀ set action, Returns (PolicySet.scope set c actor name action) s f s' →
        f.Closed c.naming.root := by
  have hmerge : ∀ (f g : Fragment) (combination : Combination),
      f.Closed c.naming.root →
      g.Closed c.naming.root → (f.merge combination g).Closed c.naming.root :=
    fun _ _ combination hf hg => hf.merge hg combination
  refine ⟨fun e h => ?_, fun set action h => ?_⟩
  · simp only [Compiler.compile, returns_bind_iff] at h
    obtain ⟨entity, _, -, hf⟩ := h
    exact fragment_induction .emptySet hmerge e
      (fun path _ _ => Binder.bind_closed path entity _) hf
  · exact PolicySet.scope_induction .emptySet hmerge
      (fun _ _ _ path _ entity _ t => Binder.bind_closed path entity _) h

namespace Blog

/-- The post is called `p`, and one of three ways leads from there to a column:
by its author, by the post itself, and by a title, which it does not have. -/
def authorSomehow (value : Value) : Expression :=
  .leaf .eq
    [.field "post" (some "p"),
      .alternatives
        [[.plain "author", .plain "name"],
          [.alternatives [[.plain "post", .plain "author", .plain "name"],
            [.plain "title"]]]]]
    (.literal value)

/-- A way of `authorSomehow` that joins the author. -/
def authorWay (root : String) (value : Value) : Select where
  entity := "post"
  table := "post"
  aliasName := root
  identity := "id"
  projection := .identity
  distinct := true
  joins :=
    [⟨.inner, "user", "user", root ++ "__author", "id", root, "author_id"⟩]
  filter := some (.comparison (root ++ "__author") "name" .eq value)

/-- A way of `authorSomehow` without joins. -/
def bareWay (root : String) (filter : Filter) : Select where
  entity := "post"
  table := "post"
  aliasName := root
  identity := "id"
  projection := .identity
  distinct := true
  joins := []
  filter := some filter

/-- Whether the post of a comment is among those that some way of
`authorSomehow` finds. -/
def somehowFilter (value : Value) : Filter :=
  .inSubquery "p" "id" ⟨.any,
    [authorWay "p__alt0" value,
      bareWay "p__alt1" (.inSubquery "p__alt1" "id" ⟨.any,
        [authorWay "p__alt1__alt0" value, bareWay "p__alt1__alt1" .emptySet]⟩)]⟩

/-- The join of a post under the alias `p`. -/
def postJoin : Join := ⟨.left, "post", "post", "p", "id", "root", "post_id"⟩

/-- Admits the comments with the body `y`, and refuses those without the author
`x`. -/
def somehowPolicies : PolicySet :=
  ⟨[⟨"y", "comment", "*", .permissive, body .eq (.string "y")⟩,
    ⟨"somehow", "comment", "view", .restrictive, authorSomehow (.string "x")⟩]⟩

theorem authorSomehow_returns :
    Returns (compiler.compile .null "comment" (authorSomehow (.string "x")))
      (.start ()) ⟨[postJoin], [somehowFilter (.string "x")]⟩ (.start ()) := rfl

theorem somehowPolicies_returns :
    Returns (somehowPolicies.scope compiler .null "comment" "view") (.start ())
      ⟨[postJoin],
        [.and [.comparison "root" "body" .eq (.string "y"),
          somehowFilter (.string "x")]]⟩
      (.start ()) := rfl

end Blog

open Blog in
theorem Compiler.compiled_closed_authorSomehow :
    Returns (compiler.compile .null "comment" (authorSomehow (.string "x")))
      (.start ())
        ⟨[postJoin], [somehowFilter (.string "x")]⟩ (.start ()) ∧
      Fragment.Closed "root" ⟨[postJoin], [somehowFilter (.string "x")]⟩ ∧
      Returns (somehowPolicies.scope compiler .null "comment" "view")
        (.start ()) ⟨[postJoin],
          [.and [.comparison "root" "body" .eq (.string "y"),
            somehowFilter (.string "x")]]⟩
        (.start ()) ∧
      Fragment.Closed "root"
        ⟨[postJoin],
          [.and [.comparison "root" "body" .eq (.string "y"),
            somehowFilter (.string "x")]]⟩ :=
  ⟨authorSomehow_returns,
    (Compiler.compiled_closed compiler .null "comment").1
      _ authorSomehow_returns,
    somehowPolicies_returns,
    (Compiler.compiled_closed compiler .null "comment").2 _ _
      somehowPolicies_returns⟩

end RowGuard
