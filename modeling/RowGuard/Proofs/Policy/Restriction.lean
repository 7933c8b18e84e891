import RowGuard.Policy
import RowGuard.Proofs.Scope.Compilation

/-!
# What one more restrictive policy does to a query

`PolicySet.fragments` is the first half of `PolicySet.scope`: what the policies
compile to, before it is combined.  The joins of all policies are merged, and a
join that one of them has as a left join becomes a left join for all.  So a
further restrictive policy may turn an inner join into a left join, and the
filters of the other policies then see rows without a match.
`PolicySet.restrict_sound_iff` says that this is the only way in which it can
reveal a row.
-/

namespace RowGuard

namespace PolicySet

variable {σ : Type} {c : Compiler σ} {actor : Value} {name action : String}
  {s s' : Session σ}

/-! ## The fragments of a set of policies -/

/-- What the permissive and the restrictive policies compile to.  Without a
permissive one nothing else is compiled. -/
def fragments (set : PolicySet) (c : Compiler σ) (actor : Value)
    (entity action : String) :
    ScopeM σ (List Fragment × List Fragment) := do
  let permissive ← compileEach c actor entity
    (set.applicable .permissive entity action)
  if permissive.isEmpty then return ([], [])
  else
    let restrictive ←
      compileEach c actor entity (set.applicable .restrictive entity action)
    return (permissive, restrictive)

/-- The fragment of a set of policies, given what these compile to. -/
def combined (permissive restrictive : List Fragment) : Fragment :=
  match combineFragments .any (permissive.map some) with
  | none => .emptySet
  | some admitted => Compiler.combine .all (admitted :: restrictive)

theorem combineFragments_eq_none_iff {combination : Combination}
    {fs : List Fragment} :
    combineFragments combination (fs.map some) = none ↔ fs = [] := by
  cases fs with
  | nil => simp [combineFragments]
  | cons f fs =>
    obtain ⟨d, hd, -⟩ : ∃ d, combineFragments combination ((f :: fs).map some) =
        some d ∧ True :=
      combineFragments_induction (motive := fun _ _ => True)
        (List.cons_ne_nil f fs)
        (fun _ _ => trivial) (fun _ _ _ _ _ _ => trivial)
        fun _ _ _ _ _ _ => trivial
    rw [hd]
    simp

/-- A scope combines what the policies compile to. -/
theorem scope_eq (set : PolicySet) (c : Compiler σ) (actor : Value)
    (entity action : String) :
    set.scope c actor entity action =
      set.fragments c actor entity action >>= fun (ps, rs) =>
        pure (combined ps rs) := by
  simp only [scope, fragments, bind_assoc]
  refine bind_congr fun ps => ?_
  cases hcombined : combineFragments .any (ps.map some) with
  | none =>
    rw [combineFragments_eq_none_iff] at hcombined
    simp [hcombined, combined, combineFragments]
  | some admitted =>
    have hne : ps ≠ [] :=
      fun heq => by simp [heq, combineFragments] at hcombined
    rw [if_neg (by simpa using hne)]
    simp only [bind_assoc, pure_bind, combined, hcombined]

theorem select_returns {set : PolicySet} {ps rs : List Fragment}
    {entity : Entity} (hentity : c.evaluator.schema.entity? name = some entity)
    (h : Returns (set.fragments c actor name action) s (ps, rs) s') :
    Returns (set.select c actor name action) s
      ((combined ps rs).applyTo (c.root entity)) s' := by
  simp only [PolicySet.select, scope_eq, bind_assoc, pure_bind,
    returns_bind_iff, returns_pure_iff]
  exact ⟨(ps, rs), s', h, entity, s',
    Compiler.require_returns_iff.2 ⟨hentity, rfl⟩, rfl, rfl⟩

section

variable {P : Fragment → Prop}

/-- What holds of the bound paths of policies, of the fragment that matches no
row and of merges holds of what each policy compiles to. -/
theorem compileEach_induction (emptySet : P .emptySet)
    (merge : ∀ f g combination, P f → P g → P (f.merge combination g))
    {policies : List Policy}
    (hbind : ∀ p ∈ policies, ∀ path ∈ p.expression.properties, ∀ entity,
      c.evaluator.schema.entity? name = some entity →
        ∀ t, P (c.binder.bind t path entity c.naming.root)) {fs : List Fragment}
    (h : Returns (compileEach c actor name policies) s fs s') :
    ∀ f ∈ fs, P f := by
  induction policies generalizing fs s with
  | nil =>
    simp only [compileEach, returns_pure_iff] at h
    simp [← h.1]
  | cons p policies ih =>
    rw [List.forall_mem_cons] at hbind
    simp only [compileEach, Compiler.compile, bind_assoc, returns_bind_iff,
      returns_pure_iff] at h
    obtain ⟨entity, _, hentity, f, _, hf, rest, _, hrest, rfl, rfl⟩ := h
    rw [Compiler.require_returns_iff] at hentity
    refine List.forall_mem_cons.2 ⟨?_, ih hbind.2 hrest⟩
    exact Compiler.fragment_induction emptySet merge _
      (fun path hpath => hbind.1 path hpath entity hentity.1) hf

/-- The same for the policies of a set that apply. -/
theorem fragments_induction (emptySet : P .emptySet)
    (merge : ∀ f g combination, P f → P g → P (f.merge combination g))
    {set : PolicySet}
    (hbind : ∀ p ∈ set.policies, p.appliesTo name action = true →
      ∀ path ∈ p.expression.properties, ∀ entity,
        c.evaluator.schema.entity? name = some entity →
          ∀ t, P (c.binder.bind t path entity c.naming.root))
          {ps rs : List Fragment}
    (h : Returns (set.fragments c actor name action) s (ps, rs) s') :
    ∀ f ∈ ps ++ rs, P f := by
  have happlicable : ∀ kind, ∀ p ∈ set.applicable kind name action,
      ∀ path ∈ p.expression.properties, ∀ entity,
        c.evaluator.schema.entity? name = some entity →
          ∀ t, P (c.binder.bind t path entity c.naming.root) := by
    intro kind p hp
    rw [applicable, List.mem_filter, Bool.and_eq_true] at hp
    exact hbind p hp.1 hp.2.2
  simp only [fragments, returns_bind_iff] at h
  obtain ⟨ps', t, hps, h⟩ := h
  have hps' :=
    compileEach_induction emptySet merge (happlicable .permissive) hps
  split at h
  · simp only [returns_pure_iff, Prod.mk.injEq] at h
    obtain ⟨⟨rfl, rfl⟩, rfl⟩ := h
    simp
  · simp only [returns_bind_iff, returns_pure_iff, Prod.mk.injEq] at h
    obtain ⟨rs', t', hrs, ⟨rfl, rfl⟩, rfl⟩ := h
    have hrs' :=
      compileEach_induction emptySet merge (happlicable .restrictive) hrs
    exact List.forall_mem_append.2 ⟨hps', hrs'⟩

/-- What holds of fragments and is kept by merges holds of their combination. -/
theorem combined_induction (emptySet : P .emptySet)
    (merge : ∀ f g combination, P f → P g → P (f.merge combination g))
    {ps rs : List Fragment} (hfs : ∀ f ∈ ps ++ rs, P f) :
    P (combined ps rs) := by
  obtain ⟨hps, hrs⟩ := List.forall_mem_append.1 hfs
  rw [combined]
  split
  · exact emptySet
  · next admitted hadmitted =>
    have hany := Compiler.combine_induction emptySet merge hps .any
    rw [Compiler.combine, hadmitted, Option.getD_some] at hany
    exact Compiler.combine_induction emptySet merge
      (List.forall_mem_cons.2 ⟨hany, hrs⟩) .all

/-- What holds of bound paths and is kept by merges holds of the scope of a set
of policies. -/
theorem scope_induction (emptySet : P .emptySet)
    (merge : ∀ f g combination, P f → P g → P (f.merge combination g))
    {set : PolicySet}
    (hbind : ∀ p ∈ set.policies, p.appliesTo name action = true →
      ∀ path ∈ p.expression.properties, ∀ entity,
        c.evaluator.schema.entity? name = some entity →
          ∀ t, P (c.binder.bind t path entity c.naming.root)) {f : Fragment}
    (h : Returns (set.scope c actor name action) s f s') : P f := by
  rw [scope_eq, returns_bind_iff] at h
  obtain ⟨⟨ps, rs⟩, _, hfs, h⟩ := h
  obtain ⟨rfl, -⟩ := returns_pure_iff.1 h
  exact combined_induction emptySet merge
    (fragments_induction emptySet merge hbind hfs)

end

/-- What policies without alias overrides compile to. -/
theorem fragments_compiled {set : PolicySet} {ps rs : List Fragment}
    (hnames : c.binder.Names)
    (hplain : ∀ p ∈ set.policies, p.appliesTo name action = true →
      p.expression.Plain) (h : Returns (set.fragments c actor name action) s
      (ps, rs) s') :
    ∀ f ∈ ps ++ rs, f.Compiled true c.naming.root := by
  refine fragments_induction .emptySet
    (fun _ _ combination hf hg => hf.merge hg combination)
    (fun p hp happlies path hpath entity hentity => ?_) h
  exact Compiler.bind_compiled (Schema.entity?_mem hentity) (fun _ => hnames)
    fun _ => hplain p hp happlies path hpath

/-! ## The combination of the policies -/

variable {db : Database} {root : String} {ps rs : List Fragment}

/-- Policies combine to the conjunction of the restrictive ones with the `any`
of the permissive ones. -/
theorem combined_conjunction (db : Database) (hps : ps ≠ [])
    (hcompiled : ∀ f ∈ ps ++ rs, f.Compiled true root)
    (hu : Unambiguous ((ps ++ rs).flatMap Fragment.joins)) :
    ∃ d, combineFragments .any (ps.map some) = some d ∧
      Conjunction db root (d :: rs) (combined ps rs) ∧
      Mergeable root (d :: rs) := by
  obtain ⟨hpermissive, hrestrictive⟩ := List.forall_mem_append.1 hcompiled
  obtain ⟨d, hcombined, hd⟩ :=
    combineFragments_any db hps fun f hf => (hpermissive f hf).toBuilt
  have hbuilt : ∀ f ∈ d :: rs, f.Built root :=
    List.forall_mem_cons.2 ⟨hd.built, fun f hf => (hrestrictive f hf).toBuilt⟩
  -- the joins of the `any` are those of the permissive policies, up to their
  -- kinds
  have hsource : ∀ m ∈ (d :: rs).flatMap Fragment.joins,
      ∃ j ∈ (ps ++ rs).flatMap Fragment.joins, j.sameBinding m = true := by
    intro m hm
    rw [List.flatMap_cons, List.mem_append] at hm
    rw [List.flatMap_append]
    rcases hm with hm | hm
    · obtain ⟨j, hj, hjm⟩ := hd.merged.source m hm
      obtain ⟨i, hi, hij⟩ := exists_of_mem_branchJoins hj
      exact ⟨i, List.mem_append_left _ hi, Join.sameBinding_trans hij hjm⟩
    · exact ⟨m, List.mem_append_right _ hm, m.sameBinding_refl⟩
  have hfree : ∀ j ∈ (ps ++ rs).flatMap Fragment.joins, j.aliasName ≠ root := by
    intro j hj
    obtain ⟨f, hf, hj⟩ := List.mem_flatMap.1 hj
    exact (hcompiled f hf).root_free j hj
  obtain ⟨e, he, hconjunction⟩ :=
    combineFragments_all db (List.cons_ne_nil d rs) hbuilt
  refine ⟨d, hcombined, ?_, hbuilt, hu.of_source hsource,
    aliasName_ne_of_source hfree hsource⟩
  rw [combined, hcombined]
  dsimp only
  rw [Compiler.combine, he, Option.getD_some]
  exact hconjunction

/-- A combination of policies admits what one of more restrictive policies
admits, if an assignment for the latter finds a row for every inner join of the
former. -/
theorem combined_admits_of_matched {rs' : List Fragment} (hps : ps ≠ [])
    (hcompiled : ∀ f ∈ ps ++ rs, f.Compiled true root)
    (hcompiled' : ∀ f ∈ ps ++ rs', f.Compiled true root)
    (hu : Unambiguous ((ps ++ rs).flatMap Fragment.joins))
    (hu' : Unambiguous ((ps ++ rs').flatMap Fragment.joins)) (hsub : rs ⊆ rs')
    {row : Row} {a : Assignment}
    (ha : a ∈ assignments db (combined ps rs').joins (.start root row))
    (holds : (combined ps rs').predicate.truth db a = .yes)
    (hmatched : ∀ j ∈ (combined ps rs).joins, j.kind = .inner →
      j.found db a ≠ []) :
    (combined ps rs).Admits db root row := by
  obtain ⟨d, hd, he, hmergeable⟩ := combined_conjunction db hps hcompiled hu
  obtain ⟨d', hd', he', hmergeable'⟩ :=
    combined_conjunction db hps hcompiled' hu'
  obtain rfl : d = d' := Option.some.inj (hd.symm.trans hd')
  have hscoped' := he'.wellScoped hmergeable'
  have hsolved' : (combined ps rs').SolvedBy db a :=
    ⟨(hscoped'.mem_assignments_iff.1 ha).2, holds⟩
  have hsolved : (combined ps rs).SolvedBy db a :=
    he.solvedBy_of_subset he' (List.cons_subset_cons d hsub) hsolved' hmatched
  exact (Fragment.admits_iff_solved (he.wellScoped hmergeable)).2
    ⟨a, hscoped'.root_eq_of_mem ha, hsolved⟩

theorem combined_built (hcompiled : ∀ f ∈ ps ++ rs, f.Compiled true root) :
    (combined ps rs).Built root :=
  combined_induction .emptySet
    (fun _ _ combination hf hg => hf.merge hg combination)
    fun f hf => (hcompiled f hf).toBuilt

/-! ## One more restrictive policy -/

/-- A further restrictive policy leaves the permissive ones as they are. -/
theorem applicable_permissive_insert {front back : List Policy} {q : Policy}
    (hq : q.kind = .restrictive) :
    applicable ⟨front ++ q :: back⟩ .permissive name action =
      applicable ⟨front ++ back⟩ .permissive name action := by
  simp [applicable, hq]

/-- With and without a further restrictive policy the permissive ones compile to
the same. -/
theorem fragments_insert {front back : List Policy} {q : Policy}
    (hq : q.kind = .restrictive) {ps ps' rs rs' : List Fragment}
    {t t' : Session σ}
    (h : Returns (fragments ⟨front ++ back⟩ c actor name action) s (ps, rs) t)
    (h' : Returns (fragments ⟨front ++ q :: back⟩ c actor name action) s
      (ps', rs') t') :
    ps' = ps := by
  simp only [fragments, returns_bind_iff] at h h'
  rw [applicable_permissive_insert hq] at h'
  obtain ⟨qs, u, hqs, h⟩ := h
  obtain ⟨qs', u', hqs', h'⟩ := h'
  obtain ⟨rfl, rfl⟩ := hqs.unique hqs'
  split at h
  · next hempty =>
    rw [if_pos hempty] at h'
    simp only [returns_pure_iff, Prod.mk.injEq] at h h'
    rw [← h.1.1, ← h'.1.1]
  · next hne =>
    rw [if_neg hne] at h'
    simp only [returns_bind_iff, returns_pure_iff, Prod.mk.injEq] at h h'
    obtain ⟨_, _, _, ⟨rfl, _⟩, _⟩ := h
    obtain ⟨_, _, _, ⟨rfl, _⟩, _⟩ := h'
    rfl

/-- A restrictive policy that is added to others reveals no row, exactly if it
reveals none through an inner join of the others that has no match.  If what the
others compile to depends on the new one, a row has to be looked at, too. -/
theorem restrict_sound_iff (front back : List Policy) {q : Policy}
    (hq : q.kind = .restrictive) {entity : Entity}
    (hentity : c.evaluator.schema.entity? name = some entity)
    (hnames : c.binder.Names)
    (hplain : ∀ p ∈ front ++ q :: back, p.appliesTo name action = true →
      p.expression.Plain) {ps ps' rs rs' : List Fragment} {t t' : Session σ}
    (h : Returns (fragments ⟨front ++ back⟩ c actor name action) s (ps, rs) t)
    (h' : Returns (fragments ⟨front ++ q :: back⟩ c actor name action) s
      (ps', rs') t')
    (hu : Unambiguous ((ps ++ rs).flatMap Fragment.joins))
    (hu' : Unambiguous ((ps' ++ rs').flatMap Fragment.joins)) (db : Database) :
    ∃ select select',
      Returns (PolicySet.select ⟨front ++ back⟩ c actor name action)
        s select t ∧
      Returns (PolicySet.select ⟨front ++ q :: back⟩ c actor name action) s
        select' t' ∧
      ((∀ row ∈ db.rows entity.tableName,
          select'.admits db row = true → select.admits db row = true) ↔
        ∀ row ∈ db.rows entity.tableName,
          ∀ a ∈ assignments db select'.joins (.start c.naming.root row),
            optionalTruth db select'.filter a = .yes →
            (¬ rs ⊆ rs' ∨ ∃ j ∈ select.joins, j.kind = .inner ∧
              j.found db a = []) →
            select.admits db row = true) := by
  obtain rfl : ps' = ps := fragments_insert hq h h'
  have hplain' : ∀ p ∈ front ++ back, p.appliesTo name action = true →
      p.expression.Plain := by
    intro p hp
    refine hplain p ?_
    rcases List.mem_append.1 hp with hp | hp
    · exact List.mem_append_left _ hp
    · exact List.mem_append_right _ (List.mem_cons_of_mem _ hp)
  have hcompiled := fragments_compiled hnames hplain' h
  have hcompiled' := fragments_compiled hnames hplain h'
  have hjoins : mergeJoins [] (combined ps' rs).joins =
      (combined ps' rs).joins :=
    mergeJoins_of_once (combined_built hcompiled).once
  have hjoins' : mergeJoins [] (combined ps' rs').joins =
      (combined ps' rs').joins :=
    mergeJoins_of_once (combined_built hcompiled').once
  refine ⟨_, _, select_returns hentity h, select_returns hentity h', ?_⟩
  constructor
  · intro hsound row hrow a ha holds _
    exact hsound row hrow (Select.admits_iff.2 ⟨a, ha, holds⟩)
  · intro hunmatched row hrow hadmits
    obtain ⟨a, ha, holds⟩ := Select.admits_iff.1 hadmits
    by_cases hps : ps' = []
    · subst hps
      exact hadmits
    by_cases hcase : ¬ rs ⊆ rs' ∨
      ∃ j ∈ ((combined ps' rs).applyTo (c.root entity)).joins,
        j.kind = .inner ∧ j.found db a = []
    · exact hunmatched row hrow a ha holds hcase
    -- every inner join of the others finds a row under the same assignment
    · simp only [not_or, not_not, not_exists, not_and] at hcase
      obtain ⟨hsub, hmatched⟩ := hcase
      refine (Compiler.admits_root_iff (combined_built hcompiled)).2 ?_
      refine combined_admits_of_matched hps hcompiled hcompiled' hu hu' hsub
        (hjoins' ▸ ha) holds fun j hj => hmatched j ?_
      show j ∈ mergeJoins [] _
      rw [hjoins]
      exact hj

end PolicySet

namespace Blog

/-- Admits the comments on posts by authors without a name. -/
def unnamedPolicy : Policy :=
  ⟨"unnamed", "comment", "view", .permissive, author .eq .null⟩

/-- Refuses the comments with the body `z`, unless they are on a post by `x`. -/
def notZPolicy : Policy :=
  ⟨"not z", "comment", "view", .restrictive,
    .any [author .eq (.string "x"), body .neq (.string "z")]⟩

def unnamedFragment : Fragment := ⟨authorJoins .inner, [authorIs .null]⟩

def notZFragment : Fragment :=
  ⟨authorJoins .left,
    [.or [authorIs (.string "x"),
      .comparison "root" "body" .neq (.string "z")]]⟩

theorem unnamedPolicy_returns :
    Returns (PolicySet.fragments ⟨[unnamedPolicy]⟩ compiler .null "comment"
      "view") (.start ()) ([unnamedFragment], []) (.start ()) := rfl

theorem notZPolicy_returns :
    Returns (PolicySet.fragments ⟨[unnamedPolicy, notZPolicy]⟩ compiler .null
      "comment" "view")
      (.start ()) ([unnamedFragment], [notZFragment]) (.start ()) := rfl

theorem notZPolicy_plain : ∀ p ∈ [unnamedPolicy, notZPolicy],
    p.appliesTo "comment" "view" = true → p.expression.Plain := by
  simp [unnamedPolicy, notZPolicy, author, body, Expression.Plain,
    Expression.properties, propertiesOf, Path.Plain, Step.plain, Step.alias?]

theorem unnamedFragment_unambiguous :
    Unambiguous (([unnamedFragment] ++ []).flatMap Fragment.joins) := by
  simp [unnamedFragment, Unambiguous, Join.sameBinding, authorJoins]

theorem notZFragment_unambiguous :
    Unambiguous
      (([unnamedFragment] ++ [notZFragment]).flatMap Fragment.joins) := by
  simp [unnamedFragment, notZFragment, Unambiguous, Join.sameBinding,
    authorJoins]

end Blog

open Blog in
/-- A comment on no post is not admitted for want of an author's name, until a
restrictive policy is added that has the join of the author as a left join. -/
theorem PolicySet.restrict_admits_remark :
    ∃ select select',
      Returns (PolicySet.select ⟨[unnamedPolicy]⟩ compiler .null "comment"
        "view") (.start ()) select (.start ()) ∧
      Returns (PolicySet.select ⟨[unnamedPolicy, notZPolicy]⟩ compiler .null
        "comment" "view") (.start ()) select' (.start ()) ∧
      remark ∈ remarks.rows comment.tableName ∧
      select'.admits remarks remark = true ∧
      select.admits remarks remark = false := by
  refine ⟨_, _, select_returns rfl unnamedPolicy_returns,
    select_returns rfl notZPolicy_returns, List.mem_singleton_self _, ?_, ?_⟩
  · decide +kernel
  · decide +kernel

open Blog in
theorem PolicySet.restrict_sound_iff_notZPolicy :
    notZPolicy.kind = .restrictive ∧
      compiler.evaluator.schema.entity? "comment" = some comment ∧
      compiler.binder.Names ∧ (∀ p ∈ [unnamedPolicy, notZPolicy],
        p.appliesTo "comment" "view" = true → p.expression.Plain) ∧
      Returns (PolicySet.fragments ⟨[unnamedPolicy]⟩ compiler .null "comment"
        "view") (.start ()) ([unnamedFragment], []) (.start ()) ∧
      Returns (PolicySet.fragments ⟨[unnamedPolicy, notZPolicy]⟩ compiler .null
        "comment" "view")
        (.start ()) ([unnamedFragment], [notZFragment]) (.start ()) ∧
      Unambiguous (([unnamedFragment] ++ []).flatMap Fragment.joins) ∧
      Unambiguous
        (([unnamedFragment] ++ [notZFragment]).flatMap Fragment.joins) ∧
      ∃ select select',
        Returns (PolicySet.select ⟨[unnamedPolicy]⟩ compiler .null "comment"
          "view") (.start ()) select (.start ()) ∧
        Returns (PolicySet.select ⟨[unnamedPolicy, notZPolicy]⟩ compiler .null
          "comment" "view") (.start ()) select' (.start ()) ∧
        ((∀ row ∈ remarks.rows comment.tableName,
            select'.admits remarks row = true →
              select.admits remarks row = true) ↔
          ∀ row ∈ remarks.rows comment.tableName,
            ∀ a ∈ assignments remarks select'.joins (.start
              compiler.naming.root row),
              optionalTruth remarks select'.filter a = .yes →
              (¬ [] ⊆ [notZFragment] ∨
                ∃ j ∈ select.joins, j.kind = .inner ∧ j.found remarks a = []) →
              select.admits remarks row = true) :=
  ⟨rfl, rfl, names, notZPolicy_plain, unnamedPolicy_returns, notZPolicy_returns,
    unnamedFragment_unambiguous, notZFragment_unambiguous,
    PolicySet.restrict_sound_iff [unnamedPolicy] [] rfl rfl names
      notZPolicy_plain
      unnamedPolicy_returns notZPolicy_returns unnamedFragment_unambiguous
      notZFragment_unambiguous remarks⟩

end RowGuard
