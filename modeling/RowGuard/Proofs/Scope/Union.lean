import RowGuard.Proofs.Scope.Compilation

/-!
# What an `any` of conditions admits

The joins of an `any` become left joins, so that no branch loses a row by the
joins of another.  The filter of a branch is then true or false of rows without
a match, too, which the branch alone drops.  `Compiler.select_any_admits_iff`
says which rows the `any` admits, and `Compiler.select_any_sound_iff` when these
are no more than its parts admit alone.  A null check on the field of a parent
is a case where they are more.
-/

namespace RowGuard

namespace Compiler

variable {σ : Type} {c : Compiler σ} {actor : Value} {entity : Entity}
  {name : String} {parts : List Expression} {fs : List Fragment}
  {s s' : Session σ}

theorem select_any_returns
    (hentity : c.evaluator.schema.entity? name = some entity)
    (h : Returns (c.fragments actor entity parts) s fs s') :
    Returns (c.select actor name (.any parts)) s
      ((combine .any fs).applyTo (c.root entity)) s' := by
  refine (select_returns_iff hentity).2 ⟨combine .any fs, ?_, rfl⟩
  simp only [fragment, returns_bind_iff, returns_pure_iff]
  exact ⟨fs, s', h, rfl, rfl⟩

theorem fragments_length
    (h : Returns (c.fragments actor entity parts) s fs s') :
    fs.length = parts.length := by
  induction parts generalizing fs s with
  | nil =>
    simp only [fragments, returns_pure_iff] at h
    simp [← h.1]
  | cons part parts ih =>
    simp only [fragments, returns_bind_iff, returns_pure_iff] at h
    obtain ⟨_, _, _, rest, _, hrest, rfl, rfl⟩ := h
    simp [ih hrest]

theorem fragments_ne_nil (hne : parts ≠ [])
    (h : Returns (c.fragments actor entity parts) s fs s') : fs ≠ [] := by
  rw [← List.length_pos_iff, fragments_length h, List.length_pos_iff]
  exact hne

theorem fragments_mergeable
    (hentity : c.evaluator.schema.entity? name = some entity)
    (hnames : c.binder.Names) (hplain : ∀ part ∈ parts, part.Plain)
    (hparts : Returns (c.fragments actor entity parts) s fs s')
    (hunambiguous : Unambiguous (fs.flatMap Fragment.joins)) :
    Mergeable c.naming.root fs :=
  .of_compiled (fragments_compiled (Schema.entity?_mem hentity)
    (fun _ => hnames) parts (fun _ => hplain) hparts) hunambiguous

theorem asBranch_built {root : String} {f : Fragment} (h : f.Built root) :
    (asBranch fs f).Built root := by
  rw [asBranch]
  split
  · exact h
  · exact h.leftened

/-- An `any` admits a row if one of its parts does that takes part as a
branch. -/
theorem select_any_admits_iff
    (hentity : c.evaluator.schema.entity? name = some entity)
    (hnames : c.binder.Names) (hne : parts ≠ [])
    (hplain : ∀ part ∈ parts, part.Plain)
    (hparts : Returns (c.fragments actor entity parts) s fs s')
    (hunambiguous : Unambiguous (fs.flatMap Fragment.joins)) (db : Database) :
    ∃ select, Returns (c.select actor name (.any parts)) s select s' ∧
      ∀ row, select.admits db row = true ↔
        ∃ f ∈ fs, ((asBranch fs f).applyTo (c.root entity)).admits db
          row = true := by
  refine ⟨_, select_any_returns hentity hparts, fun row => ?_⟩
  have hmergeable :=
    fragments_mergeable hentity hnames hplain hparts hunambiguous
  obtain ⟨d, hcombined, hd⟩ := combineFragments_any db
    (fragments_ne_nil hne hparts) hmergeable.built
  rw [combine, hcombined, Option.getD_some, admits_root_iff hd.built,
    hd.admits_iff hmergeable]
  refine exists_congr fun f => and_congr_right fun hf => ?_
  rw [admits_root_iff (asBranch_built (hmergeable.built f hf))]

/-- An `any` admits no row but those of its parts alone, exactly if a part that
admits a row through an inner join without a match admits no other row
thereby. -/
theorem select_any_sound_iff
    (hentity : c.evaluator.schema.entity? name = some entity)
    (hnames : c.binder.Names) (hne : parts ≠ [])
    (hplain : ∀ part ∈ parts, part.Plain)
    (hparts : Returns (c.fragments actor entity parts) s fs s')
    (hunambiguous : Unambiguous (fs.flatMap Fragment.joins)) (db : Database) :
    ∃ select, Returns (c.select actor name (.any parts)) s select s' ∧
      ((∀ row ∈ db.rows entity.tableName, select.admits db row = true →
          ∃ f ∈ fs, (f.applyTo (c.root entity)).admits db row = true) ↔
        ∀ row ∈ db.rows entity.tableName, ∀ f ∈ fs,
          ∀ a ∈ assignments db (asBranch fs f).joins (.start c.naming.root row),
            f.predicate.truth db a = .yes →
            (∃ j ∈ f.joins, j.kind = .inner ∧ j.found db a = []) →
            ∃ g ∈ fs, (g.applyTo (c.root entity)).admits db row = true) := by
  obtain ⟨select, hselect, hadmits⟩ :=
    select_any_admits_iff hentity hnames hne hplain hparts hunambiguous db
  have hmergeable :=
    fragments_mergeable hentity hnames hplain hparts hunambiguous
  have hbranch : ∀ f ∈ fs, ∀ row,
      ((asBranch fs f).applyTo (c.root entity)).admits db row = true ↔
      ∃ a ∈ assignments db (asBranch fs f).joins (.start c.naming.root row),
        f.predicate.truth db a = .yes := by
    intro f hf row
    have hfilters : (asBranch fs f).filters = f.filters := by
      rw [asBranch]
      split <;> rfl
    rw [admits_root_iff (asBranch_built (hmergeable.built f hf)),
      Fragment.Admits]
    simp only [Fragment.truth_predicate_eq_yes_iff, hfilters]
  refine ⟨select, hselect, ?_⟩
  constructor
  · intro h row hrow f hf a ha holds _
    exact h row hrow
      ((hadmits row).2 ⟨f, hf, (hbranch f hf row).2 ⟨a, ha, holds⟩⟩)
  · intro h row hrow hselected
    obtain ⟨f, hf, hadmitted⟩ := (hadmits row).1 hselected
    obtain ⟨a, ha, holds⟩ := (hbranch f hf row).1 hadmitted
    by_cases hmatched : ∃ j ∈ f.joins, j.kind = .inner ∧ j.found db a = []
    · exact h row hrow f hf a ha holds hmatched
    -- every inner join finds a row, so the part alone admits it
    simp only [not_exists, not_and] at hmatched
    refine ⟨f, hf, ?_⟩
    cases hu : uniform fs with
    | true => rwa [asBranch_of_uniform hu] at hadmitted
    | false =>
      rw [asBranch_of_not_uniform hu] at ha
      have hscoped := hmergeable.wellScoped hf
      have hsolved : f.leftened.SolvedBy db a :=
        ⟨(hscoped.leftened.mem_assignments_iff.1 ha).2, holds⟩
      rw [admits_root_iff (hmergeable.built f hf),
        Fragment.admits_iff_solved hscoped]
      exact ⟨a, hscoped.leftened.root_eq_of_mem ha,
        hsolved.of_leftened hmatched⟩

end Compiler

/-! ## A null check on a parent -/

namespace Blog

/-- The comments on posts by authors without a name, and those with the body
`z`. -/
def unnamedOrZ : List Expression := [author .eq .null, body .eq (.string "z")]

def unnamedOrZFragments : List Fragment :=
  [⟨authorJoins .inner, [authorIs .null]⟩,
    ⟨[], [.comparison "root" "body" .eq (.string "z")]⟩]

theorem unnamedOrZ_returns :
    Returns (compiler.fragments .null comment unnamedOrZ)
      (.start ()) unnamedOrZFragments (.start ()) := rfl

theorem unnamedOrZ_plain : ∀ part ∈ unnamedOrZ, part.Plain := by
  simp [unnamedOrZ, author, body, Expression.Plain, Expression.properties,
    Path.Plain, Step.plain, Step.alias?]

theorem unnamedOrZ_unambiguous :
    Unambiguous (unnamedOrZFragments.flatMap Fragment.joins) := by
  simp [unnamedOrZFragments, authorJoins, Unambiguous, Join.sameBinding]

end Blog

open Blog in
/-- Neither part alone admits a comment on no post, since the first one drops it
and it has another body.  The two together do. -/
theorem Compiler.select_any_admits_remark :
    ∃ select, Returns (compiler.select .null "comment" (.any unnamedOrZ))
      (.start ()) select
        (.start ()) ∧
      remark ∈ remarks.rows comment.tableName ∧
      select.admits remarks remark = true ∧ ∀ f ∈ unnamedOrZFragments,
        (f.applyTo (compiler.root comment)).admits remarks remark = false := by
  refine ⟨_, select_any_returns rfl unnamedOrZ_returns, ?_, ?_, ?_⟩
  · exact List.mem_singleton_self _
  · decide +kernel
  · decide +kernel

open Blog in
theorem Compiler.select_any_sound_iff_unnamedOrZ :
    compiler.evaluator.schema.entity? "comment" = some comment ∧
      compiler.binder.Names ∧
      unnamedOrZ ≠ [] ∧ (∀ part ∈ unnamedOrZ, part.Plain) ∧
      Returns (compiler.fragments .null comment unnamedOrZ)
        (.start ()) unnamedOrZFragments (.start ()) ∧
      Unambiguous (unnamedOrZFragments.flatMap Fragment.joins) ∧
      ∃ select, Returns (compiler.select .null "comment" (.any unnamedOrZ))
        (.start ()) select
          (.start ()) ∧
        ((∀ row ∈ remarks.rows comment.tableName,
          select.admits remarks row = true →
            ∃ f ∈ unnamedOrZFragments,
              (f.applyTo (compiler.root comment)).admits remarks row = true) ↔
          ∀ row ∈ remarks.rows comment.tableName, ∀ f ∈ unnamedOrZFragments,
            ∀ a ∈ assignments remarks (asBranch unnamedOrZFragments f).joins
                (.start compiler.naming.root row),
              f.predicate.truth remarks a = .yes →
              (∃ j ∈ f.joins, j.kind = .inner ∧ j.found remarks a = []) →
              ∃ g ∈ unnamedOrZFragments,
                (g.applyTo (compiler.root comment)).admits remarks
                  row = true) :=
  ⟨rfl, names, List.cons_ne_nil _ _, unnamedOrZ_plain, unnamedOrZ_returns,
    unnamedOrZ_unambiguous,
    Compiler.select_any_sound_iff rfl names (List.cons_ne_nil _ _)
      unnamedOrZ_plain unnamedOrZ_returns unnamedOrZ_unambiguous remarks⟩

end RowGuard
