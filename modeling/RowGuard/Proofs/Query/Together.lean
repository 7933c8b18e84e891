import Mathlib.Tactic.Choose
import RowGuard.Proofs.Query.Functional

/-!
# Rows that fragments admit together

An alias stands for one row of a query.  In an `all` it stands for the same row
in all fragments that join it, so a row that each fragment admits may need rows
under an alias that differ.  `AdmitTogether` says that they need not:
`Conjunction.admits_iff_together` is the exact condition for the `all`, and
`admitTogether_of_single` a case in which it is met, namely that the joins which
are shared find one row at most.
-/

namespace RowGuard

variable {db : Database} {root : String} {fs : List Fragment} {f g : Fragment}
  {row : Row}

/-- A fragment as it takes part in an `all`: a join that another fragment has as
a left join is a left join here, too. -/
def asPart (fs : List Fragment) (f : Fragment) : Fragment :=
  { f with joins := f.joins.map (Join.widened (fs.flatMap Fragment.joins)) }

/-- Each of the fragments admits the row by an assignment of its own, and where
two of them have an alias in common their assignments have the same row
there. -/
def AdmitTogether (db : Database) (root : String) (fs : List Fragment)
    (row : Row) : Prop :=
  ∃ pick : Fragment → Assignment,
    (∀ f ∈ fs, pick f ∈ assignments db (asPart fs f).joins (.start root row) ∧
      f.predicate.truth db (pick f) = .yes) ∧
    ∀ f ∈ fs, ∀ g ∈ fs, ∀ x ∈ f.joins.map Join.aliasName,
      x ∈ g.joins.map Join.aliasName →
      pick f x = pick g x

theorem asPart_aliases (fs : List Fragment) (f : Fragment) :
    (asPart fs f).joins.map Join.aliasName = f.joins.map Join.aliasName := by
  rw [asPart, List.map_map]
  rfl

theorem Mergeable.asPart_wellScoped (hfs : Mergeable root fs) (hf : f ∈ fs) :
    (asPart fs f).WellScoped root where
  rooted := (hfs.wellScoped hf).rooted.map (Join.widened_sameBinding _)
  nodup := by
    rw [asPart_aliases]
    exact (hfs.wellScoped hf).nodup
  bound := by
    rw [asPart_aliases]
    exact (hfs.wellScoped hf).bound

/-- An assignment that solves a fragment solves it as a part of others. -/
theorem Fragment.SolvedBy.asPart {a : Assignment} (hf : f ∈ fs)
    (h : f.SolvedBy db a) :
    (asPart fs f).SolvedBy db a where
  fits m hm := by
    obtain ⟨j, hj, rfl⟩ := List.mem_map.1 hm
    exact Join.fits_widened (List.mem_flatMap.2 ⟨f, hf, hj⟩) (h.fits j hj)
  holds := h.holds

/-- It does not matter what the assignments bind under other aliases. -/
theorem AdmitTogether.of_solved (hfs : Mergeable root fs)
    {a : Fragment → Assignment} (hroot : ∀ f ∈ fs, a f root = row)
    (hsolved : ∀ f ∈ fs, (asPart fs f).SolvedBy db (a f))
    (hagree : ∀ f ∈ fs, ∀ g ∈ fs, ∀ x ∈ f.joins.map Join.aliasName,
      x ∈ g.joins.map Join.aliasName →
        a f x = a g x) : AdmitTogether db root fs row := by
  have hpick : ∀ f ∈ fs,
      ∃ b ∈ assignments db (asPart fs f).joins (.start root row),
      (∀ x ∈ root :: f.joins.map Join.aliasName, a f x = b x) ∧
        (asPart fs f).SolvedBy db b := by
    intro f hf
    rw [← asPart_aliases fs f]
    exact (hfs.asPart_wellScoped hf).exists_mem_assignments (hroot f hf)
      (hsolved f hf)
  choose! pick hpick using hpick
  refine ⟨pick, fun f hf => ⟨(hpick f hf).1, (hpick f hf).2.2.holds⟩, ?_⟩
  intro f hf g hg x hxf hxg
  rw [← (hpick f hf).2.1 x (List.mem_cons_of_mem _ hxf),
    ← (hpick g hg).2.1 x (List.mem_cons_of_mem _ hxg)]
  exact hagree f hf g hg x hxf hxg

/-! ## One assignment out of several -/

/-- Assignments that agree where fragments share an alias are parts of one. -/
theorem exists_glued (hfs : Mergeable root fs) {pick : Fragment → Assignment}
    (hroot : ∀ f ∈ fs, pick f root = row)
    (hagree : ∀ f ∈ fs, ∀ g ∈ fs, ∀ x ∈ f.joins.map Join.aliasName,
      x ∈ g.joins.map Join.aliasName → pick f x = pick g x) :
    ∃ a : Assignment, a root = row ∧
      ∀ f ∈ fs, ∀ x ∈ root :: f.joins.map Join.aliasName, pick f x = a x := by
  classical
  let a : Assignment := fun x =>
    if h : ∃ f ∈ fs, x ∈ f.joins.map Join.aliasName then pick h.choose x
    else Assignment.start root row x
  have hfree : ¬ ∃ f ∈ fs, root ∈ f.joins.map Join.aliasName := by
    rintro ⟨f, hf, hmem⟩
    obtain ⟨j, hj, halias⟩ := List.mem_map.1 hmem
    exact (hfs.wellScoped hf).alias_ne_root hj halias
  have ha : a root = row := by
    simp only [a, dif_neg hfree, Assignment.start, if_true]
  refine ⟨a, ha, fun f hf x hx => ?_⟩
  rcases List.mem_cons.1 hx with rfl | hx
  · rw [ha, hroot f hf]
  · have hbound : ∃ f ∈ fs, x ∈ f.joins.map Join.aliasName := ⟨f, hf, hx⟩
    simp only [a, dif_pos hbound]
    exact hagree f hf _ hbound.choose_spec.1 x hx hbound.choose_spec.2

/-- A conjunction admits the rows that its fragments admit together. -/
theorem Conjunction.admits_iff_together {d : Fragment}
    (hd : Conjunction db root fs d) (hfs : Mergeable root fs) :
    d.Admits db root row ↔ AdmitTogether db root fs row := by
  rw [hd.admits_iff hfs]
  constructor
  · rintro ⟨a, ha, hfits, holds⟩
    refine .of_solved (a := fun _ => a) hfs (fun _ _ => ha)
      (fun f hf => ⟨fun m hm => ?_, holds f hf⟩) fun _ _ _ _ _ _ _ => rfl
    obtain ⟨j, hj, rfl⟩ := List.mem_map.1 hm
    exact hfits j (List.mem_flatMap.2 ⟨f, hf, hj⟩)
  · rintro ⟨pick, hsolves, hagree⟩
    have hscoped : ∀ f ∈ fs, (asPart fs f).WellScoped root :=
      fun f hf => hfs.asPart_wellScoped hf
    obtain ⟨a, ha, hglued⟩ := exists_glued hfs
      (fun f hf => (hscoped f hf).root_eq_of_mem (hsolves f hf).1) hagree
    have hsolved : ∀ f ∈ fs, (asPart fs f).SolvedBy db a := by
      intro f hf
      refine (hscoped f hf).solvedBy_congr (fun x hx => hglued f hf x ?_)
        ⟨((hscoped f hf).mem_assignments_iff.1 (hsolves f hf).1).2,
          (hsolves f hf).2⟩
      rwa [← asPart_aliases fs f]
    refine ⟨a, ha, fun j hj => ?_, fun f hf => (hsolved f hf).holds⟩
    obtain ⟨f, hf, hj⟩ := List.mem_flatMap.1 hj
    exact (hsolved f hf).fits _ (List.mem_map_of_mem hj)

/-! ## Joins that find one row -/

/-- Joins of one binding that find one row at most bind the same row. -/
theorem Join.fits_unique {j k : Join} {a b : Assignment}
    (hsame : j.sameBinding k = true)
    (hparent : a j.parentAlias = b j.parentAlias)
    (hsingle : (j.found db a).length ≤ 1) (hj : j.Fits db a)
    (hk : k.Fits db b) : a j.aliasName = b j.aliasName := by
  have hj' : a j.aliasName ∈ j.leftened.candidates db a :=
    Join.mem_candidates_left hj
  have hk' : b j.aliasName ∈ j.leftened.candidates db a := by
    have hk' : b k.aliasName ∈ k.leftened.candidates db b :=
      Join.mem_candidates_left hk
    rw [← Join.sameBinding_iff.1 hsame,
      ← Join.aliasName_eq_of_sameBinding hsame] at hk'
    rwa [Join.candidates_congr (j := j.leftened) hparent]
  rw [Join.candidates] at hj' hk'
  have hfound : j.leftened.found db a = j.found db a := rfl
  rw [hfound] at hj' hk'
  cases hrows : j.found db a with
  | nil =>
    rw [hrows] at hj' hk'
    exact (List.mem_singleton.1 hj').trans (List.mem_singleton.1 hk').symm
  | cons row rows =>
    rw [hrows] at hj' hk' hsingle
    obtain rfl : rows = [] := by simpa using hsingle
    exact (List.mem_singleton.1 hj').trans (List.mem_singleton.1 hk').symm

/-- What holds of the aliases at the start and passes from the parent of a join
to the join holds of all joins. -/
theorem Rooted.forall_alias {P : String → Prop} {bound : List String}
    {joins : List Join} (h : Rooted bound joins) (hbound : ∀ x ∈ bound, P x)
    (hstep : ∀ j ∈ joins, P j.parentAlias → P j.aliasName) :
    ∀ j ∈ joins, P j.aliasName := by
  induction joins generalizing bound with
  | nil => simp
  | cons j joins ih =>
    rw [List.forall_mem_cons] at hstep
    have hj : P j.aliasName := hstep.1 (hbound _ h.1)
    exact List.forall_mem_cons.2
      ⟨hj, ih h.2 (List.forall_mem_cons.2 ⟨hj, hbound⟩) hstep.2⟩

/-- Two assignments from one row agree where the joins of two fragments share an
alias and find one row at most. -/
theorem eq_of_single (hfs : Mergeable root fs) (hf : f ∈ fs) (hg : g ∈ fs)
    (hsingle : ∀ j ∈ f.joins, j.aliasName ∈ g.joins.map Join.aliasName →
      ∀ a, (j.found db a).length ≤
        1) {a b : Assignment} (hroot : a root = b root)
    (ha : f.SolvedBy db a) (hb : g.SolvedBy db b) :
    ∀ x ∈ f.joins.map Join.aliasName, x ∈ g.joins.map Join.aliasName →
      a x = b x := by
  suffices h : ∀ j ∈ f.joins, j.aliasName ∈ root :: g.joins.map Join.aliasName →
      a j.aliasName = b j.aliasName by
    intro x hxf hxg
    obtain ⟨j, hj, rfl⟩ := List.mem_map.1 hxf
    exact h j hj (List.mem_cons_of_mem _ hxg)
  refine (hfs.wellScoped hf).rooted.forall_alias
    (P := fun x => x ∈ root :: g.joins.map Join.aliasName → a x = b x) ?_ ?_
  · intro x hx _
    rw [List.mem_singleton.1 hx, hroot]
  · intro j hj hparent hmem
    rcases List.mem_cons.1 hmem with heq | hshared
    · exact absurd heq ((hfs.wellScoped hf).alias_ne_root hj)
    obtain ⟨k, hk, halias⟩ := List.mem_map.1 hshared
    have hsame : j.sameBinding k = true :=
      hfs.unambiguous j (List.mem_flatMap.2 ⟨f, hf, hj⟩) k
        (List.mem_flatMap.2 ⟨g, hg, hk⟩) halias.symm
    -- the parents of a join that is shared are shared
    have hparent' : a j.parentAlias = b j.parentAlias := by
      refine hparent ?_
      rw [Join.parentAlias_eq_of_sameBinding hsame]
      exact (hfs.wellScoped hg).parent_mem hk
    exact Join.fits_unique hsame hparent' (hsingle j hj hshared a)
      (ha.fits j hj) (hb.fits k hk)

/-- Fragments admit together what each of them admits, if the joins that two of
them share find one row at most. -/
theorem admitTogether_of_single (hfs : Mergeable root fs)
    (hsingle : ∀ f ∈ fs, ∀ g ∈ fs, f ≠ g → ∀ j ∈ f.joins,
      j.aliasName ∈ g.joins.map Join.aliasName → ∀ a, (j.found db a).length ≤ 1)
    (hadmits : ∀ f ∈ fs, f.Admits db root row) :
    AdmitTogether db root fs row := by
  have hsolved : ∀ f ∈ fs, ∃ a, a root = row ∧ f.SolvedBy db a := fun f hf =>
    (Fragment.admits_iff_solved (hfs.wellScoped hf)).1 (hadmits f hf)
  choose! a hroot ha using hsolved
  refine .of_solved hfs hroot (fun f hf => (ha f hf).asPart hf)
    fun f hf g hg => ?_
  by_cases hfg : f = g
  · rw [hfg]
    exact fun _ _ _ => rfl
  · exact eq_of_single hfs hf hg (hsingle f hf g hg hfg)
      ((hroot f hf).trans (hroot g hg).symm) (ha f hf) (ha g hg)

end RowGuard
