import RowGuard.Proofs.Query.Combination

/-!
# Fragments in another order

`combineFragments` goes from left to right: it keeps a join where it first finds
it, leaves out a fragment that is the same as what it has so far, and appends
filters.  In another order the joins and the filters come out in another order,
too.  `combineFragments_perm` says that the admitted rows stay.

The invariants of the merges carry this.  `Conjunction.admits_iff` reads the
fragments as a set, where `Join.widened_perm` has the kinds of the joins.
`Disjunction.admits_iff` asks in addition whether all fragments are the same,
which is no matter of order either since sameness is symmetric and transitive
(`uniform_perm`).
-/

namespace RowGuard

variable {db : Database} {root : String} {fs gs : List Fragment}

/-! ## What does not depend on the order -/

theorem Mergeable.perm (h : Mergeable root fs) (hperm : fs.Perm gs) :
    Mergeable root gs where
  built f hf := h.built f (hperm.mem_iff.2 hf)
  unambiguous := h.unambiguous.mono fun _ hj =>
    (hperm.flatMap_right Fragment.joins).mem_iff.2 hj
  root_free j hj :=
    h.root_free j ((hperm.flatMap_right Fragment.joins).mem_iff.2 hj)

/-- How wide a join comes out of a merge does not depend on the order of the
joins. -/
theorem Join.widened_perm {joins joins' : List Join} (hperm : joins.Perm joins')
    (j : Join) :
    j.widened joins = j.widened joins' := by
  simp only [Join.widened, hperm.any_eq]

/-- Two or more fragments are uniform if all of them are the same. -/
theorem uniform_iff (hlen : 1 < fs.length) :
    uniform fs = true ↔ ∀ f ∈ fs, ∀ g ∈ fs, f.same g = true := by
  obtain ⟨first, second, rest, rfl⟩ : ∃ first second rest,
      fs = first :: second :: rest := by
    match fs, hlen with
    | first :: second :: rest, _ => exact ⟨first, second, rest, rfl⟩
  rw [uniform, List.all_eq_true]
  constructor
  · intro h
    -- the first one is the same as itself because it is the same as the second
    have hsecond := h second (List.mem_cons_self ..)
    have hfirst : ∀ f ∈ first :: second :: rest, first.same f = true :=
      List.forall_mem_cons.2
        ⟨Fragment.same_trans hsecond (Fragment.same_symm hsecond), h⟩
    exact fun f hf g hg =>
      Fragment.same_trans (Fragment.same_symm (hfirst f hf)) (hfirst g hg)
  · exact fun h g hg => h first (List.mem_cons_self ..) g
      (List.mem_cons_of_mem _ hg)

theorem uniform_perm (hperm : fs.Perm gs) : uniform fs = uniform gs := by
  by_cases hlen : 1 < fs.length
  · rw [Bool.eq_iff_iff, uniform_iff hlen, uniform_iff (hperm.length_eq ▸ hlen)]
    simp only [hperm.mem_iff]
  · obtain rfl : fs = gs := by
      match fs, hlen with
      | [], _ => exact (List.nil_perm.1 hperm).symm
      | [f], _ => exact List.singleton_perm.1 hperm
      | _ :: _ :: _, hlen => simp at hlen
    rfl

theorem asBranch_perm (hperm : fs.Perm gs) (f : Fragment) :
    asBranch fs f = asBranch gs f := by
  simp only [asBranch, uniform_perm hperm]

/-! ## Combinations in another order -/

/-- Conjunctions of the same fragments admit the same rows. -/
theorem Conjunction.admits_perm {d e : Fragment} (hd : Conjunction db root fs d)
    (he : Conjunction db root gs e) (hfs : Mergeable root fs)
    (hperm : fs.Perm gs) {row : Row} :
    d.Admits db root row ↔ e.Admits db root row := by
  have hjoins := hperm.flatMap_right Fragment.joins
  rw [hd.admits_iff hfs, he.admits_iff (hfs.perm hperm)]
  simp only [hperm.mem_iff, hjoins.mem_iff, Join.widened_perm hjoins]

/-- Disjunctions of the same fragments admit the same rows. -/
theorem Disjunction.admits_perm {d e : Fragment} (hd : Disjunction db root fs d)
    (he : Disjunction db root gs e) (hfs : Mergeable root fs)
    (hperm : fs.Perm gs) {row : Row} :
    d.Admits db root row ↔ e.Admits db root row := by
  rw [hd.admits_iff hfs, he.admits_iff (hfs.perm hperm)]
  simp only [hperm.mem_iff, asBranch_perm hperm]

/-- Fragments that are not there have no part in a combination. -/
theorem combineFragments_filterMap (combination : Combination)
    (fs : List (Option Fragment)) :
    combineFragments combination ((fs.filterMap id).map some) =
      combineFragments combination fs := by
  rw [combineFragments, combineFragments, List.filterMap_map, Function.id_comp,
    List.filterMap_some]

/-- Fragments combine to the same rows in every order. -/
theorem combineFragments_perm {fs gs : List (Option Fragment)}
    (hperm : fs.Perm gs) (hfs : Mergeable root (fs.filterMap id))
    (combination : Combination) (db : Database) :
    (combineFragments combination fs = none ∧
      combineFragments combination gs = none) ∨
      ∃ d e, combineFragments combination fs = some d ∧
        combineFragments combination gs = some e ∧
        ∀ row, d.Admits db root row ↔ e.Admits db root row := by
  have hpresent := hperm.filterMap id
  have hgs := hfs.perm hpresent
  simp only [← combineFragments_filterMap _ fs,
    ← combineFragments_filterMap _ gs]
  by_cases hne : fs.filterMap id = []
  · rw [hne] at hpresent ⊢
    rw [List.nil_perm.1 hpresent]
    exact .inl ⟨rfl, rfl⟩
  have hne' : gs.filterMap id ≠ [] :=
    fun h => hne (List.perm_nil.1 (h ▸ hpresent))
  cases combination with
  | all =>
    obtain ⟨d, hd, hconjunction⟩ := combineFragments_all db hne hfs.built
    obtain ⟨e, he, hconjunction'⟩ := combineFragments_all db hne' hgs.built
    exact .inr ⟨d, e, hd, he,
      fun _ => hconjunction.admits_perm hconjunction' hfs hpresent⟩
  | any =>
    obtain ⟨d, hd, hdisjunction⟩ := combineFragments_any db hne hfs.built
    obtain ⟨e, he, hdisjunction'⟩ := combineFragments_any db hne' hgs.built
    exact .inr ⟨d, e, hd, he,
      fun _ => hdisjunction.admits_perm hdisjunction' hfs hpresent⟩

/-- The comments without a post. -/
def onNoPost : Fragment where
  joins := [⟨.left, "post", "post", "root__post", "id", "root", "post_id"⟩]
  filters := [.comparison "root__post" "id" .eq .null]

/-- The comments on no post or a titled one, and those with a body; one fragment
is not there. -/
def onNoOrTitledPost : List (Option Fragment) :=
  [some onTitledPost, none, some onNoPost, some withBody]

theorem mergeable_onNoOrTitledPost :
    Mergeable "root" (onNoOrTitledPost.filterMap id) where
  built := by
    have hpair := mergeable_onTitledPost_withBody.built
    have hleft : onNoPost.Built "root" :=
      ⟨List.pairwise_singleton _ _, by simp [Rooted, onNoPost],
        by simp [onNoPost, Filter.aliases]⟩
    simp only [onNoOrTitledPost, List.filterMap_cons, List.filterMap_nil, id,
      List.forall_mem_cons]
    exact ⟨hpair _ (List.mem_cons_self ..), hleft,
      hpair _ (List.mem_cons_of_mem _ (List.mem_cons_self ..)), by simp⟩
  unambiguous := by
    simp [Unambiguous, onNoOrTitledPost, onTitledPost, onNoPost, withBody,
      Join.sameBinding]
  root_free := by simp [onNoOrTitledPost, onTitledPost, onNoPost, withBody]

theorem combineFragments_perm_onNoOrTitledPost :
    onNoOrTitledPost.Perm onNoOrTitledPost.reverse ∧
      Mergeable "root" (onNoOrTitledPost.filterMap id) ∧
      ((combineFragments .any onNoOrTitledPost = none ∧
          combineFragments .any onNoOrTitledPost.reverse = none) ∨
        ∃ d e, combineFragments .any onNoOrTitledPost = some d ∧
          combineFragments .any onNoOrTitledPost.reverse = some e ∧
          ∀ row, d.Admits ⟨.comparator, fun _ => [orphan]⟩ "root" row ↔
            e.Admits ⟨.comparator, fun _ => [orphan]⟩ "root" row) := by
  have hperm := (List.reverse_perm onNoOrTitledPost).symm
  exact ⟨hperm, mergeable_onNoOrTitledPost,
    combineFragments_perm hperm mergeable_onNoOrTitledPost .any _⟩

end RowGuard
