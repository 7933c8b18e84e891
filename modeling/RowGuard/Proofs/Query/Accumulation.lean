import RowGuard.Proofs.Query.Reordering
import RowGuard.Proofs.Repetition

/-!
# Joins in the order in which they come

Joins are added to a fragment one by one, merged when fragments are combined,
and put onto the joins of a select.  Each time the outcome has every binding
once, in the order in which the bindings first came, and as a left join exactly
if it came as a left join once (`Accumulates`).

* `Accumulates.insert` is one addition and `Accumulates.merge` any number of
  them.
* `insertJoin_again` and `insertJoin_of_absorbed` say that a join which has come
  changes nothing, now or later.  So a fragment that has been put onto a select
  adds nothing to it any more.
* `Fragment.joins_accumulate` puts the parts together.
-/

namespace RowGuard

/-- `merged` has each binding of `joins` once, in the order in which they first
occur, and as a left join exactly if one of `joins` has it as a left join. -/
structure Accumulates (joins merged : List Join) :
    Prop extends IsMerge joins merged where
  order : merged.map Join.leftened = (joins.map Join.leftened).eraseDups

theorem mem_map_leftened_iff {k : Join} {joins : List Join} :
    k.leftened ∈ joins.map Join.leftened ↔
      ∃ j ∈ joins, j.sameBinding k = true := by
  simp only [List.mem_map, Join.sameBinding_iff]

theorem BindsOnce.nodup_leftened {joins : List Join} (h : BindsOnce joins) :
    (joins.map Join.leftened).Nodup := by
  refine List.pairwise_map.2 (List.Pairwise.imp (fun {j k} hjk heq => ?_) h)
  rw [Join.sameBinding_iff.2 heq] at hjk
  cases hjk

namespace Accumulates

variable {joins merged : List Join}

/-- Joins that bind once are as they come. -/
theorem refl (h : BindsOnce joins) : Accumulates joins joins where
  toIsMerge := .refl h
  order := (eraseDups_of_nodup h.nodup_leftened).symm

/-- One more join is added. -/
theorem insert (h : Accumulates joins merged) (k : Join) :
    Accumulates (joins ++ [k]) (insertJoin k merged) where
  toIsMerge := h.toIsMerge.insert k
  order := by
    rw [List.map_append, List.map_singleton]
    by_cases hbound : ∃ m ∈ merged, m.sameBinding k = true
    · have hmem : k.leftened ∈ joins.map Join.leftened := by
        obtain ⟨m, hm, hsame⟩ := hbound
        obtain ⟨j, hj, hjm⟩ := h.source m hm
        exact mem_map_leftened_iff.2 ⟨j, hj, Join.sameBinding_trans hjm hsame⟩
      have hbindings : (merged.map (Join.absorb k)).map Join.leftened =
          merged.map Join.leftened := by
        rw [List.map_map]
        exact List.map_congr_left fun m _ =>
          Join.sameBinding_iff.1 (Join.absorb_sameBinding k m)
      rw [insertJoin_of_bound h.once hbound, hbindings, h.order,
        eraseDups_concat_of_mem hmem]
    · have hmem : k.leftened ∉ joins.map Join.leftened := by
        intro hmem
        obtain ⟨j, hj, hjk⟩ := mem_map_leftened_iff.1 hmem
        obtain ⟨m, hm, hmj⟩ := h.covers j hj
        exact hbound ⟨m, hm, Join.sameBinding_trans hmj hjk⟩
      simp only [not_exists, not_and, Bool.not_eq_true] at hbound
      rw [insertJoin_of_new hbound, List.map_append, List.map_singleton,
        h.order, eraseDups_concat_of_not_mem hmem]

/-- Any number of joins is added. -/
theorem merge (h : Accumulates joins merged) (added : List Join) :
    Accumulates (joins ++ added) (mergeJoins merged added) := by
  induction added generalizing joins merged with
  | nil => simpa [mergeJoins] using h
  | cons k added ih =>
    rw [List.append_cons]
    exact ih (h.insert k)

end Accumulates

/-! ## Joins that have come -/

theorem insertJoin_cons (k j : Join) (joins : List Join) :
    insertJoin k (j :: joins) =
      if j.sameBinding k then Join.absorb k j :: joins
        else j :: insertJoin k joins := by
  rw [insertJoin, Join.absorb]
  split_ifs <;> rfl

/-- A join is changed by `k` only if that makes it a left join. -/
theorem Join.absorb_eq_self_iff {k j : Join} :
    absorb k j = j ↔
      (k.sameBinding j = true → k.kind = .left → j.kind = .left) := by
  have hkind := absorb_kind_eq_left_iff (k := k) (j := j)
  constructor
  · intro h hsame hleft
    rw [h] at hkind
    exact hkind.2 (.inr ⟨hsame, hleft⟩)
  · intro h
    refine eq_of_sameBinding (absorb_sameBinding k j) (hkind.trans ⟨?_, .inl⟩)
    rintro (hj | ⟨hsame, hleft⟩)
    · exact hj
    · exact h hsame hleft

theorem Join.absorb_again (k j : Join) :
    absorb k (absorb k j) = absorb k j := by
  refine absorb_eq_self_iff.2 fun hsame hleft =>
    absorb_kind_eq_left_iff.2 (.inr ⟨?_, hleft⟩)
  exact sameBinding_trans hsame (absorb_sameBinding k j)

theorem Join.absorb_of_absorbed {k j : Join} (h : absorb k j = j) (i : Join) :
    absorb k (absorb i j) = absorb i j := by
  refine absorb_eq_self_iff.2 fun hsame hleft =>
    absorb_kind_eq_left_iff.2 (.inl ?_)
  exact absorb_eq_self_iff.1 h
    (sameBinding_trans hsame (absorb_sameBinding i j)) hleft

theorem Join.absorb_sameBinding_eq (i j k : Join) :
    (absorb i j).sameBinding k = j.sameBinding k := by
  rw [Bool.eq_iff_iff, sameBinding_iff, sameBinding_iff,
    sameBinding_iff.1 (absorb_sameBinding i j)]

/-- A join that has just been added changes nothing. -/
theorem insertJoin_again (k : Join) (joins : List Join) :
    insertJoin k (insertJoin k joins) = insertJoin k joins := by
  induction joins with
  | nil => simp [insertJoin, Join.sameBinding_refl]
  | cons j joins ih =>
    rw [insertJoin_cons]
    split_ifs with hsame
    · rw [insertJoin_cons, Join.absorb_sameBinding_eq, if_pos hsame,
        Join.absorb_again]
    · rw [insertJoin_cons, if_neg hsame, ih]

/-- A join that changes nothing changes nothing after another one. -/
theorem insertJoin_of_absorbed {k : Join} {joins : List Join}
    (h : insertJoin k joins = joins) (i : Join) :
    insertJoin k (insertJoin i joins) = insertJoin i joins := by
  induction joins with
  | nil => cases h
  | cons j joins ih =>
    rw [insertJoin_cons] at h
    rw [insertJoin_cons i]
    by_cases hk : j.sameBinding k = true
    · -- `k` meets the first join, before and after `i`
      rw [if_pos hk, List.cons.injEq] at h
      split_ifs
      · rw [insertJoin_cons, Join.absorb_sameBinding_eq, if_pos hk,
          Join.absorb_of_absorbed h.1]
      · rw [insertJoin_cons, if_pos hk, h.1]
    · rw [if_neg hk, List.cons.injEq] at h
      split_ifs
      · rw [insertJoin_cons, Join.absorb_sameBinding_eq, if_neg hk, h.2]
      · rw [insertJoin_cons, if_neg hk, ih h.2]

/-- Each join that has been added changes nothing any more. -/
theorem insertJoin_mergeJoins {k : Join} {joins added : List Join}
    (h : insertJoin k joins = joins ∨ k ∈ added) :
    insertJoin k (mergeJoins joins added) = mergeJoins joins added := by
  induction added generalizing joins with
  | nil => exact h.resolve_right (List.not_mem_nil)
  | cons i added ih =>
    refine ih ?_
    rcases h with h | h
    · exact .inl (insertJoin_of_absorbed h i)
    · rcases List.mem_cons.1 h with rfl | h
      · exact .inl (insertJoin_again _ joins)
      · exact .inr h

/-- Joins that change nothing one by one change nothing together. -/
theorem mergeJoins_of_absorbed {joins added : List Join}
    (h : ∀ k ∈ added, insertJoin k joins = joins) :
    mergeJoins joins added = joins := by
  induction added with
  | nil => rfl
  | cons k added ih =>
    rw [List.forall_mem_cons] at h
    show mergeJoins (insertJoin k joins) added = joins
    rw [h.1, ih h.2]

/-- Merging joins a second time changes nothing. -/
theorem mergeJoins_again (joins added : List Join) :
    mergeJoins (mergeJoins joins added) added = mergeJoins joins added :=
  mergeJoins_of_absorbed fun _ hk => insertJoin_mergeJoins (.inr hk)

/-! ## Fragments -/

theorem Fragment.foldl_join_joins (f : Fragment) (joins : List Join) :
    (joins.foldl Fragment.join f).joins = mergeJoins f.joins joins := by
  induction joins generalizing f with
  | nil => rfl
  | cons j joins ih => exact ih (f.join j)

theorem Fragment.merge_once {f : Fragment} (h : BindsOnce f.joins)
    (combination : Combination) (g : Fragment) :
    BindsOnce (f.merge combination g).joins := by
  have hmerged : BindsOnce (mergeJoins f.joins g.joins) :=
    ((IsMerge.refl h).merge g.joins).once
  cases combination with
  | all => exact hmerged
  | any => exact hmerged.map Join.leftened_sameBinding

/-- Fragments that have each binding once are combined to one that does so. -/
theorem combineFragments_once {combination : Combination}
    {fragments : List (Option Fragment)}
    (h : ∀ f, some f ∈ fragments → BindsOnce f.joins) {d : Fragment}
    (hd : combineFragments combination fragments = some d) :
    BindsOnce d.joins := by
  rw [← combineFragments_filterMap] at hd
  by_cases hne : fragments.filterMap id = []
  · rw [hne] at hd
    cases hd
  · have honce : ∀ f ∈ fragments.filterMap id, BindsOnce f.joins := fun f hf =>
      h f (by simpa using hf)
    obtain ⟨d', hd', honce'⟩ := combineFragments_induction
      (motive := fun _ d => BindsOnce d.joins) hne honce
      (fun _ _ _ _ hd _ => hd)
      (fun _ _ f _ hd _ => Fragment.merge_once hd combination f)
    rw [hd] at hd'
    exact Option.some.inj hd' ▸ honce'

/-- Joins that are added to a fragment, those of a fragment that is put onto a
select and those of fragments that are combined come out with each binding once;
the first two in the order in which the bindings came, and as left joins where
they came as left joins.  A fragment that is put onto a select for the second
time adds no join. -/
theorem Fragment.joins_accumulate :
    (∀ joins : List Join,
      Accumulates joins (joins.foldl Fragment.join .empty).joins) ∧
      (∀ (combination : Combination) (fragments : List (Option Fragment))
        (d : Fragment),
        (∀ f, some f ∈ fragments → BindsOnce f.joins) →
          combineFragments combination fragments = some d → BindsOnce d.joins) ∧
      (∀ (f : Fragment) (base : Select), BindsOnce base.joins →
        Accumulates (base.joins ++ f.joins) (f.applyTo base).joins) ∧
      ∀ (f : Fragment) (base : Select),
        (f.applyTo (f.applyTo base)).joins = (f.applyTo base).joins := by
  refine ⟨fun joins => ?_, fun combination fragments d honce hd =>
    combineFragments_once honce hd,
    fun f base honce => (Accumulates.refl honce).merge f.joins,
    fun f base => mergeJoins_again base.joins f.joins⟩
  rw [foldl_join_joins]
  exact (Accumulates.refl .nil).merge joins

/-- The comments on a titled post. -/
def titledPosts : Select :=
  onTitledPost.applyTo (.fromEntity (Entity.new "comment") "root")

theorem titledPosts_once : BindsOnce titledPosts.joins :=
  List.pairwise_singleton _ _

theorem onNoOrTitledPost_once :
    ∀ f, some f ∈ onNoOrTitledPost → BindsOnce f.joins := fun f hf =>
  (mergeable_onNoOrTitledPost.built f (by simpa using hf)).once

theorem Fragment.joins_accumulate_onNoPost :
    Accumulates (onTitledPost.joins ++ onNoPost.joins)
        ((onTitledPost.joins ++ onNoPost.joins).foldl Fragment.join
          .empty).joins ∧
      (∀ f, some f ∈ onNoOrTitledPost → BindsOnce f.joins) ∧
      (∃ d, combineFragments .any onNoOrTitledPost = some d ∧
        BindsOnce d.joins) ∧
      BindsOnce titledPosts.joins ∧
      Accumulates (titledPosts.joins ++ onNoPost.joins)
        (onNoPost.applyTo titledPosts).joins ∧
      (onNoPost.applyTo (onNoPost.applyTo titledPosts)).joins =
        (onNoPost.applyTo titledPosts).joins := by
  obtain ⟨hadded, hcombined, happlied, hagain⟩ := joins_accumulate
  exact ⟨hadded _, onNoOrTitledPost_once,
    ⟨_, rfl, hcombined .any onNoOrTitledPost _ onNoOrTitledPost_once rfl⟩,
    titledPosts_once, happlied onNoPost titledPosts titledPosts_once,
    hagain onNoPost titledPosts⟩

end RowGuard
