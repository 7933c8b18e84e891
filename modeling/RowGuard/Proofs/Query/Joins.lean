import Mathlib.Tactic.SplitIfs
import Mathlib.Tactic.Tauto
import RowGuard.Proofs.Query.Assignment

/-!
# Merged joins

`insertJoin` keeps each binding once.  `IsMerge joins merged` says what comes
out of any number of insertions: `merged` has every binding of `joins` once, and
as a left join exactly if one of `joins` brings it as a left join.  By
`IsMerge.mem_iff` the members of a merge depend on the set of the joins only,
not on their order.

* `IsMerge.insert` and `IsMerge.merge` are the steps.
* `Rooted.merge` and `IsMerge.nodup_aliases` carry the scoping of joins over to
  a merge.
-/

namespace RowGuard

/-! ## Bindings -/

namespace Join

/-- The join as a left join. -/
def leftened (j : Join) : Join := { j with kind := .left }

theorem sameBinding_iff {j k : Join} :
    j.sameBinding k = true ↔ j.leftened = k.leftened := by
  simp [sameBinding, leftened]

theorem sameBinding_refl (j : Join) : j.sameBinding j = true := by
  rw [sameBinding_iff]

theorem sameBinding_symm {j k : Join} (h : j.sameBinding k = true) :
    k.sameBinding j = true := by
  rw [sameBinding_iff] at h ⊢
  exact h.symm

theorem sameBinding_trans {i j k : Join} (hij : i.sameBinding j = true)
    (hjk : j.sameBinding k = true) : i.sameBinding k = true := by
  rw [sameBinding_iff] at hij hjk ⊢
  exact hij.trans hjk

theorem aliasName_eq_of_sameBinding {j k : Join} (h : j.sameBinding k = true) :
    j.aliasName = k.aliasName := by
  have heq := congrArg Join.aliasName (sameBinding_iff.1 h)
  exact heq

theorem parentAlias_eq_of_sameBinding {j k : Join}
    (h : j.sameBinding k = true) :
    j.parentAlias = k.parentAlias := by
  have heq := congrArg Join.parentAlias (sameBinding_iff.1 h)
  exact heq

/-- Joins of one binding are equal if they are left joins alike. -/
theorem eq_of_sameBinding {j k : Join} (h : j.sameBinding k = true)
    (hkind : j.kind = .left ↔ k.kind = .left) : j = k := by
  obtain ⟨kind, _, _, _, _, _, _⟩ := j
  obtain ⟨kind', _, _, _, _, _, _⟩ := k
  simp only [sameBinding_iff, leftened, mk.injEq, true_and] at h
  obtain rfl : kind = kind' := by
    cases kind <;> cases kind' <;> simp_all
  simp only [h]

@[simp] theorem leftened_leftened (j : Join) :
    j.leftened.leftened = j.leftened := rfl

theorem leftened_sameBinding (j : Join) : j.leftened.sameBinding j = true := by
  rw [sameBinding_iff, leftened_leftened]

/-- The join as it comes out of a merge: a left join if one of `joins` has its
binding as a left join. -/
def widened (joins : List Join) (j : Join) : Join :=
  { j with
    kind := if joins.any fun k => k.sameBinding j && k.kind == .left then .left
      else .inner }

theorem widened_sameBinding (joins : List Join) (j : Join) :
    (j.widened joins).sameBinding j = true := by
  rw [sameBinding_iff]
  rfl

theorem widened_kind_eq_left_iff {joins : List Join} {j : Join} :
    (j.widened joins).kind = .left ↔
      ∃ k ∈ joins, k.sameBinding j = true ∧ k.kind = .left := by
  simp [widened]

/-- What becomes of a join when `k` is inserted. -/
def absorb (k j : Join) : Join :=
  if j.sameBinding k then (if j.kind = k.kind then j else j.leftened) else j

theorem absorb_sameBinding (k j : Join) :
    (absorb k j).sameBinding j = true := by
  rw [absorb]
  split_ifs
  · exact sameBinding_refl j
  · exact leftened_sameBinding j
  · exact sameBinding_refl j

theorem absorb_kind_eq_left_iff {k j : Join} :
    (absorb k j).kind = .left ↔
      j.kind = .left ∨ k.sameBinding j = true ∧ k.kind = .left := by
  have hcomm : k.sameBinding j = j.sameBinding k :=
    Bool.eq_iff_iff.2 ⟨sameBinding_symm, sameBinding_symm⟩
  rw [absorb, hcomm]
  split_ifs with hsame hkind
  · simp [hsame, hkind]
  · cases hj : j.kind <;> cases hk : k.kind <;> simp_all [leftened]
  · simp [hsame]

end Join

/-! ## Inserting a join -/

/-- No two joins have one binding. -/
def BindsOnce (joins : List Join) : Prop :=
  joins.Pairwise fun j k => j.sameBinding k = false

theorem insertJoin_of_new {k : Join} {joins : List Join}
    (h : ∀ j ∈ joins, j.sameBinding k = false) :
    insertJoin k joins = joins ++ [k] := by
  induction joins with
  | nil => rfl
  | cons j joins ih =>
    rw [List.forall_mem_cons] at h
    simp [insertJoin, h.1, ih h.2]

/-- Joins that bind once are inserted as they are. -/
theorem mergeJoins_of_once {joins added : List Join}
    (h : BindsOnce (joins ++ added)) :
    mergeJoins joins added = joins ++ added := by
  induction added generalizing joins with
  | nil => simp [mergeJoins]
  | cons k added ih =>
    have hnew : ∀ j ∈ joins, j.sameBinding k = false := fun j hj =>
      (List.pairwise_append.1 h).2.2 j hj k (List.mem_cons_self ..)
    have happend : joins ++ k :: added = joins ++ [k] ++ added := by simp
    show mergeJoins (insertJoin k joins) added = _
    rw [insertJoin_of_new hnew, happend, ih (happend ▸ h)]

theorem insertJoin_of_bound {k : Join} {joins : List Join}
    (honce : BindsOnce joins) (h : ∃ j ∈ joins, j.sameBinding k = true) :
    insertJoin k joins = joins.map (Join.absorb k) := by
  induction joins with
  | nil => simp at h
  | cons j joins ih =>
    obtain ⟨hj, honce⟩ := List.pairwise_cons.1 honce
    by_cases hsame : j.sameBinding k = true
    · have hothers : joins.map (Join.absorb k) = joins := by
        refine (List.map_congr_left fun i hi => ?_).trans (List.map_id _)
        have hne : i.sameBinding k = false := by
          refine Bool.eq_false_iff.2 fun hi' => ?_
          have := Join.sameBinding_trans hsame (Join.sameBinding_symm hi')
          simp [hj i hi] at this
        simp [Join.absorb, hne]
      simp [insertJoin, hsame, Join.absorb, hothers, Join.leftened]
    · have hlater : ∃ i ∈ joins, i.sameBinding k = true := by
        obtain ⟨i, hi, hik⟩ := h
        rcases List.mem_cons.1 hi with rfl | hi
        · exact absurd hik hsame
        · exact ⟨i, hi, hik⟩
      simp [insertJoin, hsame, Join.absorb, ih honce hlater]

/-- A binding has one join. -/
theorem BindsOnce.eq_of_sameBinding {joins : List Join} (h : BindsOnce joins)
    {j k : Join} (hj : j ∈ joins) (hk : k ∈ joins)
    (hsame : j.sameBinding k = true) : j = k := by
  induction joins with
  | nil => cases hj
  | cons i joins ih =>
    obtain ⟨hi, h⟩ := List.pairwise_cons.1 h
    rcases List.mem_cons.1 hj with hji | hj' <;>
      rcases List.mem_cons.1 hk with hki | hk'
    · rw [hji, hki]
    · rw [hji, hi k hk'] at hsame
      cases hsame
    · have hij := Join.sameBinding_symm hsame
      rw [hki, hi j hj'] at hij
      cases hij
    · exact ih h hj' hk'

/-- A change of the joins that keeps their bindings keeps them distinct. -/
theorem BindsOnce.map {joins : List Join} (h : BindsOnce joins)
    {g : Join → Join} (hg : ∀ j, (g j).sameBinding j = true) :
    BindsOnce (joins.map g) := by
  refine List.pairwise_map.2 (List.Pairwise.imp (fun {j k} hjk => ?_) h)
  refine Bool.eq_false_iff.2 fun hsame => ?_
  have hjk' : j.sameBinding k = true :=
    Join.sameBinding_trans (Join.sameBinding_symm (hg j))
      (Join.sameBinding_trans hsame (hg k))
  simp [hjk] at hjk'

/-! ## Merges -/

/-- `merged` has each binding of `joins` once, as a left join exactly if one of
`joins` has it as a left join. -/
structure IsMerge (joins merged : List Join) : Prop where
  once : BindsOnce merged
  covers : ∀ j ∈ joins, ∃ m ∈ merged, m.sameBinding j = true
  source : ∀ m ∈ merged, ∃ j ∈ joins, j.sameBinding m = true
  left_iff : ∀ m ∈ merged,
    (m.kind = .left ↔ ∃ j ∈ joins, j.sameBinding m = true ∧ j.kind = .left)

namespace IsMerge

variable {joins merged : List Join}

/-- Joins that bind once are their own merge. -/
theorem refl (h : BindsOnce joins) : IsMerge joins joins where
  once := h
  covers j hj := ⟨j, hj, j.sameBinding_refl⟩
  source j hj := ⟨j, hj, j.sameBinding_refl⟩
  left_iff m hm := by
    refine ⟨fun hkind => ⟨m, hm, m.sameBinding_refl, hkind⟩, ?_⟩
    rintro ⟨j, hj, hsame, hkind⟩
    exact h.eq_of_sameBinding hj hm hsame ▸ hkind

/-- The members of a merge are the joins as `Join.widened` has them. -/
theorem mem_iff (h : IsMerge joins merged) {m : Join} :
    m ∈ merged ↔ ∃ j ∈ joins, m = j.widened joins := by
  have hwidened : ∀ m ∈ merged, ∀ j ∈ joins, m.sameBinding j = true →
      m = j.widened joins := by
    intro m hm j hj hsame
    have hbinding : m.sameBinding (j.widened joins) = true :=
      Join.sameBinding_trans hsame
        (Join.sameBinding_symm (j.widened_sameBinding joins))
    refine Join.eq_of_sameBinding hbinding ?_
    rw [h.left_iff m hm, Join.widened_kind_eq_left_iff]
    constructor
    · rintro ⟨k, hk, hkm, hkind⟩
      exact ⟨k, hk, Join.sameBinding_trans hkm hsame, hkind⟩
    · rintro ⟨k, hk, hkj, hkind⟩
      exact ⟨k, hk, Join.sameBinding_trans hkj (Join.sameBinding_symm hsame),
        hkind⟩
  constructor
  · intro hm
    obtain ⟨j, hj, hsame⟩ := h.source m hm
    exact ⟨j, hj, hwidened m hm j hj (Join.sameBinding_symm hsame)⟩
  · rintro ⟨j, hj, rfl⟩
    obtain ⟨m, hm, hsame⟩ := h.covers j hj
    exact hwidened m hm j hj hsame ▸ hm

/-- Inserting one more join. -/
theorem insert (h : IsMerge joins merged) (k : Join) :
    IsMerge (joins ++ [k]) (insertJoin k merged) := by
  by_cases hbound : ∃ m ∈ merged, m.sameBinding k = true
  · rw [insertJoin_of_bound h.once hbound]
    refine ⟨h.once.map (Join.absorb_sameBinding k), fun j hj => ?_,
      fun m hm => ?_, fun m hm => ?_⟩
    · obtain ⟨m, hm, hsame⟩ : ∃ m ∈ merged, m.sameBinding j = true := by
        rcases List.mem_append.1 hj with hj | hj
        · exact h.covers j hj
        · rwa [List.mem_singleton.1 hj]
      exact ⟨_, List.mem_map_of_mem hm,
        Join.sameBinding_trans (Join.absorb_sameBinding k m) hsame⟩
    · obtain ⟨i, hi, rfl⟩ := List.mem_map.1 hm
      obtain ⟨j, hj, hsame⟩ := h.source i hi
      exact ⟨j, List.mem_append_left _ hj,
        Join.sameBinding_trans hsame
          (Join.sameBinding_symm (Join.absorb_sameBinding k i))⟩
    · obtain ⟨i, hi, rfl⟩ := List.mem_map.1 hm
      have hsame := Join.sameBinding_iff.1 (Join.absorb_sameBinding k i)
      simp only [Join.absorb_kind_eq_left_iff, h.left_iff i hi, List.mem_append,
        List.mem_singleton, Join.sameBinding_iff, hsame]
      constructor
      · rintro (⟨j, hj, hjm⟩ | hk)
        · exact ⟨j, .inl hj, hjm⟩
        · exact ⟨k, .inr rfl, hk⟩
      · rintro ⟨j, hj | rfl, hjm⟩
        · exact .inl ⟨j, hj, hjm⟩
        · exact .inr hjm
  · simp only [not_exists, not_and, Bool.not_eq_true] at hbound
    rw [insertJoin_of_new hbound]
    have hnew : ∀ m ∈ merged, ¬ k.sameBinding m = true := fun m hm hsame => by
      simpa [hbound m hm] using Join.sameBinding_symm hsame
    refine ⟨?_, fun j hj => ?_, fun m hm => ?_, fun m hm => ?_⟩
    · refine List.pairwise_append.2
        ⟨h.once, List.pairwise_singleton _ _, fun m hm i hi => ?_⟩
      rw [List.mem_singleton.1 hi]
      exact hbound m hm
    · rcases List.mem_append.1 hj with hj | hj
      · obtain ⟨m, hm, hsame⟩ := h.covers j hj
        exact ⟨m, List.mem_append_left _ hm, hsame⟩
      · exact ⟨j, List.mem_append_right _ hj, j.sameBinding_refl⟩
    · rcases List.mem_append.1 hm with hm | hm
      · obtain ⟨j, hj, hsame⟩ := h.source m hm
        exact ⟨j, List.mem_append_left _ hj, hsame⟩
      · exact ⟨m, List.mem_append_right _ hm, m.sameBinding_refl⟩
    · rcases List.mem_append.1 hm with hm | hm
      · rw [h.left_iff m hm]
        simp [List.mem_append, or_and_right, exists_or, hnew m hm]
      · rw [List.mem_singleton.1 hm]
        constructor
        · exact fun hkind =>
            ⟨k, List.mem_append_right _ (List.mem_singleton_self k),
              k.sameBinding_refl, hkind⟩
        · rintro ⟨j, hj, hsame, hkind⟩
          rcases List.mem_append.1 hj with hj | hj
          · obtain ⟨m', hm', hsame'⟩ := h.covers j hj
            exact absurd
              (Join.sameBinding_symm (Join.sameBinding_trans hsame' hsame))
              (hnew m' hm')
          · rwa [← List.mem_singleton.1 hj]

/-- Merging a list of joins into a merge. -/
theorem merge (h : IsMerge joins merged) (added : List Join) :
    IsMerge (joins ++ added) (mergeJoins merged added) := by
  induction added generalizing joins merged with
  | nil => simpa [mergeJoins] using h
  | cons k added ih =>
    have := ih (h.insert k)
    simpa [mergeJoins, List.append_assoc] using this

/-- Merging the merged joins once more changes nothing. -/
theorem again (h : IsMerge joins merged) :
    IsMerge (joins ++ merged) merged where
  once := h.once
  covers j hj := by
    rcases List.mem_append.1 hj with hj | hj
    · exact h.covers j hj
    · exact ⟨j, hj, j.sameBinding_refl⟩
  source m hm := ⟨m, List.mem_append_right _ hm, m.sameBinding_refl⟩
  left_iff m hm := by
    refine ⟨fun hkind =>
      ⟨m, List.mem_append_right _ hm, m.sameBinding_refl, hkind⟩, ?_⟩
    rintro ⟨j, hj, hsame, hkind⟩
    rcases List.mem_append.1 hj with hj | hj
    · exact (h.left_iff m hm).2 ⟨j, hj, hsame, hkind⟩
    · exact h.once.eq_of_sameBinding hj hm hsame ▸ hkind

/-- The merge of left joins has left joins. -/
theorem leftened (h : IsMerge joins merged) :
    IsMerge (joins.map Join.leftened) (merged.map Join.leftened) where
  once := h.once.map Join.leftened_sameBinding
  covers j hj := by
    obtain ⟨i, hi, rfl⟩ := List.mem_map.1 hj
    obtain ⟨m, hm, hsame⟩ := h.covers i hi
    exact ⟨m.leftened, List.mem_map_of_mem hm, hsame⟩
  source m hm := by
    obtain ⟨i, hi, rfl⟩ := List.mem_map.1 hm
    obtain ⟨j, hj, hsame⟩ := h.source i hi
    exact ⟨j.leftened, List.mem_map_of_mem hj, hsame⟩
  left_iff m hm := by
    obtain ⟨i, hi, rfl⟩ := List.mem_map.1 hm
    obtain ⟨j, hj, hsame⟩ := h.source i hi
    exact ⟨fun _ => ⟨j.leftened, List.mem_map_of_mem hj, hsame, rfl⟩,
      fun _ => rfl⟩

end IsMerge

/-! ## Scoping of a merge -/

/-- Joins that share an alias have one binding. -/
def Unambiguous (joins : List Join) : Prop :=
  ∀ j ∈ joins, ∀ k ∈ joins, j.aliasName = k.aliasName → j.sameBinding k = true

theorem Unambiguous.mono {joins joins' : List Join} (h : Unambiguous joins')
    (hsub : ∀ j ∈ joins, j ∈ joins') : Unambiguous joins :=
  fun j hj k hk => h j (hsub j hj) k (hsub k hk)

/-- Joins are unambiguous if they have bindings of unambiguous ones. -/
theorem Unambiguous.of_source {joins merged : List Join} (h : Unambiguous joins)
    (hsource : ∀ m ∈ merged, ∃ j ∈ joins, j.sameBinding m = true) :
    Unambiguous merged := by
  intro m hm n hn halias
  obtain ⟨j, hj, hjm⟩ := hsource m hm
  obtain ⟨k, hk, hkn⟩ := hsource n hn
  have hjk : j.sameBinding k = true := by
    refine h j hj k hk ?_
    rw [Join.aliasName_eq_of_sameBinding hjm, halias,
      Join.aliasName_eq_of_sameBinding hkn]
  exact Join.sameBinding_trans (Join.sameBinding_symm hjm)
    (Join.sameBinding_trans hjk hkn)

/-- Joins have the aliases of the joins whose bindings they have. -/
theorem aliasName_ne_of_source {joins merged : List Join} {root : String}
    (hfree : ∀ j ∈ joins, j.aliasName ≠ root)
    (hsource : ∀ m ∈ merged, ∃ j ∈ joins, j.sameBinding m = true) :
    ∀ m ∈ merged, m.aliasName ≠ root := by
  intro m hm
  obtain ⟨j, hj, hsame⟩ := hsource m hm
  rw [← Join.aliasName_eq_of_sameBinding hsame]
  exact hfree j hj

/-- A merge of unambiguous joins binds every alias once. -/
theorem IsMerge.nodup_aliases {joins merged : List Join}
    (h : IsMerge joins merged) (hu : Unambiguous joins) :
    (merged.map Join.aliasName).Nodup := by
  refine List.pairwise_map.2
    (List.Pairwise.imp_of_mem (fun {m n} hm hn hmn => ?_) h.once)
  intro halias
  have hsame : m.sameBinding n = true := hu.of_source h.source m hm n hn halias
  simp [hmn] at hsame

/-- The aliases after an insertion. -/
theorem mem_aliases_insertJoin {x : String} {k : Join} {joins : List Join} :
    x ∈ (insertJoin k joins).map Join.aliasName ↔
      x ∈ joins.map Join.aliasName ∨ x = k.aliasName := by
  induction joins with
  | nil => simp [insertJoin]
  | cons j joins ih =>
    rw [insertJoin]
    split_ifs with hsame hkind
    · simp only [List.map_cons, List.mem_cons,
        Join.aliasName_eq_of_sameBinding hsame]
      tauto
    · simp only [List.map_cons, List.mem_cons,
        Join.aliasName_eq_of_sameBinding hsame]
      tauto
    · rw [List.map_cons, List.mem_cons, ih, List.map_cons,
        List.mem_cons, or_assoc]

/-- The aliases that a merge of joins binds. -/
theorem mem_aliases_mergeJoins {x : String} {joins added : List Join} :
    x ∈ (mergeJoins joins added).map Join.aliasName ↔
      x ∈ joins.map Join.aliasName ∨ x ∈ added.map Join.aliasName := by
  induction added generalizing joins with
  | nil => simp [mergeJoins]
  | cons k added ih =>
    show x ∈ (mergeJoins (insertJoin k joins) added).map Join.aliasName ↔ _
    rw [ih, mem_aliases_insertJoin, List.map_cons, List.mem_cons, or_assoc]

/-- One of the joins has the binding of another join. -/
def Binds (joins : List Join) (j : Join) : Prop :=
  ∃ k ∈ joins, k.sameBinding j = true

theorem binds_cons {i j : Join} {joins : List Join} :
    Binds (i :: joins) j ↔ i.sameBinding j = true ∨ Binds joins j := by
  simp [Binds]

/-- The bindings after an insertion. -/
theorem binds_insertJoin {j k : Join} {joins : List Join} :
    Binds (insertJoin k joins) j ↔ Binds joins j ∨ k.sameBinding j = true := by
  induction joins with
  | nil => simp [insertJoin, Binds]
  | cons i joins ih =>
    rw [insertJoin]
    split_ifs with hsame hkind
    · rw [binds_cons, Join.sameBinding_iff, Join.sameBinding_iff,
        Join.sameBinding_iff.1 hsame]
      tauto
    · have hleft : ({ i with kind := .left } : Join).leftened = k.leftened :=
        Join.sameBinding_iff.1 hsame
      simp only [binds_cons, Join.sameBinding_iff, hleft,
        Join.sameBinding_iff.1 hsame]
      tauto
    · rw [binds_cons, ih, binds_cons, or_assoc]

/-- The bindings of a merge of joins. -/
theorem binds_mergeJoins {j : Join} {joins added : List Join} :
    Binds (mergeJoins joins added) j ↔ Binds joins j ∨ Binds added j := by
  induction added generalizing joins with
  | nil => simp [mergeJoins, Binds]
  | cons k added ih =>
    show Binds (mergeJoins (insertJoin k joins) added) j ↔ _
    rw [ih, binds_insertJoin, binds_cons, or_assoc]

theorem binds_map_leftened {j : Join} {joins : List Join} :
    Binds (joins.map Join.leftened) j ↔ Binds joins j := by
  simp [Binds, Join.sameBinding_iff]

theorem Rooted.insert {bound : List String} {joins : List Join} {k : Join}
    (h : Rooted bound joins)
    (hk : k.parentAlias ∈ bound ∨ k.parentAlias ∈ joins.map Join.aliasName) :
    Rooted bound (insertJoin k joins) := by
  induction joins generalizing bound with
  | nil => exact ⟨by simpa using hk, trivial⟩
  | cons j joins ih =>
    rw [insertJoin]
    split_ifs with hsame hkind
    · exact h
    · exact h
    · refine ⟨h.1, ih h.2 ?_⟩
      rcases hk with hk | hk
      · exact .inl (List.mem_cons_of_mem _ hk)
      · rcases List.mem_cons.1 hk with heq | hk
        · exact .inl (heq ▸ List.mem_cons_self ..)
        · exact .inr hk

/-- Merged joins hang off bound aliases if both lists do. -/
theorem Rooted.merge {bound bound' : List String} {joins added : List Join}
    (h : Rooted bound joins) (hadded : Rooted bound' added)
    (hsub : ∀ x ∈ bound', x ∈ bound ∨ x ∈ joins.map Join.aliasName) :
    Rooted bound (mergeJoins joins added) := by
  induction added generalizing bound' joins with
  | nil => exact h
  | cons k added ih =>
    refine ih (h.insert (hsub _ hadded.1)) hadded.2 fun x hx => ?_
    rw [mem_aliases_insertJoin]
    rcases List.mem_cons.1 hx with rfl | hx
    · exact .inr (.inr rfl)
    · exact (hsub x hx).imp_right .inl

/-- A change of the joins that keeps aliases and parents keeps them rooted. -/
theorem Rooted.map {bound : List String} {joins : List Join}
    (h : Rooted bound joins) {g : Join → Join}
    (hg : ∀ j, (g j).sameBinding j = true) :
    Rooted bound (joins.map g) := by
  induction joins generalizing bound with
  | nil => trivial
  | cons j joins ih =>
    refine ⟨Join.parentAlias_eq_of_sameBinding (hg j) ▸ h.1, ?_⟩
    rw [Join.aliasName_eq_of_sameBinding (hg j)]
    exact ih h.2

end RowGuard
