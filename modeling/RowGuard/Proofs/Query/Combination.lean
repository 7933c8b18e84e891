import RowGuard.Proofs.Query.Joins
import RowGuard.Proofs.Query.Sameness

/-!
# What combined fragments admit

`combineFragments` merges fragments from left to right.  This module reads the
result off the fragments.

* `Fragment.Built` is what a fragment keeps while joins and filters are added to
  it.  `Mergeable` says in addition that the joins of several fragments do not
  clash.
* `combineFragments_induction` follows the merges: one fragment stands for
  itself, and each further one changes nothing or is merged.
* `Conjunction` and `Disjunction` are the invariants of the two kinds of merges.
* `Conjunction.admits_iff` and `Disjunction.admits_iff` say which rows the
  result admits.
* `combineFragments_any_admits` is the consequence that an `any` loses no row
  of its branches.
-/

namespace RowGuard

variable {db : Database} {root : String}

/-! ## Fragments as they are built -/

/-- Every binding is there once, every join hangs off the root or an earlier
join, and the filters read bound aliases. -/
structure Fragment.Built (root : String) (f : Fragment) : Prop where
  once : BindsOnce f.joins
  rooted : Rooted [root] f.joins
  bound : ∀ filter ∈ f.filters, ∀ x ∈ filter.aliases,
    x ∈ root :: f.joins.map Join.aliasName

/-- The fragment with left joins only. -/
def Fragment.leftened (f : Fragment) : Fragment :=
  { f with joins := f.joins.map Join.leftened }

theorem map_leftened_aliasName (joins : List Join) :
    (joins.map Join.leftened).map Join.aliasName =
      joins.map Join.aliasName := by
  rw [List.map_map]
  rfl

namespace Fragment.Built

variable {f g : Fragment}

theorem empty : Fragment.empty.Built root :=
  ⟨List.Pairwise.nil, trivial, by simp [Fragment.empty]⟩

theorem emptySet : Fragment.emptySet.Built root :=
  ⟨List.Pairwise.nil, trivial, by simp [Fragment.emptySet, Filter.aliases]⟩

/-- A join may be added that hangs off a bound alias. -/
theorem join (h : f.Built root) {j : Join}
    (hparent : j.parentAlias ∈ root :: f.joins.map Join.aliasName) :
    (f.join j).Built root where
  once := ((IsMerge.refl h.once).insert j).once
  rooted := by
    refine h.rooted.insert ?_
    rcases List.mem_cons.1 hparent with hroot | hbound
    · exact .inl (hroot ▸ List.mem_singleton_self _)
    · exact .inr hbound
  bound filter hfilter x hx := by
    rcases List.mem_cons.1 (h.bound filter hfilter x hx) with hroot | hbound
    · exact List.mem_cons.2 (.inl hroot)
    · exact List.mem_cons_of_mem _ (mem_aliases_insertJoin.2 (.inl hbound))

/-- A filter may be added that reads bound aliases. -/
theorem filter (h : f.Built root) {condition : Filter}
    (hbound : ∀ x ∈ condition.aliases, x ∈ root :: f.joins.map Join.aliasName) :
    (f.filter condition).Built root where
  once := h.once
  rooted := h.rooted
  bound other hother x hx := by
    rcases List.mem_append.1 hother with hother | hother
    · exact h.bound other hother x hx
    · rw [List.mem_singleton.1 hother] at hx
      exact hbound x hx

theorem leftened (h : f.Built root) : f.leftened.Built root where
  once := h.once.map Join.leftened_sameBinding
  rooted := h.rooted.map Join.leftened_sameBinding
  bound := by
    rw [Fragment.leftened, map_leftened_aliasName]
    exact h.bound

/-- A fragment whose joins do not clash is well-scoped. -/
theorem wellScoped (h : f.Built root) (hunambiguous : Unambiguous f.joins)
    (hfree : ∀ j ∈ f.joins, j.aliasName ≠ root) : f.WellScoped root where
  rooted := h.rooted
  nodup := by
    refine List.nodup_cons.2 ⟨fun hmem => ?_, ?_⟩
    · obtain ⟨j, hj, halias⟩ := List.mem_map.1 hmem
      exact hfree j hj halias
    · exact (IsMerge.refl h.once).nodup_aliases hunambiguous
  bound := h.bound

theorem aliases_predicate_bound (h : f.Built root) {x : String}
    (hx : x ∈ f.predicate.aliases) :
    x ∈ root :: f.joins.map Join.aliasName := by
  obtain ⟨filter, hfilter, hx⟩ := Fragment.aliases_predicate.1 hx
  exact h.bound filter hfilter x hx

end Fragment.Built

/-- Fragments on one root whose joins can be merged: those that share an alias
have one binding, and none uses the root. -/
structure Mergeable (root : String) (fs : List Fragment) : Prop where
  built : ∀ f ∈ fs, f.Built root
  unambiguous : Unambiguous (fs.flatMap Fragment.joins)
  root_free : ∀ j ∈ fs.flatMap Fragment.joins, j.aliasName ≠ root

theorem Mergeable.wellScoped {fs : List Fragment} (h : Mergeable root fs)
    {f : Fragment} (hf : f ∈ fs) : f.WellScoped root := by
  have hsub : ∀ j ∈ f.joins, j ∈ fs.flatMap Fragment.joins := fun j hj =>
    List.mem_flatMap.2 ⟨f, hf, hj⟩
  exact (h.built f hf).wellScoped (h.unambiguous.mono hsub) fun j hj =>
    h.root_free j (hsub j hj)

/-! ## The predicate of a merge -/

theorem Filter.forall_parts_all {filter : Filter} {a : Assignment} :
    (∀ part ∈ filter.parts .all, part.truth db a = .yes) ↔
      filter.truth db a = .yes := by
  cases filter with
  | and parts => exact Filter.truth_and_eq_yes_iff.symm
  | _ => simp [Filter.parts]

theorem Filter.exists_parts_any (filter : Filter) {a : Assignment} :
    (∃ part ∈ filter.parts .any, part.truth db a = .yes) ↔
      filter.truth db a = .yes := by
  cases filter with
  | or parts => exact Filter.truth_or_eq_yes_iff.symm
  | _ => simp [Filter.parts]

theorem Filter.aliases_parts {combination : Combination} {filter part : Filter}
    {x : String} (hpart : part ∈ filter.parts combination)
    (hx : x ∈ part.aliases) : x ∈ filter.aliases := by
  cases combination <;> cases filter
  case all.and | any.or => exact mem_filterAliases.2 ⟨part, hpart, hx⟩
  all_goals
    rw [List.mem_singleton.1 hpart] at hx
    exact hx

theorem Filter.aliases_ofParts {combination : Combination}
    {parts : List Filter} :
    (Filter.ofParts combination parts).aliases = filterAliases parts := by
  cases combination <;> simp [Filter.ofParts, Filter.aliases]

namespace Fragment

variable {f g : Fragment}

theorem truth_predicate_merge_all {a : Assignment} :
    (f.merge .all g).predicate.truth db a = .yes ↔
      f.predicate.truth db a = .yes ∧ g.predicate.truth db a = .yes := by
  show (Filter.and (f.predicate.parts .all ++ g.predicate.parts .all)).truth db
    a = .yes ↔ _
  rw [Filter.truth_and_eq_yes_iff, List.forall_mem_append,
    Filter.forall_parts_all, Filter.forall_parts_all]

theorem truth_predicate_merge_any {a : Assignment} :
    (f.merge .any g).predicate.truth db a = .yes ↔
      f.predicate.truth db a = .yes ∨ g.predicate.truth db a = .yes := by
  show (Filter.or (f.predicate.parts .any ++ g.predicate.parts .any)).truth db
    a = .yes ↔ _
  rw [Filter.truth_or_eq_yes_iff, ← f.predicate.exists_parts_any,
    ← g.predicate.exists_parts_any]
  simp only [List.mem_append, or_and_right, exists_or]

/-- The aliases that a merge of fragments binds. -/
theorem mem_aliases_merge {combination : Combination} {x : String} :
    x ∈ (f.merge combination g).joins.map Join.aliasName ↔
      x ∈ f.joins.map Join.aliasName ∨ x ∈ g.joins.map Join.aliasName := by
  cases combination with
  | all => exact mem_aliases_mergeJoins
  | any =>
    show x ∈ ((mergeJoins f.joins g.joins).map Join.leftened).map
      Join.aliasName ↔ _
    rw [map_leftened_aliasName]
    exact mem_aliases_mergeJoins

/-- The bindings of a merge of fragments. -/
theorem binds_merge {combination : Combination} {j : Join} :
    Binds (f.merge combination g).joins j ↔
      Binds f.joins j ∨ Binds g.joins j := by
  cases combination with
  | all => exact binds_mergeJoins
  | any =>
    show Binds ((mergeJoins f.joins g.joins).map Join.leftened) j ↔ _
    rw [binds_map_leftened]
    exact binds_mergeJoins

/-- A merge of fragments is built like the fragments. -/
theorem Built.merge (hf : f.Built root) (hg : g.Built root)
    (combination : Combination) :
    (f.merge combination g).Built root := by
  have honce : BindsOnce (mergeJoins f.joins g.joins) :=
    ((IsMerge.refl hf.once).merge g.joins).once
  have hrooted : Rooted [root] (mergeJoins f.joins g.joins) :=
    hf.rooted.merge hg.rooted fun _ hx => .inl hx
  refine ⟨?_, ?_, fun filter hfilter x hx => ?_⟩
  · cases combination with
    | all => exact honce
    | any => exact honce.map Join.leftened_sameBinding
  · cases combination with
    | all => exact hrooted
    | any => exact hrooted.map Join.leftened_sameBinding
  · rw [show filter = _ from List.mem_singleton.1 hfilter,
      Filter.aliases_ofParts] at hx
    obtain ⟨part, hpart, hx⟩ := mem_filterAliases.1 hx
    rw [List.mem_cons, mem_aliases_merge]
    rcases List.mem_append.1 hpart with hpart | hpart
    · have hbound := hf.aliases_predicate_bound (Filter.aliases_parts hpart hx)
      exact (List.mem_cons.1 hbound).imp_right .inl
    · have hbound := hg.aliases_predicate_bound (Filter.aliases_parts hpart hx)
      exact (List.mem_cons.1 hbound).imp_right .inr

end Fragment

/-! ## From left to right -/

/-- What holds of each single fragment, and is kept when a further one changes
nothing or is merged, holds of all fragments and what comes out of them. -/
theorem combineFragments_induction {combination : Combination}
    {motive : List Fragment → Fragment → Prop} {fs : List Fragment}
    (hfs : fs ≠ []) (single : ∀ f ∈ fs, motive [f] f)
    (skip : ∀ done d, ∀ f ∈ fs, motive done d → d.same f = true →
      motive (done ++ [f]) d)
    (merge : ∀ done d, ∀ f ∈ fs, motive done d → d.same f = false →
      motive (done ++ [f]) (d.merge combination f)) :
    ∃ d, combineFragments combination (fs.map some) = some d ∧ motive fs d := by
  have hrest : ∀ (rest done : List Fragment) (d : Fragment),
      (∀ f ∈ rest, f ∈ fs) →
      motive done d → ∃ d', rest.foldl (Fragment.mergeNext combination)
        (some d) = some d' ∧
        motive (done ++ rest) d' := by
    intro rest
    induction rest with
    | nil => exact fun done d _ hd => ⟨d, rfl, by rwa [List.append_nil]⟩
    | cons f rest ih =>
      intro done d hsub hd
      rw [List.forall_mem_cons] at hsub
      obtain ⟨d', hnext, hd'⟩ : ∃ d',
          Fragment.mergeNext combination (some d) f = some d' ∧
          motive (done ++ [f]) d' := by
        by_cases hsame : d.same f = true
        · exact ⟨d, if_pos hsame, skip done d f hsub.1 hd hsame⟩
        · refine ⟨d.merge combination f, if_neg hsame,
            merge done d f hsub.1 hd ?_⟩
          exact Bool.eq_false_iff.2 hsame
      rw [List.foldl_cons, hnext, List.append_cons done f rest]
      exact ih (done ++ [f]) d' hsub.2 hd'
  obtain ⟨f, rest, rfl⟩ := List.exists_cons_of_ne_nil hfs
  obtain ⟨d, hd, hmotive⟩ := hrest rest [f] f
    (fun g hg => List.mem_cons_of_mem _ hg) (single f (List.mem_cons_self ..))
  refine ⟨d, ?_, hmotive⟩
  rw [combineFragments, List.filterMap_map, Function.id_comp,
    List.filterMap_some]
  exact hd

/-! ## Conjunctions -/

/-- What a merge of kind `all` makes of fragments. -/
structure Conjunction (db : Database) (root : String) (fs : List Fragment)
    (d : Fragment) : Prop where
  built : d.Built root
  merged : IsMerge (fs.flatMap Fragment.joins) d.joins
  holds : ∀ a, d.predicate.truth db a = .yes ↔
    ∀ f ∈ fs, f.predicate.truth db a = .yes

theorem flatMap_joins_singleton (f : Fragment) :
    [f].flatMap Fragment.joins = f.joins := by
  simp

theorem flatMap_joins_concat (fs : List Fragment) (f : Fragment) :
    (fs ++ [f]).flatMap Fragment.joins =
      fs.flatMap Fragment.joins ++ f.joins := by
  simp

/-- Fragments are combined to a conjunction. -/
theorem combineFragments_all (db : Database) {fs : List Fragment}
    (hfs : fs ≠ []) (hbuilt : ∀ f ∈ fs, f.Built root) :
    ∃ d, combineFragments .all (fs.map some) = some d ∧
      Conjunction db root fs d := by
  refine combineFragments_induction hfs (fun f hf => ?_)
    (fun done d f hf hd hsame => ?_) fun done d f hf hd _ => ?_
  · refine ⟨hbuilt f hf, ?_, fun a => by simp⟩
    rw [flatMap_joins_singleton]
    exact .refl (hbuilt f hf).once
  · obtain ⟨hjoins, htruth⟩ := Fragment.truth_eq_of_same db hsame
    refine ⟨hd.built, ?_, fun a => ?_⟩
    · rw [flatMap_joins_concat, ← hjoins]
      exact hd.merged.again
    · rw [List.forall_mem_append, List.forall_mem_singleton, ← hd.holds a,
        htruth, and_self]
  · refine ⟨hd.built.merge (hbuilt f hf) .all, ?_, fun a => ?_⟩
    · rw [flatMap_joins_concat]
      exact hd.merged.merge f.joins
    · rw [Fragment.truth_predicate_merge_all, List.forall_mem_append,
        List.forall_mem_singleton, hd.holds a]

theorem Conjunction.wellScoped {fs : List Fragment} {d : Fragment}
    (hd : Conjunction db root fs d) (hfs : Mergeable root fs) :
    d.WellScoped root :=
  hd.built.wellScoped (hfs.unambiguous.of_source hd.merged.source)
    (aliasName_ne_of_source hfs.root_free hd.merged.source)

/-- A conjunction admits a row if one assignment makes all predicates true that
fits all joins, where a join is a left join if one fragment has it as such. -/
theorem Conjunction.admits_iff {fs : List Fragment} {d : Fragment}
    (hd : Conjunction db root fs d) (hfs : Mergeable root fs) {row : Row} :
    d.Admits db root row ↔ ∃ a, a root = row ∧
      (∀ j ∈ fs.flatMap Fragment.joins,
        (j.widened (fs.flatMap Fragment.joins)).Fits db a) ∧
      ∀ f ∈ fs, f.predicate.truth db a = .yes := by
  rw [Fragment.admits_iff_solved (hd.wellScoped hfs)]
  refine exists_congr fun a => and_congr_right fun _ => ?_
  constructor
  · rintro ⟨hfits, holds⟩
    exact ⟨fun j hj => hfits _ (hd.merged.mem_iff.2 ⟨j, hj, rfl⟩),
      (hd.holds a).1 holds⟩
  · rintro ⟨hfits, holds⟩
    refine ⟨fun m hm => ?_, (hd.holds a).2 holds⟩
    obtain ⟨j, hj, rfl⟩ := hd.merged.mem_iff.1 hm
    exact hfits j hj

/-! ## Disjunctions -/

/-- Whether all fragments are the same as the first one. -/
def uniform : List Fragment → Bool
  | [] => true
  | first :: rest => rest.all first.same

theorem uniform_concat {fs : List Fragment} {first : Fragment}
    (hfirst : fs.head? = some first) (f : Fragment) :
    uniform (fs ++ [f]) = (uniform fs && first.same f) := by
  cases fs with
  | nil => cases hfirst
  | cons g fs =>
    obtain rfl : g = first := Option.some.inj hfirst
    simp [uniform]

theorem not_uniform_concat {fs : List Fragment} (h : uniform fs = false)
    (f : Fragment) :
    uniform (fs ++ [f]) = false := by
  cases fs with
  | nil => cases h
  | cons g fs => rw [uniform_concat rfl, h, Bool.false_and]

/-- A fragment as it takes part in an `any`: with left joins, unless there is
nothing to merge. -/
def asBranch (fs : List Fragment) (f : Fragment) : Fragment :=
  if uniform fs then f else f.leftened

theorem asBranch_of_uniform {fs : List Fragment} (h : uniform fs = true)
    (f : Fragment) :
    asBranch fs f = f := by
  rw [asBranch, if_pos h]

theorem asBranch_of_not_uniform {fs : List Fragment} (h : uniform fs = false)
    (f : Fragment) :
    asBranch fs f = f.leftened := by
  rw [asBranch, h]
  rfl

/-- The joins that an `any` starts from. -/
def branchJoins (fs : List Fragment) : List Join :=
  fs.flatMap fun f => (asBranch fs f).joins

theorem branchJoins_of_uniform {fs : List Fragment} (h : uniform fs = true) :
    branchJoins fs = fs.flatMap Fragment.joins := by
  simp only [branchJoins, asBranch_of_uniform h]

theorem branchJoins_of_not_uniform {fs : List Fragment}
    (h : uniform fs = false) :
    branchJoins fs = (fs.flatMap Fragment.joins).map Join.leftened := by
  simp only [branchJoins, asBranch_of_not_uniform h, Fragment.leftened,
    List.map_flatMap]

theorem exists_of_mem_branchJoins {fs : List Fragment} {j : Join}
    (hj : j ∈ branchJoins fs) :
    ∃ i ∈ fs.flatMap Fragment.joins, i.sameBinding j = true := by
  cases hu : uniform fs with
  | true => exact ⟨j, branchJoins_of_uniform hu ▸ hj, j.sameBinding_refl⟩
  | false =>
    rw [branchJoins_of_not_uniform hu] at hj
    obtain ⟨i, hi, rfl⟩ := List.mem_map.1 hj
    exact ⟨i, hi, Join.sameBinding_symm i.leftened_sameBinding⟩

/-- What a merge of kind `any` makes of fragments. -/
structure Disjunction (db : Database) (root : String) (fs : List Fragment)
    (d : Fragment) : Prop where
  built : d.Built root
  merged : IsMerge (branchJoins fs) d.joins
  holds : ∀ a, d.predicate.truth db a = .yes ↔
    ∃ f ∈ fs, f.predicate.truth db a = .yes
  head : uniform fs = true → fs.head? = some d

namespace Disjunction

variable {fs : List Fragment} {d f : Fragment}

theorem single (hf : f.Built root) : Disjunction db root [f] f where
  built := hf
  merged := by
    rw [branchJoins_of_uniform rfl, flatMap_joins_singleton]
    exact .refl hf.once
  holds a := by simp
  head _ := rfl

/-- A fragment that is the same as what has been combined changes nothing. -/
theorem skip (hd : Disjunction db root fs d) (hsame : d.same f = true) :
    Disjunction db root (fs ++ [f]) d := by
  obtain ⟨hjoins, htruth⟩ := Fragment.truth_eq_of_same db hsame
  refine ⟨hd.built, ?_, fun a => ?_, fun huniform => ?_⟩
  · cases hu : uniform fs with
    | true =>
      have hu' : uniform (fs ++ [f]) = true := by
        rw [uniform_concat (hd.head hu), hu, hsame, Bool.true_and]
      rw [branchJoins_of_uniform hu', flatMap_joins_concat, ← hjoins,
        ← branchJoins_of_uniform hu]
      exact hd.merged.again
    | false =>
      have hleft : d.joins.map Join.leftened = d.joins := by
        refine (List.map_congr_left fun m hm => ?_).trans (List.map_id _)
        obtain ⟨j, hj, hsame⟩ := hd.merged.source m hm
        rw [branchJoins_of_not_uniform hu] at hj
        obtain ⟨i, -, rfl⟩ := List.mem_map.1 hj
        have hkind : m.kind = .left := (hd.merged.left_iff m hm).2
          ⟨i.leftened, by rw [branchJoins_of_not_uniform hu]; exact hj,
            hsame, rfl⟩
        rw [Join.leftened, ← hkind, id]
      rw [branchJoins_of_not_uniform (not_uniform_concat hu f),
        flatMap_joins_concat, List.map_append, ← hjoins, hleft,
        ← branchJoins_of_not_uniform hu]
      exact hd.merged.again
  · simp only [List.mem_append, List.mem_singleton, or_and_right, exists_or,
      exists_eq_left, ← hd.holds a, htruth, or_self]
  · cases hu : uniform fs with
    | true => rw [List.head?_append, hd.head hu, Option.some_or]
    | false => rw [not_uniform_concat hu] at huniform; cases huniform

/-- A fragment that is not the same is merged, and all joins become left
joins. -/
theorem merge (hd : Disjunction db root fs d) (hf : f.Built root)
    (hsame : d.same f = false) :
    Disjunction db root (fs ++ [f]) (d.merge .any f) := by
  have hu' : uniform (fs ++ [f]) = false := by
    cases hu : uniform fs with
    | true => rw [uniform_concat (hd.head hu), hsame, Bool.and_false]
    | false => exact not_uniform_concat hu f
  refine ⟨hd.built.merge hf .any, ?_, fun a => ?_, fun huniform => ?_⟩
  · have hmerged := (hd.merged.merge f.joins).leftened
    rw [branchJoins_of_not_uniform hu', flatMap_joins_concat]
    cases hu : uniform fs with
    | true => rwa [branchJoins_of_uniform hu] at hmerged
    | false =>
      rw [branchJoins_of_not_uniform hu, List.map_append, List.map_map]
        at hmerged
      rw [List.map_append]
      exact hmerged
  · simp only [Fragment.truth_predicate_merge_any, hd.holds a, List.mem_append,
      List.mem_singleton, or_and_right, exists_or, exists_eq_left]
  · rw [hu'] at huniform
    cases huniform

end Disjunction

/-- Fragments are combined to a disjunction. -/
theorem combineFragments_any (db : Database) {fs : List Fragment}
    (hfs : fs ≠ []) (hbuilt : ∀ f ∈ fs, f.Built root) :
    ∃ d, combineFragments .any (fs.map some) = some d ∧
      Disjunction db root fs d :=
  combineFragments_induction hfs (fun f hf => .single (hbuilt f hf))
    (fun _ _ _ _ hd hsame => hd.skip hsame)
    fun _ _ f hf hd hsame => hd.merge (hbuilt f hf) hsame

/-! ## What a disjunction admits -/

namespace Fragment

variable {f g : Fragment} {row : Row}

/-- Fragments that are the same admit the same rows. -/
theorem admits_iff_of_same (hsame : f.same g = true) :
    f.Admits db root row ↔ g.Admits db root row := by
  obtain ⟨hjoins, htruth⟩ := Fragment.truth_eq_of_same db hsame
  simp only [Fragment.Admits, ← Fragment.truth_predicate_eq_yes_iff,
    hjoins, htruth]

theorem WellScoped.leftened (h : f.WellScoped root) :
    f.leftened.WellScoped root where
  rooted := h.rooted.map Join.leftened_sameBinding
  nodup := by
    rw [Fragment.leftened, map_leftened_aliasName]
    exact h.nodup
  bound := by
    rw [Fragment.leftened, map_leftened_aliasName]
    exact h.bound

/-- Left joins lose no row. -/
theorem Admits.leftened (h : f.WellScoped root)
    (hadmits : f.Admits db root row) :
    f.leftened.Admits db root row := by
  obtain ⟨a, hroot, hfits, holds⟩ := (Fragment.admits_iff_solved h).1 hadmits
  refine (Fragment.admits_iff_solved h.leftened).2
    ⟨a, hroot, fun j hj => ?_, holds⟩
  obtain ⟨i, hi, rfl⟩ := List.mem_map.1 hj
  exact Join.mem_candidates_left (hfits i hi)

/-- A fragment whose joins are left joins admits a row if a fragment does that
has these joins and more of them, and whose predicate is true where that of the
first one is. -/
theorem Admits.extend {d : Fragment} (hf : f.WellScoped root)
    (hd : d.WellScoped root) (hleft : ∀ j ∈ d.joins, j.kind = .left)
    (hjoins : ∀ j ∈ d.joins, j.aliasName ∈ f.joins.map Join.aliasName →
      j ∈ f.joins)
    (holds : ∀ a, f.predicate.truth db a = .yes → d.predicate.truth db a = .yes)
    (hadmits : f.Admits db root row) : d.Admits db root row := by
  obtain ⟨a, hroot, ha⟩ := (Fragment.admits_iff_solved hf).1 hadmits
  have hfresh : ∀ j ∈ d.joins, j.aliasName ∉ [root] := fun j hj hmem =>
    hd.alias_ne_root hj (List.mem_singleton.1 hmem)
  obtain ⟨b, hsame, hfits⟩ := exists_fits_of_left db a
    (· ∈ f.joins.map Join.aliasName) hd.rooted hfresh
    (List.nodup_cons.1 hd.nodup).2 hleft fun j hj hkept => by
      refine ⟨ha.fits j (hjoins j hj hkept), ?_⟩
      rcases List.mem_cons.1 (hf.parent_mem (hjoins j hj hkept)) with
        hparent | hparent
      · exact .inr (List.mem_singleton.2 hparent)
      · exact .inl hparent
  have hb : f.SolvedBy db b :=
    hf.solvedBy_congr (fun x hx => (hsame x ?_).symm) ha
  · refine (Fragment.admits_iff_solved hd).2 ⟨b, ?_, hfits, holds b hb.holds⟩
    rw [hsame root (.inr (List.mem_singleton_self _)), hroot]
  · rcases List.mem_cons.1 hx with rfl | hx
    · exact .inr (List.mem_singleton_self _)
    · exact .inl hx

end Fragment

namespace Disjunction

variable {fs : List Fragment} {d : Fragment} {row : Row}

theorem unambiguous (hd : Disjunction db root fs d) (hfs : Mergeable root fs) :
    Unambiguous d.joins := by
  have hbranches : Unambiguous (branchJoins fs) :=
    hfs.unambiguous.of_source fun _ => exists_of_mem_branchJoins
  exact hbranches.of_source hd.merged.source

theorem wellScoped (hd : Disjunction db root fs d) (hfs : Mergeable root fs) :
    d.WellScoped root := by
  have hfree : ∀ j ∈ branchJoins fs, j.aliasName ≠ root :=
    aliasName_ne_of_source hfs.root_free fun _ => exists_of_mem_branchJoins
  exact hd.built.wellScoped (hd.unambiguous hfs)
    (aliasName_ne_of_source hfree hd.merged.source)

/-- If two fragments differ, the joins are those of the fragments as left
joins. -/
theorem mem_joins_iff (hd : Disjunction db root fs d) (hu : uniform fs = false)
    {m : Join} :
    m ∈ d.joins ↔ ∃ f ∈ fs, m ∈ f.leftened.joins := by
  have hwidened : ∀ j ∈ branchJoins fs, j.widened (branchJoins fs) = j := by
    intro j hj
    refine Join.eq_of_sameBinding (Join.widened_sameBinding _ j) ?_
    rw [Join.widened_kind_eq_left_iff]
    have hkind : j.kind = .left := by
      rw [branchJoins_of_not_uniform hu] at hj
      obtain ⟨i, -, rfl⟩ := List.mem_map.1 hj
      rfl
    exact ⟨fun _ => hkind, fun _ => ⟨j, hj, j.sameBinding_refl, hkind⟩⟩
  have hmem : m ∈ branchJoins fs ↔ ∃ f ∈ fs, m ∈ f.leftened.joins := by
    simp only [branchJoins, asBranch_of_not_uniform hu, List.mem_flatMap]
  rw [hd.merged.mem_iff, ← hmem]
  constructor
  · rintro ⟨j, hj, rfl⟩
    rwa [hwidened j hj]
  · exact fun hm => ⟨m, hm, (hwidened m hm).symm⟩

/-- A disjunction admits the rows that one of its branches admits. -/
theorem admits_iff (hd : Disjunction db root fs d) (hfs : Mergeable root fs) :
    d.Admits db root row ↔ ∃ f ∈ fs, (asBranch fs f).Admits db root row := by
  cases hu : uniform fs with
  | true =>
    simp only [asBranch_of_uniform hu]
    have hhead := hd.head hu
    refine ⟨fun hadmits => ⟨d, List.mem_of_head? hhead, hadmits⟩, ?_⟩
    rintro ⟨f, hf, hadmits⟩
    obtain ⟨rest, rfl⟩ := List.head?_eq_some_iff.1 hhead
    rcases List.mem_cons.1 hf with rfl | hf
    · exact hadmits
    · rw [uniform, List.all_eq_true] at hu
      exact (Fragment.admits_iff_of_same (hu f hf)).2 hadmits
  | false =>
    simp only [asBranch_of_not_uniform hu]
    have hleft : ∀ j ∈ d.joins, j.kind = .left := by
      intro j hj
      obtain ⟨f, -, hj⟩ := (hd.mem_joins_iff hu).1 hj
      obtain ⟨i, -, rfl⟩ := List.mem_map.1 hj
      rfl
    constructor
    · intro hadmits
      obtain ⟨a, hroot, hfits, holds⟩ :=
        (Fragment.admits_iff_solved (hd.wellScoped hfs)).1 hadmits
      obtain ⟨f, hf, holds⟩ := (hd.holds a).1 holds
      refine ⟨f, hf, (Fragment.admits_iff_solved (hfs.wellScoped hf).leftened).2
        ⟨a, hroot, fun j hj => ?_, holds⟩⟩
      exact hfits j ((hd.mem_joins_iff hu).2 ⟨f, hf, hj⟩)
    · rintro ⟨f, hf, hadmits⟩
      refine hadmits.extend (hfs.wellScoped hf).leftened
        (hd.wellScoped hfs) hleft
        (fun j hj hmem => ?_) fun a holds => (hd.holds a).2 ⟨f, hf, holds⟩
      -- a join of `f` under the alias of `j` has its binding and is a left
      -- join, too
      obtain ⟨k, hk, halias⟩ := List.mem_map.1 hmem
      have hk' : k ∈ d.joins := (hd.mem_joins_iff hu).2 ⟨f, hf, hk⟩
      have hsame : k.sameBinding j = true :=
        hd.unambiguous hfs k hk' j hj halias
      have hkind : k.kind = .left ↔ j.kind = .left := by
        simp only [hleft k hk', hleft j hj]
      exact Join.eq_of_sameBinding hsame hkind ▸ hk

end Disjunction

/-! ## Inner joins that became left joins -/

/-- A join that fits as a left join fits as an inner join, too, if it finds a
row. -/
theorem Join.fits_of_matched {j k : Join} {a : Assignment}
    (hsame : k.sameBinding j = true) (hleft : j.kind = .left → k.kind = .left)
    (hk : k.Fits db a) (hmatched : j.kind = .inner → j.found db a ≠ []) :
    j.Fits db a := by
  cases hkind : j.kind with
  | left =>
    have hkj : k = j :=
      Join.eq_of_sameBinding hsame (by simp only [hkind, hleft hkind])
    exact hkj ▸ hk
  | inner =>
    have hfound : k.found db a = j.found db a := by
      obtain ⟨kind, _, _, _, _, _, _⟩ := j
      obtain ⟨kind', _, _, _, _, _, _⟩ := k
      simp only [Join.sameBinding_iff, Join.leftened, Join.mk.injEq, true_and]
        at hsame
      obtain ⟨rfl, rfl, rfl, rfl, rfl, rfl⟩ := hsame
      rfl
    have hne : k.found db a ≠ [] := hfound ▸ hmatched hkind
    rw [Join.Fits, Join.mem_candidates_inner hkind, ← hfound,
      ← Join.aliasName_eq_of_sameBinding hsame]
    rw [Join.Fits, Join.candidates] at hk
    split at hk
    · next hnil _ => exact absurd hnil hne
    · next hnil _ => exact absurd hnil hne
    · exact hk

/-- An assignment solves a fragment if it solves it with left joins and every
inner join finds a row. -/
theorem Fragment.SolvedBy.of_leftened {f : Fragment} {a : Assignment}
    (ha : f.leftened.SolvedBy db a)
    (hmatched : ∀ j ∈ f.joins, j.kind = .inner → j.found db a ≠ []) :
    f.SolvedBy db a where
  fits j hj := Join.fits_of_matched j.leftened_sameBinding (fun _ => rfl)
    (ha.fits j.leftened (List.mem_map_of_mem hj)) (hmatched j hj)
  holds := ha.holds

/-- An assignment that solves a conjunction solves one of fewer fragments, if
every inner join of the latter finds a row. -/
theorem Conjunction.solvedBy_of_subset {fs fs' : List Fragment}
    {d d' : Fragment} (hd : Conjunction db root fs d)
    (hd' : Conjunction db root fs' d') (hsub : fs ⊆ fs') {a : Assignment}
    (ha : d'.SolvedBy db a)
    (hmatched : ∀ j ∈ d.joins, j.kind = .inner → j.found db a ≠ []) :
    d.SolvedBy db a where
  fits m hm := by
    obtain ⟨j, hj, rfl⟩ := hd.merged.mem_iff.1 hm
    have hsub' : ∀ k ∈ fs.flatMap Fragment.joins,
        k ∈ fs'.flatMap Fragment.joins := by
      intro k hk
      obtain ⟨f, hf, hk⟩ := List.mem_flatMap.1 hk
      exact List.mem_flatMap.2 ⟨f, hsub hf, hk⟩
    have hfits : (j.widened (fs'.flatMap Fragment.joins)).Fits db a :=
      ha.fits _ (hd'.merged.mem_iff.2 ⟨j, hsub' j hj, rfl⟩)
    refine Join.fits_of_matched (k := j.widened (fs'.flatMap Fragment.joins)) ?_
      (fun hleft => ?_) hfits (hmatched _ hm)
    · exact Join.sameBinding_trans (Join.widened_sameBinding _ j)
        (Join.sameBinding_symm (Join.widened_sameBinding _ j))
    · obtain ⟨k, hk, hkj, hkind⟩ := Join.widened_kind_eq_left_iff.1 hleft
      exact Join.widened_kind_eq_left_iff.2 ⟨k, hsub' k hk, hkj, hkind⟩
  holds := (hd.holds a).2 fun f hf => (hd'.holds a).1 ha.holds f (hsub hf)

/-! ## An `any` loses no row -/

/-- A row that one of the fragments admits is admitted by their `any`. -/
theorem combineFragments_any_admits {fs : List Fragment}
    (hfs : Mergeable root fs) {f : Fragment} (hf : f ∈ fs) {row : Row}
    (hadmits : f.Admits db root row) :
    ∃ d, combineFragments .any (fs.map some) = some d ∧
      d.Admits db root row := by
  have hne : fs ≠ [] := List.ne_nil_of_mem hf
  obtain ⟨d, hcombined, hd⟩ := combineFragments_any db hne hfs.built
  refine ⟨d, hcombined, (hd.admits_iff hfs).2 ⟨f, hf, ?_⟩⟩
  rw [asBranch]
  split
  · exact hadmits
  · exact hadmits.leftened (hfs.wellScoped hf)

/-- The comments on a post with the title `x`. -/
def onTitledPost : Fragment where
  joins := [⟨.inner, "post", "post", "root__post", "id", "root", "post_id"⟩]
  filters := [.comparison "root__post" "title" .eq (.string "x")]

/-- The comments with the body `y`. -/
def withBody : Fragment where
  joins := []
  filters := [.comparison "root" "body" .eq (.string "y")]

/-- A comment whose post is missing, and which is on no titled one. -/
def orphan : Row := fun column =>
  if column = "body" then .string "y" else if column = "post_id" then .int64 7
    else .null

theorem mergeable_onTitledPost_withBody :
    Mergeable "root" [onTitledPost, withBody] where
  built := by
    simp only [List.forall_mem_cons, List.not_mem_nil, false_implies,
      implies_true, and_true]
    refine ⟨⟨List.pairwise_singleton _ _, by simp [Rooted, onTitledPost], ?_⟩,
      ⟨List.Pairwise.nil, trivial, ?_⟩⟩
    · simp [onTitledPost, Filter.aliases]
    · simp [withBody, Filter.aliases]
  unambiguous := by simp [Unambiguous, onTitledPost, withBody, Join.sameBinding]
  root_free := by simp [onTitledPost, withBody]

theorem combineFragments_any_admits_orphan :
    Mergeable "root" [onTitledPost, withBody] ∧
      withBody ∈ [onTitledPost, withBody] ∧
      withBody.Admits ⟨.comparator, fun _ => []⟩ "root" orphan ∧
      ∃ d, combineFragments .any ([onTitledPost, withBody].map some) = some d ∧
        d.Admits ⟨.comparator, fun _ => []⟩ "root" orphan := by
  have hmem : withBody ∈ [onTitledPost, withBody] :=
    List.mem_cons_of_mem _ (List.mem_cons_self ..)
  have hadmits : withBody.Admits ⟨.comparator, fun _ => []⟩ "root" orphan := by
    refine ⟨_, List.mem_singleton_self _, fun filter hfilter => ?_⟩
    rw [List.mem_singleton.1 hfilter]
    decide +kernel
  exact ⟨mergeable_onTitledPost_withBody, hmem, hadmits,
    combineFragments_any_admits mergeable_onTitledPost_withBody hmem hadmits⟩

end RowGuard
