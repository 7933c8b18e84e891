import RowGuard.Proofs.Query.Combination

/-!
# Joins that bind one row

Where every join, taken as a left join, binds one row only, and no row of nulls
makes the filters true, a fragment admits a row for one reason: `Functional`
says so of a fragment and a row of the root.  Merges keep it.

* `Conjunction.admits_iff_forall`: an `all` of such fragments admits what all of
  them admit.  The assignments of the fragments are parts of one.
* `Disjunction.admits_iff_exists`: an `any` admits what one of them admits.  Its
  left joins reveal nothing, since no filter is true of missing rows.
-/

namespace RowGuard

variable {db : Database} {root : String}

/-! ## Lists with the same bindings -/

/-- Each join of one list has its binding in the other. -/
structure SameBindings (joins merged : List Join) : Prop where
  covers : ∀ j ∈ joins, ∃ m ∈ merged, m.sameBinding j = true
  source : ∀ m ∈ merged, ∃ j ∈ joins, j.sameBinding m = true

namespace SameBindings

variable {joins merged : List Join}

theorem unambiguous (h : SameBindings joins merged) (hu : Unambiguous merged) :
    Unambiguous joins := by
  intro j hj k hk halias
  obtain ⟨m, hm, hmj⟩ := h.covers j hj
  obtain ⟨n, hn, hnk⟩ := h.covers k hk
  have hmn : m.sameBinding n = true := by
    refine hu m hm n hn ?_
    rw [Join.aliasName_eq_of_sameBinding hmj,
      Join.aliasName_eq_of_sameBinding hnk, halias]
  exact Join.sameBinding_trans (Join.sameBinding_symm hmj)
    (Join.sameBinding_trans hmn hnk)

/-- As left joins, both lists fit the same assignments. -/
theorem fits_iff (h : SameBindings joins merged) {a : Assignment} :
    (∀ m ∈ merged, m.leftened.Fits db a) ↔
      ∀ j ∈ joins, j.leftened.Fits db a := by
  constructor
  · intro hfits j hj
    obtain ⟨m, hm, hsame⟩ := h.covers j hj
    exact Join.sameBinding_iff.1 hsame ▸ hfits m hm
  · intro hfits m hm
    obtain ⟨j, hj, hsame⟩ := h.source m hm
    exact Join.sameBinding_iff.1 hsame ▸ hfits j hj

end SameBindings

theorem Conjunction.sameBindings {fs : List Fragment} {d : Fragment}
    (hd : Conjunction db root fs d) :
    SameBindings (fs.flatMap Fragment.joins) d.joins :=
  ⟨hd.merged.covers, hd.merged.source⟩

theorem Disjunction.sameBindings {fs : List Fragment} {d : Fragment}
    (hd : Disjunction db root fs d) :
    SameBindings (fs.flatMap Fragment.joins) d.joins where
  covers j hj := by
    cases hu : uniform fs with
    | true =>
      refine hd.merged.covers j ?_
      rwa [branchJoins_of_uniform hu]
    | false =>
      obtain ⟨m, hm, hsame⟩ := hd.merged.covers j.leftened (by
        rw [branchJoins_of_not_uniform hu]
        exact List.mem_map_of_mem hj)
      exact ⟨m, hm, Join.sameBinding_trans hsame j.leftened_sameBinding⟩
  source m hm := by
    obtain ⟨j, hj, hsame⟩ := hd.merged.source m hm
    obtain ⟨i, hi, hsame'⟩ := exists_of_mem_branchJoins hj
    exact ⟨i, hi, Join.sameBinding_trans hsame' hsame⟩

/-- A join that fits still fits as it comes out of a merge. -/
theorem Join.fits_widened {joins : List Join} {j : Join} {a : Assignment}
    (hj : j ∈ joins) (hfits : j.Fits db a) : (j.widened joins).Fits db a := by
  have hsame := Join.widened_sameBinding joins j
  by_cases hkind : (j.widened joins).kind = .left
  · have heq : j.widened joins = j.leftened := by
      refine Join.eq_of_sameBinding ?_ ⟨fun _ => rfl, fun _ => hkind⟩
      exact Join.sameBinding_trans hsame
        (Join.sameBinding_symm j.leftened_sameBinding)
    rw [heq]
    exact Join.mem_candidates_left hfits
  · have heq : j.widened joins = j := by
      refine Join.eq_of_sameBinding hsame ⟨fun h => absurd h hkind, fun h => ?_⟩
      exact absurd
        (Join.widened_kind_eq_left_iff.2 ⟨j, hj, j.sameBinding_refl, h⟩) hkind
    rwa [heq]

/-! ## Functional fragments -/

/-- Left joins bind in one way only what the joins of the fragment bind from a
row of the root, and where the filters are true the inner joins have found a
row. -/
structure Fragment.Functional (db : Database) (root : String) (row : Row)
    (f : Fragment) : Prop where
  determined : ∀ a b : Assignment, a root = row → b root = row →
    (∀ j ∈ f.joins, j.leftened.Fits db a) →
    (∀ j ∈ f.joins, j.leftened.Fits db b) →
      ∀ j ∈ f.joins, a j.aliasName = b j.aliasName
  matched : ∀ a : Assignment, a root = row →
    f.leftened.SolvedBy db a → f.SolvedBy db a

namespace Fragment

variable {f : Fragment} {row : Row} {a b : Assignment}

theorem leftened_solvedBy_iff :
    f.leftened.SolvedBy db a ↔
      (∀ j ∈ f.joins, j.leftened.Fits db a) ∧
        f.predicate.truth db a = .yes := by
  constructor
  · exact fun h => ⟨fun j hj => h.fits _ (List.mem_map_of_mem hj), h.holds⟩
  · rintro ⟨hfits, holds⟩
    refine ⟨fun m hm => ?_, holds⟩
    obtain ⟨j, hj, rfl⟩ := List.mem_map.1 hm
    exact hfits j hj

theorem SolvedBy.leftened (h : f.SolvedBy db a) : f.leftened.SolvedBy db a :=
  leftened_solvedBy_iff.2
    ⟨fun j hj => Join.mem_candidates_left (h.fits j hj), h.holds⟩

/-- An assignment that fits left joins solves what another one from the same row
solves. -/
theorem Functional.solvedBy (hf : f.Functional db root row)
    (hscoped : f.WellScoped root) (ha : a root = row)
    (hsolved : f.SolvedBy db a) (hb : b root = row)
    (hfits : ∀ j ∈ f.joins, j.leftened.Fits db b) : f.SolvedBy db b := by
  have hleft := (leftened_solvedBy_iff.1 hsolved.leftened).1
  refine hscoped.solvedBy_congr (fun x hx => ?_) hsolved
  rcases List.mem_cons.1 hx with rfl | hx
  · rw [ha, hb]
  · obtain ⟨j, hj, rfl⟩ := List.mem_map.1 hx
    exact hf.determined a b ha hb hleft hfits j hj

/-- From every row of the root left joins lead to an assignment. -/
theorem WellScoped.exists_fits (hscoped : f.WellScoped root) (db : Database)
    (row : Row) :
    ∃ b : Assignment, b root = row ∧ ∀ j ∈ f.joins, j.leftened.Fits db b := by
  have hleft := hscoped.leftened
  obtain ⟨b, hsame, hfits⟩ := exists_fits_of_left db (.start root row)
    (fun _ => False)
    hleft.rooted
    (fun j hj hmem => hleft.alias_ne_root hj (List.mem_singleton.1 hmem))
    (List.nodup_cons.1 hleft.nodup).2
    (fun j hj => by obtain ⟨i, -, rfl⟩ := List.mem_map.1 hj; rfl)
    (fun _ _ => False.elim)
  refine ⟨b, ?_, fun j hj => hfits _ (List.mem_map_of_mem hj)⟩
  rw [hsame root (.inr (List.mem_singleton_self _))]
  simp [Assignment.start]

/-- Whether the joins of a functional fragment are left joins makes no
difference. -/
theorem Functional.admits_leftened_iff (hf : f.Functional db root row)
    (hscoped : f.WellScoped root) : f.leftened.Admits db root row ↔
      f.Admits db root row := by
  refine ⟨fun hadmits => ?_, fun hadmits => hadmits.leftened hscoped⟩
  obtain ⟨a, ha, hsolved⟩ := (admits_iff_solved hscoped.leftened).1 hadmits
  exact (admits_iff_solved hscoped).2 ⟨a, ha, hf.matched a ha hsolved⟩

/-- Fragments with the bindings of functional ones bind in one way, too. -/
theorem determined_of_sameBindings {fs : List Fragment} {d : Fragment}
    (hd : SameBindings (fs.flatMap Fragment.joins) d.joins)
    (hfs : ∀ f ∈ fs, f.Functional db root row) (ha : a root = row)
    (hb : b root = row) (hfitsa : ∀ m ∈ d.joins, m.leftened.Fits db a)
    (hfitsb : ∀ m ∈ d.joins, m.leftened.Fits db b) :
    ∀ m ∈ d.joins, a m.aliasName = b m.aliasName := by
  intro m hm
  obtain ⟨j, hj, hsame⟩ := hd.source m hm
  obtain ⟨f, hf, hj⟩ := List.mem_flatMap.1 hj
  have hsub : ∀ i ∈ f.joins, i ∈ fs.flatMap Fragment.joins := fun i hi =>
    List.mem_flatMap.2 ⟨f, hf, hi⟩
  rw [← Join.aliasName_eq_of_sameBinding hsame]
  exact (hfs f hf).determined a b ha hb
    (fun i hi => hd.fits_iff.1 hfitsa i (hsub i hi))
    (fun i hi => hd.fits_iff.1 hfitsb i (hsub i hi)) j hj

end Fragment

/-! ## Conjunctions of functional fragments -/

namespace Conjunction

variable {fs : List Fragment} {d : Fragment} {row : Row} {a : Assignment}

/-- With left joins a conjunction is solved if all fragments are. -/
theorem leftened_solvedBy_iff (hd : Conjunction db root fs d) :
    d.leftened.SolvedBy db a ↔ ∀ f ∈ fs, f.leftened.SolvedBy db a := by
  simp only [Fragment.leftened_solvedBy_iff, hd.sameBindings.fits_iff, hd.holds]
  constructor
  · rintro ⟨hfits, holds⟩ f hf
    exact ⟨fun j hj => hfits j (List.mem_flatMap.2 ⟨f, hf, hj⟩), holds f hf⟩
  · refine fun h => ⟨fun j hj => ?_, fun f hf => (h f hf).2⟩
    obtain ⟨f, hf, hj⟩ := List.mem_flatMap.1 hj
    exact (h f hf).1 j hj

/-- A conjunction is solved if all fragments are. -/
theorem solvedBy_of_forall (hd : Conjunction db root fs d)
    (hsolved : ∀ f ∈ fs, f.SolvedBy db a) : d.SolvedBy db a where
  fits m hm := by
    obtain ⟨j, hj, rfl⟩ := hd.merged.mem_iff.1 hm
    obtain ⟨f, hf, hj'⟩ := List.mem_flatMap.1 hj
    have hfits : j.Fits db a := (hsolved f hf).fits j hj'
    exact Join.fits_widened hj hfits
  holds := (hd.holds a).2 fun f hf => (hsolved f hf).holds

theorem functional (hd : Conjunction db root fs d)
    (hfs : ∀ f ∈ fs, f.Functional db root row) : d.Functional db root row where
  determined _ _ ha hb hfitsa hfitsb :=
    Fragment.determined_of_sameBindings hd.sameBindings hfs ha hb hfitsa hfitsb
  matched a ha hsolved := hd.solvedBy_of_forall fun f hf =>
    (hfs f hf).matched a ha (hd.leftened_solvedBy_iff.1 hsolved f hf)

/-- A conjunction of functional fragments admits the rows that all of them
admit. -/
theorem admits_iff_forall (hd : Conjunction db root fs d)
    (hmerge : Mergeable root fs) (hfs : ∀ f ∈ fs, f.Functional db root row) :
    d.Admits db root row ↔ ∀ f ∈ fs, f.Admits db root row := by
  have hscoped := hd.wellScoped hmerge
  rw [Fragment.admits_iff_solved hscoped]
  constructor
  · rintro ⟨a, ha, hsolved⟩ f hf
    refine (Fragment.admits_iff_solved (hmerge.wellScoped hf)).2 ⟨a, ha, ?_⟩
    exact (hfs f hf).matched a ha
      (hd.leftened_solvedBy_iff.1 hsolved.leftened f hf)
  · intro hadmits
    -- left joins lead from the row to one assignment, of which all others are
    -- parts
    obtain ⟨b, hb, hfits⟩ := hscoped.exists_fits db row
    have hfits' := hd.sameBindings.fits_iff.1 hfits
    refine ⟨b, hb, hd.solvedBy_of_forall fun f hf => ?_⟩
    obtain ⟨a, ha, hsolved⟩ :=
      (Fragment.admits_iff_solved (hmerge.wellScoped hf)).1 (hadmits f hf)
    exact (hfs f hf).solvedBy (hmerge.wellScoped hf) ha hsolved hb fun j hj =>
      hfits' j (List.mem_flatMap.2 ⟨f, hf, hj⟩)

end Conjunction

/-! ## Disjunctions of functional fragments -/

namespace Disjunction

variable {fs : List Fragment} {d : Fragment} {row : Row}

theorem functional (hd : Disjunction db root fs d)
    (hfs : ∀ f ∈ fs, f.Functional db root row) : d.Functional db root row where
  determined _ _ ha hb hfitsa hfitsb :=
    Fragment.determined_of_sameBindings hd.sameBindings hfs ha hb hfitsa hfitsb
  matched a ha hsolved := by
    cases hu : uniform fs with
    | true =>
      exact (hfs d (List.mem_of_head? (hd.head hu))).matched a ha hsolved
    | false =>
      refine ⟨fun m hm => ?_, hsolved.holds⟩
      obtain ⟨f, hf, hm'⟩ := (hd.mem_joins_iff hu).1 hm
      obtain ⟨i, -, rfl⟩ := List.mem_map.1 hm'
      exact hsolved.fits i.leftened (List.mem_map.2 ⟨i.leftened, hm, rfl⟩)

/-- A disjunction of functional fragments admits the rows that one of them
admits. -/
theorem admits_iff_exists (hd : Disjunction db root fs d)
    (hmerge : Mergeable root fs) (hfs : ∀ f ∈ fs, f.Functional db root row) :
    d.Admits db root row ↔ ∃ f ∈ fs, f.Admits db root row := by
  rw [hd.admits_iff hmerge]
  refine exists_congr fun f => and_congr_right fun hf => ?_
  rw [asBranch]
  split
  · rfl
  · exact (hfs f hf).admits_leftened_iff (hmerge.wellScoped hf)

end Disjunction

end RowGuard
