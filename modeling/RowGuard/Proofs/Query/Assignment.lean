import RowGuard.Proofs.Query.Rows

/-!
# Assignments without an order

`assignments` adds joins one after the other.  Where every join hangs off the
root or an earlier join and no alias is bound twice, the order does not matter:
an assignment is reached if every join fits it (`Join.Fits`).

* `Rooted` says that the joins hang off bound aliases.
* `mem_assignments_iff` is the characterisation by `Join.Fits`.
* `Filter.truth_congr` says that a filter reads its own aliases only.
* `Fragment.admits_iff_solved` puts the two together for a fragment that is
  `WellScoped`.
* `exists_fits_of_left` extends a part of an assignment through left joins.
-/

namespace RowGuard

variable {db : Database}

/-! ## Joins that fit -/

/-- The row under the alias of the join is one that the join may bind. -/
def Join.Fits (db : Database) (j : Join) (a : Assignment) : Prop :=
  a j.aliasName ∈ j.candidates db a

theorem Join.candidates_congr {j : Join} {a b : Assignment}
    (hparent : a j.parentAlias = b j.parentAlias) :
    j.candidates db a = j.candidates db b := by
  simp only [Join.candidates, Join.found, hparent]

theorem Join.fits_congr {j : Join} {a b : Assignment}
    (halias : a j.aliasName = b j.aliasName)
    (hparent : a j.parentAlias = b j.parentAlias) :
    j.Fits db a ↔ j.Fits db b := by
  rw [Join.Fits, Join.Fits, halias, Join.candidates_congr hparent]

/-- A left join always has a row to bind. -/
theorem Join.exists_candidate (db : Database) {j : Join}
    (hleft : j.kind = .left) (a : Assignment) :
    ∃ row, row ∈ j.candidates db a := by
  rw [Join.candidates, hleft]
  cases j.found db a with
  | nil => exact ⟨Row.null, List.mem_singleton_self _⟩
  | cons row rows => exact ⟨row, List.mem_cons_self ..⟩

/-- A row that a join finds may be bound, whatever the kind. -/
theorem Join.mem_candidates_of_found {j : Join} {a : Assignment} {row : Row}
    (hfound : row ∈ j.found db a) : row ∈ j.candidates db a := by
  rw [Join.candidates]
  cases hrows : j.found db a with
  | nil => simp [hrows] at hfound
  | cons => simpa [hrows] using hfound

/-- An inner join binds what it finds. -/
theorem Join.mem_candidates_inner {j : Join} (hinner : j.kind = .inner)
    {a : Assignment} {row : Row} : row ∈ j.candidates db a ↔
      row ∈ j.found db a := by
  rw [Join.candidates, hinner]
  cases j.found db a <;> simp

/-- A row that a join may bind stays one if the join becomes a left join. -/
theorem Join.mem_candidates_left {j : Join} {a : Assignment} {row : Row}
    (hrow : row ∈ j.candidates db a) :
    row ∈ Join.candidates db { j with kind := .left } a := by
  rcases hkind : j.kind with _ | _
  · exact Join.mem_candidates_of_found
      ((Join.mem_candidates_inner hkind).1 hrow)
  · rwa [← hkind]

/-! ## Joins that hang off bound aliases -/

/-- Every join hangs off an alias that is bound at the start or by an earlier
join. -/
def Rooted : (bound : List String) → List Join → Prop
  | _, [] => True
  | bound, j :: joins =>
    j.parentAlias ∈ bound ∧ Rooted (j.aliasName :: bound) joins

/-- The parent of a join is bound at the start or by one of the joins. -/
theorem Rooted.parent_mem {bound : List String} {joins : List Join}
    (h : Rooted bound joins) {j : Join} (hj : j ∈ joins) :
    j.parentAlias ∈ bound ∨ j.parentAlias ∈ joins.map Join.aliasName := by
  induction joins generalizing bound with
  | nil => cases hj
  | cons k joins ih =>
    rcases List.mem_cons.1 hj with rfl | hj
    · exact .inl h.1
    · rcases ih h.2 hj with hbound | hlater
      · rcases List.mem_cons.1 hbound with heq | hbound
        · exact .inr (by simp [heq])
        · exact .inl hbound
      · exact .inr (List.mem_cons_of_mem _ hlater)

/-! ## Assignments by fitting joins -/

/-- The assignments that joins reach are those that all of them fit and that
differ from the start under their aliases only. -/
theorem mem_assignments_iff {bound : List String} {joins : List Join}
    {a b : Assignment} (hrooted : Rooted bound joins)
    (hfresh : ∀ j ∈ joins, j.aliasName ∉ bound)
    (hnodup : (joins.map Join.aliasName).Nodup) :
    b ∈ assignments db joins a ↔
      (∀ x, x ∉ joins.map Join.aliasName → b x = a x) ∧
        ∀ j ∈ joins, j.Fits db b := by
  induction joins generalizing bound a with
  | nil =>
    simp [assignments, funext_iff]
  | cons j joins ih =>
    obtain ⟨hparent, hrest⟩ := hrooted
    have hj : j.aliasName ∉ bound := hfresh j (List.mem_cons_self ..)
    obtain ⟨honce, hnodup⟩ := List.nodup_cons.1 hnodup
    have hparent_ne : j.parentAlias ≠ j.aliasName := fun h => hj (h ▸ hparent)
    have hparent_later : j.parentAlias ∉ joins.map Join.aliasName := by
      intro hmem
      obtain ⟨k, hk, heq⟩ := List.mem_map.1 hmem
      exact hfresh k (List.mem_cons_of_mem _ hk) (heq ▸ hparent)
    have hfresh' : ∀ k ∈ joins, k.aliasName ∉ j.aliasName :: bound := by
      intro k hk hmem
      rcases List.mem_cons.1 hmem with heq | hbound
      · exact honce (heq ▸ List.mem_map_of_mem hk)
      · exact hfresh k (List.mem_cons_of_mem _ hk) hbound
    simp only [assignments, List.mem_flatMap, List.map_cons,
      List.forall_mem_cons]
    constructor
    · rintro ⟨row, hrow, hb⟩
      obtain ⟨hout, hfits⟩ := (ih hrest hfresh' hnodup).1 hb
      have halias : b j.aliasName = row := by
        rw [hout _ honce]
        simp [Assignment.bind]
      have hsame : b j.parentAlias = a j.parentAlias := by
        rw [hout _ hparent_later]
        simp [Assignment.bind, hparent_ne]
      refine ⟨fun x hx => ?_, ?_, hfits⟩
      · rw [List.mem_cons, not_or] at hx
        rw [hout x hx.2]
        simp [Assignment.bind, hx.1]
      · rw [Join.Fits, halias, Join.candidates_congr hsame]
        exact hrow
    · rintro ⟨hout, hfit, hfits⟩
      have hsame : b j.parentAlias = a j.parentAlias :=
        hout _ (by simp [hparent_ne, hparent_later])
      refine ⟨b j.aliasName, ?_,
        (ih hrest hfresh' hnodup).2 ⟨fun x hx => ?_, hfits⟩⟩
      · rw [← Join.candidates_congr hsame]
        exact hfit
      · by_cases hxj : x = j.aliasName
        · simp [Assignment.bind, hxj]
        · rw [hout x (by simp [hxj, hx])]
          simp [Assignment.bind, hxj]

/-! ## What a filter reads -/

mutual

/-- The aliases whose columns a filter reads.  A subquery has aliases of its
own. -/
def Filter.aliases : Filter → List String
  | .comparison aliasName _ _ _ => [aliasName]
  | .emptySet => []
  | .and parts => filterAliases parts
  | .or parts => filterAliases parts
  | .inSubquery aliasName _ _ => [aliasName]

/-- The aliases whose columns several filters read. -/
def filterAliases : List Filter → List String
  | [] => []
  | part :: parts => part.aliases ++ filterAliases parts

end

theorem mem_filterAliases {x : String} {parts : List Filter} :
    x ∈ filterAliases parts ↔ ∃ part ∈ parts, x ∈ part.aliases := by
  induction parts with
  | nil => simp [filterAliases]
  | cons part parts ih => simp [filterAliases, ih]

mutual

/-- The truth of a filter depends on the rows under its aliases only. -/
theorem Filter.truth_congr {a b : Assignment} :
    ∀ f : Filter, (∀ x ∈ f.aliases, a x = b x) → f.truth db a = f.truth db b
  | .comparison aliasName _ _ _, h => by
    simp only [Filter.truth, h aliasName (List.mem_singleton_self _)]
  | .emptySet, _ => rfl
  | .and parts, h => by simp only [Filter.truth, filterTruths_congr parts h]
  | .or parts, h => by simp only [Filter.truth, filterTruths_congr parts h]
  | .inSubquery aliasName _ _, h => by
    simp only [Filter.truth, h aliasName (List.mem_singleton_self _)]

theorem filterTruths_congr {a b : Assignment} :
    ∀ parts : List Filter, (∀ x ∈ filterAliases parts, a x = b x) →
      filterTruths db parts a = filterTruths db parts b
  | [], _ => rfl
  | part :: parts, h => by
    rw [filterTruths, filterTruths,
      part.truth_congr fun x hx => h x (List.mem_append_left _ hx),
      filterTruths_congr parts fun x hx => h x (List.mem_append_right _ hx)]

end

theorem Fragment.aliases_predicate {f : Fragment} {x : String} :
    x ∈ f.predicate.aliases ↔ ∃ filter ∈ f.filters, x ∈ filter.aliases := by
  rw [Fragment.predicate]
  split
  · next single h => simp [h]
  · exact mem_filterAliases

/-! ## Fragments -/

/-- The aliases of a fragment are bound once, the root included, every join
hangs off one that is bound before, and the filters read bound ones. -/
structure Fragment.WellScoped (root : String) (f : Fragment) : Prop where
  rooted : Rooted [root] f.joins
  nodup : (root :: f.joins.map Join.aliasName).Nodup
  bound : ∀ filter ∈ f.filters, ∀ x ∈ filter.aliases,
    x ∈ root :: f.joins.map Join.aliasName

/-- All joins of the fragment fit the assignment and the filters are true. -/
structure Fragment.SolvedBy (db : Database) (f : Fragment)
    (a : Assignment) : Prop where
  fits : ∀ j ∈ f.joins, j.Fits db a
  holds : f.predicate.truth db a = .yes

namespace Fragment.WellScoped

variable {root : String} {f : Fragment}

theorem alias_ne_root (h : f.WellScoped root) {j : Join} (hj : j ∈ f.joins) :
    j.aliasName ≠ root := fun heq =>
  (List.nodup_cons.1 h.nodup).1 (heq ▸ List.mem_map_of_mem hj)

theorem parent_mem (h : f.WellScoped root) {j : Join} (hj : j ∈ f.joins) :
    j.parentAlias ∈ root :: f.joins.map Join.aliasName := by
  rcases h.rooted.parent_mem hj with hroot | hlater
  · exact List.mem_cons.2 (.inl (List.mem_singleton.1 hroot))
  · exact List.mem_cons_of_mem _ hlater

/-- Whether an assignment solves a fragment depends on the root and the aliases
of the joins only. -/
theorem solvedBy_congr (h : f.WellScoped root) {a b : Assignment}
    (hsame : ∀ x ∈ root :: f.joins.map Join.aliasName, a x = b x)
    (ha : f.SolvedBy db a) : f.SolvedBy db b where
  fits j hj :=
    (Join.fits_congr
      (hsame _ (List.mem_cons_of_mem _ (List.mem_map_of_mem hj)))
      (hsame _ (h.parent_mem hj))).1 (ha.fits j hj)
  holds := by
    rw [← f.predicate.truth_congr fun x hx => ?_]
    · exact ha.holds
    · obtain ⟨filter, hfilter, hx⟩ := Fragment.aliases_predicate.1 hx
      exact hsame x (h.bound filter hfilter x hx)

end Fragment.WellScoped

namespace Fragment.WellScoped

variable {root : String} {f : Fragment} {row : Row} {a : Assignment}

/-- The assignments that the joins of a fragment reach from a row. -/
theorem mem_assignments_iff (h : f.WellScoped root) :
    a ∈ assignments db f.joins (.start root row) ↔
      (∀ x, x ∉ f.joins.map Join.aliasName →
        a x = Assignment.start root row x) ∧
        ∀ j ∈ f.joins, j.Fits db a := by
  refine RowGuard.mem_assignments_iff h.rooted (fun j hj hmem => ?_)
    (List.nodup_cons.1 h.nodup).2
  exact h.alias_ne_root hj (List.mem_singleton.1 hmem)

/-- The root keeps its row. -/
theorem root_eq_of_mem (h : f.WellScoped root)
    (ha : a ∈ assignments db f.joins (.start root row)) : a root = row := by
  rw [(h.mem_assignments_iff.1 ha).1 root (List.nodup_cons.1 h.nodup).1]
  simp [Assignment.start]

end Fragment.WellScoped

/-- An assignment that solves a fragment is one that its joins reach, under the
aliases of the fragment. -/
theorem Fragment.WellScoped.exists_mem_assignments {root : String}
    {f : Fragment} (h : f.WellScoped root) {row : Row} {a : Assignment}
    (ha : a root = row) (hsolved : f.SolvedBy db a) :
    ∃ b ∈ assignments db f.joins (.start root row),
      (∀ x ∈ root :: f.joins.map Join.aliasName, a x = b x) ∧
        f.SolvedBy db b := by
  have hroot : root ∉ f.joins.map Join.aliasName :=
    (List.nodup_cons.1 h.nodup).1
  let b : Assignment := fun x =>
    if x ∈ f.joins.map Join.aliasName then a x else Assignment.start root row x
  have hsame : ∀ x ∈ root :: f.joins.map Join.aliasName, a x = b x := by
    intro x hx
    rcases List.mem_cons.1 hx with rfl | hx
    · simp only [b, if_neg hroot, Assignment.start, if_true, ha]
    · simp only [b, if_pos hx]
  have hb : f.SolvedBy db b := h.solvedBy_congr hsame hsolved
  exact ⟨b, h.mem_assignments_iff.2 ⟨fun x hx => if_neg hx, hb.fits⟩, hsame, hb⟩

/-- A fragment admits a row if an assignment with this row under the root solves
it, whatever else the assignment binds. -/
theorem Fragment.admits_iff_solved {root : String} {f : Fragment}
    (h : f.WellScoped root) {row : Row} : f.Admits db root row ↔
      ∃ a, a root = row ∧ f.SolvedBy db a := by
  simp only [Fragment.Admits, ← Fragment.truth_predicate_eq_yes_iff]
  constructor
  · rintro ⟨a, ha, holds⟩
    exact ⟨a, h.root_eq_of_mem ha, (h.mem_assignments_iff.1 ha).2, holds⟩
  · rintro ⟨a, ha, hsolved⟩
    obtain ⟨b, hb, -, hsolved⟩ := h.exists_mem_assignments ha hsolved
    exact ⟨b, hb, hsolved.holds⟩

/-! ## Extending an assignment -/

/-- Left joins never stop an assignment.  What it has under the aliases that are
`Kept` stays, if the joins that bind these fit and hang off kept or bound
ones. -/
theorem exists_fits_of_left (db : Database) {bound : List String}
    {joins : List Join} (a : Assignment) (Kept : String → Prop)
    (hrooted : Rooted bound joins) (hfresh : ∀ j ∈ joins, j.aliasName ∉ bound)
    (hnodup : (joins.map Join.aliasName).Nodup)
    (hleft : ∀ j ∈ joins, j.kind = .left)
    (hkept : ∀ j ∈ joins, Kept j.aliasName →
      j.Fits db a ∧ (Kept j.parentAlias ∨ j.parentAlias ∈ bound)) :
    ∃ b : Assignment, (∀ x, Kept x ∨ x ∈ bound → b x = a x) ∧
      ∀ j ∈ joins, j.Fits db b := by
  induction joins generalizing bound a with
  | nil => exact ⟨a, fun _ _ => rfl, fun _ h => (List.not_mem_nil h).elim⟩
  | cons j joins ih =>
    obtain ⟨hparent, hrest⟩ := hrooted
    obtain ⟨honce, hnodup⟩ := List.nodup_cons.1 hnodup
    simp only [List.forall_mem_cons] at hleft hkept hfresh
    have hparent_ne : j.parentAlias ≠ j.aliasName :=
      fun h => hfresh.1 (h ▸ hparent)
    -- the next assignment: unchanged if the alias is kept, else with a
    -- candidate
    obtain ⟨c, hc_alias, hc_other⟩ : ∃ c : Assignment,
        c j.aliasName ∈ j.candidates db a ∧
          ∀ x, Kept x ∨ x ≠ j.aliasName → c x = a x := by
      by_cases hk : Kept j.aliasName
      · exact ⟨a, (hkept.1 hk).1, fun _ _ => rfl⟩
      · obtain ⟨row, hrow⟩ := Join.exists_candidate db hleft.1 a
        refine ⟨a.bind j.aliasName row,
          by simpa [Assignment.bind] using hrow, ?_⟩
        intro x hx
        have hne : x ≠ j.aliasName := by
          rcases hx with hx | hx
          · exact fun heq => hk (heq ▸ hx)
          · exact hx
        simp [Assignment.bind, hne]
    have hc_bound : ∀ x ∈ bound, c x = a x := fun x hx =>
      hc_other x (.inr fun heq => hfresh.1 (heq ▸ hx))
    have hfresh' : ∀ k ∈ joins, k.aliasName ∉ j.aliasName :: bound := by
      intro k hk hmem
      rcases List.mem_cons.1 hmem with heq | hbound
      · exact honce (heq ▸ List.mem_map_of_mem hk)
      · exact hfresh.2 k hk hbound
    have hkept' : ∀ k ∈ joins, Kept k.aliasName →
        k.Fits db c ∧
          (Kept k.parentAlias ∨ k.parentAlias ∈ j.aliasName :: bound) := by
      intro k hk hkk
      obtain ⟨hfit, hpar⟩ := hkept.2 k hk hkk
      have hpar_same : c k.parentAlias = a k.parentAlias := by
        rcases hpar with hpar | hpar
        · exact hc_other _ (.inl hpar)
        · exact hc_bound _ hpar
      refine ⟨(Join.fits_congr (hc_other _ (.inl hkk)) hpar_same).2 hfit, ?_⟩
      exact hpar.imp_right (List.mem_cons_of_mem _)
    obtain ⟨b, hb_same, hb_fits⟩ := ih c hrest hfresh' hnodup hleft.2 hkept'
    refine ⟨b, ?_, ?_⟩
    · rintro x (hx | hx)
      · rw [hb_same x (.inl hx), hc_other x (.inl hx)]
      · rw [hb_same x (.inr (List.mem_cons_of_mem _ hx)), hc_bound x hx]
    · refine List.forall_mem_cons.2 ⟨?_, hb_fits⟩
      have hb_parent : b j.parentAlias = a j.parentAlias := by
        rw [hb_same _ (.inr (List.mem_cons_of_mem _ hparent)),
          hc_bound _ hparent]
      rw [Join.Fits, hb_same _ (.inr (List.mem_cons_self ..)),
        Join.candidates_congr hb_parent]
      exact hc_alias

end RowGuard
