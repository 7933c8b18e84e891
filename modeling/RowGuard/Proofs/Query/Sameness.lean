import RowGuard.Proofs.Query.Rows

/-!
# Filters that are the same

Combining fragments leaves out one that is the same as what has been combined
before.  `Fragment.truth_eq_of_same` says that nothing is lost: two fragments
that are the same have the same joins, and their predicates are true of the
same assignments.  The proof follows `Filter.same` through subqueries, and so do
`Fragment.same_symm` and `Fragment.same_trans`.
-/

namespace RowGuard

variable {db : Database}

/-! ## Values -/

theorem Value.isNull_eq_of_same {v w : Value} (h : v.same w = true) :
    v.isNull = w.isNull := by
  cases v <;> cases w <;> simp_all [Value.same, Value.isNull]

namespace Engine

variable (e : Engine)

theorem test_congr {v w : Value} (h : v.same w = true) (op : Operator)
    (x : Value) :
    e.test op x v = e.test op x w := by
  simp only [test, Value.isNull_eq_of_same h, e.equal_congr h,
    e.ordered_congr h]

theorem map_test_congr {vs ws : List Value} (h : sameItems vs ws = true)
    (op : Operator) (x : Value) :
    vs.map (e.test op x) = ws.map (e.test op x) := by
  induction vs generalizing ws with
  | nil =>
    cases ws with
    | nil => rfl
    | cons => simp [sameItems] at h
  | cons v vs ih =>
    cases ws with
    | nil => simp [sameItems] at h
    | cons w ws =>
      simp only [sameItems, Bool.and_eq_true] at h
      rw [List.map_cons, List.map_cons, e.test_congr h.1, ih h.2]

/-- Filters do not tell values apart that are the same. -/
theorem compare_congr {v w : Value} (h : v.same w = true) (op : Operator)
    (x : Value) :
    e.compare op x v = e.compare op x w := by
  cases v <;> cases w <;> first | (simp [Value.same] at h; done) | skip
  case null.null => rfl
  case list.list vs ws =>
    rw [Value.same] at h
    simp only [compare, e.map_test_congr h]
  all_goals exact e.test_congr h op x

end Engine

/-! ## Filters -/

mutual

theorem Filter.truth_eq_of_same :
    ∀ {f g : Filter}, f.same g = true → f.truth db = g.truth db
  | .comparison aliasName column op value, g, h => by
    cases g with
    | comparison =>
      simp only [Filter.same, Bool.and_eq_true, beq_iff_eq] at h
      obtain ⟨⟨⟨rfl, rfl⟩, rfl⟩, h⟩ := h
      funext a
      rw [Filter.truth, Filter.truth, db.engine.compare_congr h]
    | _ => simp [Filter.same] at h
  | .emptySet, g, h => by
    cases g with
    | emptySet => rfl
    | _ => simp [Filter.same] at h
  | .and parts, g, h => by
    cases g with
    | and parts' =>
      rw [Filter.same] at h
      funext a
      rw [Filter.truth, Filter.truth, filterTruths_eq_of_same h]
    | _ => simp [Filter.same] at h
  | .or parts, g, h => by
    cases g with
    | or parts' =>
      rw [Filter.same] at h
      funext a
      rw [Filter.truth, Filter.truth, filterTruths_eq_of_same h]
    | _ => simp [Filter.same] at h
  | .inSubquery aliasName column query, g, h => by
    cases g with
    | inSubquery =>
      simp only [Filter.same, Bool.and_eq_true, beq_iff_eq] at h
      obtain ⟨⟨rfl, rfl⟩, h⟩ := h
      funext a
      rw [Filter.truth, Filter.truth, Compound.identities_eq_of_same h]
    | _ => simp [Filter.same] at h

theorem filterTruths_eq_of_same :
    ∀ {fs gs : List Filter}, sameFilters fs gs = true →
      filterTruths db fs = filterTruths db gs
  | [], gs, h => by
    cases gs with
    | nil => rfl
    | cons => simp [sameFilters] at h
  | f :: fs, gs, h => by
    cases gs with
    | nil => simp [sameFilters] at h
    | cons g gs =>
      simp only [sameFilters, Bool.and_eq_true] at h
      funext a
      rw [filterTruths, filterTruths, Filter.truth_eq_of_same h.1,
        filterTruths_eq_of_same h.2]

theorem Select.identities_eq_of_same :
    ∀ {s t : Select}, s.same t = true → s.identities db = t.identities db
  | ⟨_, _, _, _, _, _, _, filter⟩, ⟨_, _, _, _, _, _, _, filter'⟩, h => by
    simp only [Select.same, Bool.and_eq_true, beq_iff_eq] at h
    obtain ⟨⟨⟨⟨⟨⟨⟨rfl, rfl⟩, rfl⟩, rfl⟩, rfl⟩, rfl⟩, rfl⟩, h⟩ := h
    rw [Select.identities, Select.identities, optionalTruth_eq_of_same h]

theorem optionalTruth_eq_of_same :
    ∀ {f g : Option Filter}, sameOptionalFilter f g = true →
      optionalTruth db f = optionalTruth db g
  | none, g, h => by
    cases g with
    | none => rfl
    | some => simp [sameOptionalFilter] at h
  | some f, g, h => by
    cases g with
    | none => simp [sameOptionalFilter] at h
    | some g =>
      rw [sameOptionalFilter] at h
      funext a
      rw [optionalTruth, optionalTruth, Filter.truth_eq_of_same h]

theorem Compound.identities_eq_of_same :
    ∀ {q r : Compound}, q.same r = true → q.identities db = r.identities db
  | ⟨combination, members⟩, ⟨_, members'⟩, h => by
    simp only [Compound.same, Bool.and_eq_true, beq_iff_eq] at h
    obtain ⟨rfl, h⟩ := h
    cases combination <;>
      rw [Compound.identities, Compound.identities,
        selectIdentities_eq_of_same h]

theorem selectIdentities_eq_of_same :
    ∀ {ss ts : List Select}, sameSelects ss ts = true →
      selectIdentities db ss = selectIdentities db ts
  | [], ts, h => by
    cases ts with
    | nil => rfl
    | cons => simp [sameSelects] at h
  | s :: ss, ts, h => by
    cases ts with
    | nil => simp [sameSelects] at h
    | cons t ts =>
      simp only [sameSelects, Bool.and_eq_true] at h
      rw [selectIdentities, selectIdentities, Select.identities_eq_of_same h.1,
        selectIdentities_eq_of_same h.2]

end

/-! ## Fragments -/

/-- Fragments that are the same have the same joins and their predicates the
same truth. -/
theorem Fragment.truth_eq_of_same (db : Database) {f g : Fragment}
    (h : f.same g = true) :
    f.joins = g.joins ∧ f.predicate.truth db = g.predicate.truth db := by
  obtain ⟨joins, filters⟩ := f
  obtain ⟨joins', filters'⟩ := g
  simp only [Fragment.same, Bool.and_eq_true, beq_iff_eq] at h
  obtain ⟨rfl, h⟩ := h
  refine ⟨rfl, ?_⟩
  have hand : (Filter.and filters).truth db = (Filter.and filters').truth db :=
    Filter.truth_eq_of_same (by rw [Filter.same]; exact h)
  match filters, filters', h with
  | [], [], _ => rfl
  | [f], [g], h =>
    simp only [sameFilters, Bool.and_true] at h
    exact Filter.truth_eq_of_same h
  | _ :: _ :: _, _ :: _ :: _, _ => exact hand
  | [], _ :: _, h | _ :: _, [], h => simp [sameFilters] at h
  | [_], _ :: _ :: _, h | _ :: _ :: _, [_], h => simp [sameFilters] at h

/-! ## Symmetry and transitivity -/

mutual

theorem Filter.same_symm : ∀ {f g : Filter}, f.same g = true → g.same f = true
  | .comparison .., g, h => by
    cases g with
    | comparison =>
      simp only [Filter.same, Bool.and_eq_true, beq_iff_eq] at h ⊢
      exact ⟨⟨⟨h.1.1.1.symm, h.1.1.2.symm⟩, h.1.2.symm⟩, Value.same_symm _ h.2⟩
    | _ => simp [Filter.same] at h
  | .emptySet, g, h => by
    cases g with
    | emptySet => exact h
    | _ => simp [Filter.same] at h
  | .and parts, g, h => by
    cases g with
    | and =>
      rw [Filter.same] at h ⊢
      exact sameFilters_symm h
    | _ => simp [Filter.same] at h
  | .or parts, g, h => by
    cases g with
    | or =>
      rw [Filter.same] at h ⊢
      exact sameFilters_symm h
    | _ => simp [Filter.same] at h
  | .inSubquery _ _ query, g, h => by
    cases g with
    | inSubquery =>
      simp only [Filter.same, Bool.and_eq_true, beq_iff_eq] at h ⊢
      exact ⟨⟨h.1.1.symm, h.1.2.symm⟩, Compound.same_symm h.2⟩
    | _ => simp [Filter.same] at h

theorem sameFilters_symm :
    ∀ {fs gs : List Filter}, sameFilters fs gs = true → sameFilters gs fs = true
  | [], [], h => h
  | f :: fs, g :: gs, h => by
    simp only [sameFilters, Bool.and_eq_true] at h ⊢
    exact ⟨Filter.same_symm h.1, sameFilters_symm h.2⟩
  | [], _ :: _, h | _ :: _, [], h => by simp [sameFilters] at h

theorem Select.same_symm : ∀ {s t : Select}, s.same t = true → t.same s = true
  | ⟨_, _, _, _, _, _, _, filter⟩, ⟨_, _, _, _, _, _, _, filter'⟩, h => by
    simp only [Select.same, Bool.and_eq_true, beq_iff_eq] at h ⊢
    obtain ⟨⟨⟨⟨⟨⟨⟨rfl, rfl⟩, rfl⟩, rfl⟩, rfl⟩, rfl⟩, rfl⟩, h⟩ := h
    simp only [and_self, true_and]
    exact sameOptionalFilter_symm h

theorem sameOptionalFilter_symm :
    ∀ {f g : Option Filter}, sameOptionalFilter f g = true →
      sameOptionalFilter g f = true
  | none, none, h => h
  | some f, some g, h => by
    rw [sameOptionalFilter] at h ⊢
    exact Filter.same_symm h
  | none, some _, h | some _, none, h => by simp [sameOptionalFilter] at h

theorem Compound.same_symm :
    ∀ {q r : Compound}, q.same r = true → r.same q = true
  | ⟨_, members⟩, ⟨_, members'⟩, h => by
    simp only [Compound.same, Bool.and_eq_true, beq_iff_eq] at h ⊢
    exact ⟨h.1.symm, sameSelects_symm h.2⟩

theorem sameSelects_symm :
    ∀ {ss ts : List Select}, sameSelects ss ts = true → sameSelects ts ss = true
  | [], [], h => h
  | s :: ss, t :: ts, h => by
    simp only [sameSelects, Bool.and_eq_true] at h ⊢
    exact ⟨Select.same_symm h.1, sameSelects_symm h.2⟩
  | [], _ :: _, h | _ :: _, [], h => by simp [sameSelects] at h

end

mutual

theorem Filter.same_trans :
    ∀ {f g h : Filter}, f.same g = true → g.same h = true → f.same h = true
  | .comparison .., g, h, hfg, hgh => by
    cases g with
    | comparison =>
      cases h with
      | comparison =>
        simp only [Filter.same, Bool.and_eq_true, beq_iff_eq] at hfg hgh ⊢
        obtain ⟨⟨⟨rfl, rfl⟩, rfl⟩, hfg⟩ := hfg
        exact ⟨hgh.1, Value.same_trans hfg hgh.2⟩
      | _ => simp [Filter.same] at hgh
    | _ => simp [Filter.same] at hfg
  | .emptySet, g, h, hfg, hgh => by
    cases g with
    | emptySet => exact hgh
    | _ => simp [Filter.same] at hfg
  | .and parts, g, h, hfg, hgh => by
    cases g with
    | and =>
      cases h with
      | and =>
        rw [Filter.same] at hfg hgh ⊢
        exact sameFilters_trans hfg hgh
      | _ => simp [Filter.same] at hgh
    | _ => simp [Filter.same] at hfg
  | .or parts, g, h, hfg, hgh => by
    cases g with
    | or =>
      cases h with
      | or =>
        rw [Filter.same] at hfg hgh ⊢
        exact sameFilters_trans hfg hgh
      | _ => simp [Filter.same] at hgh
    | _ => simp [Filter.same] at hfg
  | .inSubquery _ _ query, g, h, hfg, hgh => by
    cases g with
    | inSubquery =>
      cases h with
      | inSubquery =>
        simp only [Filter.same, Bool.and_eq_true, beq_iff_eq] at hfg hgh ⊢
        obtain ⟨⟨rfl, rfl⟩, hfg⟩ := hfg
        exact ⟨hgh.1, Compound.same_trans hfg hgh.2⟩
      | _ => simp [Filter.same] at hgh
    | _ => simp [Filter.same] at hfg

theorem sameFilters_trans :
    ∀ {fs gs hs : List Filter}, sameFilters fs gs = true →
      sameFilters gs hs = true → sameFilters fs hs = true
  | [], [], _, _, h => h
  | f :: fs, g :: gs, h :: hs, hfg, hgh => by
    simp only [sameFilters, Bool.and_eq_true] at hfg hgh ⊢
    exact ⟨Filter.same_trans hfg.1 hgh.1, sameFilters_trans hfg.2 hgh.2⟩
  | _ :: _, _ :: _, [], _, h => by simp [sameFilters] at h
  | [], _ :: _, _, h, _ | _ :: _, [], _, h, _ => by simp [sameFilters] at h

theorem Select.same_trans :
    ∀ {s t u : Select}, s.same t = true → t.same u = true → s.same u = true
  | ⟨_, _, _, _, _, _, _, filter⟩, ⟨_, _, _, _, _, _, _, filter'⟩,
      ⟨_, _, _, _, _, _, _, filter''⟩, hst, htu => by
    simp only [Select.same, Bool.and_eq_true, beq_iff_eq] at hst htu ⊢
    obtain ⟨⟨⟨⟨⟨⟨⟨rfl, rfl⟩, rfl⟩, rfl⟩, rfl⟩, rfl⟩, rfl⟩, hst⟩ := hst
    exact ⟨htu.1, sameOptionalFilter_trans hst htu.2⟩

theorem sameOptionalFilter_trans :
    ∀ {f g h : Option Filter}, sameOptionalFilter f g = true →
      sameOptionalFilter g h = true → sameOptionalFilter f h = true
  | none, none, _, _, h => h
  | some f, some g, some h, hfg, hgh => by
    rw [sameOptionalFilter] at hfg hgh ⊢
    exact Filter.same_trans hfg hgh
  | some _, some _, none, _, h => by simp [sameOptionalFilter] at h
  | none, some _, _, h, _ | some _, none, _, h, _ => by
    simp [sameOptionalFilter] at h

theorem Compound.same_trans :
    ∀ {q r u : Compound}, q.same r = true → r.same u = true → q.same u = true
  | ⟨_, members⟩, ⟨_, members'⟩, ⟨_, members''⟩, hqr, hru => by
    simp only [Compound.same, Bool.and_eq_true, beq_iff_eq] at hqr hru ⊢
    exact ⟨hqr.1.trans hru.1, sameSelects_trans hqr.2 hru.2⟩

theorem sameSelects_trans :
    ∀ {ss ts us : List Select}, sameSelects ss ts = true →
      sameSelects ts us = true → sameSelects ss us = true
  | [], [], _, _, h => h
  | s :: ss, t :: ts, u :: us, hst, htu => by
    simp only [sameSelects, Bool.and_eq_true] at hst htu ⊢
    exact ⟨Select.same_trans hst.1 htu.1, sameSelects_trans hst.2 htu.2⟩
  | _ :: _, _ :: _, [], _, h => by simp [sameSelects] at h
  | [], _ :: _, _, h, _ | _ :: _, [], _, h, _ => by simp [sameSelects] at h

end

theorem Fragment.same_symm {f g : Fragment} (h : f.same g = true) :
    g.same f = true := by
  simp only [Fragment.same, Bool.and_eq_true, beq_iff_eq] at h ⊢
  exact ⟨h.1.symm, sameFilters_symm h.2⟩

theorem Fragment.same_trans {f g h : Fragment} (hfg : f.same g = true)
    (hgh : g.same h = true) :
    f.same h = true := by
  simp only [Fragment.same, Bool.and_eq_true, beq_iff_eq] at hfg hgh ⊢
  exact ⟨hfg.1.trans hgh.1, sameFilters_trans hfg.2 hgh.2⟩

end RowGuard
