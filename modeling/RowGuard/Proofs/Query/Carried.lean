import RowGuard.Proofs.Query.Combination
import RowGuard.Proofs.Query.Placeholders
import RowGuard.Scope.FilterValue

/-!
# The values that a filter carries

A statement binds scalars.  A comparison can be written so that nothing else is
bound if its value is null, a scalar or a list of scalars, and an ordering needs
a scalar.

* `Operator.carries` says so of an operator and a value, and `Fragment.carries`
  of all comparisons of a fragment, those of its subqueries included.
* `Fragment.carries_merge` and `Fragment.carries_eq_of_same` are the two steps
  in which fragments are combined.
* `Fragment.isScalar_of_mem_parameters` says what follows for the parameters.
-/

namespace RowGuard

/-- Whether the operator can be put before the value in a statement: null is
checked for and a list is searched, neither of which an ordering can do. -/
def Operator.carries (op : Operator) : Value → Bool
  | .null => !op.isOrdering
  | .list items => !op.isOrdering && !items.isEmpty && items.all Value.isScalar
  | value => value.isScalar

/-- Whether the operator of the comparison can be put before its value. -/
def Comparison.carries (c : Comparison) : Bool := c.op.carries c.value

/-- The comparisons of a fragment. -/
def Fragment.comparisons (f : Fragment) : List Comparison :=
  comparisonsOf f.filters

/-- Whether all comparisons of the fragment have operators before values that
these can be put before. -/
def Fragment.carries (f : Fragment) : Bool :=
  f.comparisons.all Comparison.carries

/-! ## Comparisons of combined filters -/

theorem comparisonsOf_append (fs gs : List Filter) :
    comparisonsOf (fs ++ gs) = comparisonsOf fs ++ comparisonsOf gs := by
  induction fs with
  | nil => rfl
  | cons f fs ih =>
    rw [List.cons_append, comparisonsOf, comparisonsOf, ih, List.append_assoc]

theorem comparisonsOf_singleton (f : Filter) :
    comparisonsOf [f] = f.comparisons := by
  rw [comparisonsOf, comparisonsOf, List.append_nil]

theorem Filter.comparisons_ofParts (combination : Combination)
    (parts : List Filter) :
    (Filter.ofParts combination parts).comparisons = comparisonsOf parts := by
  cases combination <;> rw [Filter.ofParts, Filter.comparisons]

theorem Filter.comparisonsOf_parts (combination : Combination) (f : Filter) :
    comparisonsOf (f.parts combination) = f.comparisons := by
  cases combination <;> cases f
  case all.and | any.or => rw [Filter.parts, Filter.comparisons]
  all_goals exact comparisonsOf_singleton _

namespace Fragment

variable {f g : Fragment}

theorem comparisons_filter (f : Fragment) (condition : Filter) :
    (f.filter condition).comparisons =
      f.comparisons ++ condition.comparisons := by
  rw [comparisons, filter, comparisonsOf_append, comparisonsOf_singleton,
    comparisons]

theorem comparisons_predicate (f : Fragment) :
    f.predicate.comparisons = f.comparisons := by
  rw [predicate, comparisons]
  split
  · next single hsingle => rw [hsingle, comparisonsOf_singleton]
  · rw [Filter.comparisons]

theorem comparisons_applyTo (f : Fragment) (entity : Entity) (root : String) :
    (f.applyTo (.fromEntity entity root)).comparisons = f.comparisons :=
  f.comparisons_predicate

/-- A merge has the comparisons of both fragments. -/
theorem comparisons_merge (combination : Combination) (f g : Fragment) :
    (f.merge combination g).comparisons = f.comparisons ++ g.comparisons := by
  have hfilters : (f.merge combination g).filters = [.ofParts combination
      (f.predicate.parts combination ++ g.predicate.parts combination)] := rfl
  rw [comparisons, hfilters, comparisonsOf_singleton,
    Filter.comparisons_ofParts, comparisonsOf_append,
    Filter.comparisonsOf_parts, Filter.comparisonsOf_parts,
    comparisons_predicate, comparisons_predicate]

theorem carries_merge (combination : Combination) (f g : Fragment) :
    (f.merge combination g).carries = (f.carries && g.carries) := by
  rw [carries, comparisons_merge, List.all_append, carries, carries]

end Fragment

/-! ## Filters that are the same -/

theorem Value.isScalar_eq_of_same {v w : Value} (h : v.same w = true) :
    v.isScalar = w.isScalar := by
  cases v <;> cases w <;> simp_all [Value.same, Value.isScalar]

theorem all_isScalar_eq_of_same {vs ws : List Value}
    (h : sameItems vs ws = true) :
    vs.isEmpty = ws.isEmpty ∧
      vs.all Value.isScalar = ws.all Value.isScalar := by
  induction vs generalizing ws with
  | nil =>
    cases ws with
    | nil => exact ⟨rfl, rfl⟩
    | cons => simp [sameItems] at h
  | cons v vs ih =>
    cases ws with
    | nil => simp [sameItems] at h
    | cons w ws =>
      rw [sameItems, Bool.and_eq_true] at h
      rw [List.all_cons, List.all_cons, Value.isScalar_eq_of_same h.1,
        (ih h.2).2]
      exact ⟨rfl, rfl⟩

theorem Operator.carries_eq_of_same (op : Operator) {v w : Value}
    (h : v.same w = true) :
    op.carries v = op.carries w := by
  cases v <;> cases w <;> first | (simp [Value.same] at h; done) | skip
  case null.null => rfl
  case list.list vs ws =>
    rw [Value.same] at h
    obtain ⟨hempty, hitems⟩ := all_isScalar_eq_of_same h
    rw [carries, carries, hempty, hitems]
  all_goals exact Value.isScalar_eq_of_same h

mutual

theorem Filter.carries_eq_of_same : ∀ {f g : Filter}, f.same g = true →
    f.comparisons.all Comparison.carries = g.comparisons.all Comparison.carries
  | .comparison aliasName column op value, g, h => by
    cases g with
    | comparison =>
      simp only [Filter.same, Bool.and_eq_true, beq_iff_eq] at h
      obtain ⟨⟨⟨rfl, rfl⟩, rfl⟩, h⟩ := h
      simp only [Filter.comparisons, List.all_cons, Comparison.carries,
        op.carries_eq_of_same h]
    | _ => simp [Filter.same] at h
  | .emptySet, g, h => by
    cases g with
    | emptySet => rfl
    | _ => simp [Filter.same] at h
  | .and parts, g, h => by
    cases g with
    | and parts' =>
      rw [Filter.same] at h
      exact filters_carries_eq_of_same h
    | _ => simp [Filter.same] at h
  | .or parts, g, h => by
    cases g with
    | or parts' =>
      rw [Filter.same] at h
      exact filters_carries_eq_of_same h
    | _ => simp [Filter.same] at h
  | .inSubquery aliasName column query, g, h => by
    cases g with
    | inSubquery =>
      simp only [Filter.same, Bool.and_eq_true, beq_iff_eq] at h
      exact Compound.carries_eq_of_same h.2
    | _ => simp [Filter.same] at h

theorem filters_carries_eq_of_same :
    ∀ {fs gs : List Filter}, sameFilters fs gs = true →
    (comparisonsOf fs).all Comparison.carries =
      (comparisonsOf gs).all Comparison.carries
  | [], [], _ => rfl
  | f :: fs, g :: gs, h => by
    simp only [sameFilters, Bool.and_eq_true] at h
    rw [comparisonsOf, comparisonsOf, List.all_append, List.all_append,
      Filter.carries_eq_of_same h.1, filters_carries_eq_of_same h.2]
  | [], _ :: _, h | _ :: _, [], h => by simp [sameFilters] at h

theorem Select.carries_eq_of_same : ∀ {s t : Select}, s.same t = true →
    s.comparisons.all Comparison.carries = t.comparisons.all Comparison.carries
  | ⟨_, _, _, _, _, _, _, filter⟩, ⟨_, _, _, _, _, _, _, filter'⟩, h => by
    simp only [Select.same, Bool.and_eq_true] at h
    exact where_carries_eq_of_same h.2

theorem where_carries_eq_of_same :
    ∀ {f g : Option Filter}, sameOptionalFilter f g = true →
    (whereComparisons f).all Comparison.carries =
      (whereComparisons g).all Comparison.carries
  | none, none, _ => rfl
  | some f, some g, h => by
    rw [sameOptionalFilter] at h
    exact Filter.carries_eq_of_same h
  | none, some _, h | some _, none, h => by simp [sameOptionalFilter] at h

theorem Compound.carries_eq_of_same : ∀ {q r : Compound}, q.same r = true →
    q.comparisons.all Comparison.carries = r.comparisons.all Comparison.carries
  | ⟨_, members⟩, ⟨_, members'⟩, h => by
    simp only [Compound.same, Bool.and_eq_true] at h
    exact selects_carries_eq_of_same h.2

theorem selects_carries_eq_of_same :
    ∀ {ss ts : List Select}, sameSelects ss ts = true →
    (selectsComparisons ss).all Comparison.carries =
      (selectsComparisons ts).all Comparison.carries
  | [], [], _ => rfl
  | s :: ss, t :: ts, h => by
    simp only [sameSelects, Bool.and_eq_true] at h
    rw [selectsComparisons, selectsComparisons, List.all_append,
      List.all_append, Select.carries_eq_of_same h.1,
      selects_carries_eq_of_same h.2]
  | [], _ :: _, h | _ :: _, [], h => by simp [sameSelects] at h

end

theorem Fragment.carries_eq_of_same {f g : Fragment} (h : f.same g = true) :
    f.carries = g.carries := by
  rw [Fragment.same, Bool.and_eq_true] at h
  exact filters_carries_eq_of_same h.2

/-- A combination of fragments has comparisons as those of the fragments: one
that is the same as what has been combined before adds none, but takes none away
either. -/
theorem combineFragments_carries (combination : Combination)
    {fs : List Fragment} (hfs : fs ≠ []) :
    ∃ d, combineFragments combination (fs.map some) = some d ∧
      d.carries = fs.all Fragment.carries := by
  refine combineFragments_induction
    (motive := fun done d => d.carries = done.all Fragment.carries)
    hfs (fun f _ => ?_) (fun done d f _ hd hsame => ?_)
    fun done d f _ hd _ => ?_
  · rw [List.all_cons, List.all_nil, Bool.and_true]
  · rw [List.all_append, ← hd, List.all_cons, List.all_nil, Bool.and_true,
      ← Fragment.carries_eq_of_same hsame, Bool.and_self]
  · rw [List.all_append, ← hd, List.all_cons, List.all_nil, Bool.and_true,
      Fragment.carries_merge]

/-! ## Parameters -/

/-- What a comparison binds are scalars, if its operator can be put before its
value. -/
theorem Comparison.isScalar_of_mem_bound {c : Comparison} (h : c.carries = true)
    {v : Value} (hv : v ∈ c.bound) : v.isScalar = true := by
  obtain ⟨aliasName, column, op, value⟩ := c
  rw [carries] at h
  cases value with
  | null => cases hv
  | list items =>
    simp only [Operator.carries, Bool.and_eq_true, Bool.not_eq_true'] at h
    have hitem : v ∈ items := by simpa [bound, h.1.1] using hv
    exact List.all_eq_true.1 h.2 v hitem
  | _ =>
    obtain rfl := List.mem_singleton.1 hv
    exact h

/-- The parameters of a select are bound by its comparisons. -/
theorem Select.mem_parameters {s : Select} {v : Value}
    (h : v ∈ s.sql.parameters) :
    ∃ c ∈ s.comparisons, v ∈ c.bound := by
  rw [s.spells.parameters_eq, Comparison.bindings, List.mem_map] at h
  obtain ⟨⟨c, w⟩, hmem, rfl⟩ := h
  obtain ⟨c', hc', hbound⟩ := List.mem_flatMap.1 hmem
  obtain ⟨w', hw', heq⟩ := List.mem_map.1 hbound
  cases heq
  exact ⟨c, hc', hw'⟩

/-- The select of a fragment binds scalars only, if all operators of the
fragment can be put before their values. -/
theorem Fragment.isScalar_of_mem_parameters {f : Fragment}
    (h : f.carries = true) {entity : Entity} {root : String} {v : Value}
    (hv : v ∈ (f.applyTo (.fromEntity entity root)).sql.parameters) :
    v.isScalar = true := by
  obtain ⟨c, hc, hbound⟩ := Select.mem_parameters hv
  rw [comparisons_applyTo] at hc
  exact Comparison.isScalar_of_mem_bound (List.all_eq_true.1 h c hc) hbound

end RowGuard
