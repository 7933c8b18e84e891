import RowGuard.Proofs.Value.Operands

/-!
# Literals under equality and membership

`Value.Scalars` are the literals that a filter carries as they are: a scalar,
doubles included, or several of them.  `Value.accepts` says which values equal
such a literal or one of its items.  Both comparisons come down to it:

* `Value.Scalars.compare_eq_yes_iff` for a column in a query, where null
  compares with nothing;
* `Value.Scalars.agrees_eq` and `Value.Scalars.intersects_eq` for loaded data,
  where null differs from everything else and nothing but a list can equal a
  list.
-/

namespace RowGuard

/-- A scalar, or several scalars. -/
inductive Value.Scalars : Value → Prop where
  | one {w} (h : w.isScalar = true) : Scalars w
  | several {items} (hne : items ≠ [])
      (h : ∀ item ∈ items, item.isScalar = true) :
      Scalars (.list items)

/-- A column that is not null passes the test against a value that is not null
if the two are equal, or different where the operator is negative. -/
theorem Engine.comparator_test_eq_yes_iff {op : Operator}
    (hop : op.isOrdering = false) {x t : Value} (ht : t.isNull = false) :
    Engine.comparator.test op x t = .yes ↔
      x.isNull = false ∧ (x.atomsEqual t != op.isNegative) = true := by
  rw [Engine.test.eq_def, ht, Bool.or_false]
  cases x.isNull with
  | true => simp
  | false =>
    cases op with
    | eq | neq | mem | notMem => simp [Engine.comparator, Operator.isNegative]
    | gt | gte | lt | lte => cases hop

namespace Value

variable {v w x y : Value} {a : Atom}

theorem isNull_of_isScalar (h : w.isScalar = true) : w.isNull = false := by
  cases w <;> first | rfl | cases h

theorem equals_of_isScalar (h : w.isScalar = true) (x : Value) :
    x.equals w = x.atomsEqual w := by
  cases w <;> first | (cases x <;> simp [equals]; done) | cases h

theorem null_atomsEqual_of_isScalar (h : w.isScalar = true) :
    null.atomsEqual w = false := by
  cases w <;> first | (simp [atomsEqual, same]; done) | cases h

/-- Only a list can equal a list. -/
theorem equals_list_of_single (h : x.isList = false) (items : List Value) :
    x.equals (.list items) = false := by
  cases x <;> first | (simp [equals, atomsEqual, same]; done) | cases h

namespace Scalars

theorem targets_of_isScalar (h : w.isScalar = true) : w.targets = [w] := by
  cases w <;> first | rfl | cases h

theorem targets_list {items : List Value}
    (h : ∀ item ∈ items, item.isScalar = true) :
    (list items).targets = items :=
  map_identityOrSelf h

theorem isScalar_of_mem (hw : w.Scalars) :
    ∀ t ∈ w.targets, t.isScalar = true := by
  cases hw with
  | one h =>
    rw [targets_of_isScalar h]
    exact List.forall_mem_singleton.2 h
  | several _ h =>
    rw [targets_list h]
    exact h

theorem accepts_null (hw : w.Scalars) : w.accepts .null = false := by
  rw [accepts, List.any_eq_false]
  intro t ht
  rw [null_atomsEqual_of_isScalar (hw.isScalar_of_mem t ht)]
  exact Bool.false_ne_true

/-- Scalars that are one atom are accepted alike. -/
theorem accepts_of_atom (hx : x.atom? = some a) (hy : y.atom? = some a)
    (w : Value) :
    w.accepts x = w.accepts y := by
  rw [accepts, accepts, funext (atomsEqual_of_atom hx hy)]

/-! ## In a query -/

/-- A filter carries the literal as it is. -/
theorem test (hw : w.Scalars) {op : Operator} (hop : op.isOrdering = false) :
    Test.of op w = .ok ⟨op, .value w⟩ := by
  have hvalue : FilterValue.ofValue? w = some (.value w) := by
    cases hw with
    | one h => cases w <;> first | rfl | cases h
    | several hne h =>
      rw [FilterValue.ofValue?, FilterValue.ofItems?_eq hne (.inr h)]
      exact congrArg (fun items => some (FilterValue.value (.list items)))
        (targets_list h)
  rw [Test.of, hvalue]
  simp [hop]

/-- A column passes the test if it is not null and is accepted, or is not
accepted where the operator is negative. -/
theorem compare_eq_yes_iff (hw : w.Scalars) {op : Operator}
    (hop : op.isOrdering = false) :
    Engine.comparator.compare op x w = .yes ↔
      x.isNull = false ∧ (w.accepts x != op.isNegative) = true := by
  cases hw with
  | one h =>
    have hcompare : Engine.comparator.compare op x w =
        Engine.comparator.test op x w := by
      cases w <;> first | rfl | cases h
    rw [hcompare, Engine.comparator_test_eq_yes_iff hop (isNull_of_isScalar h),
      accepts, targets_of_isScalar h, List.any_cons, List.any_nil,
      Bool.or_false]
  | @several items hne h =>
    obtain ⟨first, hfirst⟩ := List.exists_mem_of_ne_nil items hne
    have hequal : ∀ t ∈ items, Engine.comparator.test .eq x t = .yes ↔
        x.isNull = false ∧ x.atomsEqual t = true := by
      intro t ht
      rw [Engine.comparator_test_eq_yes_iff rfl (isNull_of_isScalar (h t ht))]
      simp [Operator.isNegative]
    have hdiffer : ∀ t ∈ items, Engine.comparator.test .neq x t = .yes ↔
        x.isNull = false ∧ ¬ x.atomsEqual t = true := by
      intro t ht
      rw [Engine.comparator_test_eq_yes_iff rfl (isNull_of_isScalar (h t ht))]
      simp [Operator.isNegative]
    rw [Engine.compare, hop, if_neg Bool.false_ne_true, accepts, targets_list h]
    cases op.isNegative with
    | true =>
      rw [if_pos rfl, Truth.all_eq_yes_iff, List.forall_mem_map,
        bne_iff_ne, ne_eq, Bool.not_eq_true, List.any_eq_false]
      constructor
      · intro hall
        exact ⟨((hdiffer first hfirst).1 (hall first hfirst)).1,
          fun t ht => ((hdiffer t ht).1 (hall t ht)).2⟩
      · rintro ⟨hnotNull, hnone⟩ t ht
        exact (hdiffer t ht).2 ⟨hnotNull, hnone t ht⟩
    | false =>
      rw [if_neg Bool.false_ne_true, Truth.any_eq_yes_iff, List.mem_map,
        bne_iff_ne, ne_eq, Bool.not_eq_false, List.any_eq_true]
      constructor
      · rintro ⟨t, ht, hyes⟩
        obtain ⟨hnotNull, haccepted⟩ := (hequal t ht).1 hyes
        exact ⟨hnotNull, t, ht, haccepted⟩
      · rintro ⟨hnotNull, t, ht, haccepted⟩
        exact ⟨t, ht, (hequal t ht).2 ⟨hnotNull, haccepted⟩⟩

/-! ## On loaded data -/

/-- A value that is no list equals a scalar if its identity or itself is
accepted, and it equals no list. -/
theorem agrees_eq (hw : w.Scalars) (hlist : v.isList = false)
    (hself : v.identityOrSelf.isList = false) :
    v.agrees w = (!w.isList && w.accepts v.identityOrSelf) := by
  rw [Value.agrees_eq_equals hlist]
  cases hw with
  | one h =>
    rw [identityOrSelf_of_isScalar h, equals_of_isScalar h,
      isList_of_isScalar h, accepts, targets_of_isScalar h, List.any_cons,
      List.any_nil, Bool.or_false, Bool.not_false, Bool.true_and]
  | several =>
    show v.identityOrSelf.equals (.list _) = _
    rw [equals_list_of_single hself]
    rfl

/-- A value has an item in common with the literal if one of its items is
accepted. -/
theorem intersects_eq (hw : w.Scalars) (v : Value) :
    v.intersects w = v.toItems.any fun item =>
      w.accepts item.identityOrSelf := by
  have hnormalize : w.normalize = w.targets := by
    cases hw with
    | one h => cases w <;> first | rfl | cases h
    | several => rfl
  have haccepts : ∀ x, (w.normalize.any fun t => x.equals t) = w.accepts x := by
    intro x
    rw [accepts, hnormalize, Bool.eq_iff_iff, List.any_eq_true,
      List.any_eq_true]
    refine exists_congr fun t => and_congr_right fun ht => ?_
    rw [equals_of_isScalar (hw.isScalar_of_mem t ht)]
  have hitems : v.normalize = v.toItems.map identityOrSelf := by
    cases v <;> rfl
  rw [intersects, funext haccepts, hitems, List.any_map]
  rfl

end Scalars

end Value

end RowGuard
