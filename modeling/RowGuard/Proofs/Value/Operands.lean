import RowGuard.Proofs.Query.Rows
import RowGuard.Proofs.Value.Atom

/-!
# Operands of equality and membership

`Operator.Takes` says which values can be compared for equality alike on loaded
data and in a query: scalars that are no doubles, records with such identities
and, for a membership test, lists of them.  `Value.accepts` is the common
meaning of both comparisons:

* `Operator.Takes.compare_eq` for loaded data;
* `Operator.Takes.test` for the test in a query.
-/

namespace RowGuard

namespace Value

/-- The value is a scalar but no double, or has an identity of that kind. -/
def IsKey (w : Value) : Prop := ∃ a, w.identityOrSelf.atom? = some a

/-- The scalars that an operand stands for. -/
def targets : Value → List Value
  | .list items => items.map identityOrSelf
  | w => [w.identityOrSelf]

/-- The value equals one of the scalars that the operand stands for. -/
def accepts (w x : Value) : Bool := w.targets.any x.atomsEqual

end Value

/-- The operands of an operator that mean the same on loaded data and in a
query. -/
inductive Operator.Takes : Operator → Value → Prop where
  | eq {w} (hkey : w.IsKey) : Takes .eq w
  | mem {w} (hkey : w.IsKey) : Takes .mem w
  | memList {items} (hne : items ≠ []) (hkeys : ∀ item ∈ items, item.IsKey)
      (hkind : (∀ item ∈ items, item.identity?.isSome = true) ∨
        ∀ item ∈ items, item.isScalar = true) : Takes .mem (.list items)

/-- The comparison of a column with a value in a query asks whether the operand
accepts the column, which it does not if that is null. -/
structure Operator.Tests (op : Operator) (w v : Value) : Prop where
  compare_iff : ∀ x, Engine.comparator.compare op x v = .yes ↔
    w.accepts x = true
  accepts_null : w.accepts .null = false

namespace Value

variable {v w x y : Value} {a : Atom}

theorem IsKey.isList_eq (h : w.IsKey) : w.isList = false := by
  obtain ⟨a, ha⟩ := h
  cases w with
  | list items => cases ha
  | _ => rfl

theorem IsKey.targets_eq (h : w.IsKey) : w.targets = [w.identityOrSelf] := by
  have hlist := h.isList_eq
  cases w with
  | list items => cases hlist
  | _ => rfl

theorem IsKey.isNull_eq (h : w.IsKey) : w.isNull = false := by
  obtain ⟨a, ha⟩ := h
  cases w with
  | null => cases ha
  | _ => rfl

theorem eq_null_of_isNull (h : w.isNull = true) : w = .null := by
  cases w with
  | null => rfl
  | _ => cases h

theorem normalize_of_single (hlist : w.isList = false)
    (hnull : w.isNull = false) :
    w.normalize = [w.identityOrSelf] := by
  cases w with
  | null => cases hnull
  | list => cases hlist
  | _ => rfl

theorem IsKey.isScalar_or (h : w.IsKey) :
    w.isScalar = true ∨ ∃ r, w = .record r := by
  obtain ⟨a, ha⟩ := h
  cases w with
  | null | list => cases ha
  | record r => exact .inr ⟨r, rfl⟩
  | _ => exact .inl rfl

theorem isList_of_isScalar (h : w.isScalar = true) : w.isList = false := by
  cases w with
  | null | list | record => cases h
  | _ => rfl

theorem identityOrSelf_of_isScalar (h : w.isScalar = true) :
    w.identityOrSelf = w := by
  cases w with
  | null | list | record => cases h
  | _ => rfl

/-- Scalars stand for themselves. -/
theorem map_identityOrSelf {items : List Value}
    (h : ∀ item ∈ items, item.isScalar = true) :
    items.map identityOrSelf = items := by
  have hself : ∀ item ∈ items, item.identityOrSelf = item := by
    intro item hitem
    exact identityOrSelf_of_isScalar (h item hitem)
  rw [List.map_congr_left hself, List.map_id']

/-- Equality with a scalar is that of values that are not both lists. -/
theorem equals_eq_atomsEqual (hv : v.atom? = some a) :
    x.equals v = x.atomsEqual v := by
  cases v <;> simp only [atom?, reduceCtorEq] at hv
  all_goals cases x <;> simp [equals]

end Value

/-- A filter carries the identity of the value, or the value itself. -/
theorem Value.IsKey.ofValue?_eq {w : Value} (h : w.IsKey) :
    FilterValue.ofValue? w = some (.value w.identityOrSelf) := by
  rcases h.isScalar_or with hscalar | ⟨r, rfl⟩
  · cases w with
    | null | list | record => cases hscalar
    | _ => rfl
  · obtain ⟨a, ha⟩ := h
    rw [FilterValue.ofValue?, Value.identityOrSelf, Value.identity?]
    cases hid : r.id? with
    | none =>
      rw [Value.identityOrSelf, Value.identity?, hid] at ha
      cases ha
    | some id => rfl

/-- A filter carries the identities of several records, or several scalars. -/
theorem FilterValue.ofItems?_eq {items : List Value} (hne : items ≠ [])
    (hkind : (∀ item ∈ items, item.identity?.isSome = true) ∨
      ∀ item ∈ items, item.isScalar = true) :
    ofItems? items = some
      (.value (.list (items.map Value.identityOrSelf))) := by
  rw [ofItems?, if_neg (by rwa [List.isEmpty_iff])]
  rcases hkind with hrecords | hscalars
  · rw [if_pos (List.all_eq_true.2 hrecords)]
  · have hself := Value.map_identityOrSelf hscalars
    obtain ⟨first, rest, rfl⟩ := List.exists_cons_of_ne_nil hne
    have hfirst : first.identity? = none := by
      have hscalar := hscalars first (List.mem_cons_self ..)
      cases first with
      | null | list | record => cases hscalar
      | _ => rfl
    rw [if_neg (by simp [hfirst]), if_pos (List.all_eq_true.2 hscalars), hself]

namespace Operator.Takes

variable {op : Operator} {w x y : Value}

/-- The operand stands for scalars. -/
theorem atom_of_mem (h : op.Takes w) {v : Value} (hv : v ∈ w.targets) :
    ∃ a, v.atom? = some a := by
  cases h with
  | eq hkey | mem hkey =>
    rw [hkey.targets_eq, List.mem_singleton] at hv
    exact hv ▸ hkey
  | memList _ hkeys _ =>
    obtain ⟨item, hitem, rfl⟩ := List.mem_map.1 hv
    exact hkeys item hitem

theorem accepts_null (h : op.Takes w) : w.accepts .null = false := by
  rw [Value.accepts, List.any_eq_false]
  intro v hv
  obtain ⟨a, ha⟩ := h.atom_of_mem hv
  rw [Value.null_atomsEqual ha]
  exact Bool.false_ne_true

/-- No record is among the scalars. -/
theorem accepts_record (h : op.Takes w) (r : Record) :
    w.accepts (.record r) = false := by
  rw [Value.accepts, List.any_eq_false]
  intro v hv
  obtain ⟨a, ha⟩ := h.atom_of_mem hv
  cases v <;> simp only [Value.atom?, reduceCtorEq] at ha
  all_goals simp [Value.atomsEqual, Value.same]

/-- An operand does not tell apart scalars that are one atom. -/
theorem accepts_congr (h : op.Takes w) {a : Atom} (hx : x.atom? = some a)
    (hy : y.atom? = some a) : w.accepts x = w.accepts y := by
  rw [Value.accepts, Value.accepts, Bool.eq_iff_iff, List.any_eq_true,
    List.any_eq_true]
  refine exists_congr fun v => and_congr_right fun hv => ?_
  obtain ⟨b, hb⟩ := h.atom_of_mem hv
  rw [Value.atomsEqual_iff hx hb, Value.atomsEqual_iff hy hb]

/-- On loaded data the comparison asks whether the identity of the value, or the
value itself, is among the scalars. -/
theorem compare_eq (h : op.Takes w) (hx : x.isList = false) :
    op.compare x w = .ok (w.accepts x.identityOrSelf) := by
  have hequals : ∀ v ∈ w.targets, x.identityOrSelf.equals v =
      x.identityOrSelf.atomsEqual v := by
    intro v hv
    obtain ⟨a, ha⟩ := h.atom_of_mem hv
    exact Value.equals_eq_atomsEqual ha
  have hmem (hnormalize : w.normalize = w.targets) :
      x.intersects w = w.accepts x.identityOrSelf := by
    rw [Value.intersects, hnormalize]
    cases hnull : x.isNull with
    | true =>
      obtain rfl := Value.eq_null_of_isNull hnull
      exact h.accepts_null.symm
    | false =>
      rw [Value.normalize_of_single hx hnull, List.any_cons, List.any_nil,
        Bool.or_false, Value.accepts, Bool.eq_iff_iff, List.any_eq_true,
        List.any_eq_true]
      refine exists_congr fun v => and_congr_right fun hv => ?_
      rw [hequals v hv]
  cases h with
  | eq hkey =>
    have htarget : w.identityOrSelf ∈ w.targets := by
      rw [hkey.targets_eq]
      exact List.mem_singleton_self _
    show Except.ok (x.agrees w) = _
    rw [Value.agrees_eq_equals hx, hequals _ htarget, Value.accepts,
      hkey.targets_eq, List.any_cons, List.any_nil, Bool.or_false]
  | mem hkey =>
    show Except.ok (x.intersects w) = _
    rw [hmem]
    rw [hkey.targets_eq,
      Value.normalize_of_single hkey.isList_eq hkey.isNull_eq]
  | memList =>
    show Except.ok (x.intersects _) = _
    rw [hmem rfl]

/-! ## In a query -/

theorem test_eq_yes_iff (h : op.Takes w) {v : Value} (hv : v ∈ w.targets) :
    Engine.comparator.test .eq x v = .yes ↔ x.atomsEqual v = true := by
  obtain ⟨a, ha⟩ := h.atom_of_mem hv
  rw [Engine.test, Value.isNull_of_atom ha, Bool.or_false]
  cases hnull : x.isNull with
  | true =>
    obtain rfl := Value.eq_null_of_isNull hnull
    simp [Value.null_atomsEqual ha]
  | false => simp [Engine.comparator]

/-- In a query the operand becomes a value against which the comparison of a
column asks whether it is among the scalars. -/
theorem test (h : op.Takes w) :
    ∃ v, Test.of op w = .ok ⟨op, .value v⟩ ∧ op.Tests w v := by
  have hsingle (hkey : w.IsKey) (hop : op = .eq ∨ op = .mem) :
      ∃ v, Test.of op w = .ok ⟨op, .value v⟩ ∧ op.Tests w v := by
    refine ⟨w.identityOrSelf, ?_, fun x => ?_, h.accepts_null⟩
    · rw [Test.of, hkey.ofValue?_eq]
      rcases hop with rfl | rfl <;> simp [Operator.isOrdering]
    · rw [Value.accepts, hkey.targets_eq, List.any_cons, List.any_nil,
        Bool.or_false, ← h.test_eq_yes_iff
          (by rw [hkey.targets_eq]; exact List.mem_singleton_self _)]
      obtain ⟨a, ha⟩ := hkey
      generalize w.identityOrSelf = v at ha
      rcases hop with rfl | rfl <;> cases v <;> first | rfl | cases ha
  cases h with
  | eq hkey => exact hsingle hkey (.inl rfl)
  | mem hkey => exact hsingle hkey (.inr rfl)
  | @memList items hne hkeys hkind =>
    have htakes : Operator.mem.Takes (.list items) := memList hne hkeys hkind
    refine ⟨.list (items.map Value.identityOrSelf), ?_, fun x => ?_,
      htakes.accepts_null⟩
    · rw [Test.of, FilterValue.ofValue?, FilterValue.ofItems?_eq hne hkind]
      simp [Operator.isOrdering]
    · show Truth.any
        ((items.map Value.identityOrSelf).map (Engine.comparator.test .eq x)) =
        .yes ↔ _
      rw [Truth.any_eq_yes_iff, List.mem_map, Value.accepts, List.any_eq_true]
      exact exists_congr fun v => and_congr_right fun hv =>
        htakes.test_eq_yes_iff hv

end Operator.Takes

end RowGuard
