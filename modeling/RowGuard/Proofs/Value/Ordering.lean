import RowGuard.Proofs.Value.Atom

/-!
# The order of values

Integers of either width are ordered among each other, and so are strings and
timestamps.  On two values of one of these kinds the four ordering operators and
equality answer as one order does (`Value.OrderedBy`); on all others that are no
doubles, and on null, truth values, lists and records whatever stands beside
them, no ordering operator has an answer (`Operator.compare_ordered`).

The two operators follow different tables.  They are brought together by the
atoms: values are ordered as their atoms are (`Value.order?_of_atom`), and equal
if they are one atom.
-/

namespace RowGuard

/-! ## Kinds of values with an order -/

/-- The kinds of values that are ordered among each other, doubles aside. -/
inductive OrderKind where
  | integer
  | string
  | timestamp
deriving DecidableEq

/-- The kind to which a value belongs. -/
def Value.orderKind? : Value → Option OrderKind
  | .int32 _ | .int64 _ => some .integer
  | .string _ => some .string
  | .timestamp _ => some .timestamp
  | .null | .bool _ | .float64 _ | .list _ | .record _ => none

/-- Whether the value has no order with any other: null, a truth value, a list
or a record. -/
def Value.isOrderless : Value → Bool
  | .null | .bool _ | .list _ | .record _ => true
  | .int32 _ | .int64 _ | .float64 _ | .string _ | .timestamp _ => false

/-- The operators answer as this order does: exactly one of `lt`, `eq` and `gt`
holds, and `gte` and `lte` hold where `lt` and `gt` do not. -/
structure Value.OrderedBy (a b : Value) (order : Ordering) : Prop where
  lt : Operator.lt.compare a b = .ok (order == .lt)
  eq : Operator.eq.compare a b = .ok (order == .eq)
  gt : Operator.gt.compare a b = .ok (order == .gt)
  gte : Operator.gte.compare a b = .ok (!order == .lt)
  lte : Operator.lte.compare a b = .ok (!order == .gt)

/-- No ordering operator has an answer. -/
def Value.Unordered (a b : Value) : Prop :=
  ∀ op : Operator, op.isOrdering = true → op.compare a b = .error ⟨op, a, b⟩

/-! ## Atoms -/

namespace Atom

variable {a b c : Atom} {order : Ordering}

/-- The order of two atoms of one kind. -/
def order? : Atom → Atom → Option Ordering
  | .int m, .int n => some (compare m n)
  | .string s, .string t => some (compare s t)
  | .timestamp t, .timestamp u => some (compare t.toInt u.toInt)
  | _, _ => none

/-- The kind to which an atom belongs. -/
def orderKind? : Atom → Option OrderKind
  | .int _ => some .integer
  | .string _ => some .string
  | .timestamp _ => some .timestamp
  | .bool _ => none

/-- Atoms have an order exactly if they are of one kind. -/
theorem isSome_order?_iff {k l : OrderKind} (ha : a.orderKind? = some k)
    (hb : b.orderKind? = some l) : (a.order? b).isSome = true ↔ k = l := by
  cases a <;> simp only [orderKind?, Option.some.injEq, reduceCtorEq] at ha
  all_goals
    cases b <;> simp only [orderKind?, Option.some.injEq, reduceCtorEq] at hb
    all_goals
      subst ha hb
      simp [order?]

/-- The other way round the order is the opposite one. -/
theorem order?_swap (a b : Atom) :
    b.order? a = (a.order? b).map Ordering.swap := by
  cases a with
  | int m => cases b <;> simp [order?, Std.OrientedCmp.eq_swap (a := m)]
  | string s => cases b <;> simp [order?, Std.OrientedCmp.eq_swap (a := s)]
  | timestamp t =>
    cases b <;> simp [order?, Std.OrientedCmp.eq_swap (a := t.toInt)]
  | bool => cases b <;> rfl

/-- Atoms that are neither above nor below each other are one. -/
theorem eq_iff_of_order? (h : a.order? b = some order) :
    order = .eq ↔ a = b := by
  cases a <;> cases b <;>
    simp only [order?, Option.some.injEq, reduceCtorEq] at h
  all_goals
    subst h
    simp [Int64.toInt_inj]

/-- The order carries over from one atom to the next. -/
theorem order?_trans (hab : a.order? b = some .lt)
    (hbc : b.order? c = some .lt) :
    a.order? c = some .lt := by
  cases a <;> cases b <;>
    simp only [order?, Option.some.injEq, reduceCtorEq] at hab
  all_goals
    cases c <;> simp only [order?, Option.some.injEq, reduceCtorEq] at hbc
    simp only [order?, Std.TransCmp.lt_trans hab hbc]

end Atom

/-! ## Values -/

namespace Value

variable {v w : Value} {a b : Atom} {order : Ordering}

/-- Values are ordered as their atoms. -/
theorem order?_of_atom (hv : v.atom? = some a) (hw : w.atom? = some b) :
    v.order? w = a.order? b := by
  cases v <;> simp only [atom?, Option.some.injEq, reduceCtorEq] at hv
  all_goals
    cases w <;> simp only [atom?, Option.some.injEq, reduceCtorEq] at hw
    all_goals
      subst hv hw
      rfl

/-- A value of some kind is an atom of this kind. -/
theorem exists_atom_of_orderKind? {k : OrderKind} (h : v.orderKind? = some k) :
    ∃ a, v.atom? = some a ∧ a.orderKind? = some k := by
  cases v <;> simp only [orderKind?, Option.some.injEq, reduceCtorEq] at h
  all_goals
    subst h
    exact ⟨_, rfl, rfl⟩

theorem order?_of_isOrderless
    (h : v.isOrderless = true ∨ w.isOrderless = true) :
    v.order? w = none := by
  rcases h with h | h
  · cases v with
    | int32 | int64 | float64 | string | timestamp => cases h
    | _ => cases w <;> simp [order?, toInt?, float?]
  · cases w with
    | int32 | int64 | float64 | string | timestamp => cases h
    | _ => cases v <;> simp [order?, toInt?, float?]

/-- Values without an order are compared by no ordering operator. -/
theorem unordered_of_order? (h : v.order? w = none) : v.Unordered w := by
  intro op hop
  cases op with
  | gt | gte | lt | lte => simp [Operator.compare, h]
  | _ => cases hop

/-- The operators follow the order of the values, if equality does. -/
theorem orderedBy_of_order? (h : v.order? w = some order)
    (heq : v.agrees w = true ↔ order = .eq) : v.OrderedBy w order := by
  have hagrees : v.agrees w = (order == .eq) := by
    rw [Bool.eq_iff_iff, heq, beq_iff_eq]
  constructor <;> simp only [Operator.compare, h, hagrees]
  all_goals cases order <;> rfl

theorem orderedBy_of_atom (hv : v.atom? = some a) (hw : w.atom? = some b)
    (h : a.order? b = some order) : v.OrderedBy w order :=
  orderedBy_of_order? (by rw [order?_of_atom hv hw, h])
    (by rw [agrees_iff hv hw, Atom.eq_iff_of_order? h])

/-- A value is less than another if its atom is. -/
theorem compare_lt_iff (hv : v.atom? = some a) (hw : w.atom? = some b) :
    Operator.lt.compare v w = .ok true ↔ a.order? b = some .lt := by
  cases h : a.order? b with
  | none =>
    rw [unordered_of_order? (by rw [order?_of_atom hv hw, h]) .lt rfl]
    simp
  | some order =>
    rw [(orderedBy_of_atom hv hw h).lt, Except.ok.injEq, beq_iff_eq,
      Option.some.injEq]

end Value

/-- Integers, strings and timestamps are totally ordered among their kind: the
operators answer as one order does, seen from either side, and `lt` carries over
from one value to the next.  Values of two kinds, and null, truth values, lists
and records beside any value, have no order. -/
theorem Operator.compare_ordered {a b c : Value} {k l m : OrderKind}
    (ha : a.orderKind? = some k) (hb : b.orderKind? = some l)
    (hc : c.orderKind? = some m) :
    (k = l → ∃ order, a.OrderedBy b order ∧ b.OrderedBy a order.swap) ∧
      (k ≠ l → a.Unordered b) ∧
      (Operator.lt.compare a b = .ok true → Operator.lt.compare b c = .ok true →
        Operator.lt.compare a c = .ok true) ∧
      ∀ v w : Value, v.isOrderless = true ∨ w.isOrderless = true →
        v.Unordered w := by
  obtain ⟨x, hx, hkx⟩ := Value.exists_atom_of_orderKind? ha
  obtain ⟨y, hy, hky⟩ := Value.exists_atom_of_orderKind? hb
  obtain ⟨z, hz, -⟩ := Value.exists_atom_of_orderKind? hc
  have hsome := Atom.isSome_order?_iff hkx hky
  refine ⟨fun hkind => ?_, fun hkind => ?_, ?_, fun v w h => ?_⟩
  · obtain ⟨order, horder⟩ := Option.isSome_iff_exists.1 (hsome.2 hkind)
    have hswap : y.order? x = some order.swap := by
      rw [Atom.order?_swap, horder, Option.map_some]
    exact ⟨order, Value.orderedBy_of_atom hx hy horder,
      Value.orderedBy_of_atom hy hx hswap⟩
  · refine Value.unordered_of_order? ?_
    rw [Value.order?_of_atom hx hy, ← Option.not_isSome_iff_eq_none, hsome]
    exact hkind
  · rw [Value.compare_lt_iff hx hy, Value.compare_lt_iff hy hz,
      Value.compare_lt_iff hx hz]
    exact Atom.order?_trans
  · exact Value.unordered_of_order? (Value.order?_of_isOrderless h)

namespace Widths

/-- The least integer of the lesser width, and its neighbours in the greater
width. -/
def least : Value := .int32 (-0x80000000)

def below : Value := .int64 (-0x80000001)

def above : Value := .int64 (-0x7FFFFFFF)

end Widths

open Widths in
theorem Operator.compare_ordered_widths :
    below.orderKind? = some .integer ∧ least.orderKind? = some .integer ∧
      above.orderKind? = some .integer ∧
      (∃ order, below.OrderedBy least order ∧
        least.OrderedBy below order.swap) ∧
      Operator.lt.compare below least = .ok true ∧
      Operator.lt.compare least above = .ok true ∧
      Operator.lt.compare below above = .ok true ∧
      Value.null.isOrderless = true ∧ Value.null.Unordered least := by
  obtain ⟨hordered, -, htrans, hnone⟩ :=
    compare_ordered (a := below) (b := least) (c := above) rfl rfl rfl
  have hlower : Operator.lt.compare below least = .ok true := rfl
  have hupper : Operator.lt.compare least above = .ok true := rfl
  exact ⟨rfl, rfl, rfl, hordered rfl, hlower, hupper, htrans hlower hupper, rfl,
    hnone _ _ (.inl rfl)⟩

end RowGuard
