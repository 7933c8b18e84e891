import RowGuard.Comparison

/-!
# Values that are the same compare alike

`Value.same` is coarser than equality on doubles: the two zeros are the same.
No comparison tells values apart that are the same.  `Float.congr_of_beq` is the
fact for doubles, from the model that the language has of them;
`Value.same_congr`, `Value.atomsEqual_congr` and `Value.order?_congr` carry it
over to values.  `Value.same_symm` and `Value.same_trans` make sameness a
partial equivalence; NaN is outside of it.
-/

namespace RowGuard

/-! ## Doubles -/

section

open Float.Model (UnpackedFloat)

/-- Only zeros are equal without being one. -/
theorem eq_or_zero_of_compare {a b : UnpackedFloat}
    (h : a.compare b = some .eq) :
    a = b ∨ ∃ s t, a = .zero s ∧ b = .zero t := by
  cases a with
  | notANumber => cases h
  | zero s =>
    cases b with
    | zero t => exact .inr ⟨s, t, rfl, rfl⟩
    | notANumber => cases h
    | infinity t | finite t => cases t <;> cases h
  | infinity s =>
    cases b with
    | infinity t => cases s <;> cases t <;> first | exact .inl rfl | cases h
    | notANumber => cases s <;> cases h
    | zero | finite => cases s <;> cases h
  | finite s m e =>
    cases b with
    | finite t n f =>
      have hequal : ((compare e f).then (compare m n)) = .eq →
          e = f ∧ m = n := by
        rw [Ordering.then_eq_eq, Int.compare_eq_eq, Nat.compare_eq_eq]
        exact id
      cases s <;> cases t
      case positive.positive =>
        obtain ⟨rfl, rfl⟩ := hequal (Option.some.inj h)
        exact .inl rfl
      case negative.negative =>
        have hswap : ∀ o : Ordering, o.swap = .eq → o = .eq := by decide
        obtain ⟨rfl, rfl⟩ := hequal (hswap _ (Option.some.inj h))
        exact .inl rfl
      all_goals cases h
    | notANumber => cases s <;> cases h
    | zero | infinity t =>
      first | (cases s <;> cases h) | (cases s <;> cases t <;> cases h)

theorem compare_congr {a b : UnpackedFloat} (h : a.compare b = some .eq)
    (x : UnpackedFloat) :
    x.compare a = x.compare b ∧ a.compare x = b.compare x := by
  rcases eq_or_zero_of_compare h with rfl | ⟨s, t, rfl, rfl⟩
  · exact ⟨rfl, rfl⟩
  · cases x with
    | finite sign | infinity sign => cases sign <;> exact ⟨rfl, rfl⟩
    | _ => exact ⟨rfl, rfl⟩

theorem float_beq_eq (a b : Float) :
    (a == b) = (a.toModel.unpack.compare b.toModel.unpack == some .eq) := rfl

theorem float_lt_iff (a b : Float) :
    a < b ↔ a.toModel.unpack.compare b.toModel.unpack = some .lt := by
  show decide (a.toModel < b.toModel) = true ↔ _
  rw [decide_eq_true_iff]
  show (a.toModel.unpack.compare b.toModel.unpack == some .lt) = true ↔ _
  exact beq_iff_eq

/-- Equal doubles compare alike with any other one. -/
theorem float_congr {a b : Float} (h : (a == b) = true) (x : Float) :
    (x == a) = (x == b) ∧ (x < a ↔ x < b) ∧ (a < x ↔ b < x) := by
  rw [float_beq_eq, beq_iff_eq] at h
  obtain ⟨hright, hleft⟩ := compare_congr h x.toModel.unpack
  simp only [float_beq_eq, float_lt_iff, hright, hleft, and_self]

theorem floatOrder?_congr {a b : Float} (h : (a == b) = true) (x : Float) :
    floatOrder? x a = floatOrder? x b := by
  obtain ⟨hbeq, hlt, hgt⟩ := float_congr h x
  simp only [floatOrder?, hbeq, hlt, hgt]

end

/-! ## Values -/

/-- Two values that are the same are equal, or two doubles, lists or records
whose contents are the same. -/
theorem Value.cases_of_same {v w : Value} (h : v.same w = true) :
    v = w ∨ (∃ a b, v = .float64 a ∧ w = .float64 b ∧ (a == b) = true) ∨
      (∃ vs ws, v = .list vs ∧ w = .list ws ∧ sameItems vs ws = true) ∨
      ∃ r s, v = .record r ∧ w = .record s ∧ r.same s = true := by
  rw [Value.same.eq_def] at h
  split at h
  · exact .inl rfl
  · exact .inl (congrArg _ (beq_iff_eq.1 h))
  · exact .inl (congrArg _ (beq_iff_eq.1 h))
  · exact .inl (congrArg _ (beq_iff_eq.1 h))
  · next a b => exact .inr (.inl ⟨a, b, rfl, rfl, h⟩)
  · exact .inl (congrArg _ (beq_iff_eq.1 h))
  · exact .inl (congrArg _ (beq_iff_eq.1 h))
  · next vs ws => exact .inr (.inr (.inl ⟨vs, ws, rfl, rfl, h⟩))
  · next r s => exact .inr (.inr (.inr ⟨r, s, rfl, rfl, h⟩))
  · cases h

mutual

/-- Sameness with a value is sameness with any that is the same. -/
theorem Value.same_congr : ∀ (x : Value) {v w : Value}, v.same w = true →
    x.same v = x.same w
  | .list items, v, w, h => by
    rcases Value.cases_of_same h with rfl | ⟨a, b, rfl, rfl, hab⟩ |
      ⟨vs, ws, rfl, rfl, hitems⟩ |
      ⟨r, s, rfl, rfl, hfields⟩
    · rfl
    · simp [Value.same]
    · rw [Value.same, Value.same, sameItems_congr items hitems]
    · simp [Value.same]
  | .record x, v, w, h => by
    rcases Value.cases_of_same h with rfl | ⟨a, b, rfl, rfl, hab⟩ |
      ⟨vs, ws, rfl, rfl, hitems⟩ |
      ⟨r, s, rfl, rfl, hfields⟩
    · rfl
    · simp [Value.same]
    · simp [Value.same]
    · rw [Value.same, Value.same, x.same_congr hfields]
  | .float64 x, v, w, h => by
    rcases Value.cases_of_same h with rfl | ⟨a, b, rfl, rfl, hab⟩ |
      ⟨vs, ws, rfl, rfl, hitems⟩ |
      ⟨r, s, rfl, rfl, hfields⟩
    · rfl
    · rw [Value.same, Value.same, (float_congr hab x).1]
    · simp [Value.same]
    · simp [Value.same]
  | .null, v, w, h | .bool _, v, w, h | .int32 _, v, w, h | .int64 _, v, w, h
  | .string _, v, w, h | .timestamp _, v, w, h => by
    rcases Value.cases_of_same h with rfl | ⟨a, b, rfl, rfl, hab⟩ |
      ⟨vs, ws, rfl, rfl, hitems⟩ |
      ⟨r, s, rfl, rfl, hfields⟩
    · rfl
    all_goals simp [Value.same]

theorem Record.same_congr : ∀ (x : Record) {r s : Record}, r.same s = true →
    x.same r = x.same s
  | ⟨entity, fields⟩, ⟨entity', fields'⟩, ⟨entity'', fields''⟩, h => by
    simp only [Record.same, Bool.and_eq_true, beq_iff_eq] at h
    rw [Record.same, Record.same, h.1, sameFields_congr fields h.2]

theorem sameItems_congr : ∀ (xs : List Value) {vs ws : List Value},
    sameItems vs ws = true → sameItems xs vs = sameItems xs ws
  | _, [], [], _ => rfl
  | [], _ :: _, _ :: _, _ => by simp [sameItems]
  | x :: xs, v :: vs, w :: ws, h => by
    simp only [sameItems, Bool.and_eq_true] at h
    rw [sameItems, sameItems, x.same_congr h.1, sameItems_congr xs h.2]
  | _, [], _ :: _, h | _, _ :: _, [], h => by simp [sameItems] at h

theorem sameFields_congr :
    ∀ (xs : List (String × Value)) {vs ws : List (String × Value)},
    sameFields vs ws = true → sameFields xs vs = sameFields xs ws
  | _, [], [], _ => rfl
  | [], _ :: _, _ :: _, _ => by simp [sameFields]
  | (n, x) :: xs, (m, v) :: vs, (k, w) :: ws, h => by
    simp only [sameFields, Bool.and_eq_true, beq_iff_eq] at h
    rw [sameFields, sameFields, h.1.1, x.same_congr h.1.2,
      sameFields_congr xs h.2]
  | _, [], _ :: _, h | _, _ :: _, [], h => by simp [sameFields] at h

end

/-- Equality with a value is equality with any that is the same. -/
theorem Value.atomsEqual_congr {v w : Value} (h : v.same w = true) (x : Value) :
    x.atomsEqual v = x.atomsEqual w := by
  have hsame := x.same_congr h
  rcases Value.cases_of_same h with rfl | ⟨a, b, rfl, rfl, hab⟩ |
    ⟨vs, ws, rfl, rfl, -⟩ |
    ⟨r, s, rfl, rfl, -⟩
  · rfl
  · cases x with
    | float64 x => simp only [Value.atomsEqual, (float_congr hab x).1]
    | int32 n =>
      simp only [Value.atomsEqual, (float_congr hab n.toInt64.toFloat).1]
    | int64 n => simp only [Value.atomsEqual, (float_congr hab n.toFloat).1]
    | _ => exact hsame
  · cases x <;> exact hsame
  · cases x <;> exact hsame

/-- The order with a value is the order with any that is the same. -/
theorem Value.order?_congr {v w : Value} (h : v.same w = true) (x : Value) :
    x.order? v = x.order? w := by
  rcases Value.cases_of_same h with rfl | ⟨a, b, rfl, rfl, hab⟩ |
    ⟨vs, ws, rfl, rfl, -⟩ |
    ⟨r, s, rfl, rfl, -⟩
  · rfl
  · have hfloat : ∀ y : Float, floatOrder? y a = floatOrder? y b :=
      floatOrder?_congr hab
    cases x <;> simp [Value.order?, Value.toInt?, Value.float?, hfloat]
  · cases x <;> simp [Value.order?, Value.toInt?, Value.float?]
  · cases x <;> simp [Value.order?, Value.toInt?, Value.float?]

/-! ## Symmetry and transitivity -/

theorem float_beq_symm {a b : Float} (h : (a == b) = true) :
    (b == a) = true := by
  rw [float_beq_eq, beq_iff_eq] at h ⊢
  rcases eq_or_zero_of_compare h with heq | ⟨s, t, ha, hb⟩
  · rw [heq] at h ⊢
    exact h
  · rw [ha, hb]
    rfl

mutual

theorem Value.same_symm :
    ∀ (v : Value) {w : Value}, v.same w = true → w.same v = true
  | .list items, w, h => by
    cases w with
    | list =>
      rw [Value.same] at h ⊢
      exact sameItems_symm items h
    | _ => simp [Value.same] at h
  | .record r, w, h => by
    cases w with
    | record =>
      rw [Value.same] at h ⊢
      exact r.same_symm h
    | _ => simp [Value.same] at h
  | .float64 x, w, h => by
    cases w with
    | float64 =>
      rw [Value.same] at h ⊢
      exact float_beq_symm h
    | _ => simp [Value.same] at h
  | .null, w, h | .bool _, w, h | .int32 _, w, h | .int64 _, w, h
  | .string _, w, h | .timestamp _, w, h => by
    rcases Value.cases_of_same h with
      rfl | ⟨_, _, heq, -⟩ | ⟨_, _, heq, -⟩ | ⟨_, _, heq, -⟩
    · exact h
    all_goals cases heq

theorem Record.same_symm :
    ∀ (r : Record) {s : Record}, r.same s = true → s.same r = true
  | ⟨entity, fields⟩, ⟨entity', fields'⟩, h => by
    simp only [Record.same, Bool.and_eq_true, beq_iff_eq] at h ⊢
    exact ⟨h.1.symm, sameFields_symm fields h.2⟩

theorem sameItems_symm : ∀ (vs : List Value) {ws : List Value},
    sameItems vs ws = true → sameItems ws vs = true
  | [], [], h => h
  | v :: vs, w :: ws, h => by
    simp only [sameItems, Bool.and_eq_true] at h ⊢
    exact ⟨v.same_symm h.1, sameItems_symm vs h.2⟩
  | [], _ :: _, h | _ :: _, [], h => by simp [sameItems] at h

theorem sameFields_symm :
    ∀ (vs : List (String × Value)) {ws : List (String × Value)},
    sameFields vs ws = true → sameFields ws vs = true
  | [], [], h => h
  | (_, v) :: vs, (_, w) :: ws, h => by
    simp only [sameFields, Bool.and_eq_true, beq_iff_eq] at h ⊢
    exact ⟨⟨h.1.1.symm, v.same_symm h.1.2⟩, sameFields_symm vs h.2⟩
  | [], _ :: _, h | _ :: _, [], h => by simp [sameFields] at h

end

theorem Value.same_trans {u v w : Value} (huv : u.same v = true)
    (hvw : v.same w = true) :
    u.same w = true := by
  rw [← u.same_congr hvw]
  exact huv

end RowGuard
