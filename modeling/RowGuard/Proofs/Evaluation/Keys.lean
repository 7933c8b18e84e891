import RowGuard.Evaluation.Session
import RowGuard.Proofs.Value.Inspect
import RowGuard.Proofs.Value.Operands

/-!
# Keys and comparison

The key of a relation holds the identity of its owner as text.  Identities
without NaN have one text only if they are one value, up to the width of an
integer (`identityText_eq_iff_widened`).  Such values are equal to the same
values, so a key never leads to the relation of another owner; and identities
that are compared as they stand have one key exactly if they are equal
(`RelationKey.of_eq_iff_agrees`).

A list of numbers has one key but is not equal to itself, since it stands for
its items (`RelationKey.of_numbers_ne_agrees`).
-/

namespace RowGuard

/-! ## Signs of zeros -/

/-- Two zeros with different signs, which are equal. -/
def oppositeZeros (x y : Float) : Bool :=
  x == 0 && y == 0 && x.toBits != y.toBits

/-- Equal doubles are one double, unless they are zeros with different signs. -/
theorem float_eq_of_beq {x y : Float} (h : (x == y) = true)
    (hzeros : oppositeZeros x y = false) :
    x = y := by
  obtain ⟨-, -, heq | ⟨rfl, rfl⟩ | ⟨rfl, rfl⟩⟩ :=
    Float.beq_iff_ne_nan_and_eq.1 h
  · exact heq
  · exact absurd hzeros (by decide +kernel)
  · exact absurd hzeros (by decide +kernel)

mutual

/-- Whether no zero in the one value stands where the other has a zero of the
other sign. -/
def Value.zerosAlike : Value → Value → Bool
  | .float64 x, .float64 y => !oppositeZeros x y
  | .list as, .list bs => itemsZerosAlike as bs
  | .record r, .record s => r.zerosAlike s
  | _, _ => true

/-- Whether the zeros in the fields of two records have the same signs. -/
def Record.zerosAlike : Record → Record → Bool
  | ⟨_, fields⟩, ⟨_, fields'⟩ => fieldsZerosAlike fields fields'

/-- Whether the zeros in the items of two lists have the same signs. -/
def itemsZerosAlike : List Value → List Value → Bool
  | a :: as, b :: bs => a.zerosAlike b && itemsZerosAlike as bs
  | _, _ => true

/-- Whether the zeros in the values of two lists of fields have the same
signs. -/
def fieldsZerosAlike : List (String × Value) → List (String × Value) → Bool
  | (_, a) :: as, (_, b) :: bs => a.zerosAlike b && fieldsZerosAlike as bs
  | _, _ => true

end

mutual

/-- The same values are one value, unless they have zeros with different
signs. -/
theorem Value.eq_of_same : ∀ (a : Value) {b : Value}, a.same b = true →
    a.zerosAlike b = true → a = b
  | .list as, b, h, hzeros => by
    cases b with
    | list bs =>
      rw [Value.same] at h
      rw [Value.zerosAlike] at hzeros
      rw [items_eq_of_same as h hzeros]
    | _ => simp [Value.same] at h
  | .record r, b, h, hzeros => by
    cases b with
    | record s =>
      rw [Value.same] at h
      rw [Value.zerosAlike] at hzeros
      rw [r.eq_of_same h hzeros]
    | _ => simp [Value.same] at h
  | .float64 x, b, h, hzeros => by
    cases b with
    | float64 y =>
      rw [Value.same] at h
      rw [Value.zerosAlike, Bool.not_eq_true'] at hzeros
      rw [float_eq_of_beq h hzeros]
    | _ => simp [Value.same] at h
  | .null, _, h, _ | .bool _, _, h, _ | .int32 _, _, h, _ | .int64 _, _, h, _
  | .string _, _, h, _ | .timestamp _, _, h, _ => by
    rcases Value.cases_of_same h with
      rfl | ⟨_, _, heq, -⟩ | ⟨_, _, heq, -⟩ | ⟨_, _, heq, -⟩
    · rfl
    all_goals cases heq

theorem Record.eq_of_same : ∀ (r : Record) {s : Record}, r.same s = true →
    r.zerosAlike s = true → r = s
  | ⟨_, fields⟩, ⟨_, _⟩, h, hzeros => by
    rw [Record.same, Bool.and_eq_true, beq_iff_eq] at h
    rw [Record.zerosAlike] at hzeros
    rw [h.1, fields_eq_of_same fields h.2 hzeros]

theorem items_eq_of_same :
    ∀ (as : List Value) {bs : List Value}, sameItems as bs = true →
    itemsZerosAlike as bs = true → as = bs
  | [], [], _, _ => rfl
  | a :: as, b :: bs, h, hzeros => by
    rw [sameItems, Bool.and_eq_true] at h
    rw [itemsZerosAlike, Bool.and_eq_true] at hzeros
    rw [a.eq_of_same h.1 hzeros.1, items_eq_of_same as h.2 hzeros.2]
  | [], _ :: _, h, _ | _ :: _, [], h, _ => by simp [sameItems] at h

theorem fields_eq_of_same :
    ∀ (as : List (String × Value)) {bs : List (String × Value)},
    sameFields as bs = true → fieldsZerosAlike as bs = true → as = bs
  | [], [], _, _ => rfl
  | (_, a) :: as, (_, b) :: bs, h, hzeros => by
    rw [sameFields, Bool.and_eq_true, Bool.and_eq_true, beq_iff_eq] at h
    rw [fieldsZerosAlike, Bool.and_eq_true] at hzeros
    rw [h.1.1, a.eq_of_same h.1.2 hzeros.1, fields_eq_of_same as h.2 hzeros.2]
  | [], _ :: _, h, _ | _ :: _, [], h, _ => by simp [sameFields] at h

end

/-! ## Texts of identities -/

section

variable {a b : Value}

theorem identityText_widened (v : Value) :
    identityText v.widened = identityText v := by
  cases v with
  | int32 n => simp only [Value.widened, identityText, Int32.toInt_toInt64]
  | _ => rfl

/-- The text of an identity says whether it is an integer, a string or another
value. -/
theorem identityText_cases (v : Value) :
    (∃ n : Int64, v.widened = .int64 n ∧
      identityText v = "i:" ++ toString n.toInt) ∨
      (∃ s, v.widened = .string s ∧ identityText v = "s:" ++ s) ∨
      v.widened = v ∧ identityText v = "v:" ++ v.inspect := by
  rw [← identityText_widened]
  cases v with
  | int32 n => exact .inl ⟨_, rfl, rfl⟩
  | int64 n => exact .inl ⟨n, rfl, rfl⟩
  | string s => exact .inr (.inl ⟨s, rfl, rfl⟩)
  | _ => exact .inr (.inr ⟨rfl, rfl⟩)

/-- Identities without NaN have one text exactly if they are one value, up to
the width of an integer. -/
theorem identityText_eq_iff_widened (ha : a.nanFree = true)
    (hb : b.nanFree = true) :
    identityText a = identityText b ↔ a.widened = b.widened := by
  refine ⟨fun h => ?_, fun h => ?_⟩
  · have hhead := congrArg (fun text => text.toList.head?) h
    rcases identityText_cases a with
      ⟨n, hwide, htext⟩ | ⟨s, hwide, htext⟩ | ⟨hwide, htext⟩ <;>
      rcases identityText_cases b with ⟨m, hwide', htext'⟩ |
        ⟨t, hwide', htext'⟩ |
        ⟨hwide', htext'⟩ <;>
      rw [htext, htext'] at h hhead <;> rw [hwide, hwide']
    · rw [Int64.toInt_inj.1
        (intRepr_injective ((String.append_right_inj _).1 h))]
    · simp [String.toList_append] at hhead
    · simp [String.toList_append] at hhead
    · simp [String.toList_append] at hhead
    · rw [(String.append_right_inj _).1 h]
    · simp [String.toList_append] at hhead
    · simp [String.toList_append] at hhead
    · simp [String.toList_append] at hhead
    · exact Value.inspect_injective ha hb ((String.append_right_inj _).1 h)
  · rw [← identityText_widened, h, identityText_widened]

end

/-! ## Widths in comparisons -/

namespace Value

variable {a b : Value}

/-- On the right as well an integer compares like the one of the greater
width. -/
theorem atomsEqual_int32 (n : Int32) (x : Value) :
    x.atomsEqual (int32 n) = x.atomsEqual (int64 n.toInt64) := by
  cases x with
  | int32 m =>
    have hwiden : m.toInt64 = n.toInt64 ↔ m = n := by
      rw [← Int64.toInt_inj, Int32.toInt_toInt64, Int32.toInt_toInt64,
        Int32.toInt_inj]
    simp only [atomsEqual, same]
    rw [Bool.eq_iff_iff, beq_iff_eq, beq_iff_eq, hwiden]
  | _ => simp [atomsEqual, same]

theorem equals_int32 (n : Int32) (x : Value) :
    x.equals (int32 n) = x.equals (int64 n.toInt64) := by
  rw [equals_eq_atomsEqual (v := int32 n) rfl,
    equals_eq_atomsEqual (v := int64 n.toInt64) rfl, atomsEqual_int32]

end Value

mutual

theorem Value.agrees_int32 (n : Int32) : ∀ c : Value,
    c.agrees (.int32 n) = c.agrees (.int64 n.toInt64)
  | .list items => by rw [Value.agrees, Value.agrees, anyAgrees_int32 n items]
  | .record _ | .null | .bool _ | .int32 _ | .int64 _ | .float64 _ | .string _
  | .timestamp _ => by
    rw [Value.agrees_eq_equals rfl, Value.agrees_eq_equals rfl]
    exact Value.equals_int32 n _

theorem anyAgrees_int32 (n : Int32) : ∀ items : List Value,
    anyAgrees items (.int32 n) = anyAgrees items (.int64 n.toInt64)
  | [] => by rw [anyAgrees, anyAgrees]
  | item :: items => by
    rw [anyAgrees, anyAgrees, item.agrees_int32 n, anyAgrees_int32 n items]

end

namespace Value

variable {a b : Value}

/-- The width of an integer plays no part in comparisons. -/
theorem agrees_widened (v c : Value) :
    v.widened.agrees c = v.agrees c ∧ c.agrees v.widened = c.agrees v := by
  cases v with
  | int32 n =>
    refine ⟨?_, (c.agrees_int32 n).symm⟩
    rw [agrees_eq_equals rfl, agrees_eq_equals rfl]
    show (int64 n.toInt64).equals _ = (int32 n).equals _
    rw [equals_of_single rfl, equals_of_single rfl, int32_atomsEqual]
  | _ => exact ⟨rfl, rfl⟩

theorem zerosAlike_widened (a b : Value) :
    a.widened.zerosAlike b.widened = a.zerosAlike b := by
  cases a <;> cases b <;> simp [widened, zerosAlike]

/-- Two identities that are compared as they stand: the left one is no list,
neither is a record that bears an identity in turn, a double is not beside an
integer, and no zeros differ by their sign. -/
structure KeyedAlike (a b : Value) : Prop where
  single : a.isList = false
  bare : a.identity? = none
  bare' : b.identity? = none
  unmixed : ∀ x, (a = .float64 x → b.toInt? = none) ∧
    (b = .float64 x → a.toInt? = none)
  zeros : a.zerosAlike b = true

/-- Unless a double is beside an integer, equal values are the same up to the
width of integers. -/
theorem atomsEqual_eq_same_of_unmixed
    (h : ∀ x, (a = .float64 x → b.toInt? = none) ∧
      (b = .float64 x → a.toInt? = none)) :
    a.atomsEqual b = a.widened.same b.widened := by
  cases a with
  | float64 x =>
    have hb := (h x).1 rfl
    cases b with
    | int32 _ | int64 _ => cases hb
    | _ => simp [atomsEqual, same, widened]
  | int32 _ | int64 _ =>
    cases b with
    | float64 y => cases (h y).2 rfl
    | _ =>
      exact atomsEqual_eq_same (fun _ heq => by cases heq)
        (fun _ heq => by cases heq)
  | _ =>
    cases b with
    | float64 y => simp [atomsEqual, same, widened]
    | _ =>
      exact atomsEqual_eq_same (fun _ heq => by cases heq)
        (fun _ heq => by cases heq)

/-- Such identities are equal only if they are one value, up to the width of an
integer. -/
theorem KeyedAlike.widened_eq (h : a.KeyedAlike b) (heq : a.agrees b = true) :
    a.widened = b.widened := by
  rw [agrees_eq_equals h.single, identityOrSelf, identityOrSelf,
    h.bare, h.bare', Option.getD_none, Option.getD_none,
    equals_of_single h.single, atomsEqual_eq_same_of_unmixed h.unmixed] at heq
  exact eq_of_same _ heq (by rw [zerosAlike_widened]; exact h.zeros)

/-- Such an identity is equal to itself, unless it contains NaN. -/
theorem KeyedAlike.standsAlone (h : a.KeyedAlike b) : a.StandsAlone :=
  .single h.single fun items hid => by
    rw [h.bare] at hid
    cases hid

end Value

/-! ## Keys of relations -/

namespace RelationKey

variable {entity relation : String} {a b : Value}

/-- No value is equal to only one of two identities with one key. -/
theorem agrees_of_eq (ha : a.nanFree = true) (hb : b.nanFree = true)
    (h : of entity a relation = of entity b relation) (c : Value) :
    a.agrees c = b.agrees c ∧ c.agrees a = c.agrees b := by
  have hwidened :=
    (identityText_eq_iff_widened ha hb).1 (congrArg RelationKey.identity h)
  obtain ⟨hleft, hright⟩ := a.agrees_widened c
  obtain ⟨hleft', hright'⟩ := b.agrees_widened c
  rw [← hleft, ← hright, ← hleft', ← hright', hwidened]
  exact ⟨rfl, rfl⟩

/-- Identities with one key are equal to the same values, and to each other if
they stand alone.  Identities that are compared as they stand have one key
exactly if they are equal. -/
theorem of_eq_iff_agrees (entity relation : String) {a b : Value}
    (ha : a.nanFree = true) (hb : b.nanFree = true) :
    (of entity a relation = of entity b relation →
      (∀ c, a.agrees c = b.agrees c ∧ c.agrees a = c.agrees b) ∧
      (a.StandsAlone → a.agrees b = true)) ∧
    (a.KeyedAlike b →
      (of entity a relation = of entity b relation ↔ a.agrees b = true)) := by
  have hequal : of entity a relation = of entity b relation → a.StandsAlone →
      a.agrees b = true := fun h halone => by
    rw [← (agrees_of_eq ha hb h a).2]
    exact halone.agrees_self ha
  refine ⟨fun h => ⟨agrees_of_eq ha hb h, hequal h⟩, fun halike => ?_⟩
  refine ⟨fun h => hequal h halike.standsAlone, fun h => ?_⟩
  rw [of, of, (identityText_eq_iff_widened ha hb).2 (halike.widened_eq h)]

/-- A record without an identity that has a number. -/
def box (size : Float) : Value :=
  .record ⟨none, [("size", .float64 size), ("label", .null)]⟩

/-- The widths of integers count for no key, and the numbers in records do. -/
theorem of_eq_iff_agrees_box :
    (Value.int32 7).KeyedAlike (.int64 7) ∧
      (Value.int32 7).agrees (.int64 7) = true ∧
      of "post" (.int32 7) "author" = of "post" (.int64 7) "author" ∧
      (box 0.5).KeyedAlike (box 0.25) ∧ (box 0.5).agrees (box 0.25) = false ∧
      of "post" (box 0.5) "author" ≠ of "post" (box 0.25) "author" := by
  have hseven : (Value.int32 7).KeyedAlike (.int64 7) :=
    ⟨rfl, rfl, rfl, fun _ => ⟨nofun, nofun⟩, by decide +kernel⟩
  have hboxes : (box 0.5).KeyedAlike (box 0.25) :=
    ⟨rfl, rfl, rfl, fun _ => ⟨nofun, nofun⟩, by decide +kernel⟩
  have hagrees : (Value.int32 7).agrees (.int64 7) = true := by decide +kernel
  have hdiffers : (box 0.5).agrees (box 0.25) = false := by decide +kernel
  obtain ⟨-, hiff⟩ :=
    of_eq_iff_agrees "post" "author" (a := .int32 7) (b := .int64 7) rfl rfl
  obtain ⟨-, hiff'⟩ := of_eq_iff_agrees "post" "author" (a := box 0.5)
    (b := box 0.25) (by decide +kernel) (by decide +kernel)
  refine ⟨hseven, hagrees, (hiff hseven).2 hagrees, hboxes, hdiffers,
    fun h => ?_⟩
  rw [(hiff' hboxes).1 h] at hdiffers
  cases hdiffers

/-- A list of numbers has one key, but stands for its items in comparisons: it
is not equal to itself, and equal to an item that has another key. -/
theorem of_numbers_ne_agrees :
    let numbers : Value := .list [.int64 1, .int64 2]
    numbers.isNull = false ∧ numbers.nanFree = true ∧
      of "series" numbers "volumes" = of "series" numbers "volumes" ∧
      numbers.agrees numbers = false ∧
      of "series" numbers "volumes" ≠ of "series" (.int64 2) "volumes" ∧
      numbers.agrees (.int64 2) = true := by
  refine ⟨rfl, rfl, rfl, by decide +kernel, fun h => ?_, by decide +kernel⟩
  have htext : identityText (.list [.int64 1, .int64 2]) =
      identityText (.int64 2) :=
    congrArg RelationKey.identity h
  cases (identityText_eq_iff_widened rfl rfl).1 htext

end RelationKey

end RowGuard
