import Mathlib.Tactic.SplitIfs
import RowGuard.Scope.FilterValue

/-!
# Scalars by their meaning

An `Atom` is what a scalar other than a double means: integers of either width
are one kind.  Two such scalars compare as equal exactly if they are one atom
(`Value.atomsEqual_iff`), and so they do if their texts in keys of the cache are
equal (`identityText_eq_iff`).
-/

namespace RowGuard

/-- The meaning of a scalar that is no double. -/
inductive Atom where
  | bool (b : Bool)
  | int (n : Int)
  | string (s : String)
  | timestamp (t : Int64)
deriving DecidableEq

/-- The atom of a value, if it is a scalar but no double. -/
def Value.atom? : Value → Option Atom
  | .bool b => some (.bool b)
  | .int32 n => some (.int n.toInt)
  | .int64 n => some (.int n.toInt)
  | .string s => some (.string s)
  | .timestamp t => some (.timestamp t)
  | .null | .float64 _ | .list _ | .record _ => none

/-! ## Comparing atoms -/

namespace Value

variable {v w : Value} {a b : Atom}

/-- Scalars are equal if they are one atom. -/
theorem atomsEqual_iff (hv : v.atom? = some a) (hw : w.atom? = some b) :
    v.atomsEqual w = true ↔ a = b := by
  have hint32 : ∀ n : Int32, ∀ m : Int64, n.toInt64 = m ↔
      n.toInt = m.toInt := fun n m => by
    rw [← Int64.toInt_inj, Int32.toInt_toInt64]
  have hint64 : ∀ n : Int64, ∀ m : Int32, n = m.toInt64 ↔
      n.toInt = m.toInt := fun n m => by
    rw [← Int64.toInt_inj, Int32.toInt_toInt64]
  cases v <;> simp only [atom?, Option.some.injEq, reduceCtorEq] at hv
  all_goals
    cases w <;> simp only [atom?, Option.some.injEq, reduceCtorEq] at hw
    all_goals
      subst hv hw
      simp [atomsEqual, same, hint32, hint64, Int32.toInt_inj, Int64.toInt_inj]

theorem isNull_of_atom (hv : v.atom? = some a) : v.isNull = false := by
  cases v <;> first | rfl | simp [atom?] at hv

/-- Null equals no scalar. -/
theorem null_atomsEqual (hw : w.atom? = some b) :
    null.atomsEqual w = false := by
  cases w <;> first | (simp [atomsEqual, same]; done) | simp [atom?] at hw

theorem identity?_of_atom (hv : v.atom? = some a) : v.identity? = none := by
  cases v <;> first | rfl | simp [atom?] at hv

theorem identityOrSelf_of_atom (hv : v.atom? = some a) :
    v.identityOrSelf = v := by
  rw [identityOrSelf, identity?_of_atom hv, Option.getD_none]

theorem isList_of_atom (hv : v.atom? = some a) : v.isList = false := by
  cases v <;> first | rfl | simp [atom?] at hv

theorem equals_of_atom (hv : v.atom? = some a) :
    v.equals w = v.atomsEqual w := by
  cases v <;> first | simp [equals] | simp [atom?] at hv

/-- Scalars agree if they are one atom. -/
theorem agrees_iff (hv : v.atom? = some a) (hw : w.atom? = some b) :
    v.agrees w = true ↔ a = b := by
  rw [agrees_eq_equals (isList_of_atom hv), identityOrSelf_of_atom hv,
    identityOrSelf_of_atom hw, equals_of_atom hv, atomsEqual_iff hv hw]

theorem toInt64_eq_of_toInt_eq {n : Int32} {m : Int64} (h : n.toInt = m.toInt) :
    n.toInt64 = m := by
  rwa [← Int64.toInt_inj, Int32.toInt_toInt64]

/-- An integer compares like the one of the greater width. -/
theorem int32_atomsEqual (n : Int32) (x : Value) :
    (int32 n).atomsEqual x = (int64 n.toInt64).atomsEqual x := by
  cases x with
  | int32 m =>
    have hwiden : n.toInt64 = m.toInt64 ↔ n = m := by
      rw [← Int64.toInt_inj, Int32.toInt_toInt64, Int32.toInt_toInt64,
        Int32.toInt_inj]
    simp only [atomsEqual, same]
    rw [Bool.eq_iff_iff, beq_iff_eq, beq_iff_eq, hwiden]
  | _ => simp [atomsEqual, same]

/-- Scalars that are one atom compare alike, also with doubles. -/
theorem atomsEqual_of_atom (hv : v.atom? = some a) (hw : w.atom? = some a)
    (x : Value) :
    v.atomsEqual x = w.atomsEqual x := by
  cases v <;> simp only [atom?, Option.some.injEq, reduceCtorEq] at hv
  all_goals
    subst hv
    cases w <;>
      simp only [atom?, Option.some.injEq, reduceCtorEq, Atom.bool.injEq,
        Atom.int.injEq, Atom.string.injEq, Atom.timestamp.injEq] at hw
  case int32.int32 => rw [Int32.toInt_inj.1 hw]
  case int32.int64 => rw [int32_atomsEqual, toInt64_eq_of_toInt_eq hw.symm]
  case int64.int32 => rw [int32_atomsEqual, toInt64_eq_of_toInt_eq hw]
  case int64.int64 => rw [Int64.toInt_inj.1 hw]
  all_goals rw [hw]

end Value

/-! ## Atoms in keys -/

theorem natRepr_injective {m n : Nat} (h : m.repr = n.repr) : m = n := by
  have hdigits : Nat.toDigits 10 m = Nat.toDigits 10 n := by
    have hlist := congrArg String.toList h
    rwa [Nat.toList_repr, Nat.toList_repr] at hlist
  rw [← Nat.ofDigitChars_ten_toDigits (n := m), hdigits,
    Nat.ofDigitChars_ten_toDigits]

/-- The text of a natural number has no sign. -/
theorem natRepr_ne_minus (n : Nat) (s : String) : n.repr ≠ "-" ++ s := by
  intro h
  have hlist := congrArg String.toList h
  rw [Nat.toList_repr, String.toList_append] at hlist
  have hminus : '-' ∈ Nat.toDigits 10 n := by
    rw [hlist]
    exact List.mem_append_left _ (by decide)
  have hdigit := Nat.isDigit_of_mem_toDigits (by decide) (by decide) hminus
  exact absurd hdigit (by decide)

theorem intRepr_injective {m n : Int}
    (h : toString m = toString n) : m = n := by
  rw [Int.toString_eq_repr, Int.toString_eq_repr, Int.repr_eq_if,
    Int.repr_eq_if] at h
  split_ifs at h with hm hn hn
  · have := natRepr_injective h
    omega
  · exact absurd h (natRepr_ne_minus _ _)
  · exact absurd h.symm (natRepr_ne_minus _ _)
  · have := natRepr_injective ((String.append_right_inj _).1 h)
    omega

/-- The text of an atom in a key. -/
def Atom.text : Atom → String
  | .int n => "i:" ++ toString n
  | .string s => "s:" ++ s
  | .bool b => "v:" ++ (Value.bool b).inspect
  | .timestamp t => "v:" ++ (Value.timestamp t).inspect

theorem identityText_of_atom {v : Value} {a : Atom} (hv : v.atom? = some a) :
    identityText v = a.text := by
  cases v <;> simp only [Value.atom?, Option.some.injEq, reduceCtorEq] at hv
  all_goals
    subst hv
    rfl

/-- Atoms have texts of their own: the first characters tell the kinds apart. -/
theorem Atom.text_injective {a b : Atom} (h : a.text = b.text) : a = b := by
  have hbool : ∀ x y : Bool, (Value.bool x).inspect =
      (Value.bool y).inspect → x = y := by
    decide +kernel
  have hhead := congrArg (fun s => s.toList.head?) h
  cases a with
  | int m =>
    cases b with
    | int n => rw [intRepr_injective ((String.append_right_inj _).1 h)]
    | _ => simp [text, String.toList_append] at hhead
  | string s =>
    cases b with
    | string t => rw [(String.append_right_inj _).1 h]
    | _ => simp [text, String.toList_append] at hhead
  | bool x =>
    cases b with
    | bool y => rw [hbool x y ((String.append_right_inj _).1 h)]
    | timestamp t =>
      have hsecond :=
        congrArg (fun s => s.toList.head?) ((String.append_right_inj _).1 h)
      simp [Value.inspect, String.toList_append] at hsecond
    | _ => simp [text, String.toList_append] at hhead
  | timestamp t =>
    cases b with
    | timestamp u =>
      have hinspect := (String.append_right_inj _).1 h
      simp only [Value.inspect] at hinspect
      have htext := (String.append_left_inj _).1 hinspect
      rw [Int64.toInt_inj.1
        (intRepr_injective ((String.append_right_inj _).1 htext))]
    | bool y =>
      have hsecond :=
        congrArg (fun s => s.toList.head?) ((String.append_right_inj _).1 h)
      simp [Value.inspect, String.toList_append] at hsecond
    | _ => simp [text, String.toList_append] at hhead

/-- Identities that are scalars have one text in keys exactly if they are one
atom. -/
theorem identityText_eq_iff {v w : Value} {a b : Atom} (hv : v.atom? = some a)
    (hw : w.atom? = some b) : identityText v = identityText w ↔ a = b := by
  rw [identityText_of_atom hv, identityText_of_atom hw]
  exact ⟨Atom.text_injective, fun h => h ▸ rfl⟩

end RowGuard
