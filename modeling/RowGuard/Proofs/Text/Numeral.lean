import RowGuard.Command
import RowGuard.Proofs.Decimal.FloatText

/-!
# Texts of integers

A text stands for an integer of 64 bits exactly if it is a numeral, decimal
digits behind a sign or without one, and the integer fits
(`int64OfText?_eq_some_iff`).  The decimal text of every such integer is read
back (`int64OfText?_toString`), and other texts are read as well: leading zeros,
a plus sign and a negative zero.
-/

namespace RowGuard

open Decimal

/-- The texts of an integer in decimal: one digit or more, behind a sign or
without one. -/
inductive IntegerText : List Char → Int → Prop where
  | bare {digits : List Char} (hne : digits ≠ []) (hdigits : AllDigits digits) :
      IntegerText digits (Nat.ofDigitChars 10 digits 0)
  | plus {digits : List Char} (hne : digits ≠ []) (hdigits : AllDigits digits) :
      IntegerText ('+' :: digits) (Nat.ofDigitChars 10 digits 0)
  | minus {digits : List Char} (hne : digits ≠ [])
      (hdigits : AllDigits digits) :
      IntegerText ('-' :: digits) (-(Nat.ofDigitChars 10 digits 0 : Int))

/-! ## Digits -/

/-- Characters are read one by one, and only digits are. -/
theorem mapM_digit?_eq_some_iff {chars : List Char} {values : List Nat} :
    chars.mapM Document.digit? = some values ↔
      AllDigits chars ∧ values = chars.map fun c => c.toNat - '0'.toNat := by
  induction chars generalizing values with
  | nil =>
    rw [List.mapM_nil, List.map_nil]
    constructor
    · intro h
      exact ⟨List.forall_mem_nil _, (Option.some.inj h).symm⟩
    · intro h
      exact congrArg some h.2.symm
  | cons c chars ih =>
    have hfirst (value : Nat) : Document.digit? c = some value ↔
        c.isDigit = true ∧ value = c.toNat - '0'.toNat := by
      unfold Document.digit?
      by_cases hc : c.isDigit = true
      · rw [if_pos hc, Option.some_inj]
        exact ⟨fun h => ⟨hc, h.symm⟩, fun h => h.2.symm⟩
      · rw [if_neg hc]
        exact ⟨fun h => (Option.some_ne_none _ h.symm).elim,
          fun h => absurd h.1 hc⟩
    rw [List.mapM_cons, List.map_cons]
    constructor
    · intro h
      obtain ⟨value, hvalue, h⟩ := Option.bind_eq_some_iff.1 h
      obtain ⟨rest, hrest, h⟩ := Option.bind_eq_some_iff.1 h
      obtain ⟨hc, hvalue⟩ := (hfirst value).1 hvalue
      obtain ⟨hchars, hrest⟩ := ih.1 hrest
      refine ⟨List.forall_mem_cons.2 ⟨hc, hchars⟩, ?_⟩
      rw [← Option.some.inj h, hvalue, hrest]
    · intro h
      obtain ⟨hc, hchars⟩ := List.forall_mem_cons.1 h.1
      rw [(hfirst _).2 ⟨hc, rfl⟩, ih.2 ⟨hchars, rfl⟩, h.2]
      rfl

theorem natOfDigits?_eq_some_iff {digits : List Char} {n : Nat} :
    natOfDigits? digits = some n ↔
      digits ≠ [] ∧ AllDigits digits ∧ n = Nat.ofDigitChars 10 digits 0 := by
  have hvalue : (digits.map fun c => c.toNat - '0'.toNat).foldl
      (fun n digit => n * 10 + digit) 0 = Nat.ofDigitChars 10 digits 0 := by
    rw [List.foldl_map, Nat.ofDigitChars]
    congr 1
    funext n c
    rw [Nat.mul_comm]
  unfold natOfDigits?
  by_cases hempty : digits = []
  · rw [if_pos (List.isEmpty_iff.2 hempty)]
    exact ⟨fun h => (Option.some_ne_none _ h.symm).elim,
      fun h => absurd hempty h.1⟩
  · rw [if_neg (mt List.isEmpty_iff.1 hempty), Option.map_eq_some_iff]
    constructor
    · intro h
      obtain ⟨values, hvalues, h⟩ := h
      obtain ⟨hdigits, hvalues⟩ := mapM_digit?_eq_some_iff.1 hvalues
      exact ⟨hempty, hdigits, by rw [← h, hvalues, hvalue]⟩
    · intro h
      exact ⟨_, mapM_digit?_eq_some_iff.2 ⟨h.2.1, rfl⟩, by rw [hvalue, h.2.2]⟩

/-! ## Integers -/

/-- The integer that a text writes, whether it fits or not. -/
def intOfText? (text : List Char) : Option Int :=
  match text with
  | '-' :: digits => (natOfDigits? digits).map fun n : Nat => -(n : Int)
  | '+' :: digits => (natOfDigits? digits).map Int.ofNat
  | digits => (natOfDigits? digits).map Int.ofNat

/-- The texts that are read as an integer are its numerals. -/
theorem intOfText?_eq_some_iff {text : List Char} {n : Int} :
    intOfText? text = some n ↔ IntegerText text n := by
  constructor
  · intro h
    unfold intOfText? at h
    split at h
    all_goals
      obtain ⟨m, hm, rfl⟩ := Option.map_eq_some_iff.1 h
      obtain ⟨hne, hdigits, rfl⟩ := natOfDigits?_eq_some_iff.1 hm
    · exact .minus hne hdigits
    · exact .plus hne hdigits
    · exact .bare hne hdigits
  · intro h
    cases h with
    | @bare _ hne hdigits =>
      have hvalue := natOfDigits?_eq_some_iff.2 ⟨hne, hdigits, rfl⟩
      unfold intOfText?
      -- a digit is no sign
      split
      · exact absurd (.head _) (hdigits.notMem (c := '-') rfl)
      · exact absurd (.head _) (hdigits.notMem (c := '+') rfl)
      · rw [hvalue]
        rfl
    | plus hne hdigits =>
      show (natOfDigits? _).map Int.ofNat = _
      rw [natOfDigits?_eq_some_iff.2 ⟨hne, hdigits, rfl⟩]
      rfl
    | minus hne hdigits =>
      show (natOfDigits? _).map (fun n : Nat => -(n : Int)) = _
      rw [natOfDigits?_eq_some_iff.2 ⟨hne, hdigits, rfl⟩]
      rfl

/-- Of what a text writes the integers of 64 bits are kept. -/
theorem int64OfText?_eq (text : String) :
    int64OfText? text = (intOfText? text.toList).bind fun n =>
      if -0x8000000000000000 ≤ n && n < 0x8000000000000000 then
        some (Int64.ofInt n)
      else none := by
  unfold int64OfText?
  generalize text.toList = chars
  split
  · next digits =>
    rw [intOfText?.eq_1]
    cases natOfDigits? digits <;> rfl
  · rw [intOfText?.eq_2]
    rfl
  · next hminus hplus =>
    rw [intOfText?.eq_3 chars hminus hplus]
    rfl

/-- The integer that a text stands for is the one whose numeral it is. -/
theorem int64OfText?_eq_some_iff {text : String} {n : Int64} :
    int64OfText? text = some n ↔ IntegerText text.toList n.toInt := by
  rw [← intOfText?_eq_some_iff]
  rw [int64OfText?_eq, Option.bind_eq_some_iff]
  constructor
  · intro h
    obtain ⟨m, hm, h⟩ := h
    split at h
    · next hfits =>
      rw [Bool.and_eq_true, decide_eq_true_eq, decide_eq_true_eq] at hfits
      rw [hm, ← Option.some.inj h,
        Int64.toInt_ofInt_of_le (by omega) (by omega)]
    · cases h
  · intro h
    have hlower := n.le_toInt
    have hupper := n.toInt_lt
    refine ⟨n.toInt, h, ?_⟩
    rw [if_pos, Int64.ofInt_toInt]
    rw [Bool.and_eq_true, decide_eq_true_eq, decide_eq_true_eq]
    omega

/-- The decimal text of an integer is a numeral of it. -/
theorem integerText_toString (n : Int) : IntegerText (toString n).toList n := by
  have hdigits (m : Nat) : m.repr.toList ≠ [] ∧ AllDigits m.repr.toList ∧
      Nat.ofDigitChars 10 m.repr.toList 0 = m := by
    rw [Nat.toList_repr]
    exact ⟨digitChars_ne_nil m, allDigits_digitChars m,
      ofDigitChars_digitChars m⟩
  rw [Int.toString_eq_repr, Int.repr_eq_if]
  by_cases hsign : 0 ≤ n
  · obtain ⟨hne, hall, hvalue⟩ := hdigits n.toNat
    have hnumeral := IntegerText.bare hne hall
    rw [hvalue, Int.toNat_of_nonneg hsign] at hnumeral
    rw [if_pos hsign]
    exact hnumeral
  · obtain ⟨hne, hall, hvalue⟩ := hdigits (-n).toNat
    have hnumeral := IntegerText.minus hne hall
    rw [hvalue, Int.toNat_of_nonneg (by omega), neg_neg] at hnumeral
    rw [if_neg hsign, String.toList_append]
    exact hnumeral

/-- The decimal text of an integer of 64 bits is read back. -/
theorem int64OfText?_toString (n : Int64) :
    int64OfText? (toString n.toInt) = some n :=
  int64OfText?_eq_some_iff.2 (integerText_toString n.toInt)

end RowGuard
