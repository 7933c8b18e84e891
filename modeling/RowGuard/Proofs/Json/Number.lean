import Mathlib
import RowGuard.Json.Basic

/-!
# Large integers as doubles

An integer that does not fit into a signed word is read as the double nearest to
it.  Such a double is finite (`float_ofInt_isFinite`), so that it is written as
a number again.

The double is rounded from a significand of 64 bits.  Rounding drops eleven of
them and at most carries into one more, which leaves the exponent far below that
of infinity.
-/

namespace RowGuard

section

open Float.Model Float.Model.UnpackedFloat

/-! ## Packing -/

/-- Bits are those of a finite double unless all bits of the exponent are
set. -/
theorem isFinite_unpack {b : BitVec Format.binary64.numBits}
    (h : unpackExponent b ≠ -1#_) :
    (UnpackedFloat.unpack Format.binary64 b).isFinite = true := by
  unfold UnpackedFloat.unpack
  rw [if_neg h]
  split
  · split <;> rfl
  · rfl

/-- A double with a small exponent is finite when it is packed. -/
theorem isFinite_pack {s : Sign} {m : Nat} {e : Int} (hm : 0 < m)
    (he : e < 971) :
    (Float.Model.pack (.finite s m e hm)).isFinite = true := by
  have hbias : (Format.binary64.exponentBias : Int) = 1023 := rfl
  have hsmall : (e + Format.binary64.exponentBias + (52 : Nat)).toNat <
      2047 := by omega
  refine isFinite_unpack ?_
  show unpackExponent
    (UnpackedFloat.pack Format.binary64 (.finite s m e hm)) ≠ _
  unfold UnpackedFloat.pack
  dsimp only
  rw [if_neg (by omega)]
  split
  · rw [unpackExponent_packComponents]
    intro hones
    have hnat := congrArg BitVec.toNat hones
    rw [BitVec.toNat_ofNat, Nat.mod_eq_of_lt (by omega)] at hnat
    have hall : (-1#11 : BitVec 11).toNat = 2047 := rfl
    omega
  · rw [unpackExponent_packComponents]
    decide

/-! ## Rounding -/

/-- Shifting drops the low bits of the significand. -/
theorem mantissa_shiftRight (em : ExtendedMantissa) (k : Nat) :
    (em >>> k).mantissa = em.mantissa / 2 ^ k := by
  show (k.repeat ExtendedMantissa.shiftRightOne em).mantissa = _
  induction k with
  | zero => rw [Nat.repeat, Nat.pow_zero, Nat.div_one]
  | succ k ih =>
    rw [Nat.repeat, ExtendedMantissa.shiftRightOne, ih, Nat.div_div_eq_div_mul,
      Nat.pow_succ]

/-- Rounding adds at most one. -/
theorem roundedMantissa_bounds (em : ExtendedMantissa) :
    em.mantissa ≤ em.roundedMantissa ∧
      em.roundedMantissa ≤ em.mantissa + 1 := by
  obtain ⟨m, round, sticky⟩ := em
  cases round <;> cases sticky <;>
    simp only [ExtendedMantissa.roundedMantissa, ExtendedMantissa.accuracy,
      Accuracy.roundToNearestEven] <;> omega

/-- A significand that is moved to the exponent of the format has that exponent,
unless its own is larger. -/
theorem shiftToTargetExponent_snd (m : Nat) (e : Int) (a : Accuracy) :
    (shiftToTargetExponent Format.binary64 m e a).2 =
      max e (max (m.log2 + e - 52) (-1074)) := by
  have htarget : Format.binary64.targetExponent (totalExponent m e) =
      max (m.log2 + 1 + e - 53) (-1074) := rfl
  rw [shiftToTargetExponent, shiftToExponent, htarget]
  dsimp only
  omega

theorem shiftToTargetExponent_mantissa_le (m : Nat) (e : Int) :
    (shiftToTargetExponent Format.binary64 m e .exact).1.mantissa ≤ m := by
  rw [shiftToTargetExponent, shiftToExponent]
  dsimp only
  rw [mantissa_shiftRight]
  exact Nat.div_le_self _ _

/-- What is rounded without a large significand or exponent is finite. -/
theorem isFinite_pack_round {s : Sign} {m : Nat} {e : Int} (hm : m.log2 ≤ 200)
    (he : e ≤ 0) :
    (Float.Model.pack
      (roundWithAccuracy Format.binary64 s m e .exact)).isFinite = true := by
  obtain ⟨first, hfirst⟩ : ∃ first,
      first = shiftToTargetExponent Format.binary64 m e .exact :=
    ⟨_, rfl⟩
  have hexponent := shiftToTargetExponent_snd m e .exact
  have hmantissa := shiftToTargetExponent_mantissa_le m e
  rw [← hfirst] at hexponent hmantissa
  have hrounded : first.1.roundedMantissa.log2 ≤ m.log2 + 1 := by
    have hle := (roundedMantissa_bounds first.1).2
    have hself : m < 2 ^ (m.log2 + 1) := Nat.lt_log2_self
    by_cases hzero : first.1.roundedMantissa = 0
    · rw [hzero, Nat.log2_zero]
      exact Nat.zero_le _
    · refine Nat.le_of_lt_succ ((Nat.log2_lt hzero).2 ?_)
      rw [Nat.pow_succ]
      omega
  have hcarried :=
    shiftToTargetExponent_snd first.1.roundedMantissa first.2 .exact
  unfold roundWithAccuracy
  rw [← hfirst]
  dsimp only
  split
  · exact isFinite_unpack (by cases s <;> decide)
  · exact isFinite_pack _ (by rw [hcarried]; omega)

/-! ## Integers -/

theorem float_ofNat_isFinite {n : Nat} (hlow : 2 ^ 53 ≤ n)
    (hhigh : n < 2 ^ 64) :
    (Float.ofNat n).isFinite = true := by
  have hlarge : ¬ (n < 2 ^ 53 ∧ 0 ≤ 22) := by omega
  have hzero : n ≠ 0 := by omega
  have hfloat : Float.ofNat n = ⟨Float.Model.ofScientific n 0⟩ := by
    show Float.ofScientific n false 0 = _
    rw [Float.ofScientific, dif_neg hlarge]
    rfl
  have hround : UnpackedFloat.ofScientific Format.binary64 n 0 =
      roundWithAccuracy Format.binary64 .positive (n <<< 53 * 1)
        (-53 + 0) .exact := by
    have hexponent : (2 : Int) ^ Format.binary64.exponentBits = 2048 := rfl
    rw [UnpackedFloat.ofScientific, dif_neg hzero, if_neg (by decide),
      if_neg (by rw [hexponent]; omega), if_pos (by decide)]
    rfl
  rw [hfloat]
  show (Float.Model.pack
    (UnpackedFloat.ofScientific Format.binary64 n 0)).isFinite = true
  rw [hround]
  refine isFinite_pack_round (Nat.le_of_lt_succ ((Nat.log2_lt ?_).2 ?_))
    (by decide)
  · rw [Nat.mul_one, Nat.shiftLeft_eq]
    omega
  · rw [Nat.mul_one, Nat.shiftLeft_eq]
    calc
      n * 2 ^ 53 < 2 ^ 64 * 2 ^ 53 :=
    Nat.mul_lt_mul_of_pos_right hhigh (by decide)
      _ ≤ 2 ^ 201 := by decide

/-- An integer that only fits into an unsigned word is a finite double. -/
theorem float_ofInt_isFinite {n : Int} (hlow : 0x8000000000000000 ≤ n)
    (hhigh : n < 0x10000000000000000) : (Float.ofInt n).isFinite = true := by
  obtain ⟨m, rfl⟩ := Int.eq_ofNat_of_zero_le (show 0 ≤ n by omega)
  exact float_ofNat_isFinite (by omega) (by omega)

/-- A finite double is a number. -/
theorem float_isNaN_of_isFinite {x : Float} (h : x.isFinite = true) :
    x.isNaN = false := by
  have hmodel : x.toModel.unpack.isFinite = true := h
  show x.toModel.unpack.isNaN = false
  cases hx : x.toModel.unpack with
  | notANumber =>
    rw [hx] at hmodel
    cases hmodel
  | _ => rfl

end

end RowGuard
