import Mathlib.Algebra.Order.Field.Power
import Mathlib.Tactic.FieldSimp
import Mathlib.Tactic.Linarith
import Mathlib.Tactic.NormNum
import Mathlib.Tactic.Positivity
import Mathlib.Tactic.Ring
import RowGuard.Decimal.Shortest

/-!
# The shortest decimal determines the double

The rounding intervals of the doubles from zero on lie side by side: each ends
where the next one begins (`upper_eq_lower_next`), and of two neighbours exactly
one has the point between them.  No number is therefore in two of them
(`eq_of_contains`).

The shortest decimal of a double lies in the interval of the double
(`contains_shortest`), since the finest grid that is tried is finer than the
narrowest interval.  Two doubles with decimals of one value are thus one double
(`shortest_injective`).
-/

namespace RowGuard.Decimal

/-- The number that a decimal stands for. -/
def value (d : Decimal) : ℚ := d.digits * 10 ^ d.exponent

/-- A power with an exponent of any sign as a fraction of powers. -/
theorem zpow_eq_div {b : ℚ} (hb : b ≠ 0) (e : ℤ) :
    b ^ e = b ^ e.toNat / b ^ (-e).toNat := by
  rw [← zpow_natCast, ← zpow_natCast, ← zpow_sub₀ hb]
  congr 1
  omega

/-! ## Intervals of numbers -/

namespace Interval

variable {i : Interval} {q : ℚ} {point : Nat} {exponent : Int} {tie : Tie}

def lower (i : Interval) : ℚ := i.low / i.denominator

def upper (i : Interval) : ℚ := i.high / i.denominator

/-- The number rounds to the double with this interval. -/
def Contains (i : Interval) (q : ℚ) : Prop :=
  (i.lower < q ∧ q < i.upper) ∨ (i.closed = true ∧ (q = i.lower ∨ q = i.upper))

theorem Contains.lower_le (h : i.Contains q) (hle : i.lower ≤ i.upper) :
    i.lower ≤ q := by
  rcases h with ⟨hlow, -⟩ | ⟨-, rfl | rfl⟩
  · exact hlow.le
  · exact le_refl _
  · exact hle

theorem Contains.le_upper (h : i.Contains q) (hle : i.lower ≤ i.upper) :
    q ≤ i.upper := by
  rcases h with ⟨-, hhigh⟩ | ⟨-, rfl | rfl⟩
  · exact hhigh.le
  · exact hle
  · exact le_refl _

/-- An interval that has one of its ends is closed. -/
theorem Contains.closed (h : i.Contains q) (hend : q = i.lower ∨ q = i.upper) :
    i.closed = true := by
  rcases h with ⟨hlow, hhigh⟩ | ⟨hclosed, -⟩
  · rcases hend with rfl | rfl
    · exact absurd hlow (lt_irrefl _)
    · exact absurd hhigh (lt_irrefl _)
  · exact hclosed

/-- The test for a grid point is exact. -/
theorem has_iff (hpos : 0 < i.denominator) :
    i.has point exponent = true ↔ i.Contains (point * 10 ^ exponent) := by
  have hden : (0 : ℚ) < i.denominator := by exact_mod_cast hpos
  have hshift : (0 : ℚ) < 10 ^ (-exponent).toNat := by positivity
  have hpoint : (point : ℚ) * 10 ^ exponent =
      (point * (10 ^ exponent.toNat * i.denominator) : ℚ) /
        (i.denominator * 10 ^ (-exponent).toNat) := by
    rw [zpow_eq_div (by norm_num)]
    field_simp
  have hend : ∀ bound : Nat, (bound / i.denominator : ℚ) =
      (bound * 10 ^ (-exponent).toNat : ℚ) /
        (i.denominator * 10 ^ (-exponent).toNat) :=
    fun bound => by field_simp
  have hscale : (0 : ℚ) < i.denominator * 10 ^ (-exponent).toNat := by
    positivity
  rw [Contains, lower, upper, hpoint, hend, hend,
    div_lt_div_iff_of_pos_right hscale, div_lt_div_iff_of_pos_right hscale,
    div_left_inj' hscale.ne', div_left_inj' hscale.ne']
  norm_cast
  simp only [has, Nat.pow_eq, Bool.or_eq_true, Bool.and_eq_true,
    decide_eq_true_eq, beq_iff_eq]

/-- What is taken of a grid lies in the interval. -/
theorem has_of_pointAt? (h : i.pointAt? tie exponent = some point) :
    i.has point exponent = true := by
  simp only [pointAt?.eq_def] at h
  split at h
  · cases h
  · next hbelow _ => cases h; exact hbelow
  · next _ habove => cases h; exact habove
  · next hbelow habove =>
    split at h
    · cases h; exact hbelow
    · split at h
      · cases h; exact habove
      · cases tie with
        | away => cases h; exact habove
        | even =>
          simp only [Option.some.injEq] at h
          subst h
          split
          · exact hbelow
          · exact habove

/-- A grid with a point beside the middle of the interval is not passed over. -/
theorem pointAt?_isSome (h : i.has (i.mid * Nat.pow 10 (-exponent).toNat /
    (Nat.pow 10 exponent.toNat * i.denominator)) exponent = true) :
    (i.pointAt? tie exponent).isSome = true := by
  simp only [pointAt?.eq_def, h]
  split
  · next heq _ => cases heq
  · rfl
  · rfl
  · split
    · rfl
    · split
      · rfl
      · cases tie <;> rfl

/-- On a grid that is finer than the lower half of the interval, the point below
the middle lies in the interval. -/
theorem has_below (hpos : 0 < i.denominator) (hhigh : i.mid < i.high)
    (hfine : Nat.pow 10 exponent.toNat * i.denominator ≤
      (i.mid - i.low) * Nat.pow 10 (-exponent).toNat) :
    i.has (i.mid * Nat.pow 10 (-exponent).toNat /
      (Nat.pow 10 exponent.toNat * i.denominator))
      exponent = true := by
  have hshift : 0 < Nat.pow 10 (-exponent).toNat := Nat.pow_pos (by decide)
  have hunit : 0 < Nat.pow 10 exponent.toNat * i.denominator :=
    Nat.mul_pos (Nat.pow_pos (by decide)) hpos
  simp only [has]
  generalize Nat.pow 10 exponent.toNat * i.denominator = unit at hfine hunit
  generalize Nat.pow 10 (-exponent).toNat = shift at hfine hshift
  rw [Nat.sub_mul] at hfine
  have hbelow := Nat.div_mul_le_self (i.mid * shift) unit
  have habove := Nat.lt_div_mul_add (a := i.mid * shift) hunit
  have hmid : i.mid * shift < i.high * shift :=
    Nat.mul_lt_mul_of_pos_right hhigh hshift
  rw [Bool.or_eq_true, Bool.and_eq_true, decide_eq_true_eq, decide_eq_true_eq]
  exact .inl ⟨by omega, by omega⟩

end Interval

/-! ## Magnitudes -/

namespace Magnitude

theorem interval_lower (m : Magnitude) : m.interval.lower =
    (4 * m.significand - (if m.atBoundary then 1 else 2) : ℕ) *
      2 ^ (m.exponent - 2) := by
  rw [Interval.lower, zpow_eq_div (by norm_num)]
  simp only [interval, Nat.pow_eq]
  push_cast
  rw [mul_div_assoc]

theorem interval_upper (m : Magnitude) :
    m.interval.upper = (4 * m.significand + 2 : ℕ) * 2 ^ (m.exponent - 2) := by
  rw [Interval.upper, zpow_eq_div (by norm_num)]
  simp only [interval, Nat.pow_eq]
  push_cast
  rw [mul_div_assoc]

theorem interval_lower_lt_upper (m : Magnitude) :
    m.interval.lower < m.interval.upper := by
  rw [interval_lower, interval_upper]
  have hlt : 4 * m.significand - (if m.atBoundary then 1 else 2) <
      4 * m.significand + 2 := by
    omega
  exact mul_lt_mul_of_pos_right (by exact_mod_cast hlt) (by positivity)

theorem interval_denominator_pos (m : Magnitude) : 0 < m.interval.denominator :=
  Nat.pow_pos (by decide)

/-- The magnitude with the given exponent field and fraction. -/
theorem ofBits_fields {field fraction : Nat} (hfield : field < 2048)
    (hfraction : fraction < 0x10000000000000) :
    ofBits (UInt64.ofNat (field * 0x10000000000000 + fraction)) =
      if field = 0 then ⟨fraction, -1074, false⟩
      else ⟨0x10000000000000 + fraction, (field : Int) - 1075,
        fraction == 0 && 1 < field⟩ := by
  have hword : (UInt64.ofNat (field * 0x10000000000000 + fraction)).toNat =
      field * 0x10000000000000 + fraction :=
    UInt64.toNat_ofNat_of_lt' (show _ < 2 ^ 64 by omega)
  have hhigh : (field * 0x10000000000000 + fraction) / 0x10000000000000 %
      0x800 = field := by
    omega
  have hlow : (field * 0x10000000000000 + fraction) % 0x10000000000000 =
      fraction := by omega
  rw [ofBits, hword, hhigh, hlow]

/-- The exponent of a double is not below the smallest one; that of a power of
two is above it if the double has a neighbour that is half as far away. -/
theorem ofBits_exponent (bits : UInt64) : -1074 ≤ (ofBits bits).exponent ∧
    ((ofBits bits).atBoundary = true →
      -1073 ≤ (ofBits bits).exponent ∧ 0 < (ofBits bits).significand) := by
  simp only [ofBits]
  split
  · exact ⟨le_refl _, fun h => by cases h⟩
  · refine ⟨by dsimp only; omega, fun h => ?_⟩
    have hfield := of_decide_eq_true (Bool.and_eq_true_iff.1 h).2
    dsimp only
    omega

/-- The second magnitude is the next one after the first: the next significand,
or an even significand with the next exponent if the next significand has a bit
too many. -/
inductive Next : Magnitude → Magnitude → Prop where
  | step (s : Nat) (e : Int) (b : Bool) : Next ⟨s, e, b⟩ ⟨s + 1, e, false⟩
  | carry (t : Nat) (e : Int) (b : Bool) :
      Next ⟨4 * t + 3, e, b⟩ ⟨2 * t + 2, e + 1, true⟩

/-- The interval of a magnitude ends where that of the next one begins. -/
theorem Next.upper_eq_lower {m m' : Magnitude} (h : Next m m') :
    m.interval.upper = m'.interval.lower := by
  rw [interval_upper, interval_lower]
  cases h with
  | step s e b =>
    have hends : 4 * s + 2 = 4 * (s + 1) - 2 := by omega
    simp only [Bool.false_eq_true, if_false, hends]
  | carry t e b =>
    have hends : 4 * (4 * t + 3) + 2 = (4 * (2 * t + 2) - 1) * 2 := by omega
    have hpower : (2 : ℚ) ^ (e + 1 - 2) = 2 * 2 ^ (e - 2) := by
      rw [← zpow_one_add₀ (by norm_num)]
      congr 1
      omega
    simp only [if_true, hends, hpower]
    push_cast
    ring

/-- Of two intervals side by side one is closed. -/
theorem Next.closed {m m' : Magnitude} (h : Next m m') :
    ¬ (m.interval.closed = true ∧ m'.interval.closed = true) := by
  rintro ⟨hclosed, hclosed'⟩
  cases h <;> simp only [interval, beq_iff_eq] at hclosed hclosed' <;> omega

/-- Doubles with consecutive bits have consecutive magnitudes. -/
theorem next_ofBits {n : Nat} (h : n + 1 < 0x8000000000000000) :
    Next (ofBits (UInt64.ofNat n)) (ofBits (UInt64.ofNat (n + 1))) := by
  obtain ⟨field, fraction, hfraction, rfl⟩ : ∃ field fraction,
      fraction < 0x10000000000000 ∧
      n = field * 0x10000000000000 + fraction :=
    ⟨n / 0x10000000000000, n % 0x10000000000000, Nat.mod_lt _ (by decide),
      by omega⟩
  have hfield : field < 2048 := by omega
  rw [ofBits_fields hfield hfraction]
  by_cases hlast : fraction + 1 < 0x10000000000000
  · rw [Nat.add_assoc, ofBits_fields hfield hlast]
    split
    · exact .step _ _ _
    · exact .step _ _ _
  · -- The fraction overflows into the exponent field.
    obtain rfl : fraction = 0xfffffffffffff := by omega
    have hnext : field * 0x10000000000000 + 0xfffffffffffff + 1 =
        (field + 1) * 0x10000000000000 + 0 := by omega
    rw [hnext, ofBits_fields (by omega) (by decide),
      if_neg (Nat.succ_ne_zero field)]
    split
    · next hzero =>
      subst hzero
      exact .step _ _ _
    · next hnonzero =>
      have hboundary : ((0 : Nat) == 0 && decide (1 < field + 1)) = true :=
        decide_eq_true (by omega)
      have hexponent : ((field + 1 : Nat) : Int) - 1075 =
          (field : Int) - 1075 + 1 := by omega
      rw [hboundary, hexponent]
      exact .carry 2251799813685247 _ _

end Magnitude

/-! ## Intervals side by side -/

/-- The rounding interval of the double with the bits of this number. -/
def intervalAt (n : Nat) : Interval :=
  (Magnitude.ofBits (UInt64.ofNat n)).interval

/-- Intervals follow one another; only those side by side have an end in
common. -/
theorem upper_le_lower {m n : Nat} (hlt : m < n) (hn : n < 0x8000000000000000) :
    (intervalAt m).upper ≤ (intervalAt n).lower ∧
      ((intervalAt m).upper = (intervalAt n).lower → n = m + 1) := by
  induction n, hlt using Nat.le_induction with
  | base => exact ⟨(Magnitude.next_ofBits hn).upper_eq_lower.le, fun _ => rfl⟩
  | succ n hle ih =>
    have hstep : (intervalAt m).upper < (intervalAt (n + 1)).lower := calc
      (intervalAt m).upper ≤ (intervalAt n).lower := (ih (by omega)).1
      _ < (intervalAt n).upper := Magnitude.interval_lower_lt_upper _
      _ = (intervalAt (n + 1)).lower :=
    (Magnitude.next_ofBits hn).upper_eq_lower
    exact ⟨hstep.le, fun heq => absurd heq hstep.ne⟩

theorem not_contains_of_lt {m n : Nat} {q : ℚ} (hlt : m < n)
    (hn : n < 0x8000000000000000) (hm : (intervalAt m).Contains q) :
    ¬ (intervalAt n).Contains q := by
  intro hq
  obtain ⟨hle, hside⟩ := upper_le_lower hlt hn
  have hupper := hm.le_upper (Magnitude.interval_lower_lt_upper _).le
  have hlower := hq.lower_le (Magnitude.interval_lower_lt_upper _).le
  have hmeet : (intervalAt m).upper = (intervalAt n).lower :=
    le_antisymm hle (hlower.trans hupper)
  have hlast : q = (intervalAt m).upper := le_antisymm hupper (hle.trans hlower)
  have hfirst : q = (intervalAt n).lower := hlast.trans hmeet
  have hclosed := hm.closed (.inr hlast)
  have hclosed' := hq.closed (.inl hfirst)
  obtain rfl := hside hmeet
  exact (Magnitude.next_ofBits hn).closed ⟨hclosed, hclosed'⟩

/-- No number rounds to two doubles. -/
theorem eq_of_contains {m n : Nat} {q : ℚ} (hm : m < 0x8000000000000000)
    (hn : n < 0x8000000000000000) (hqm : (intervalAt m).Contains q)
    (hqn : (intervalAt n).Contains q) : m = n := by
  rcases lt_trichotomy m n with hlt | heq | hgt
  · exact absurd hqn (not_contains_of_lt hlt hn hqm)
  · exact heq
  · exact absurd hqm (not_contains_of_lt hgt hm hqn)

/-! ## The shortest decimal -/

/-- The finest grid is finer than half of the narrowest interval. -/
theorem Magnitude.finest (bits : UInt64)
    (hpos : 0 < (ofBits bits).significand) :
    Nat.pow 10 (-324 : Int).toNat * (ofBits bits).interval.denominator ≤
      ((ofBits bits).interval.mid - (ofBits bits).interval.low) *
        Nat.pow 10 (- (-324 : Int)).toNat := by
  obtain ⟨hexponent, hboundary⟩ := ofBits_exponent bits
  generalize ofBits bits = m at *
  have hhalf : m.interval.mid - m.interval.low =
      (if m.atBoundary then 1 else 2) * Nat.pow 2 (m.exponent - 2).toNat := by
    simp only [interval]
    rw [← Nat.sub_mul]
    congr 1
    split <;> omega
  have hscale : 0 < Nat.pow 2 (m.exponent - 2).toNat := Nat.pow_pos (by decide)
  obtain ⟨grid, hgrid⟩ : ∃ grid : Nat, 2 ^ 1075 = grid := ⟨_, rfl⟩
  have hfinest : grid ≤ Nat.pow 10 (- (-324 : Int)).toNat := by
    rw [← hgrid]
    decide +kernel
  have hdenominator : m.interval.denominator ≤
      (if m.atBoundary then 1 else 2) * grid := by
    show 2 ^ (-(m.exponent - 2)).toNat ≤ _
    split
    · next hpower =>
      have hlarge := (hboundary hpower).1
      exact (Nat.pow_le_pow_right (by decide) (by omega)).trans
        (hgrid.trans (Nat.one_mul _).symm).le
    · have hdouble : 2 ^ 1076 = 2 * grid := by rw [← hgrid, ← Nat.pow_succ']
      exact (Nat.pow_le_pow_right (by decide) (by omega)).trans hdouble.le
  calc
    Nat.pow 10 (-324 : Int).toNat * m.interval.denominator =
        m.interval.denominator := Nat.one_mul _
    _ ≤ (if m.atBoundary then 1 else 2) * grid := hdenominator
    _ ≤ (if m.atBoundary then 1 else 2) *
        Nat.pow 2 (m.exponent - 2).toNat * grid :=
      Nat.mul_le_mul_right _ (Nat.le_mul_of_pos_right _ hscale)
    _ ≤ (m.interval.mid - m.interval.low) *
        Nat.pow 10 (- (-324 : Int)).toNat := by
      rw [hhalf]
      exact Nat.mul_le_mul_left _ hfinest

/-- On the finest grid a point is found for every double. -/
theorem pointAt?_finest (tie : Tie) (bits : UInt64) :
    ((Magnitude.ofBits bits).interval.pointAt? tie (-324)).isSome = true := by
  refine Interval.pointAt?_isSome ?_
  rcases Nat.eq_zero_or_pos (Magnitude.ofBits bits).significand with
    hzero | hpos
  · -- The interval of zero begins with zero.
    generalize Magnitude.ofBits bits = m at hzero
    have hlow : m.interval.low = 0 := by simp [Magnitude.interval, hzero]
    have hmid : m.interval.mid = 0 := by simp [Magnitude.interval, hzero]
    have hclosed : m.interval.closed = true := by
      simp [Magnitude.interval, hzero]
    rw [hmid, Nat.zero_mul, Nat.zero_div]
    simp only [Interval.has, hlow, hclosed, Nat.zero_mul, beq_self_eq_true,
      Bool.true_or, Bool.and_self, Bool.or_true]
  · refine Interval.has_below (Magnitude.interval_denominator_pos _) ?_
      (Magnitude.finest bits hpos)
    exact Nat.mul_lt_mul_of_pos_right (by omega) (Nat.pow_pos (by decide))

/-- The shortest decimal of a double rounds to the double. -/
theorem contains_shortest (tie : Tie) (bits : UInt64) :
    (Magnitude.ofBits bits).interval.Contains (shortest tie bits).value := by
  obtain ⟨decimal, hfound⟩ := Option.isSome_iff_exists.1
    (List.findSome?_isSome_iff.2 ⟨633, List.mem_range.2 (by decide),
      Option.isSome_map.trans (pointAt?_finest tie bits)⟩ :
    ((List.range gridCount).findSome? fun step : Nat =>
      ((Magnitude.ofBits bits).interval.pointAt? tie
        (largestExponent - step)).map
        fun digits =>
          (⟨digits, largestExponent - step⟩ : Decimal)).isSome = true)
  have hshortest : shortest tie bits = decimal :=
    congrArg (·.getD ⟨0, 0⟩) hfound
  obtain ⟨step, -, hstep⟩ := List.exists_of_findSome?_eq_some hfound
  obtain ⟨digits, hdigits, rfl⟩ := Option.map_eq_some_iff.1 hstep
  rw [hshortest]
  exact (Interval.has_iff (Magnitude.interval_denominator_pos _)).1
    (Interval.has_of_pointAt? hdigits)

/-- Doubles from zero on whose shortest decimals have one value are one
double. -/
theorem shortest_injective {tie tie' : Tie} {bits bits' : UInt64}
    (h : bits.toNat < 0x8000000000000000)
    (h' : bits'.toNat < 0x8000000000000000)
    (heq : (shortest tie bits).value = (shortest tie' bits').value) :
    bits = bits' := by
  have hinterval : ∀ bits : UInt64, intervalAt bits.toNat =
      (Magnitude.ofBits bits).interval :=
    fun bits => by rw [intervalAt, UInt64.ofNat_toNat]
  refine UInt64.toNat_inj.1
    (eq_of_contains h h' (q := (shortest tie bits).value) ?_ ?_)
  · rw [hinterval]
    exact contains_shortest tie bits
  · rw [hinterval, heq]
    exact contains_shortest tie' bits'

end RowGuard.Decimal
