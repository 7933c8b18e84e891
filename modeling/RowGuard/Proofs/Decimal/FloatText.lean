import Mathlib
import RowGuard.Decimal.FloatText
import RowGuard.Proofs.Decimal.Shortest
import RowGuard.Proofs.Text.Delimited

/-!
# The text of a double determines the double

`readDecimal` reads a number that is written with or without a point and an
exponent.  From the text of a magnitude it reads the value of the shortest
decimal, in whatever style the text is written
(`FloatStyle.readDecimal_magnitudeText`), and this value belongs to one double
only.  The sign and infinity are told by the first character.  The text is
therefore different for different doubles (`FloatStyle.render_injective`), the
two zeros included; only NaN is left out.
-/

namespace RowGuard.Decimal

open Text (splitAt splitAt_of_notMem splitAt_append)

/-! ## Reading a decimal -/

/-- The number written as digits after an optional sign. -/
def readExponent : List Char → Int
  | '-' :: digits => -(Nat.ofDigitChars 10 digits 0 : Int)
  | '+' :: digits => Nat.ofDigitChars 10 digits 0
  | digits => Nat.ofDigitChars 10 digits 0

/-- The number written as digits with an optional point, and with an optional
exponent. -/
def readDecimal (text : List Char) : ℚ :=
  let (mantissa, exponent) := splitAt 'e' text
  let (whole, fraction) := splitAt '.' mantissa
  Nat.ofDigitChars 10 (whole ++ fraction) 0 *
    10 ^ (readExponent exponent - fraction.length)

section

variable {c : Char} {before after digits whole fraction : List Char}

/-- The digits with a point in front of the fraction, unless that is empty. -/
def withPoint (whole fraction : List Char) : List Char :=
  whole ++ if fraction.isEmpty then [] else '.' :: fraction

theorem splitAt_withPoint (h : '.' ∉ whole) :
    splitAt '.' (withPoint whole fraction) = (whole, fraction) := by
  cases fraction with
  | nil =>
    rw [withPoint, List.isEmpty_nil, if_pos rfl, List.append_nil]
    exact splitAt_of_notMem h
  | cons first rest => exact splitAt_append h _

/-- Text of digits only. -/
def AllDigits (digits : List Char) : Prop := ∀ c ∈ digits, c.isDigit = true

theorem AllDigits.notMem (h : AllDigits digits)
    (hc : c.isDigit = false) : c ∉ digits :=
  fun hmem => Bool.noConfusion ((h c hmem).symm.trans hc)

theorem AllDigits.append (h : AllDigits digits) (h' : AllDigits after) :
    AllDigits (digits ++ after) :=
  fun c hmem => (List.mem_append.1 hmem).elim (h c) (h' c)

theorem allDigits_zeros (n : Nat) :
    AllDigits (List.replicate n '0') := fun c hmem => by
  rw [List.eq_of_mem_replicate hmem]
  rfl

theorem allDigits_digitChars (n : Nat) :
    AllDigits (digitChars n) := fun _ hmem =>
  Nat.isDigit_of_mem_toDigits (by decide) (by decide) hmem

theorem notMem_withPoint (hwhole : AllDigits whole)
    (hfraction : AllDigits fraction) (hc : c.isDigit = false)
    (hpoint : c ≠ '.') : c ∉ withPoint whole fraction := by
  rw [withPoint, List.mem_append, not_or]
  refine ⟨hwhole.notMem hc, ?_⟩
  split
  · exact List.not_mem_nil
  · exact List.not_mem_cons_of_ne_of_not_mem hpoint (hfraction.notMem hc)

/-- Without an exponent the digits are read as a fraction of a power of ten. -/
theorem readDecimal_withPoint (hwhole : AllDigits whole)
    (hfraction : AllDigits fraction) :
    readDecimal (withPoint whole fraction) =
      Nat.ofDigitChars 10 (whole ++ fraction) 0 *
        10 ^ (-(fraction.length : Int)) := by
  have hsplit := splitAt_of_notMem
    (notMem_withPoint hwhole hfraction (c := 'e') rfl (by decide))
  simp only [readDecimal, hsplit,
    splitAt_withPoint (hwhole.notMem (c := '.') rfl), readExponent,
    Nat.ofDigitChars_nil, Nat.cast_zero, zero_sub]

theorem readDecimal_exponent (hwhole : AllDigits whole)
    (hfraction : AllDigits fraction) :
    readDecimal (withPoint whole fraction ++ 'e' :: after) =
      Nat.ofDigitChars 10 (whole ++ fraction) 0 *
        10 ^ (readExponent after - fraction.length) := by
  have hsplit := splitAt_append
    (notMem_withPoint hwhole hfraction (c := 'e') rfl (by decide)) after
  simp only [readDecimal, hsplit,
    splitAt_withPoint (hwhole.notMem (c := '.') rfl)]

/-- Digits without a sign are read as what they are. -/
theorem readExponent_digits (h : AllDigits digits) :
    readExponent digits = Nat.ofDigitChars 10 digits 0 := by
  rw [readExponent.eq_def]
  split
  · next rest => exact absurd (.head _) (h.notMem (c := '-') rfl)
  · rfl
  · rfl

theorem digitChars_ne_nil (n : Nat) : digitChars n ≠ [] := Nat.toDigits_ne_nil

theorem ofDigitChars_digitChars (n : Nat) :
    Nat.ofDigitChars 10 (digitChars n) 0 = n :=
  Nat.ofDigitChars_ten_toDigits

end

/-! ## Reading what is written -/

section

variable {digits : List Char} {leading : Int}

/-- Zeros behind the digits do not change a number if its exponent is lowered by
as many. -/
theorem ofDigitChars_zeros (digits : List Char) (n : Nat) (e : Int) :
    (Nat.ofDigitChars 10 (digits ++ List.replicate n '0') 0 : ℚ) *
      10 ^ (e - n) = Nat.ofDigitChars 10 digits 0 * 10 ^ e := by
  rw [Nat.ofDigitChars_append, Nat.ofDigitChars_replicate_zero,
    zpow_sub₀ (by norm_num), zpow_natCast]
  push_cast
  field_simp

/-- Zeros in front of the digits are not counted. -/
theorem ofDigitChars_leading_zeros (n : Nat) (digits : List Char) :
    Nat.ofDigitChars 10 (List.replicate n '0' ++ digits) 0 =
      Nat.ofDigitChars 10 digits 0 := by
  rw [Nat.ofDigitChars_append, Nat.ofDigitChars_replicate_zero, Nat.mul_zero]

/-- Digits with a point after the first `whole` of them are read as a fraction;
if there are no more digits, a zero may stand behind the point. -/
theorem readDecimal_split (keepsPoint : Bool) (hdigits : AllDigits digits)
    (whole : Nat) :
    readDecimal (digits.take whole ++ if (digits.drop whole).isEmpty then
        (if keepsPoint then ['.', '0'] else []) else '.' :: digits.drop whole) =
      Nat.ofDigitChars 10 digits 0 *
        10 ^ (-((digits.length - whole : Nat) : Int)) := by
  by_cases hfraction : digits.drop whole = []
  · have hshort := List.drop_eq_nil_iff.1 hfraction
    have hzeros : ∀ n : Nat,
        readDecimal (withPoint digits (List.replicate n '0')) =
        Nat.ofDigitChars 10 digits 0 *
          10 ^ (-((digits.length - whole : Nat) : Int)) := by
      intro n
      rw [readDecimal_withPoint hdigits (allDigits_zeros n),
        List.length_replicate, ← zero_sub (n : Int), ofDigitChars_zeros,
        Nat.sub_eq_zero_of_le hshort]
      rfl
    rw [hfraction, List.take_of_length_le hshort, if_pos (by rfl)]
    cases keepsPoint with
    | true => exact hzeros 1
    | false => exact hzeros 0
  · have hnonempty : ¬ (digits.drop whole).isEmpty = true := by
      simpa using hfraction
    have htext : digits.take whole ++ '.' :: digits.drop whole =
        withPoint (digits.take whole) (digits.drop whole) := by
      rw [withPoint, if_neg hnonempty]
    rw [if_neg hnonempty, htext,
      readDecimal_withPoint
        (fun c hmem => hdigits c (List.mem_of_mem_take hmem))
        (fun c hmem => hdigits c (List.mem_of_mem_drop hmem)),
      List.take_append_drop, List.length_drop]

/-- Written without an exponent, digits whose first one has the exponent
`leading` are read with that exponent. -/
theorem readDecimal_positionalText (keepsPoint : Bool)
    (hdigits : AllDigits digits) (hne : digits ≠ []) :
    readDecimal (positionalText keepsPoint digits leading) =
      Nat.ofDigitChars 10 digits 0 * 10 ^ (leading + 1 - digits.length) := by
  rw [positionalText]
  split
  · next hneg =>
    generalize hzeros : (-leading - 1).toNat = zeros
    have htext : ['0', '.'] ++ List.replicate zeros '0' ++ digits =
        withPoint ['0'] (List.replicate zeros '0' ++ digits) := by
      rw [withPoint, if_neg (by simp [hne])]
      rfl
    have hnumber := ofDigitChars_leading_zeros (1 + zeros) digits
    rw [List.replicate_add, List.append_assoc] at hnumber
    have hexponent : -((zeros + digits.length : Nat) : Int) =
        leading + 1 - digits.length := by
      omega
    rw [htext, readDecimal_withPoint
      (show AllDigits ['0'] from allDigits_zeros 1)
      ((allDigits_zeros _).append hdigits), List.length_append,
      List.length_replicate, hexponent]
    exact congrArg (fun number : Nat => (number : ℚ) * _) hnumber
  · next hpos =>
    have hall :=
      hdigits.append (allDigits_zeros (leading.toNat + 1 - digits.length))
    have hexponent : -((digits.length + (leading.toNat + 1 - digits.length) -
          (leading.toNat + 1) : Nat) : Int) =
        leading + 1 - digits.length -
          (leading.toNat + 1 - digits.length : Nat) := by omega
    rw [readDecimal_split keepsPoint hall, List.length_append,
      List.length_replicate, hexponent, ofDigitChars_zeros]

/-- Written with an exponent, the digits are read in the same way. -/
theorem readDecimal_exponentText (plusSign : Bool) (hdigits : AllDigits digits)
    (hne : digits ≠ []) : readDecimal (exponentText plusSign digits leading) =
      Nat.ofDigitChars 10 digits 0 * 10 ^ (leading + 1 - digits.length) := by
  have hsign : readExponent
      ((if leading < 0 then ['-'] else if plusSign then ['+'] else []) ++
        digitChars leading.natAbs) = leading := by
    have hread := ofDigitChars_digitChars leading.natAbs
    split
    · show -(Nat.ofDigitChars 10 (digitChars leading.natAbs) 0 : Int) = leading
      omega
    · have hread' : (Nat.ofDigitChars 10 (digitChars leading.natAbs) 0 : Int) =
          leading := by omega
      split
      · exact hread'
      · exact (readExponent_digits (allDigits_digitChars _)).trans hread'
  have hlength : 1 ≤ digits.length := List.length_pos_iff.2 hne
  have htext : exponentText plusSign digits leading =
      withPoint (digits.take 1) (digits.drop 1) ++ 'e' ::
        ((if leading < 0 then ['-'] else if plusSign then ['+'] else []) ++
          digitChars leading.natAbs) := by
    simp only [exponentText, withPoint, List.append_assoc, List.cons_append]
  rw [htext, readDecimal_exponent
    (fun c hmem => hdigits c (List.mem_of_mem_take hmem))
    (fun c hmem => hdigits c (List.mem_of_mem_drop hmem)), hsign,
    List.take_append_drop, List.length_drop]
  congr 2
  omega

end

/-- The value of the shortest decimal is read from its text, whatever the style
is. -/
theorem FloatStyle.readDecimal_magnitudeText (style : FloatStyle)
    (bits : UInt64) :
    readDecimal (style.magnitudeText bits) =
      (shortest style.tie bits).value := by
  generalize hdecimal : shortest style.tie bits = decimal
  have hdigits := allDigits_digitChars decimal.digits
  have hvalue : (Nat.ofDigitChars 10 (digitChars decimal.digits) 0 : ℚ) *
      10 ^ (decimal.exponent + (digitChars decimal.digits).length - 1 + 1 -
        (digitChars decimal.digits).length) = decimal.value := by
    have hexponent : decimal.exponent +
        (digitChars decimal.digits).length - 1 + 1 -
        (digitChars decimal.digits).length = decimal.exponent := by omega
    rw [ofDigitChars_digitChars, hexponent, value]
  simp only [magnitudeText, hdecimal]
  split
  · next hzero =>
    have hread : readDecimal (positionalText style.keepsPoint ['0'] 0) =
        Nat.ofDigitChars 10 ['0'] 0 * 10 ^ ((0 : Int) + 1 - ['0'].length) :=
      readDecimal_positionalText _ (allDigits_zeros 1) (List.cons_ne_nil _ _)
    have hnumber : Nat.ofDigitChars 10 ['0'] 0 = 0 := rfl
    rw [hread, hnumber, value, hzero, Nat.cast_zero, zero_mul, zero_mul]
  · split
    · rw [readDecimal_positionalText _ hdigits (digitChars_ne_nil _), hvalue]
    · rw [readDecimal_exponentText _ hdigits (digitChars_ne_nil _), hvalue]

/-! ## The characters of a number -/

section

variable {c : Char} {digits : List Char} {leading : Int}

/-- The characters that stand in a number besides its digits. -/
def marks : List Char := ['.', 'e', '+', '-']

theorem mem_positionalText {keepsPoint : Bool} (hdigits : AllDigits digits)
    (h : c ∈ positionalText keepsPoint digits leading) :
    c.isDigit = true ∨ c ∈ marks := by
  rw [positionalText] at h
  split at h
  · simp only [List.mem_append, List.mem_cons, List.not_mem_nil, or_false] at h
    rcases h with ((rfl | rfl) | hzero) | hdigit
    · exact .inl rfl
    · exact .inr (by decide)
    · exact .inl (allDigits_zeros _ c hzero)
    · exact .inl (hdigits c hdigit)
  · have hall :=
      hdigits.append (allDigits_zeros (leading.toNat + 1 - digits.length))
    rcases List.mem_append.1 h with hwhole | hpoint
    · exact .inl (hall c (List.mem_of_mem_take hwhole))
    · split at hpoint
      · split at hpoint
        · rcases List.mem_cons.1 hpoint with rfl | hzero
          · exact .inr (by decide)
          · exact .inl (allDigits_zeros 1 c hzero)
        · cases hpoint
      · rcases List.mem_cons.1 hpoint with rfl | hfraction
        · exact .inr (by decide)
        · exact .inl (hall c (List.mem_of_mem_drop hfraction))

theorem mem_exponentText {plusSign : Bool} (hdigits : AllDigits digits)
    (h : c ∈ exponentText plusSign digits leading) :
    c.isDigit = true ∨ c ∈ marks := by
  simp only [exponentText, List.mem_append, List.mem_cons] at h
  rcases h with ((hfirst | hfraction) | rfl | hsign) | hexponent
  · exact .inl (hdigits c (List.mem_of_mem_take hfirst))
  · split at hfraction
    · cases hfraction
    · rcases List.mem_cons.1 hfraction with rfl | hdigit
      · exact .inr (by decide)
      · exact .inl (hdigits c (List.mem_of_mem_drop hdigit))
  · exact .inr (by decide)
  · refine .inr ?_
    split at hsign
    · rw [List.mem_singleton.1 hsign]
      decide
    · split at hsign
      · rw [List.mem_singleton.1 hsign]
        decide
      · cases hsign
  · exact .inl (allDigits_digitChars _ c hexponent)

theorem FloatStyle.mem_magnitudeText {style : FloatStyle} {bits : UInt64}
    (h : c ∈ style.magnitudeText bits) : c.isDigit = true ∨ c ∈ marks := by
  simp only [magnitudeText] at h
  split at h
  · exact mem_positionalText (allDigits_zeros 1) h
  · split at h
    · exact mem_positionalText (allDigits_digitChars _) h
    · exact mem_exponentText (allDigits_digitChars _) h

/-- A number without a sign begins with a digit. -/
theorem FloatStyle.head?_magnitudeText (style : FloatStyle) (bits : UInt64) :
    ∃ c, (style.magnitudeText bits).head? = some c ∧ c.isDigit = true := by
  have hpositional : ∀ (keepsPoint : Bool) (digits : List Char) (leading : Int),
      AllDigits digits → digits ≠ [] →
      ∃ c, (positionalText keepsPoint digits leading).head? = some c ∧
        c.isDigit = true := by
    intro keepsPoint digits leading hdigits hne
    obtain ⟨first, rest, rfl⟩ := List.exists_cons_of_ne_nil hne
    rw [positionalText]
    split
    · exact ⟨'0', rfl, rfl⟩
    · exact ⟨first, rfl, hdigits first (.head _)⟩
  have hdigits := allDigits_digitChars (shortest style.tie bits).digits
  have hne := digitChars_ne_nil (shortest style.tie bits).digits
  simp only [magnitudeText]
  split
  · exact hpositional _ _ _ (allDigits_zeros 1) (List.cons_ne_nil _ _)
  · split
    · exact hpositional _ _ _ hdigits hne
    · obtain ⟨first, rest, hcons⟩ := List.exists_cons_of_ne_nil hne
      rw [hcons] at hdigits ⊢
      exact ⟨first, rfl, hdigits first (.head _)⟩

end

/-! ## Text of doubles -/

open Float.Model.UnpackedFloat in
/-- Apart from the sign infinity has the largest exponent and no mantissa. -/
theorem toBits_of_isInf {x : Float} (h : x.isInf = true) :
    x.toBits.toNat % 0x8000000000000000 = 0x7ff0000000000000 := by
  have hinfinite : x.toModel.unpack.isInf = true := h
  have hpack : (x.toModel.unpack).pack .binary64 = x.toModel.toBits.toBitVec :=
    pack_unpack_of_valid x.toModel.valid
  show x.toModel.toBits.toBitVec.toNat % _ = _
  rw [← hpack]
  cases hunpack : x.toModel.unpack with
  | infinity s => cases s <;> rfl
  | _ =>
    rw [hunpack] at hinfinite
    cases hinfinite

namespace FloatStyle

variable {style : FloatStyle} {x y : Float} {c : Char}

/-- The text of a double without its sign. -/
def unsignedText (style : FloatStyle) (x : Float) : List Char :=
  if x.isInf then style.infinite.toList
  else style.magnitudeText (UInt64.ofNat (x.toBits.toNat % 0x8000000000000000))

theorem render_toList (hnan : x.isNaN = false) : (style.render x).toList =
    (if x.toBits.toNat < 0x8000000000000000 then [] else ['-']) ++
      style.unsignedText x := by
  simp only [render, hnan, Bool.false_eq_true, if_false, unsignedText,
    String.toList_append]
  congr 1
  · split <;> rfl
  · split
    · rfl
    · exact String.toList_ofList

/-- The text of infinity begins neither like a number nor like a sign. -/
def TellsInfinity (style : FloatStyle) : Prop :=
  ∀ c, style.infinite.toList.head? = some c → c.isDigit = false ∧ c ≠ '-'

theorem head?_unsignedText (h : style.TellsInfinity)
    (hc : (style.unsignedText x).head? = some c) :
    c ≠ '-' := by
  rw [unsignedText] at hc
  split at hc
  · exact (h c hc).2
  · obtain ⟨d, hd, hdigit⟩ := style.head?_magnitudeText
      (UInt64.ofNat (x.toBits.toNat % 0x8000000000000000))
    rintro rfl
    cases hd.symm.trans hc
    cases hdigit

/-- Without the sign the text determines the bits without the sign. -/
theorem unsignedText_injective (h : style.TellsInfinity)
    (heq : style.unsignedText x = style.unsignedText y) :
    x.toBits.toNat % 0x8000000000000000 =
      y.toBits.toNat % 0x8000000000000000 := by
  have hother : ∀ bits, style.infinite.toList ≠
      style.magnitudeText bits := fun bits hsame => by
    obtain ⟨c, hc, hdigit⟩ := style.head?_magnitudeText bits
    rw [← hsame] at hc
    exact Bool.noConfusion ((h c hc).1.symm.trans hdigit)
  rw [unsignedText, unsignedText] at heq
  split at heq <;> split at heq
  · next hx hy => rw [toBits_of_isInf hx, toBits_of_isInf hy]
  · exact absurd heq (hother _)
  · exact absurd heq.symm (hother _)
  · have hvalue := congrArg readDecimal heq
    rw [readDecimal_magnitudeText, readDecimal_magnitudeText] at hvalue
    have hword : ∀ n, (UInt64.ofNat (n % 0x8000000000000000)).toNat =
        n % 0x8000000000000000 :=
      fun n => UInt64.toNat_ofNat_of_lt' (show _ < 2 ^ 64 by omega)
    have hbits :=
      shortest_injective (by rw [hword]; omega) (by rw [hword]; omega) hvalue
    rw [← hword, hbits, hword]

/-- Different doubles that are not NaN have different texts. -/
theorem render_injective (h : style.TellsInfinity) (hx : x.isNaN = false)
    (hy : y.isNaN = false) (heq : style.render x = style.render y) : x = y := by
  have htext := congrArg String.toList heq
  rw [render_toList hx, render_toList hy] at htext
  have hsigned : ∀ {x y : Float}, style.unsignedText x ≠
      '-' :: style.unsignedText y :=
    fun {x y} hsame => head?_unsignedText (x := x) h (by rw [hsame]; rfl) rfl
  refine Float.toBits_inj.1 (UInt64.toNat_inj.1 ?_)
  have hxbits : x.toBits.toNat < 0x10000000000000000 := x.toBits.toNat_lt
  have hybits : y.toBits.toNat < 0x10000000000000000 := y.toBits.toNat_lt
  split at htext <;> split at htext
  · have := unsignedText_injective h htext
    omega
  · exact absurd htext hsigned
  · exact absurd htext.symm hsigned
  · have := unsignedText_injective h (List.cons.inj htext).2
    omega

/-- The characters of a double that is not NaN. -/
theorem mem_render (hx : x.isNaN = false) (hc : c ∈ (style.render x).toList) :
    c.isDigit = true ∨ c ∈ marks ∨ c ∈ style.infinite.toList := by
  rw [render_toList hx, List.mem_append] at hc
  rcases hc with hsign | htext
  · split at hsign
    · cases hsign
    · rw [List.mem_singleton.1 hsign]
      exact .inr (.inl (by decide))
  · rw [unsignedText] at htext
    split at htext
    · exact .inr (.inr htext)
    · exact (mem_magnitudeText htext).imp_right .inl

end FloatStyle

end RowGuard.Decimal
