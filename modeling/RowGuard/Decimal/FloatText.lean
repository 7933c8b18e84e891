import RowGuard.Decimal.Shortest

/-!
# Text of doubles

A `FloatStyle` fixes the decisions of one output format: which numbers are
written positionally, whether a whole number keeps `.0`, how the exponent is
marked and what stands for values that are no numbers. `FloatStyle.render`
writes the shortest digits in that style.
-/

namespace RowGuard.Decimal

/-- The decisions that one format for doubles makes. -/
structure FloatStyle where
  /-- The decimal exponents of the leading digit that are written
  positionally. -/
  positional : Int → Bool
  /-- Whether a whole number written positionally ends in `.0`. -/
  keepsPoint : Bool
  /-- Whether a positive exponent has a plus sign. -/
  plusSign : Bool
  tie : Tie
  notANumber : String
  infinite : String

/-- The decimal digits of `n`. -/
def digitChars (n : Nat) : List Char :=
  Nat.toDigits 10 n

/-- Writes `digits`, whose first one has the decimal exponent `leading`, without
an exponent. -/
def positionalText (keepsPoint : Bool) (digits : List Char) (leading : Int) :
    List Char :=
  if leading < 0 then
    ['0', '.'] ++ List.replicate (-leading - 1).toNat '0' ++ digits
  else
    let whole := leading.toNat + 1
    let padded := digits ++ List.replicate (whole - digits.length) '0'
    let fraction := padded.drop whole
    padded.take whole ++
      if fraction.isEmpty then (if keepsPoint then ['.', '0'] else [])
      else '.' :: fraction

/-- Writes `digits` as one digit, the fraction and the exponent `leading`. -/
def exponentText (plusSign : Bool) (digits : List Char) (leading : Int) :
    List Char :=
  let fraction := digits.drop 1
  let sign := if leading < 0 then ['-'] else if plusSign then ['+'] else []
  digits.take 1 ++ (if fraction.isEmpty then [] else '.' :: fraction) ++
    'e' :: sign ++ digitChars leading.natAbs

/-- The text of a non-negative finite double. -/
def FloatStyle.magnitudeText (style : FloatStyle) (bits : UInt64) : List Char :=
  let decimal := shortest style.tie bits
  let digits := digitChars decimal.digits
  let leading := decimal.exponent + digits.length - 1
  if decimal.digits = 0 then positionalText style.keepsPoint ['0'] 0
  else if style.positional leading then
    positionalText style.keepsPoint digits leading
  else exponentText style.plusSign digits leading

/-- The text of a double; a negative sign is kept on zero and on infinity. -/
def FloatStyle.render (style : FloatStyle) (x : Float) : String :=
  if x.isNaN then style.notANumber
  else
    let bits := x.toBits
    let sign := if bits.toNat < 0x8000000000000000 then "" else "-"
    sign ++
      if x.isInf then style.infinite
      else String.ofList
        (style.magnitudeText (UInt64.ofNat (bits.toNat % 0x8000000000000000)))

end RowGuard.Decimal
