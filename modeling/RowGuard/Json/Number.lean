import RowGuard.Json.Basic

/-!
# Numerals

A `Numeral` is the spelling of a JSON number, cut into its parts.
`Numeral.value?` gives it a meaning. Digits are collected in a significand of 64
bits; those that no longer fit are dropped, and the ones before the point count
as powers of ten. The significand is then scaled by at most `10 ^ 308` at a
time, in double arithmetic. That is not always the double nearest to the
decimal, but it is the same for every reader that follows this rule.
-/

namespace RowGuard

/-- A decimal exponent as written. -/
structure Exponent where
  negative : Bool
  digits : List Nat

/-- A number as written; without point and exponent it is an integer. -/
structure Numeral where
  negative : Bool
  whole : List Nat
  fraction : Option (List Nat)
  exponent : Option Exponent

namespace Numeral

/-- Largest significand. -/
def significandLimit : Nat := 0xFFFFFFFFFFFFFFFF

/-- Largest written exponent that is still counted. -/
def exponentLimit : Nat := 0x7FFFFFFF

/-- Appends digits to a significand while it stays below `limit`. The digits
that no longer fit are given back. -/
def appendDigits (limit significand : Nat) : List Nat → Nat × List Nat
  | [] => (significand, [])
  | digit :: digits =>
    if limit < significand * 10 + digit then (significand, digit :: digits)
    else appendDigits limit (significand * 10 + digit) digits

/-- Multiplies by a power of ten in double arithmetic. There is no result if it
would be infinite. Each round takes 308 powers off the exponent, so `rounds`
only has to be larger than the exponent. -/
def scale? (rounds : Nat) (x : Float) (exponent : Int) : Option Float :=
  match rounds with
  | 0 => none
  | rounds + 1 =>
    if exponent.natAbs ≤ 308 then
      let power := Float.ofScientific 1 false exponent.natAbs
      if 0 ≤ exponent then
        let scaled := x * power
        if scaled.isInf then none else some scaled
      else some (x / power)
    else if x == 0.0 then some x
    else if 0 ≤ exponent then none
    else scale? rounds (x / 1e308) (exponent + 308)

/-- A magnitude with a sign. -/
def signed? (negative : Bool) (magnitude : Float) : Option Number :=
  Number.ofFloat? (if negative then -magnitude else magnitude)

/-- The double `significand · 10 ^ exponent` with a sign. -/
def float? (negative : Bool) (significand : Nat) (exponent : Int) :
    Option Number :=
  let start := (UInt64.ofNat significand).toFloat
  (scale? (exponent.natAbs + 1) start exponent).bind (signed? negative)

/-- The meaning of an integer: itself if it fits into 64 bits with a sign or
without one, else a double. A negative zero is a double. -/
def integer? (negative : Bool) (digits : List Nat) : Option Number :=
  match appendDigits significandLimit 0 digits with
  | (significand, []) =>
    if !negative then Number.ofInt? significand
    else if 0 < significand && significand ≤ 0x8000000000000000 then
      Number.ofInt? (-significand)
    else signed? true (UInt64.ofNat significand).toFloat
  | (significand, dropped) => float? negative significand dropped.length

/-- The meaning of a number with point or exponent. A written exponent that is
too long to count leaves only zero, with its sign, or nothing. -/
def decimal? (numeral : Numeral) : Option Number :=
  let (upper, droppedWhole) := appendDigits significandLimit 0 numeral.whole
  let fraction := numeral.fraction.getD []
  let (significand, droppedFraction) :=
    appendDigits significandLimit upper fraction
  let shift : Int :=
    (droppedWhole.length : Int) -
      (fraction.length - droppedFraction.length : Nat)
  match numeral.exponent with
  | none => float? numeral.negative significand shift
  | some exponent =>
    match appendDigits exponentLimit 0 exponent.digits with
    | (written, []) =>
      let power : Int := if exponent.negative then -written else written
      float? numeral.negative significand (shift + power)
    | _ =>
      if significand != 0 && !exponent.negative then none
      else signed? numeral.negative 0.0

/-- The number a numeral denotes, unless it is too large. -/
def value? (numeral : Numeral) : Option Number :=
  match numeral.fraction, numeral.exponent with
  | none, none => integer? numeral.negative numeral.whole
  | _, _ => numeral.decimal?

end Numeral

end RowGuard
