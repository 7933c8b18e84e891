import RowGuard.Text.Width.Zero

/-!
# Ligatures

In some scripts letters that follow each other are drawn as one.
`Ligature.ofChar?` finds the letters that end such a group, and `Ligature.take?`
says what a letter in front of them adds. The zero-width joiner asks for the
Hebrew, Buginese, Old Turkic and Tifinagh groups; the others form without it.
Invisible characters may stand inside a group, but not between the vowel signs
of Kirat Rai.
-/

namespace RowGuard.Text

/-- The end of a group of letters that is drawn as one. -/
inductive Ligature where
  /-- An Arabic alef, which a lam joins. -/
  | alef
  /-- The Hebrew lamed. -/
  | lamed
  /-- The Buginese letter ya. -/
  | ya
  /-- The Buginese vowel sign i before ya. -/
  | iYa
  /-- The Old Turkic letter i. -/
  | turkicI
  /-- A Khmer letter that has a form under another letter. -/
  | khmer
  /-- The Kirat Rai vowel sign e. -/
  | kiratE
  /-- The Kirat Rai vowel sign ai, or the two signs e that it is made of. -/
  | kiratAi
  /-- A Lisu tone letter that follows another one. -/
  | lisuTone
  /-- A Tifinagh consonant. -/
  | tifinagh
  /-- A Tifinagh consonant with the consonant joiner before it. -/
  | tifinaghJoined
deriving DecidableEq, Repr

/-- The letters of Arabic that have the shape of alef. -/
def alefs : CodeRanges := [
  (0x622, 0x623), (0x625, 0x625), (0x627, 0x627), (0x671, 0x673),
  (0x675, 0x675), (0x773, 0x774), (0x870, 0x882)]

/-- The letters of Arabic that have the shape of lam. -/
def lams : CodeRanges := [
  (0x644, 0x644), (0x6B5, 0x6B8), (0x76A, 0x76A), (0x8A6, 0x8A6),
  (0x8C7, 0x8C7)]

/-- The letters of Khmer that have a form under another letter. -/
def khmerSubscripts : CodeRanges := [
  (0x1780, 0x1782), (0x1784, 0x1787), (0x1789, 0x178C), (0x178E, 0x1793),
  (0x1795, 0x1798), (0x179B, 0x179D), (0x17A0, 0x17A0), (0x17A2, 0x17A2),
  (0x17A7, 0x17A7), (0x17AB, 0x17AC), (0x17AF, 0x17AF)]

/-- The consonants of Tifinagh. -/
def tifinaghConsonants : CodeRanges := [(0x2D31, 0x2D65), (0x2D6F, 0x2D6F)]

/-- Marks without a form that ligatures other than the Arabic one look
through. -/
def invisibleMarks : CodeRanges := [
  (0x34F, 0x34F), (0x17B4, 0x17B5), (0x180B, 0x180D), (0x180F, 0x180F),
  (0xFE00, 0xFE0F), (0xE0100, 0xE01EF)]

namespace Ligature

/-- The group that `c` ends. -/
def ofChar? (c : Char) : Option Ligature :=
  if c.toNat = 0x5DC then some .lamed
  else if alefs.has c then some .alef
  else if khmerSubscripts.has c then some .khmer
  else if c.toNat = 0x1A10 then some .ya
  else if tifinaghConsonants.has c then some .tifinagh
  else if c.toNat = 0xA4FC || c.toNat = 0xA4FD then some .lisuTone
  else if c.toNat = 0x10C03 then some .turkicI
  else if c.toNat = 0x16D67 then some .kiratE
  else if c.toNat = 0x16D68 then some .kiratAi
  else none

/-- Whether invisible characters may stand inside the group. -/
def isLoose : Ligature → Bool
  | .kiratE | .kiratAi => false
  | _ => true

/-- Whether the group stays as it is when `c` comes before it. -/
def looksThrough (tail : Ligature) (c : Char) : Bool :=
  match tail with
  | .alef => joinsAcross c
  | _ => tail.isLoose && invisibleMarks.has c

/-- What `c` adds to the columns of the group, and the group that results, if it
has still an open end. `joined` tells whether a zero-width joiner stands
between. -/
def take? (tail : Ligature) (joined : Bool) (c : Char) :
    Option (Int × Option Ligature) :=
  match tail, joined with
  | .alef, _ => if lams.has c then some (0, none) else none
  | .lamed, true => if c.toNat = 0x5D0 then some (0, none) else none
  | .ya, true => if c.toNat = 0x1A17 then some (0, some .iYa) else none
  | .iYa, _ => if c.toNat = 0x1A15 then some (0, none) else none
  | .turkicI, true => if c.toNat = 0x10C32 then some (0, none) else none
  | .khmer, _ => if c.toNat = 0x17D2 then some (-1, none) else none
  | .kiratE, _ =>
    if c.toNat = 0x16D63 || c.toNat = 0x16D69 then some (0, none)
    else if c.toNat = 0x16D67 then some (0, some .kiratAi)
    else if c.toNat = 0x16D68 then some (1, some .kiratE)
    else none
  | .kiratAi, _ => if c.toNat = 0x16D63 then some (0, none) else none
  | .lisuTone, _ =>
    if 0xA4F8 ≤ c.toNat && c.toNat ≤ 0xA4FB then some (0, none) else none
  | .tifinagh, joined =>
    if c.toNat = 0x2D7F then some (1, some .tifinaghJoined)
    else if joined && tifinaghConsonants.has c then some (0, none)
    else none
  | .tifinaghJoined, _ =>
    if tifinaghConsonants.has c then some (-1, none) else none
  | _, false => none

end Ligature

end RowGuard.Text
