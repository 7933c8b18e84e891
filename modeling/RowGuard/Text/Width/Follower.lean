import RowGuard.Text.Width.Basic
import RowGuard.Text.Width.Emoji
import RowGuard.Text.Width.Ligature

/-!
# What follows a character

The columns that a character adds depend on the text behind it. `Follower` is
all that has to be known of that text: whether it starts with a line feed, an
emoji, a part of an emoji, or the end of a ligature. `Follower.before` gives the
columns that a character adds in front of a follower, and the follower for the
character before.

Emoji that zero-width joiners tie together fill the two columns of the last one,
so what stands in front of a joiner adds nothing if it is an emoji.
-/

namespace RowGuard.Text

/-- What stands behind a character. -/
inductive Follower where
  /-- Nothing, or a character that forms nothing with the one before it. -/
  | plain
  /-- A line feed. -/
  | lineFeed
  /-- A picture. -/
  | picture
  /-- A skin tone. -/
  | skinTone
  /-- A flag letter. -/
  | flagLetter
  /-- Several flag letters. -/
  | flagLetters
  /-- A joiner and a picture. -/
  | joined
  /-- A key cap, a joiner and a picture. -/
  | joinedKeyCap
  /-- A flag letter, a joiner and a picture. -/
  | joinedFlagLetter
  /-- Whole flags, a joiner and a picture. -/
  | joinedFlags
  /-- A flag letter more than whole flags, a joiner and a picture. -/
  | joinedOddFlagLetters
  /-- The end of a region's name with so many letters, a joiner and a
  picture. -/
  | joinedTagLetters (count : Nat)
  /-- The end of a region's name that starts with so many digits, a joiner and a
  picture. -/
  | joinedTagDigits (count : Nat)
  /-- The end of a ligature, after a joiner or not. -/
  | ligature (tail : Ligature) (joiner : Bool)
deriving DecidableEq, Repr

/-- What a variation selector asks of the character before it. -/
inductive Selector where
  /-- The picture of an emoji. -/
  | picture
  /-- The plain form of an emoji. -/
  | sign
  /-- The full-width form of a quotation mark. -/
  | fullWidth
deriving DecidableEq, Repr

/-- The selector that `c` is. -/
def Selector.ofChar? (c : Char) : Option Selector :=
  if c.toNat = 0xFE0F then some .picture
  else if c.toNat = 0xFE0E then some .sign
  else if c.toNat = 0xFE01 then some .fullWidth
  else none

namespace Follower

/-- What `c` is to the character before it. -/
def ofChar (c : Char) : Follower :=
  if Emoji.isFlagLetter c then .flagLetter
  else if Emoji.isSkinTone c then .skinTone
  else if Emoji.pictures.has c then .picture
  else
    match Ligature.ofChar? c with
    | some tail => .ligature tail false
    | none => .plain

/-- Whether an emoji in front ends a group of joined emoji. -/
def isJoined : Follower → Bool
  | .joined | .joinedKeyCap => true
  | _ => false

/-- Whether a ligature forms across a selector in front. -/
def isLoose : Follower → Bool
  | .ligature tail _ => tail.isLoose
  | _ => false

/-- A joiner in front, where it ties something. -/
def beforeJoiner? : Follower → Option Follower
  | .picture | .skinTone | .flagLetters | .joinedFlags |
    .joinedOddFlagLetters => some .joined
  | .ligature .alef _ => none
  | .ligature tail _ =>
    if tail.isLoose then some (.ligature tail true) else none
  | _ => none

/-- An emoji, or a part of one, in front of a group of joined emoji. -/
def beforeJoined? (c : Char) : Option (Int × Follower) :=
  if c.toNat = 0x20E3 then some (0, .joinedKeyCap)
  else if Emoji.isFlagLetter c then some (1, .joinedFlagLetter)
  else if Emoji.isSkinTone c then some (0, .skinTone)
  else if c.toNat = 0xE007F then some (0, .joinedTagLetters 0)
  else if Emoji.pictures.has c then some (0, .picture)
  else none

/-- The region's name in front of letters: at most six letters, with digits only
in front of four; a black flag closes a name of three letters or more. -/
def beforeTagLetters? (count : Nat) (c : Char) : Option (Int × Follower) :=
  if Emoji.isTagLetter c && count < 6 then
    some (0, .joinedTagLetters (count + 1))
  else if Emoji.isTagDigit c && count ≤ 4 then some (0, .joinedTagDigits 1)
  else if c.toNat = 0x1F3F4 && 3 ≤ count then some (0, .picture)
  else none

/-- The region's name in front of digits: three of them, closed by a black
flag. -/
def beforeTagDigits? (count : Nat) (c : Char) : Option (Int × Follower) :=
  if Emoji.isTagDigit c && count < 3 then some (0, .joinedTagDigits (count + 1))
  else if c.toNat = 0x1F3F4 && count = 3 then some (0, .picture)
  else none

/-- The columns that `c` adds, and what it is to the character before it, where
it forms a group with what follows. In front of joined emoji the second letter
of a flag takes back the column of the first, since the flag is then part of the
group; one letter more ends the group at that flag, which shows on its own
again. -/
def group? (next : Follower) (c : Char) : Option (Int × Follower) :=
  if c.toNat = 0x200D then next.beforeJoiner?.map ((0, ·))
  else
    match next with
    | .skinTone => if Emoji.people.has c then some (0, .picture) else none
    | .flagLetter | .flagLetters =>
      if Emoji.isFlagLetter c then some (1, .flagLetters) else none
    | .joined => beforeJoined? c
    | .joinedFlagLetter | .joinedOddFlagLetters =>
      if Emoji.isFlagLetter c then some (-1, .joinedFlags) else none
    | .joinedFlags =>
      if Emoji.isFlagLetter c then some (3, .joinedOddFlagLetters) else none
    | .joinedTagLetters count => beforeTagLetters? count c
    | .joinedTagDigits count => beforeTagDigits? count c
    | .ligature tail joiner =>
      if tail.looksThrough c then some (0, next)
      else
        (tail.take? joiner c).map fun (columns, rest) =>
          (columns, match rest with
            | some tail => .ligature tail false
            | none => .plain)
    | _ => none

/-- The columns that `c` adds in front of `next`, and what it is to the
character before it, no selector being involved. -/
def before (next : Follower) (c : Char) : Int × Follower :=
  if c = '\n' then (1, .lineFeed)
  else if c = '\r' ∧ next = .lineFeed then (0, .plain)
  else if c.toNat ≤ 0xA0 then (1, .plain)
  else (next.group? c).getD (charWidth c, ofChar c)

end Follower

end RowGuard.Text
