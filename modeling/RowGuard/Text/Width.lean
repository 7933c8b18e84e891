import RowGuard.Text.Width.Follower

/-!
# Columns taken by text

A line of text is measured from its end to its start. Letters that form a
ligature, and characters that form one emoji, take the columns of the group and
not the sum of their own.
-/

namespace RowGuard.Text

/-- The variation selectors between a character and the follower that have still
to find the character they apply to. -/
structure Selectors where
  picture : Bool
  sign : Bool
  fullWidth : Bool
deriving DecidableEq, Repr

namespace Selectors

/-- No selector. -/
def none : Selectors := ⟨false, false, false⟩

/-- One selector more. -/
def insert (pending : Selectors) : Selector → Selectors
  | .picture => { pending with picture := true }
  | .sign => { pending with sign := true }
  | .fullWidth => { pending with fullWidth := true }

end Selectors

/-- What is known of the text behind a character. -/
structure Behind where
  next : Follower
  pending : Selectors
deriving DecidableEq, Repr

namespace Behind

/-- A follower without selectors. -/
def of (next : Follower) : Behind := ⟨next, .none⟩

/-- The text behind a selector. Selectors pile up in front of the end of a
ligature; in front of anything else only the last one counts, and it breaks the
group there, unless it asks for the picture of an emoji that is joined to the
next. -/
def select (behind : Behind) (selector : Selector) : Behind :=
  if behind.next.isLoose then ⟨behind.next, behind.pending.insert selector⟩
  else
    let next := if selector = .picture ∧
      behind.next.isJoined then behind.next else .plain
    ⟨next, Selectors.none.insert selector⟩

/-- The text behind a character that has no picture: the selector for pictures
is spent. -/
def spendPicture (behind : Behind) : Behind :=
  if behind.pending.picture then
    ⟨if behind.next.isLoose then behind.next else .plain,
      { behind.pending with picture := false }⟩
  else behind

/-- The columns that `c` adds when no selector for pictures applies to it. -/
def beforeUnpictured (behind : Behind) (c : Char) : Int × Behind :=
  match Selector.ofChar? c with
  | some selector => (0, behind.select selector)
  | none =>
    if behind.pending.sign && Emoji.dualPictures.has c then (1, of .plain)
    else if behind.pending.fullWidth && ['‘', '’', '“', '”'].contains c then
      (2, of .plain)
    else ((behind.next.before c).1, of (behind.next.before c).2)

/-- The columns that `c` adds in front of the text behind it. -/
def before (behind : Behind) (c : Char) : Int × Behind :=
  if behind.pending.picture && Emoji.hasPicture c then
    (if behind.next.isJoined then 0 else 2, of .picture)
  else behind.spendPicture.beforeUnpictured c

end Behind

/-- The columns of a line, and what it is to a character in front of it. -/
def measure (line : List Char) : Int × Behind :=
  line.foldr (fun c (total, behind) =>
    let (columns, behind) := behind.before c
    (total + columns, behind)) (0, .of .plain)

/-- Columns taken by a line of text. -/
def width (line : List Char) : Nat :=
  (measure line).1.toNat

theorem Behind.before_plain {c : Char} (small : c.toNat ≤ 0xA0)
    (noFeed : c ≠ '\n') :
    (Behind.of .plain).before c = (1, .of .plain) := by
  have noSelector : Selector.ofChar? c = none := by
    unfold Selector.ofChar?
    rw [if_neg (by omega), if_neg (by omega), if_neg (by omega)]
  simp [Behind.before, Behind.of, Behind.spendPicture, Behind.beforeUnpictured,
    Selectors.none, noSelector, Follower.before, noFeed, small]

/-- Text of the small code points without line feeds takes a column a
character. -/
theorem width_eq_length {line : List Char}
    (small : ∀ c ∈ line, c.toNat ≤ 0xA0 ∧ c ≠ '\n') :
    width line = line.length := by
  suffices measure line = ((line.length : Int), .of .plain) by
    simp [width, this]
  induction line with
  | nil => rfl
  | cons c line ih =>
    have rest := ih fun d hd => small d (List.mem_cons_of_mem c hd)
    have head := small c List.mem_cons_self
    simp only [measure, List.foldr_cons] at rest ⊢
    rw [rest]
    simp [Behind.before_plain head.1 head.2]

end RowGuard.Text
