import RowGuard.Text.Width.Wide
import RowGuard.Text.Width.Zero

/-!
# Columns of a character on its own

On a fixed-width display a character takes one column, but for wide ones, which
take two, marks, which take none, and one Khmer sign of three.
-/

namespace RowGuard.Text

/-- Columns of a character that forms nothing with its neighbours. -/
def charWidth (c : Char) : Nat :=
  if c.toNat ≤ 0xA0 then 1
  else if c.toNat = 0x17D8 then 3
  else if zeroWidth.has c then 0
  else if wide.has c then 2
  else 1

end RowGuard.Text
