/-!
# Ranges of code points

A character property of the Unicode standard is kept as the list of the code
point ranges that have it, in increasing order.
-/

namespace RowGuard.Text

/-- Code point ranges, both ends included. -/
abbrev CodeRanges := List (Nat × Nat)

/-- Whether some range holds the code point of `c`. -/
def CodeRanges.has (ranges : CodeRanges) (c : Char) : Bool :=
  ranges.any fun range => range.1 ≤ c.toNat && c.toNat ≤ range.2

theorem CodeRanges.has_iff {ranges : CodeRanges} {c : Char} :
    ranges.has c = true ↔
      ∃ range ∈ ranges, range.1 ≤ c.toNat ∧ c.toNat ≤ range.2 := by
  simp [CodeRanges.has]

end RowGuard.Text
