/-
Sets of characters given by their code points, as lists of closed intervals. The classes of characters that the
library reads text by (blank, word, printable) are such lists; they follow version 14 of the Unicode database.

- `covers_iff`: membership is membership in one of the intervals.
-/

namespace SqlDialects.Text

/-- closed intervals of code points -/
abbrev CharRanges := List (Nat × Nat)

namespace CharRanges

/-- whether code point `n` lies in one of the intervals -/
def covers (ranges : CharRanges) (n : Nat) : Bool :=
  ranges.any fun r => r.1 ≤ n && n ≤ r.2

theorem covers_iff {ranges : CharRanges} {n : Nat} : ranges.covers n = true ↔ ∃ r ∈ ranges, r.1 ≤ n ∧ n ≤ r.2 := by
  simp [covers]

end CharRanges

end SqlDialects.Text
