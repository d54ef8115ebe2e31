import DalvikPatch.Text.Basic

/-! Sets of characters as ascending ranges of code points, the form in which the Unicode
property tables of this folder are kept. -/

namespace DalvikPatch.Text

/-- Whether a code point lies in one of the ranges; the ranges ascend, so the search stops at the
first one that starts above it. -/
def inRanges : List (Nat × Nat) → Nat → Bool
  | [], _ => false
  | r :: rs, n => decide (r.1 ≤ n) && (decide (n ≤ r.2) || inRanges rs n)

end DalvikPatch.Text
