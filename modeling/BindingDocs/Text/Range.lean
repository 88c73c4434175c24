/-!
# Sets of characters given by ranges

Unicode properties are tables of inclusive ranges of code points in increasing order.

## Main definitions

* `inRanges` — membership of a code point in such a table.
-/

namespace BindingDocs.Text

/-- Whether the code point `n` lies in one of the inclusive ranges. -/
def inRanges (n : Nat) : List (Nat × Nat) → Bool
  | [] => false
  | (lo, hi) :: rest => (lo ≤ n && n ≤ hi) || inRanges n rest

/-- Membership is the existence of a range around the code point. -/
theorem inRanges_iff (n : Nat) (rs : List (Nat × Nat)) :
    inRanges n rs = true ↔ ∃ r ∈ rs, r.1 ≤ n ∧ n ≤ r.2 := by
  induction rs with
  | nil => simp [inRanges]
  | cons r rest ih => simp [inRanges, ih]

end BindingDocs.Text
