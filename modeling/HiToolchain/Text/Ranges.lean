/-!
Membership of a character in a table of code point ranges.
-/

namespace HiToolchain

/-- Whether the code point of `c` lies in one of the inclusive ranges. -/
def inRanges (ranges : Array (Nat × Nat)) (c : Char) : Bool :=
  ranges.any fun r => r.1 ≤ c.toNat && c.toNat ≤ r.2

theorem inRanges_iff (ranges : Array (Nat × Nat)) (c : Char) :
    inRanges ranges c ↔ ∃ r ∈ ranges.toList, r.1 ≤ c.toNat ∧ c.toNat ≤ r.2 := by
  rw [inRanges, ← Array.any_toList, List.any_eq_true]
  simp only [Bool.and_eq_true, decide_eq_true_eq]

end HiToolchain
