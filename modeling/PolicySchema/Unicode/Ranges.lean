/-!
# Sets of code points as ranges

A property of characters is given as a list of closed ranges of code points.
`holds_iff` reads a list of ranges as the set of characters it stands for.
-/

namespace PolicySchema.Unicode

/-- Closed ranges of code points, each given by its first and its last member. -/
abbrev Ranges := List (Nat × Nat)

/-- Some range contains the character's code point. -/
def Ranges.holds (ranges : Ranges) (c : Char) : Bool :=
  ranges.any fun range ↦ range.1 ≤ c.toNat && c.toNat ≤ range.2

/-- A list of ranges holds of a character exactly when one of them encloses it. -/
theorem Ranges.holds_iff {ranges : Ranges} {c : Char} :
    ranges.holds c = true ↔ ∃ range ∈ ranges, range.1 ≤ c.toNat ∧ c.toNat ≤ range.2 := by
  simp [Ranges.holds]

end PolicySchema.Unicode
