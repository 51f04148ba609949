/-!
# Sets of characters as ranges

A character property is given by the closed ranges of code points that have it.
-/

namespace Injection

/-- Closed ranges of code points, each with its two ends. -/
abbrev Ranges := List (Nat × Nat)

/-- Whether a code point lies in one of the ranges. -/
def Ranges.covers (ranges : Ranges) (n : Nat) : Bool :=
  ranges.any fun r => r.1 ≤ n && n ≤ r.2

theorem Ranges.covers_iff {ranges : Ranges} {n : Nat} :
    ranges.covers n = true ↔ ∃ r ∈ ranges, r.1 ≤ n ∧ n ≤ r.2 := by
  simp [covers]

theorem Ranges.covers_eq_false {ranges others : Ranges}
    (h : ∀ r ∈ ranges, ∀ q ∈ others, r.2 < q.1 ∨ q.2 < r.1) {n : Nat} (hn : ranges.covers n = true) :
    others.covers n = false := by
  rw [Bool.eq_false_iff]
  intro hn'
  obtain ⟨r, hr, hr'⟩ := covers_iff.1 hn
  obtain ⟨q, hq, hq'⟩ := covers_iff.1 hn'
  have := h r hr q hq
  omega

end Injection
