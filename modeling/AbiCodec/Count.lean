/-!
# Counts

Lengths, offsets and sizes are natural numbers below `countLimit`.  A result
that leaves that range is either clamped to `maxCount` or refused, and each
user of a count says which.
-/

namespace AbiCodec

/-- Counts are below this bound. -/
def countLimit : Nat := 1 <<< 64

/-- The largest count. -/
def maxCount : Nat := (1 <<< 64) - 1

/-- The sum of two counts, clamped to `maxCount`. -/
def saturatingAdd (a b : Nat) : Nat := min (a + b) maxCount

/-- The product of two counts, clamped to `maxCount`. -/
def saturatingMul (a b : Nat) : Nat := min (a * b) maxCount

/-- The number itself when it is a count. -/
def count? (n : Nat) : Option Nat := if n < countLimit then some n else none

theorem count?_eq_some_iff {n m : Nat} : count? n = some m ↔ n = m ∧ n < countLimit := by
  unfold count?
  split
  · next below =>
    constructor
    · intro same
      cases same
      exact ⟨rfl, below⟩
    · intro ⟨same, _⟩
      rw [same]
  · next above =>
    constructor
    · intro same
      cases same
    · intro ⟨_, below⟩
      exact absurd below above

theorem saturatingAdd_of_le {a b : Nat} (h : a + b ≤ maxCount) : saturatingAdd a b = a + b :=
  Nat.min_eq_left h

end AbiCodec
