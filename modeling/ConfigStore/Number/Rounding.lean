/-! Quotients are rounded to the nearest whole number, and a half goes to the even neighbour. -/

namespace ConfigStore

/-- The whole number nearest to a quotient, where a half goes to the even neighbour. -/
def roundDiv (numerator denominator : Nat) : Nat :=
  let low := numerator / denominator
  let rest := numerator % denominator
  if 2 * rest < denominator then low
  else if denominator < 2 * rest then low + 1
  else low + low % 2

/-- A rounded quotient is one of the two whole numbers around it. -/
theorem roundDiv_bounds (numerator denominator : Nat) :
    numerator / denominator ≤ roundDiv numerator denominator ∧
      roundDiv numerator denominator ≤ numerator / denominator + 1 := by
  -- Each of the three cases adds nothing, one, or a parity.
  simp only [roundDiv]
  split
  · omega
  · split <;> omega

end ConfigStore
