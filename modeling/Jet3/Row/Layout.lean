import Mathlib.Data.Nat.Notation

/-!
# Limits of a row

The length a row may have, and the jump bytes its trailer needs.
-/

namespace Jet3

/-- `maximum_length`. -/
def maximumLength (variableCount : ℕ) : ℕ :=
  if variableCount = 0 then 2003 else 2012

/-- The smallest trailer that satisfies `length ≤ 256 * (jumpCount + 1)`. -/
def jumpCount (lengthWithoutJumps : ℕ) : ℕ :=
  (lengthWithoutJumps - 256 + 255 - 1) / 255

end Jet3
