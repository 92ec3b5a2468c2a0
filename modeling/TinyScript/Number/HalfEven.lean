/-!
# Rounding a quotient

The one rounding rule of the library: a quotient of natural numbers goes to the nearest natural number, and a quotient
halfway between two goes to the even one. Binary formats and decimal grids both round with it.
-/

namespace TinyScript

/-- The natural number nearest to `num / den`; of two equally near, the even one. -/
def halfEven (num den : Nat) : Nat :=
  let low := num / den
  let rest := num % den
  if den < 2 * rest ∨ (den = 2 * rest ∧ low % 2 = 1) then low + 1 else low

/-- A rounded quotient is one of the two whole numbers around it. -/
theorem halfEven_eq_or (num den : Nat) : halfEven num den = num / den ∨ halfEven num den = num / den + 1 := by
  unfold halfEven
  dsimp only
  split
  · exact Or.inr rfl
  · exact Or.inl rfl

/-- A whole quotient rounds to itself. -/
theorem halfEven_mul (n : Nat) {den : Nat} (h : 0 < den) : halfEven (n * den) den = n := by
  unfold halfEven
  simp only [Nat.mul_div_cancel _ h, Nat.mul_mod_left]
  rw [if_neg (by omega)]

/-- Rounding over one changes nothing. -/
theorem halfEven_one (n : Nat) : halfEven n 1 = n := by
  simpa using halfEven_mul n Nat.one_pos

end TinyScript
