import Mathlib.Algebra.Order.Field.Basic
import Mathlib.Algebra.Order.Ring.Abs
import Mathlib.Data.Rat.Cast.Order
import Mathlib.Tactic.Linarith
import TinyScript.Proofs.Number.Nearest

/-!
# Nearest values

The values of codes as rational numbers, and what rounding to the nearest of them comes to (`Format.Nearest`): none is nearer,
and where another one is as near, the code is even. Infinity takes part with the value that its code would have in one more
binade. `Format.round` is the one code of which this holds (`Format.nearest_iff`).
-/

namespace TinyScript

namespace Format

variable {f : Format}

/-- The value of a code. -/
def value (f : Format) (code : Nat) : ℚ := f.units code / 2 ^ f.scale

/-- The code has a value nearest to the number. Another code is as near only if this one is even. -/
structure Nearest (f : Format) (x : ℚ) (code : Nat) : Prop where
  le_infinity : code ≤ f.infinity
  nearest : ∀ other, other ≤ f.infinity → |f.value code - x| ≤ |f.value other - x|
  even : ∀ other, other ≤ f.infinity → other ≠ code → |f.value other - x| = |f.value code - x| → code % 2 = 0

/-- Codes are in the order of their values. -/
theorem value_strictMono (f : Format) : StrictMono f.value := by
  intro code other h
  have hunits : (f.units code : ℚ) < f.units other := by exact_mod_cast f.units_strictMono h
  exact div_lt_div_of_pos_right hunits (by positivity)

/-- A quotient reaches a code past the point halfway to the code before, or at it and the code is even. -/
theorem reaches_iff {num den code : Nat} (hden : 0 < den) :
    f.Reaches num den code ↔ f.value (code - 1) + f.value code < 2 * (num / den : ℚ) ∨
      (f.value (code - 1) + f.value code = 2 * (num / den : ℚ) ∧ code % 2 = 0) := by
  have hscale : (0 : ℚ) < 2 ^ f.scale := by positivity
  have hden' : (0 : ℚ) < den := by exact_mod_cast hden
  unfold Reaches middle value
  rw [← add_div, mul_div_assoc', div_lt_div_iff₀ hscale hden', div_eq_div_iff hscale.ne' hden'.ne', mul_assoc 2]
  norm_cast

/-! ## Distances -/

section Distances

variable {x low high : ℚ}

/-- A number at least halfway up to the higher of two values is no farther from it than from the lower one. -/
theorem distance_le_of_half_le (h : low ≤ high) (hx : low + high ≤ 2 * x) : |high - x| ≤ |low - x| := by
  have hlow := neg_le_abs (low - x)
  exact abs_le.mpr ⟨by linarith, by linarith⟩

/-- A number at most halfway up to the higher of two values is no farther from the lower one than from it. -/
theorem distance_le_of_le_half (h : low ≤ high) (hx : 2 * x ≤ low + high) : |low - x| ≤ |high - x| := by
  have hhigh := le_abs_self (high - x)
  exact abs_le.mpr ⟨by linarith, by linarith⟩

/-- A number that is as far from one value as from a higher one is halfway between them. -/
theorem half_of_distance_eq (h : low < high) (hx : |low - x| = |high - x|) : low + high = 2 * x := by
  rcases abs_eq_abs.mp hx with hsame | hopposite
  · exact absurd (sub_left_injective hsame) h.ne
  · linarith

end Distances

/-! ## Rounding -/

/-- The code that a quotient is rounded to has the nearest value. -/
theorem nearest_round (hf : 0 < f.fractionBits) (num : Nat) {den : Nat} (hden : 0 < den) :
    f.Nearest (num / den : ℚ) (f.round num den) := by
  have hbound := f.round_le_infinity num den
  have hreached : 0 < f.round num den → f.Reaches num den (f.round num den) :=
    fun hpos => (le_round_iff hf hden hpos hbound).mp (Nat.le_refl _)
  have hnext : f.round num den + 1 ≤ f.infinity → ¬ f.Reaches num den (f.round num den + 1) :=
    fun hle hreaches => absurd ((le_round_iff hf hden (Nat.succ_pos _) hle).mpr hreaches) (Nat.not_succ_le_self _)
  simp only [reaches_iff hden, Nat.add_sub_cancel] at hreached hnext
  generalize f.round num den = code at *
  generalize (num / den : ℚ) = x at *
  refine ⟨hbound, fun other hother => ?_, fun other hother hne hequal => ?_⟩
  · rcases Nat.lt_trichotomy other code with hlt | rfl | hgt
    · have hvalue := f.value_strictMono.monotone (Nat.le_sub_one_of_lt hlt)
      refine distance_le_of_half_le (f.value_strictMono.monotone (Nat.le_of_lt hlt)) ?_
      rcases hreached (Nat.zero_lt_of_lt hlt) with h | ⟨h, _⟩ <;> linarith
    · exact le_refl _
    · have hvalue := f.value_strictMono.monotone (Nat.succ_le_of_lt hgt)
      refine distance_le_of_le_half (f.value_strictMono.monotone (Nat.le_of_lt hgt)) ?_
      have hnot := hnext (Nat.le_trans (Nat.succ_le_of_lt hgt) hother)
      rw [not_or] at hnot
      have := not_lt.mp hnot.1
      linarith
  · rcases Nat.lt_or_gt_of_ne hne with hlt | hgt
    · have hvalue := f.value_strictMono.monotone (Nat.le_sub_one_of_lt hlt)
      have hhalf := half_of_distance_eq (f.value_strictMono hlt) hequal
      rcases hreached (Nat.zero_lt_of_lt hlt) with h | ⟨_, heven⟩
      · linarith
      · exact heven
    · have hvalue := f.value_strictMono.monotone (Nat.succ_le_of_lt hgt)
      have hhalf := half_of_distance_eq (f.value_strictMono hgt) hequal.symm
      have hnot := hnext (Nat.le_trans (Nat.succ_le_of_lt hgt) hother)
      rw [not_or, not_and] at hnot
      have hle := not_lt.mp hnot.1
      have hodd := hnot.2 (by linarith)
      omega

/-- No two codes are nearest to a number, for one of them would be odd. -/
theorem Nearest.unique {x : ℚ} {code other : Nat} (h : f.Nearest x code) (h' : f.Nearest x other) : code = other := by
  have hequal : |f.value code - x| = |f.value other - x| :=
    le_antisymm (h.nearest other h'.le_infinity) (h'.nearest code h.le_infinity)
  wlog hlt : code < other generalizing code other
  · rcases Nat.eq_or_lt_of_le (Nat.le_of_not_lt hlt) with heq | hgt
    · exact heq.symm
    · exact (this h' h hequal.symm hgt).symm
  -- Both are even, so there is a code between them, which is nearer than both.
  have heven := h.even other h'.le_infinity hlt.ne' hequal.symm
  have heven' := h'.even code h.le_infinity hlt.ne hequal
  have hbetween : code + 1 < other := by omega
  have hlow := f.value_strictMono (Nat.lt_add_one code)
  have hhigh := f.value_strictMono hbetween
  have hhalf := half_of_distance_eq (f.value_strictMono hlt) hequal
  have hnearest := h.nearest (code + 1) (Nat.le_trans (Nat.le_of_lt hbetween) h'.le_infinity)
  have hfar : |f.value code - x| = x - f.value code := by
    rw [abs_sub_comm]
    exact abs_of_nonneg (by linarith)
  have hnear : |f.value (code + 1) - x| < x - f.value code := abs_lt.mpr ⟨by linarith, by linarith⟩
  linarith

/-- A quotient is rounded to the code that has the nearest value. -/
theorem nearest_iff (hf : 0 < f.fractionBits) {num den : Nat} (hden : 0 < den) {code : Nat} :
    f.Nearest (num / den : ℚ) code ↔ code = f.round num den :=
  ⟨fun h => h.unique (nearest_round hf num hden), fun h => h ▸ nearest_round hf num hden⟩

end Format

end TinyScript
