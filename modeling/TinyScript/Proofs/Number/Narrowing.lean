import Mathlib.Tactic.LinearCombination
import TinyScript.Proofs.Number.Value
import TinyScript.Proofs.Number.Widening

/-!
# Rounding twice

A quotient that is rounded to a wider format and from there to the narrower one is rounded past other points than if it were
rounded once. The points halfway between numbers of the narrower format are numbers of the wider one, with an even code. What
is rounded to such a point goes with it: to the even one of the two numbers around it (`Format.Wider.le_narrowed_iff`).

The points past which a quotient is narrowed to infinity, and no more to zero, are those of the 32-bit format
(`Format.infinity_le_narrowed_iff`, `Format.one_le_narrowed_iff`).
-/

namespace TinyScript

namespace Format

variable {f g : Format}

/-- The code of the narrower format that a quotient is rounded to by way of the wider one. -/
def narrowed (g f : Format) (num den : Nat) : Nat := g.recode f (g.round num den)

/-- What is narrowed is a code of the narrower format. -/
theorem narrowed_le_infinity (g f : Format) (num den : Nat) : g.narrowed f num den ≤ f.infinity :=
  g.recode_le_infinity f _

/-- A quotient is at least so many half steps of a binade. -/
theorem halves_le_iff (g : Format) {halves wide num den : Nat} (hden : 0 < den) :
    halves * 2 ^ wide * den ≤ 2 * (num * 2 ^ g.scale) ↔ halves * ((2 : ℚ) ^ wide / 2 ^ (g.scale + 1)) ≤ num / den := by
  have hden' : (0 : ℚ) < den := by exact_mod_cast hden
  have hscale : (0 : ℚ) < 2 ^ (g.scale + 1) := by positivity
  rw [← mul_div_assoc, div_le_div_iff₀ hscale hden', pow_succ, mul_comm _ (2 : ℚ), mul_left_comm]
  exact_mod_cast Iff.rfl

/-- A quotient is at most so many half steps of a binade. -/
theorem le_halves_iff (g : Format) {halves wide num den : Nat} (hden : 0 < den) :
    2 * (num * 2 ^ g.scale) ≤ halves * 2 ^ wide * den ↔
      (num / den : ℚ) ≤ halves * ((2 : ℚ) ^ wide / 2 ^ (g.scale + 1)) := by
  have hden' : (0 : ℚ) < den := by exact_mod_cast hden
  have hscale : (0 : ℚ) < 2 ^ (g.scale + 1) := by positivity
  rw [← mul_div_assoc, div_le_div_iff₀ hden' hscale, pow_succ, mul_comm _ (2 : ℚ), mul_left_comm]
  exact_mod_cast Iff.rfl

namespace Wider

/-- Codes are narrowed in their order. -/
theorem recode_mono (h : Wider f g) : Monotone (g.recode f) := fun _ _ hle =>
  round_le_round h.fraction_pos (Nat.two_pow_pos _) (Nat.two_pow_pos _)
    (Nat.mul_le_mul_right _ (g.units_strictMono.monotone hle))

/-- Quotients are narrowed in their order. -/
theorem narrowed_le_narrowed (h : Wider f g) {num den num' den' : Nat} (hden : 0 < den) (hden' : 0 < den')
    (hle : num * den' ≤ num' * den) : g.narrowed f num den ≤ g.narrowed f num' den' :=
  h.recode_mono (round_le_round h.fraction_pos' hden hden' hle)

/-- Equal quotients are narrowed to one code. -/
theorem narrowed_congr (h : Wider f g) {num den num' den' : Nat} (hden : 0 < den) (hden' : 0 < den')
    (heq : num * den' = num' * den) : g.narrowed f num den = g.narrowed f num' den' :=
  Nat.le_antisymm (h.narrowed_le_narrowed hden hden' (Nat.le_of_eq heq))
    (h.narrowed_le_narrowed hden' hden (Nat.le_of_eq heq.symm))

/-- The code that a quotient is narrowed to is the nearest one to the nearest one of the wider format. -/
theorem nearest_nearest_iff (h : Wider f g) {num den code : Nat} (hden : 0 < den) :
    (∃ wide, g.Nearest (num / den : ℚ) wide ∧ f.Nearest (g.value wide) code) ↔ code = g.narrowed f num den := by
  have hnarrow : ∀ wide, f.Nearest (g.value wide) code ↔ code = g.recode f wide := by
    intro wide
    have hvalue : g.value wide = ((g.units wide : Nat) / (2 ^ g.scale : Nat) : ℚ) := by
      unfold value
      push_cast
      rfl
    rw [hvalue, nearest_iff h.fraction_pos (Nat.two_pow_pos _)]
    rfl
  simp only [nearest_iff h.fraction_pos' hden, hnarrow, exists_eq_left]
  rfl

/-- A code of the wider format has the value halfway between a code of the narrower one and the code before. -/
structure Halfway (f g : Format) (code middle : Nat) : Prop where
  pos : 0 < code
  le_infinity : code ≤ f.infinity
  lt_infinity : middle < g.infinity
  even : middle % 2 = 0
  units_eq : f.middle code * 2 ^ (g.scale - f.scale) = 2 * g.units middle

instance (f g : Format) (code middle : Nat) : Decidable (Halfway f g code middle) :=
  decidable_of_iff
    (0 < code ∧ code ≤ f.infinity ∧ middle < g.infinity ∧ middle % 2 = 0 ∧
      f.middle code * 2 ^ (g.scale - f.scale) = 2 * g.units middle)
    ⟨fun ⟨hpos, hcode, hmiddle, heven, hunits⟩ => ⟨hpos, hcode, hmiddle, heven, hunits⟩,
      fun h => ⟨h.pos, h.le_infinity, h.lt_infinity, h.even, h.units_eq⟩⟩

/-- A halfway point is above zero. -/
theorem Halfway.middle_pos {code middle : Nat} (h : Halfway f g code middle) : 0 < middle := by
  apply Nat.pos_of_ne_zero
  rintro rfl
  have hunits := h.units_eq
  have hpos := Nat.mul_pos (Nat.lt_of_le_of_lt (Nat.zero_le _) (f.two_mul_units_lt_middle (code - 1)))
    (Nat.two_pow_pos (g.scale - f.scale))
  rw [Nat.sub_add_cancel h.pos, hunits, units_zero] at hpos
  exact absurd hpos (Nat.lt_irrefl 0)

/-- A value of the wider format is narrowed to at least a code past the point halfway to the code before, and at it if the
code is even. -/
theorem le_recode_iff (h : Wider f g) {code middle : Nat} (hmiddle : Halfway f g code middle) (wide : Nat) :
    code ≤ g.recode f wide ↔ middle + code % 2 ≤ wide := by
  unfold recode
  rw [le_round_iff h.fraction_pos (Nat.two_pow_pos _) hmiddle.pos hmiddle.le_infinity, Reaches, h.two_pow_scale,
    ← Nat.mul_assoc, ← Nat.mul_assoc, Nat.mul_lt_mul_right (Nat.two_pow_pos _), Nat.mul_right_cancel_iff (Nat.two_pow_pos _),
    hmiddle.units_eq, Nat.mul_lt_mul_left Nat.two_pos, g.units_strictMono.lt_iff_lt, Nat.mul_right_inj (by decide),
    g.units_strictMono.injective.eq_iff]
  omega

/-- A quotient is narrowed to at least a code when it reaches the point halfway to the code before, or, if the code is odd,
the next value of the wider format. -/
theorem le_narrowed_iff (h : Wider f g) {code middle num den : Nat} (hmiddle : Halfway f g code middle) (hden : 0 < den) :
    code ≤ g.narrowed f num den ↔ g.Reaches num den (middle + code % 2) := by
  have hlt := hmiddle.lt_infinity
  have hpos := hmiddle.middle_pos
  rw [narrowed, h.le_recode_iff hmiddle, le_round_iff h.fraction_pos' hden (by omega) (by omega)]

/-- A quotient is narrowed to a code when it reaches the halfway point below it and not the one above. -/
theorem narrowed_eq_iff (h : Wider f g) {code middle middle' num den : Nat} (hmiddle : Halfway f g code middle)
    (hmiddle' : Halfway f g (code + 1) middle') (hden : 0 < den) :
    g.narrowed f num den = code ↔
      g.Reaches num den (middle + code % 2) ∧ ¬ g.Reaches num den (middle' + (code + 1) % 2) := by
  rw [← h.le_narrowed_iff hmiddle hden, ← h.le_narrowed_iff hmiddle' hden]
  omega

/-- An even place of a binade that is worth as much as a point halfway between two codes is that point. -/
theorem halfway (h : Wider f g) {code shift place : Nat} (hpos : 0 < code) (hcode : code ≤ f.infinity)
    (hplace : 2 ^ g.fractionBits ≤ place) (hplace' : place < 2 ^ (g.fractionBits + 1)) (heven : place % 2 = 0)
    (hunits : f.middle code * 2 ^ (g.scale - f.scale) = 2 * (place * 2 ^ shift)) :
    Halfway f g code (shift * 2 ^ g.fractionBits + place) := by
  have hvalue := units_shift (f := g) (Nat.le_of_lt hplace') (Or.inr hplace : shift = 0 ∨ _)
  have hinfinity : place * 2 ^ shift < 2 * f.units f.infinity * 2 ^ (g.scale - f.scale) := by
    have hless := Nat.mul_le_mul_right (2 ^ (g.scale - f.scale)) (Nat.le_of_lt (f.middle_lt_two_mul_units hpos))
    have hmore := Nat.mul_le_mul_right (2 ^ (g.scale - f.scale)) (f.units_strictMono.monotone hcode)
    have hsome : 0 < f.units f.infinity * 2 ^ (g.scale - f.scale) :=
      Nat.mul_pos (Nat.zero_lt_of_lt (f.units_strictMono (Nat.lt_of_lt_of_le hpos hcode))) (Nat.two_pow_pos _)
    rw [Nat.mul_assoc] at hless ⊢
    omega
  refine ⟨hpos, hcode, ?_, (code_mod_two h.fraction_pos' shift place).trans heven, by rw [hunits, hvalue]⟩
  obtain ⟨wide, hfinite, hwide⟩ := h.exists_units_eq hplace' hinfinity
  rwa [← g.units_strictMono.injective (hwide.trans hvalue.symm)]

section Thresholds

variable {code shift place num den : Nat}

/-- A quotient is narrowed to at least an even code from one half of a step of the wider format before the point halfway to the
code before. -/
theorem le_narrowed_iff_of_even (h : Wider f g) (hmiddle : Halfway f g code (shift * 2 ^ g.fractionBits + place))
    (hden : 0 < den) (hplace : 2 ^ g.fractionBits < place) (hplace' : place < 2 ^ (g.fractionBits + 1)) (hcode : code % 2 = 0) :
    code ≤ g.narrowed f num den ↔ (2 * place - 1) * 2 ^ shift * den ≤ 2 * (num * 2 ^ g.scale) := by
  obtain ⟨before, rfl⟩ := Nat.exists_eq_add_of_lt (Nat.zero_lt_of_lt hplace)
  rw [Nat.zero_add] at *
  have heven := hmiddle.even
  have htwice : 2 * (before + 1) - 1 = 2 * before + 1 := by omega
  rw [h.le_narrowed_iff hmiddle hden, hcode, Nat.add_zero, Reaches, ← Nat.add_assoc,
    middle_shift (by omega) (Or.inr (by omega)), htwice]
  omega

/-- A quotient is narrowed to at least an odd code past one half of a step of the wider format behind the point halfway to the
code before. -/
theorem le_narrowed_iff_of_odd (h : Wider f g) (hmiddle : Halfway f g code (shift * 2 ^ g.fractionBits + place))
    (hden : 0 < den) (hplace : 2 ^ g.fractionBits ≤ place) (hplace' : place < 2 ^ (g.fractionBits + 1)) (hcode : code % 2 = 1) :
    code ≤ g.narrowed f num den ↔ (2 * place + 1) * 2 ^ shift * den < 2 * (num * 2 ^ g.scale) := by
  have heven := hmiddle.even
  have hpos := Nat.two_pow_pos g.fractionBits
  rw [h.le_narrowed_iff hmiddle hden, hcode, Reaches, middle_shift hplace' (Or.inr hplace)]
  omega

end Thresholds

/-! ## Between powers of two -/

section Inside

variable {shift place bits : Nat}

/-- Around a code whose value is no power of two, both halfway points are places of one binade of the wider format, if that has
all numbers of the narrower one as normal numbers. -/
theorem exists_halfway (h : Wider f g) (hroom : g.fractionBits ≤ g.scale - f.scale) (hlow : 2 ^ bits < place)
    (hhigh : place < 2 ^ (bits + 1)) (hplace : place < 2 ^ (f.fractionBits + 1))
    (hnormal : shift = 0 ∨ 2 ^ f.fractionBits ≤ place) (hfinite : shift * 2 ^ f.fractionBits + place < f.infinity) :
    ∃ wide fine, 2 ^ (wide + (fine + 1)) = 2 ^ (shift + (g.scale - f.scale)) ∧
      2 ^ g.fractionBits < (2 * place - 1) * 2 ^ fine ∧
      (2 * place + 1) * 2 ^ fine < 2 ^ (g.fractionBits + 1) ∧
      Halfway f g (shift * 2 ^ f.fractionBits + place) (wide * 2 ^ g.fractionBits + (2 * place - 1) * 2 ^ fine) ∧
      Halfway f g (shift * 2 ^ f.fractionBits + place + 1) (wide * 2 ^ g.fractionBits + (2 * place + 1) * 2 ^ fine) := by
  have hbits : bits < f.fractionBits + 1 := (Nat.pow_lt_pow_iff_right (by decide)).mp (Nat.lt_trans hlow hplace)
  have hfraction := h.fraction
  obtain ⟨fine, hfine⟩ : ∃ fine, g.fractionBits = bits + 1 + fine := ⟨g.fractionBits - (bits + 1), by omega⟩
  obtain ⟨wide, hwide⟩ : ∃ wide, wide + (fine + 1) = shift + (g.scale - f.scale) :=
    ⟨shift + (g.scale - f.scale) - (fine + 1), by omega⟩
  have hdouble : 2 ^ (bits + 1) = 2 * 2 ^ bits := by rw [Nat.pow_succ, Nat.mul_comm]
  have hbinade : 2 ^ g.fractionBits = 2 ^ (bits + 1) * 2 ^ fine := by rw [hfine, Nat.pow_add]
  have hbinade' : 2 ^ (g.fractionBits + 1) = 2 * 2 ^ (bits + 1) * 2 ^ fine := by rw [Nat.pow_succ, hbinade]; ring
  have hsteps := Nat.two_pow_pos fine
  have hbelow : 2 ^ g.fractionBits < (2 * place - 1) * 2 ^ fine := by
    rw [hbinade]
    exact Nat.mul_lt_mul_of_pos_right (by omega) hsteps
  have habove : (2 * place + 1) * 2 ^ fine < 2 ^ (g.fractionBits + 1) := by
    rw [hbinade']
    exact Nat.mul_lt_mul_of_pos_right (by omega) hsteps
  have hless : (2 * place - 1) * 2 ^ fine ≤ (2 * place + 1) * 2 ^ fine := Nat.mul_le_mul_right _ (by omega)
  have heven : ∀ n, n * 2 ^ fine % 2 = 0 := by
    intro n
    obtain ⟨half, rfl⟩ : ∃ half, fine = half + 1 := ⟨fine - 1, by omega⟩
    rw [Nat.pow_succ, ← Nat.mul_assoc]
    exact Nat.mul_mod_left _ 2
  have hunits : ∀ n, n * 2 ^ shift * 2 ^ (g.scale - f.scale) = 2 * (n * 2 ^ fine * 2 ^ wide) := by
    intro n
    rw [Nat.mul_assoc, ← Nat.pow_add, ← hwide, Nat.pow_add, Nat.pow_succ]
    ring
  refine ⟨wide, fine, by rw [hwide], hbelow, habove, ?_, ?_⟩
  · obtain ⟨before, rfl⟩ := Nat.exists_eq_add_of_lt (Nat.zero_lt_of_lt hlow)
    rw [Nat.zero_add] at *
    have hinside : shift = 0 ∨ 2 ^ f.fractionBits ≤ before := by
      rcases hnormal with hzero | hle
      · exact Or.inl hzero
      · have hpow : 2 ^ f.fractionBits ≤ 2 ^ bits := Nat.pow_le_pow_right (by decide) ?_
        · exact Or.inr (by omega)
        · have hlt := (Nat.pow_lt_pow_iff_right (by decide)).mp (Nat.lt_of_le_of_lt hle hhigh)
          omega
    refine h.halfway (by omega) (Nat.le_of_lt hfinite) (Nat.le_of_lt hbelow) (Nat.lt_of_le_of_lt hless habove) (heven _) ?_
    have hodd : 2 * (before + 1) - 1 = 2 * before + 1 := by omega
    rw [← Nat.add_assoc, middle_shift (by omega) hinside, hodd, hunits]
  · refine h.halfway (Nat.succ_pos _) hfinite (Nat.le_trans (Nat.le_of_lt hbelow) hless) habove (heven _) ?_
    rw [middle_shift hplace hnormal, hunits]

/-- What is narrowed to a code whose value is no power of two lies around it, as far below as above. -/
theorem exists_radius (h : Wider f g) (hroom : g.fractionBits ≤ g.scale - f.scale) (hlow : 2 ^ bits < place)
    (hhigh : place < 2 ^ (bits + 1)) (hplace : place < 2 ^ (f.fractionBits + 1))
    (hnormal : shift = 0 ∨ 2 ^ f.fractionBits ≤ place) (hfinite : shift * 2 ^ f.fractionBits + place < f.infinity) :
    ∃ radius : ℚ,
      (∀ num den, 0 < den → (g.narrowed f num den = shift * 2 ^ f.fractionBits + place ↔
        |(num / den : ℚ) - f.value (shift * 2 ^ f.fractionBits + place)| ≤ radius)) ∨
      ∀ num den, 0 < den → (g.narrowed f num den = shift * 2 ^ f.fractionBits + place ↔
        |(num / den : ℚ) - f.value (shift * 2 ^ f.fractionBits + place)| < radius) := by
  obtain ⟨wide, fine, hpower, hbelow, habove, hmiddle, hmiddle'⟩ := h.exists_halfway hroom hlow hhigh hplace hnormal hfinite
  have hless : (2 * place - 1) * 2 ^ fine ≤ (2 * place + 1) * 2 ^ fine := Nat.mul_le_mul_right _ (by omega)
  have hsteps := Nat.two_pow_pos fine
  have hfour : (2 * place - 1) * 2 ^ fine + 2 ^ fine = 2 * place * 2 ^ fine := by
    rw [← Nat.succ_mul]
    congr 1
    omega
  have hfour' : (2 * place + 1) * 2 ^ fine = 2 * place * 2 ^ fine + 2 ^ fine := by rw [Nat.succ_mul]
  -- The value, counted in half steps of the binade of the wider format.
  have hvalue : f.value (shift * 2 ^ f.fractionBits + place) =
      2 * (2 * place * 2 ^ fine : Nat) * ((2 : ℚ) ^ wide / 2 ^ (g.scale + 1)) := by
    have hscale : g.scale = g.scale - f.scale + f.scale := by
      have := h.scale
      omega
    have hpower' : (2 : ℚ) ^ wide * (2 ^ fine * 2) = 2 ^ shift * 2 ^ (g.scale - f.scale) := by
      rw [← pow_succ, ← pow_add, ← pow_add]
      exact_mod_cast hpower
    rw [value, units_shift (Nat.le_of_lt hplace) hnormal, mul_div_assoc', div_eq_div_iff (by positivity) (by positivity)]
    conv_lhs => rw [hscale, pow_succ, pow_add]
    push_cast
    linear_combination (-2 * place * 2 ^ f.scale : ℚ) * hpower'
  have hbetween : ∀ num den, g.narrowed f num den = shift * 2 ^ f.fractionBits + place ↔
      shift * 2 ^ f.fractionBits + place ≤ g.narrowed f num den ∧
        ¬ shift * 2 ^ f.fractionBits + place + 1 ≤ g.narrowed f num den := by
    intro num den
    omega
  generalize (2 * place - 1) * 2 ^ fine = below at *
  generalize (2 * place + 1) * 2 ^ fine = above at *
  generalize 2 * place * 2 ^ fine = center at *
  generalize 2 ^ fine = steps at *
  rw [hvalue]
  generalize hhalf : (2 : ℚ) ^ wide / 2 ^ (g.scale + 1) = half
  rcases Nat.mod_two_eq_zero_or_one (shift * 2 ^ f.fractionBits + place) with heven | hodd
  · refine ⟨(2 * steps + 1) * half, Or.inl fun num den hden => ?_⟩
    rw [hbetween, h.le_narrowed_iff_of_even hmiddle hden hbelow (by omega) heven,
      h.le_narrowed_iff_of_odd hmiddle' hden (by omega) habove (by omega), Nat.not_lt, g.halves_le_iff hden, g.le_halves_iff hden,
      hhalf]
    have hleast : 2 * below - 1 + (2 * steps + 1) = 2 * center := by omega
    have hleast' : ((2 * below - 1 : Nat) : ℚ) + (2 * steps + 1) = 2 * center := by exact_mod_cast hleast
    rw [eq_sub_of_add_eq hleast', hfour', abs_le]
    push_cast
    constructor <;> rintro ⟨hleft, hright⟩ <;> constructor <;> linarith
  · refine ⟨(2 * steps - 1) * half, Or.inr fun num den hden => ?_⟩
    rw [hbetween, h.le_narrowed_iff_of_odd hmiddle hden (Nat.le_of_lt hbelow) (by omega) hodd,
      h.le_narrowed_iff_of_even hmiddle' hden (by omega) habove (by omega), Nat.not_le,
      lt_iff_lt_of_le_iff_le (g.le_halves_iff hden), lt_iff_lt_of_le_iff_le (g.halves_le_iff hden), hhalf]
    have hgreatest : 2 * above - 1 + 1 = 2 * above := by omega
    have hgreatest' : ((2 * above - 1 : Nat) : ℚ) + 1 = 2 * above := by exact_mod_cast hgreatest
    rw [eq_sub_of_add_eq hgreatest', ← hfour, hfour', ← hfour, abs_lt]
    push_cast
    constructor <;> rintro ⟨hleft, hright⟩ <;> constructor <;> linarith

/-- What is as near to a code whose value is no power of two as something that is narrowed to it, is narrowed to it. -/
theorem narrowed_eq_of_nearer (h : Wider f g) (hroom : g.fractionBits ≤ g.scale - f.scale) (hlow : 2 ^ bits < place)
    (hhigh : place < 2 ^ (bits + 1)) (hplace : place < 2 ^ (f.fractionBits + 1))
    (hnormal : shift = 0 ∨ 2 ^ f.fractionBits ≤ place) (hfinite : shift * 2 ^ f.fractionBits + place < f.infinity)
    {num den num' den' : Nat} (hden : 0 < den) (hden' : 0 < den')
    (hread : g.narrowed f num den = shift * 2 ^ f.fractionBits + place)
    (hnear : |(num' / den' : ℚ) - f.value (shift * 2 ^ f.fractionBits + place)| ≤
      |(num / den : ℚ) - f.value (shift * 2 ^ f.fractionBits + place)|) :
    g.narrowed f num' den' = shift * 2 ^ f.fractionBits + place := by
  obtain ⟨radius, hradius | hradius⟩ := h.exists_radius hroom hlow hhigh hplace hnormal hfinite
  · exact (hradius _ _ hden').mpr (le_trans hnear ((hradius _ _ hden).mp hread))
  · exact (hradius _ _ hden').mpr (lt_of_le_of_lt hnear ((hradius _ _ hden).mp hread))

end Inside

end Wider

/-! ## The 32-bit format -/

/-- A power of two in two parts. -/
theorem two_pow_eq_mul (whole front back : Nat) (h : whole = front + back) : 2 ^ whole = 2 ^ front * 2 ^ back := by
  rw [h, Nat.pow_add]

/-- A quotient is narrowed to infinity from one half of a step of the 64-bit format before the point halfway from the largest
32-bit number to infinity. -/
theorem infinity_le_narrowed_iff {num den : Nat} (hden : 0 < den) :
    single.infinity ≤ double.narrowed single num den ↔ (2 ^ 128 - 2 ^ 103 - 2 ^ 74) * den ≤ num := by
  have hmiddle : Wider.Halfway single double single.infinity (1149 * 2 ^ double.fractionBits + (2 ^ 25 - 1) * 2 ^ 28) := by
    refine single_wider_double.halfway (by decide) (Nat.le_refl _) (by decide) (by decide) (by decide) ?_
    have hlast : single.middle single.infinity = (2 ^ 25 - 1) * 2 ^ 253 :=
      (middle_shift (by decide) (Or.inr (by decide)) : single.middle (253 * 2 ^ 23 + (2 ^ 24 - 1) + 1) = _)
    have hgap : double.scale - single.scale = 925 := rfl
    have hpower := two_pow_eq_mul 1149 224 925 rfl
    rw [hlast, hgap, hpower]
    generalize 2 ^ 925 = unit
    ring
  have hscale : double.scale = 1074 := rfl
  have hpower := two_pow_eq_mul 1149 75 1074 rfl
  rw [single_wider_double.le_narrowed_iff_of_even hmiddle hden (by decide) (by decide) (by decide), hscale, hpower]
  have hunit := Nat.two_pow_pos 1074
  generalize 2 ^ 1074 = unit at hunit ⊢
  have hleft : (2 * ((2 ^ 25 - 1) * 2 ^ 28) - 1) * (2 ^ 75 * unit) * den =
      (2 ^ 128 - 2 ^ 103 - 2 ^ 74) * den * (2 * unit) := by ring
  have hright : 2 * (num * unit) = num * (2 * unit) := Nat.mul_left_comm _ _ _
  rw [hleft, hright, Nat.mul_le_mul_right_iff (by omega)]

/-- A quotient is not narrowed to zero past one half of a step of the 64-bit format behind the half of the least 32-bit
number. -/
theorem one_le_narrowed_iff {num den : Nat} (hden : 0 < den) :
    1 ≤ double.narrowed single num den ↔ (2 ^ 53 + 1) * den < num * 2 ^ 203 := by
  have hmiddle : Wider.Halfway single double 1 (872 * 2 ^ double.fractionBits + 2 ^ 52) := by
    refine single_wider_double.halfway (by decide) (by decide) (by decide) (by decide) (by decide) ?_
    have hfirst : single.middle 1 = 1 := rfl
    have hgap : double.scale - single.scale = 925 := rfl
    have hpower := two_pow_eq_mul 925 53 872 rfl
    rw [hfirst, hgap, hpower]
    generalize 2 ^ 872 = unit
    ring
  have hscale : double.scale = 1074 := rfl
  have hpower := two_pow_eq_mul 1074 202 872 rfl
  rw [single_wider_double.le_narrowed_iff_of_odd hmiddle hden (by decide) (by decide) (by decide), hscale, hpower]
  have hunit := Nat.two_pow_pos 872
  generalize 2 ^ 872 = unit at hunit ⊢
  have hleft : (2 * 2 ^ 52 + 1) * unit * den = (2 ^ 53 + 1) * den * unit := by ring
  have hright : 2 * (num * (2 ^ 202 * unit)) = num * 2 ^ 203 * unit := by ring
  rw [hleft, hright, Nat.mul_lt_mul_right hunit]

end Format

end TinyScript
