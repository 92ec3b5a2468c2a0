import Mathlib.Tactic.Ring
import TinyScript.Number.Shortest
import TinyScript.Proofs.Number.Nearest

/-!
# The numbers of a format among those of a wider one

Where a format is wider than another (`Format.Wider`), every number of the other is one of it: widening is exact
(`Format.Wider.units_widened`), and narrowing takes it back (`Binary.convert_convert`). A value of the wider format within an
eighth of a step of a number of the other is narrowed to that number (`Format.Wider.narrowed_eq`).

The 64-bit format is wider than the 32-bit format.
-/

namespace TinyScript

namespace Format

variable {f g : Format}

/-- The code in `g` nearest to a magnitude of `f`. -/
def recode (f g : Format) (code : Nat) : Nat := g.round (f.units code) (2 ^ f.scale)

/-- A magnitude is moved to a code of the other format. -/
theorem recode_le_infinity (f g : Format) (code : Nat) : f.recode g code ≤ g.infinity :=
  g.round_le_infinity _ _

/-- Zero is moved to zero. -/
theorem recode_zero (f g : Format) : f.recode g 0 = 0 := by
  rw [recode, units_zero, g.round_zero_left]

/-- The format `g` has all values of `f`, and three more bits for the values between them. -/
structure Wider (f g : Format) : Prop where
  fraction_pos : 0 < f.fractionBits
  exponent_pos : 0 < f.exponentBits ∧ 0 < g.exponentBits
  fraction : f.fractionBits + 4 ≤ g.fractionBits
  scale : f.scale + 3 ≤ g.scale
  range : f.fractionBits + (2 ^ f.exponentBits - 2) + (g.scale - f.scale) + 1 ≤ g.fractionBits + (2 ^ g.exponentBits - 2)

/-- The 64-bit format is wider than the 32-bit format. -/
theorem single_wider_double : Wider single double where
  fraction_pos := by decide
  exponent_pos := by decide
  fraction := by decide
  scale := by decide
  range := by decide

/-- The value of infinity's code. -/
theorem units_infinity (h : 0 < f.exponentBits) :
    f.units f.infinity = 2 ^ (f.fractionBits + (2 ^ f.exponentBits - 2)) := by
  have hpow : 2 ≤ 2 ^ f.exponentBits := by
    calc 2 = 2 ^ 1 := rfl
      _ ≤ 2 ^ f.exponentBits := Nat.pow_le_pow_right (by decide) h
  have hcode : f.infinity = (2 ^ f.exponentBits - 2) * 2 ^ f.fractionBits + 2 ^ f.fractionBits := by
    unfold infinity
    rw [← Nat.succ_mul]
    congr 1
    omega
  rw [hcode, units_shift (Nat.pow_le_pow_right (by decide) (Nat.le_succ _)) (Or.inr (Nat.le_refl _)), Nat.pow_add]

namespace Wider

theorem fraction_pos' (h : Wider f g) : 0 < g.fractionBits :=
  Nat.lt_of_lt_of_le h.fraction_pos (Nat.le_trans (Nat.le_add_right _ _) h.fraction)

/-- A step of the narrower format in steps of the wider one. -/
theorem two_pow_scale (h : Wider f g) : 2 ^ g.scale = 2 ^ (g.scale - f.scale) * 2 ^ f.scale := by
  rw [← Nat.pow_add, Nat.sub_add_cancel (Nat.le_trans (Nat.le_add_right _ _) h.scale)]

/-- A few bits times a power of two are a finite magnitude of the wider format, unless they are far out of reach of the
narrower one. -/
theorem exists_units_eq (h : Wider f g) {place shift : Nat} (hplace : place < 2 ^ (g.fractionBits + 1))
    (hvalue : place * 2 ^ shift < 2 * f.units f.infinity * 2 ^ (g.scale - f.scale)) :
    ∃ code, code < g.infinity ∧ g.units code = place * 2 ^ shift := by
  obtain ⟨code, hcode⟩ := g.exists_units_eq shift hplace
  refine ⟨code, g.units_strictMono.lt_iff_lt.mp ?_, hcode⟩
  rw [hcode, units_infinity h.exponent_pos.2]
  calc place * 2 ^ shift < 2 * f.units f.infinity * 2 ^ (g.scale - f.scale) := hvalue
    _ = 2 ^ (f.fractionBits + (2 ^ f.exponentBits - 2) + (g.scale - f.scale) + 1) := by
      rw [units_infinity h.exponent_pos.1, Nat.pow_succ, Nat.pow_add _ (f.fractionBits + (2 ^ f.exponentBits - 2))]
      ring
    _ ≤ 2 ^ (g.fractionBits + (2 ^ g.exponentBits - 2)) := Nat.pow_le_pow_right (by decide) h.range

/-- Widening is exact. -/
theorem units_widened (h : Wider f g) {code : Nat} (hcode : code < f.infinity) :
    f.recode g code < g.infinity ∧ g.units (f.recode g code) = f.units code * 2 ^ (g.scale - f.scale) := by
  obtain ⟨shift, place, heq, hplace, hlow⟩ := f.exists_shift code
  have hunits : f.units code = place * 2 ^ shift := by rw [heq, units_shift (Nat.le_of_lt hplace) hlow]
  have hshift : place * 2 ^ (shift + (g.scale - f.scale)) = f.units code * 2 ^ (g.scale - f.scale) := by
    rw [hunits, Nat.pow_add, Nat.mul_assoc]
  have hsmall : place < 2 ^ (g.fractionBits + 1) := by
    have := h.fraction
    exact Nat.lt_of_lt_of_le hplace (Nat.pow_le_pow_right (by decide) (by omega))
  have hvalue : place * 2 ^ (shift + (g.scale - f.scale)) < 2 * f.units f.infinity * 2 ^ (g.scale - f.scale) := by
    rw [hshift]
    apply Nat.mul_lt_mul_of_pos_right _ (Nat.two_pow_pos _)
    have := f.units_strictMono hcode
    omega
  obtain ⟨wide, hfinite, hwide⟩ := h.exists_units_eq hsmall hvalue
  rw [hshift] at hwide
  have hround : f.recode g code = wide := by
    rw [← round_units h.fraction_pos' (Nat.le_of_lt hfinite)]
    apply round_congr h.fraction_pos' (Nat.two_pow_pos _) (Nat.two_pow_pos _)
    rw [hwide, h.two_pow_scale, Nat.mul_assoc]
  rw [hround]
  exact ⟨hfinite, hwide⟩

/-- Narrowing takes back widening. -/
theorem narrowed_widened (h : Wider f g) {code : Nat} (hcode : code < f.infinity) :
    g.recode f (f.recode g code) = code := by
  have hround : f.round (f.units code) (2 ^ f.scale) = code := round_units h.fraction_pos (Nat.le_of_lt hcode)
  unfold recode at *
  rw [← hround]
  apply round_congr h.fraction_pos (Nat.two_pow_pos _) (Nat.two_pow_pos _)
  have hunits := (h.units_widened hcode).2
  unfold recode at hunits
  rw [hround, hunits, h.two_pow_scale, Nat.mul_assoc]

end Wider

/-! ## Near a number of the narrower format -/

/-- The point halfway to the code before is at least a quarter of a step below a value. -/
theorem two_mul_middle_le {shift place : Nat} (hpos : 0 < place) (hplace : place ≤ 2 ^ (f.fractionBits + 1))
    (hlow : shift = 0 ∨ 2 ^ f.fractionBits ≤ place) :
    2 * f.middle (shift * 2 ^ f.fractionBits + place) + 2 ^ shift ≤ 4 * (place * 2 ^ shift) := by
  by_cases hinside : shift = 0 ∨ 2 ^ f.fractionBits < place
  · obtain ⟨before, rfl⟩ := Nat.exists_eq_add_of_lt hpos
    rw [Nat.zero_add] at hplace hinside ⊢
    rw [← Nat.add_assoc, middle_shift (by omega) (by omega)]
    have hexpand : 4 * ((before + 1) * 2 ^ shift) = 2 * ((2 * before + 1) * 2 ^ shift) + 2 * 2 ^ shift := by ring
    omega
  · unfold middle
    rw [units_shift hplace hlow]
    obtain ⟨shift, rfl⟩ : ∃ s, shift = s + 1 := by
      refine ⟨shift - 1, ?_⟩
      have : shift ≠ 0 := fun h => hinside (Or.inl h)
      omega
    obtain rfl : place = 2 ^ f.fractionBits := by
      have := hlow.resolve_left (Nat.succ_ne_zero shift)
      have : ¬ 2 ^ f.fractionBits < place := fun h => hinside (Or.inr h)
      omega
    -- The code before is the last one of the binade below, where a step is half as wide.
    have hbinade : 1 ≤ 2 ^ f.fractionBits := Nat.one_le_two_pow
    have hdouble : 2 ^ (f.fractionBits + 1) = 2 * 2 ^ f.fractionBits := by rw [Nat.pow_succ, Nat.mul_comm]
    have hcode : (shift + 1) * 2 ^ f.fractionBits + 2 ^ f.fractionBits - 1 =
        shift * 2 ^ f.fractionBits + (2 ^ (f.fractionBits + 1) - 1) := by
      rw [hdouble, Nat.add_mul]
      omega
    rw [hcode, units_shift (Nat.sub_le _ _) (Or.inr (by omega)), hdouble, Nat.pow_succ]
    obtain ⟨most, hmost⟩ := Nat.exists_eq_add_of_le hbinade
    rw [hmost]
    have hlast : 2 * (1 + most) - 1 = 2 * most + 1 := by omega
    rw [hlast]
    apply Nat.le_of_eq
    ring

namespace Wider

/-- A value of the wider format within an eighth of a step of a number of the narrower one is narrowed to that number. -/
theorem narrowed_eq (h : Wider f g) {shift place wide : Nat} (hpos : 0 < place) (hplace : place < 2 ^ (f.fractionBits + 1))
    (hlow : shift = 0 ∨ 2 ^ f.fractionBits ≤ place) (hfinite : shift * 2 ^ f.fractionBits + place < f.infinity)
    (habove : 8 * place * 2 ^ (shift + (g.scale - f.scale - 3)) ≤ g.units wide + 2 ^ (shift + (g.scale - f.scale - 3)))
    (hbelow : g.units wide ≤ (8 * place + 1) * 2 ^ (shift + (g.scale - f.scale - 3))) :
    g.recode f wide = shift * 2 ^ f.fractionBits + place := by
  have hscale := h.scale
  have hstep : 2 ^ g.scale = 8 * 2 ^ (g.scale - f.scale - 3) * 2 ^ f.scale := by
    have hsum : g.scale = 3 + (g.scale - f.scale - 3) + f.scale := by omega
    conv_lhs => rw [hsum, Nat.pow_add, Nat.pow_add]
  rw [Nat.pow_add] at habove hbelow
  unfold recode
  have hpositive : 0 < shift * 2 ^ f.fractionBits + place := by omega
  have hunit : 0 < 2 ^ (g.scale - f.scale - 3) := Nat.two_pow_pos _
  generalize 2 ^ (g.scale - f.scale - 3) = eighth at *
  have hbinade : 0 < 2 ^ shift * eighth := Nat.mul_pos (Nat.two_pow_pos _) hunit
  apply Nat.le_antisymm
  · apply Nat.le_of_not_lt
    intro hlt
    have hbound : shift * 2 ^ f.fractionBits + place + 1 ≤ f.infinity := hfinite
    have hreached : shift * 2 ^ f.fractionBits + place + 1 ≤ f.round (g.units wide) (2 ^ g.scale) := hlt
    rw [le_round_iff h.fraction_pos (Nat.two_pow_pos _) (Nat.add_one_pos _) hbound] at hreached
    have hle : f.middle (shift * 2 ^ f.fractionBits + place + 1) * 2 ^ g.scale ≤ 2 * (g.units wide * 2 ^ f.scale) := by
      rcases hreached with h | ⟨h, _⟩
      · exact Nat.le_of_lt h
      · exact Nat.le_of_eq h
    rw [middle_shift hplace hlow, hstep] at hle
    have hcancel : 8 * (2 * place + 1) * (2 ^ shift * eighth) ≤ 2 * g.units wide := by
      apply Nat.le_of_mul_le_mul_right _ (Nat.two_pow_pos f.scale)
      calc 8 * (2 * place + 1) * (2 ^ shift * eighth) * 2 ^ f.scale
          = (2 * place + 1) * 2 ^ shift * (8 * eighth * 2 ^ f.scale) := by ring
        _ ≤ 2 * (g.units wide * 2 ^ f.scale) := hle
        _ = 2 * g.units wide * 2 ^ f.scale := by ring
    have hexpand : 8 * (2 * place + 1) * (2 ^ shift * eighth) =
        2 * ((8 * place + 1) * (2 ^ shift * eighth)) + 6 * (2 ^ shift * eighth) := by ring
    omega
  · rw [le_round_iff h.fraction_pos (Nat.two_pow_pos _) hpositive (Nat.le_of_lt hfinite)]
    left
    have hmiddle := two_mul_middle_le hpos (Nat.le_of_lt hplace) hlow
    generalize f.middle (shift * 2 ^ f.fractionBits + place) = middle at hmiddle ⊢
    rw [hstep]
    have hless : middle * (8 * eighth) < 2 * g.units wide := by
      have hproduct := Nat.mul_le_mul_right (4 * eighth) hmiddle
      have hleft : (2 * middle + 2 ^ shift) * (4 * eighth) = middle * (8 * eighth) + 4 * (2 ^ shift * eighth) := by ring
      have hright : 4 * (place * 2 ^ shift) * (4 * eighth) = 2 * (8 * place * (2 ^ shift * eighth)) := by ring
      omega
    have hproduct := Nat.mul_lt_mul_of_pos_right hless (Nat.two_pow_pos f.scale)
    calc middle * (8 * eighth * 2 ^ f.scale) = middle * (8 * eighth) * 2 ^ f.scale := by ring
      _ < 2 * g.units wide * 2 ^ f.scale := hproduct
      _ = 2 * (g.units wide * 2 ^ f.scale) := by ring

/-- A quotient within an eighth of a step of a number of the narrower format is rounded to that number by way of the wider
format. -/
theorem narrowed_round_eq (h : Wider f g) {shift place num den : Nat} (hden : 0 < den) (hpos : 0 < place)
    (hplace : place < 2 ^ (f.fractionBits + 1)) (hlow : shift = 0 ∨ 2 ^ f.fractionBits ≤ place)
    (hfinite : shift * 2 ^ f.fractionBits + place < f.infinity)
    (habove : (8 * place - 1) * 2 ^ (shift + (g.scale - f.scale - 3)) * den ≤ num * 2 ^ g.scale)
    (hbelow : num * 2 ^ g.scale ≤ (8 * place + 1) * 2 ^ (shift + (g.scale - f.scale - 3)) * den) :
    g.recode f (g.round num den) = shift * 2 ^ f.fractionBits + place := by
  have hfraction := h.fraction
  have hscale := h.scale
  have hsmall : 8 * place + 1 < 2 ^ (g.fractionBits + 1) := by
    have hpow : 8 * 2 ^ (f.fractionBits + 1) ≤ 2 ^ (g.fractionBits + 1) := by
      calc 8 * 2 ^ (f.fractionBits + 1) = 2 ^ (f.fractionBits + 1 + 3) := by rw [Nat.pow_add _ _ 3]; ring
        _ ≤ 2 ^ (g.fractionBits + 1) := Nat.pow_le_pow_right (by decide) (by omega)
    omega
  have hvalue : (8 * place + 1) * 2 ^ (shift + (g.scale - f.scale - 3)) < 2 * f.units f.infinity * 2 ^ (g.scale - f.scale) := by
    have hunits := f.units_strictMono hfinite
    rw [units_shift (Nat.le_of_lt hplace) hlow] at hunits
    have hgap : g.scale - f.scale = 3 + (g.scale - f.scale - 3) := by omega
    calc (8 * place + 1) * 2 ^ (shift + (g.scale - f.scale - 3))
        ≤ 2 * place * 2 ^ shift * 2 ^ (g.scale - f.scale) := by
          conv_rhs => rw [hgap, Nat.pow_add]
          rw [Nat.pow_add]
          calc (8 * place + 1) * (2 ^ shift * 2 ^ (g.scale - f.scale - 3))
              ≤ (16 * place) * (2 ^ shift * 2 ^ (g.scale - f.scale - 3)) := Nat.mul_le_mul_right _ (by omega)
            _ = 2 * place * 2 ^ shift * (2 ^ 3 * 2 ^ (g.scale - f.scale - 3)) := by ring
      _ < 2 * f.units f.infinity * 2 ^ (g.scale - f.scale) := by
          apply Nat.mul_lt_mul_of_pos_right _ (Nat.two_pow_pos _)
          rw [Nat.mul_assoc]
          exact Nat.mul_lt_mul_of_pos_left hunits (by decide)
  have hless : (8 * place - 1) * 2 ^ (shift + (g.scale - f.scale - 3)) ≤
      (8 * place + 1) * 2 ^ (shift + (g.scale - f.scale - 3)) := Nat.mul_le_mul_right _ (by omega)
  have hsmall' : 8 * place - 1 < 2 ^ (g.fractionBits + 1) := by omega
  obtain ⟨high, hhigh, hhighUnits⟩ := h.exists_units_eq hsmall hvalue
  obtain ⟨low, hlowFinite, hlowUnits⟩ := h.exists_units_eq hsmall' (Nat.lt_of_le_of_lt hless hvalue)
  have hlowRound : low ≤ g.round num den :=
    le_round_of_units_le h.fraction_pos' hden (Nat.le_of_lt hlowFinite) (by rwa [hlowUnits])
  have hroundHigh : g.round num den ≤ high :=
    round_le_of_le_units h.fraction_pos' hden (Nat.le_of_lt hhigh) (by rwa [hhighUnits])
  apply h.narrowed_eq hpos hplace hlow hfinite
  · have hle := g.units_strictMono.monotone hlowRound
    rw [hlowUnits] at hle
    have hsplit : 8 * place * 2 ^ (shift + (g.scale - f.scale - 3)) =
        (8 * place - 1) * 2 ^ (shift + (g.scale - f.scale - 3)) + 2 ^ (shift + (g.scale - f.scale - 3)) := by
      rw [← Nat.succ_mul]
      congr 1
      omega
    omega
  · rw [← hhighUnits]
    exact g.units_strictMono.monotone hroundHigh

end Wider

end Format

namespace Binary

variable {f g : Format}

/-- A finite number is moved to another format by its code. -/
theorem convert_signed {negative : Bool} {code : Nat} (hcode : code ≤ f.infinity) (hfinite : code < f.infinity) :
    (signed negative code hcode : Binary f).convert g =
      signed negative (f.recode g code) (f.recode_le_infinity g code) :=
  if_neg (Nat.ne_of_lt hfinite)

/-- A number that is moved to a wider format and back is the same. -/
theorem convert_convert (h : f.Wider g) (x : Binary f) : (x.convert g).convert f = x := by
  cases x with
  | nan => rfl
  | signed negative code hcode =>
    rcases Nat.eq_or_lt_of_le hcode with rfl | hlt
    · simp [convert, infinity]
    · rw [convert_signed hcode hlt, convert_signed _ (h.units_widened hlt).1]
      simp only [h.narrowed_widened hlt]

end Binary

end TinyScript
