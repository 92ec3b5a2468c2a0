import Mathlib.Order.Monotone.Basic
import TinyScript.Number.Decimal

/-!
# Rounding to the nearest code

`Format.round` in terms of the values of codes. A quotient reaches a code when it is past the point halfway to the code
before, or at that point and the code is even (`Format.Reaches`). The codes that a quotient reaches are those up to the one it
is rounded to (`Format.le_round_iff`), whatever the format.

It follows that rounding depends on the value of a quotient only and keeps its order (`Format.round_le_round`), and that a
value of the format is rounded to its code (`Format.round_units`).
-/

namespace TinyScript

/-! ## Whole numbers -/

/-- Twice a number and one more, times another. -/
theorem two_mul_succ_mul (k den : Nat) : (2 * k + 1) * den = 2 * (k * den) + den := by
  rw [Nat.add_mul, Nat.one_mul, Nat.mul_assoc]

/-- A quotient is rounded past a number when it is past the point halfway to the next one, or at it and the number is odd. -/
theorem lt_halfEven_iff {num den : Nat} (hden : 0 < den) (k : Nat) :
    k < halfEven num den ↔ (2 * k + 1) * den < 2 * num ∨ ((2 * k + 1) * den = 2 * num ∧ k % 2 = 1) := by
  have hnum := Nat.div_add_mod num den
  have hrest := Nat.mod_lt num hden
  have hexpand := two_mul_succ_mul k den
  rw [Nat.mul_comm k den] at hexpand
  unfold halfEven
  generalize num / den = low at hnum
  generalize num % den = rest at hnum hrest
  rw [hexpand]
  dsimp only
  rcases Nat.lt_trichotomy k low with hlt | rfl | hgt
  · have hstep : den * k + den ≤ den * low := Nat.mul_le_mul_left den hlt
    constructor
    · intro _
      exact Or.inl (by omega)
    · intro _
      split <;> omega
  · split <;> omega
  · have hstep : den * low + den ≤ den * k := Nat.mul_le_mul_left den hgt
    constructor
    · intro h
      split at h <;> omega
    · omega

/-- A quotient that is at most a number is rounded to at most it. -/
theorem halfEven_le {num den k : Nat} (hden : 0 < den) (h : num ≤ k * den) : halfEven num den ≤ k := by
  apply Nat.le_of_not_lt
  intro hlt
  have hexpand := two_mul_succ_mul k den
  rcases (lt_halfEven_iff hden k).mp hlt with h' | ⟨h', _⟩ <;> omega

/-- A quotient that is at least a number is rounded to at least it. -/
theorem le_halfEven {num den k : Nat} (hden : 0 < den) (h : k * den ≤ num) : k ≤ halfEven num den := by
  cases k with
  | zero => exact Nat.zero_le _
  | succ k =>
    have hexpand := two_mul_succ_mul k den
    have hsucc : (k + 1) * den = k * den + den := by rw [Nat.add_mul, Nat.one_mul]
    exact (lt_halfEven_iff hden k).mpr (Or.inl (by omega))

namespace Format

variable {f : Format}

/-! ## Values of codes -/

/-- The value of a code by its binade and its place in it. The place may be the first of the next binade. -/
theorem units_shift {shift place : Nat} (hplace : place ≤ 2 ^ (f.fractionBits + 1))
    (hlow : shift = 0 ∨ 2 ^ f.fractionBits ≤ place) :
    f.units (shift * 2 ^ f.fractionBits + place) = place * 2 ^ shift := by
  have hpow : 2 ^ (f.fractionBits + 1) = 2 * 2 ^ f.fractionBits := by rw [Nat.pow_succ, Nat.mul_comm]
  have hpos : 0 < 2 ^ f.fractionBits := Nat.two_pow_pos _
  unfold units
  generalize 2 ^ f.fractionBits = binade at *
  by_cases hsmall : place < binade
  · obtain rfl : shift = 0 := hlow.resolve_right (by omega)
    rw [if_pos (by omega)]
    simp
  · obtain ⟨extra, rfl⟩ := Nat.exists_eq_add_of_le (Nat.le_of_not_lt hsmall)
    have hcode : shift * binade + (binade + extra) = extra + (shift + 1) * binade := by rw [Nat.add_mul]; omega
    rw [hcode, if_neg (by rw [Nat.add_mul]; omega), Nat.add_mul_div_right _ _ hpos, Nat.add_mul_mod_self_right]
    by_cases hfull : extra < binade
    · rw [Nat.div_eq_of_lt hfull, Nat.mod_eq_of_lt hfull, Nat.zero_add, Nat.add_sub_cancel]
    · obtain rfl : extra = binade := by omega
      rw [Nat.div_self hpos, Nat.mod_self, Nat.add_zero, Nat.add_comm 1, Nat.add_sub_cancel, Nat.pow_succ, ← Nat.mul_two]
      rw [Nat.mul_assoc, Nat.mul_comm 2]

/-- Every code has a binade and a place in it. -/
theorem exists_shift (f : Format) (code : Nat) :
    ∃ shift place, code = shift * 2 ^ f.fractionBits + place ∧ place < 2 ^ (f.fractionBits + 1) ∧
      (shift = 0 ∨ 2 ^ f.fractionBits ≤ place) := by
  have hpow : 2 ^ (f.fractionBits + 1) = 2 * 2 ^ f.fractionBits := by rw [Nat.pow_succ, Nat.mul_comm]
  have hpos : 0 < 2 ^ f.fractionBits := Nat.two_pow_pos _
  rw [hpow]
  generalize 2 ^ f.fractionBits = binade at *
  by_cases hsmall : code < binade
  · exact ⟨0, code, by omega, by omega, Or.inl rfl⟩
  · have hone : 1 ≤ code / binade := (Nat.one_le_div_iff hpos).mpr (Nat.le_of_not_lt hsmall)
    have hdiv := Nat.div_add_mod code binade
    have hmod := Nat.mod_lt code hpos
    obtain ⟨shift, hshift⟩ := Nat.exists_eq_add_of_le hone
    rw [hshift, Nat.mul_add, Nat.mul_one, Nat.mul_comm binade shift] at hdiv
    exact ⟨shift, binade + code % binade, by omega, by omega, Or.inr (by omega)⟩

/-- Codes are in the order of their values. -/
theorem units_strictMono (f : Format) : StrictMono f.units := by
  apply strictMono_nat_of_lt_succ
  intro code
  obtain ⟨shift, place, rfl, hplace, hlow⟩ := f.exists_shift code
  rw [units_shift (Nat.le_of_lt hplace) hlow, Nat.add_assoc, units_shift hplace (by omega)]
  exact Nat.mul_lt_mul_of_pos_right (Nat.lt_succ_self place) (Nat.two_pow_pos shift)

/-- A place in a binade times a power of two is the value of a code. -/
theorem exists_units_eq (f : Format) {place : Nat} (shift : Nat) (hplace : place < 2 ^ (f.fractionBits + 1)) :
    ∃ code, f.units code = place * 2 ^ shift := by
  induction shift generalizing place with
  | zero => exact ⟨place, by simpa using units_shift (f := f) (Nat.le_of_lt hplace) (Or.inl (Eq.refl 0))⟩
  | succ shift ih =>
    by_cases hlow : 2 ^ f.fractionBits ≤ place
    · exact ⟨_, units_shift (Nat.le_of_lt hplace) (Or.inr hlow)⟩
    · have hdouble : 2 * place < 2 ^ (f.fractionBits + 1) := by rw [Nat.pow_succ]; omega
      obtain ⟨code, hcode⟩ := ih hdouble
      exact ⟨code, by rw [hcode, Nat.pow_succ, Nat.mul_comm 2, Nat.mul_assoc, Nat.mul_comm 2]⟩

/-! ## The codes that a quotient reaches -/

/-- Twice the point halfway between the value of a code and that of the code before, in smallest steps. -/
def middle (f : Format) (code : Nat) : Nat := f.units (code - 1) + f.units code

/-- The quotient is past the point halfway to the code before, or at it and the code is even. -/
def Reaches (f : Format) (num den code : Nat) : Prop :=
  f.middle code * den < 2 * (num * 2 ^ f.scale) ∨ (f.middle code * den = 2 * (num * 2 ^ f.scale) ∧ code % 2 = 0)

instance (f : Format) (num den code : Nat) : Decidable (f.Reaches num den code) :=
  inferInstanceAs (Decidable (_ ∨ _ ∧ _))

/-- The points halfway between codes are in order. -/
theorem middle_lt_middle {a b : Nat} (h : a < b) : f.middle a < f.middle b := by
  have hbefore : f.units (a - 1) ≤ f.units (b - 1) := f.units_strictMono.monotone (by omega)
  exact Nat.add_lt_add_of_le_of_lt hbefore (f.units_strictMono h)

/-- The point halfway to the next code is past the value of a code. -/
theorem two_mul_units_lt_middle (f : Format) (code : Nat) : 2 * f.units code < f.middle (code + 1) := by
  have hstep := f.units_strictMono (Nat.lt_add_one code)
  unfold middle
  rw [Nat.add_sub_cancel]
  omega

/-- The point halfway to the code before is short of the value of a code. -/
theorem middle_lt_two_mul_units (f : Format) {code : Nat} (h : 0 < code) : f.middle code < 2 * f.units code := by
  have hstep := f.units_strictMono (Nat.sub_lt h Nat.one_pos)
  unfold middle
  omega

/-- The point halfway to the next code lies halfway between two places of a binade. -/
theorem middle_shift {shift place : Nat} (hplace : place < 2 ^ (f.fractionBits + 1))
    (hlow : shift = 0 ∨ 2 ^ f.fractionBits ≤ place) :
    f.middle (shift * 2 ^ f.fractionBits + place + 1) = (2 * place + 1) * 2 ^ shift := by
  have hnext : place + 1 ≤ 2 ^ (f.fractionBits + 1) := hplace
  unfold middle
  rw [Nat.add_sub_cancel, Nat.add_assoc, units_shift (Nat.le_of_lt hplace) hlow, units_shift hnext (by omega), ← Nat.add_mul]
  congr 1
  omega

/-- The code of a place is even when the place is. -/
theorem code_mod_two (hf : 0 < f.fractionBits) (shift place : Nat) :
    (shift * 2 ^ f.fractionBits + place) % 2 = place % 2 := by
  have heven : 2 ^ f.fractionBits % 2 = 0 := by
    obtain ⟨bits, hbits⟩ := Nat.exists_eq_add_of_lt hf
    rw [hbits, Nat.zero_add, Nat.pow_succ, Nat.mul_mod_left]
  rw [Nat.add_mod, Nat.mul_mod, heven, Nat.mul_zero, Nat.zero_mod, Nat.zero_add, Nat.mod_mod]

/-- A quotient that reaches a code is past the points halfway between the codes before it. -/
theorem Reaches.of_lt {num den a b : Nat} (hden : 0 < den) (h : f.Reaches num den b) (hab : a < b) : f.Reaches num den a := by
  have hmiddle := Nat.mul_lt_mul_of_pos_right (f.middle_lt_middle hab) hden
  rcases h with h | ⟨h, _⟩ <;> exact Or.inl (by omega)

/-! ## Rounding -/

/-- The code nearest to a quotient, infinity not yet in its way: its binade, its place there, and what the place is. -/
theorem round_eq_min (f : Format) (num : Nat) {den : Nat} (hden : 0 < den) :
    ∃ shift place, f.round num den = min f.infinity (shift * 2 ^ f.fractionBits + place) ∧
      place = halfEven (num * 2 ^ f.scale) (den * 2 ^ shift) ∧
      (shift = 0 ∨ 2 ^ f.fractionBits * (den * 2 ^ shift) ≤ num * 2 ^ f.scale) ∧
      num * 2 ^ f.scale < 2 ^ (f.fractionBits + 1) * (den * 2 ^ shift) := by
  refine ⟨(num * 2 ^ f.scale / den).log2 - f.fractionBits, _, rfl, rfl, ?_, ?_⟩
  · generalize num * 2 ^ f.scale = steps
    by_cases hshift : (steps / den).log2 - f.fractionBits = 0
    · exact Or.inl hshift
    · refine Or.inr ?_
      have hne : steps / den ≠ 0 := by
        intro hzero
        rw [hzero] at hshift
        simp at hshift
      have hlog : (steps / den).log2 - f.fractionBits + f.fractionBits = (steps / den).log2 := by omega
      have hle : 2 ^ (steps / den).log2 * den ≤ steps :=
        (Nat.le_div_iff_mul_le hden).mp (Nat.log2_self_le hne)
      rw [← hlog, Nat.pow_add] at hle
      calc 2 ^ f.fractionBits * (den * 2 ^ ((steps / den).log2 - f.fractionBits))
          = 2 ^ ((steps / den).log2 - f.fractionBits) * 2 ^ f.fractionBits * den := by
            rw [Nat.mul_comm (2 ^ _) (2 ^ f.fractionBits), Nat.mul_assoc, Nat.mul_comm den]
        _ ≤ steps := hle
  · generalize num * 2 ^ f.scale = steps
    have hlt : steps < 2 ^ ((steps / den).log2 + 1) * den := (Nat.div_lt_iff_lt_mul hden).mp Nat.lt_log2_self
    have hpow : 2 ^ ((steps / den).log2 + 1) ≤ 2 ^ (f.fractionBits + 1 + ((steps / den).log2 - f.fractionBits)) :=
      Nat.pow_le_pow_right (by decide) (by omega)
    calc steps < 2 ^ ((steps / den).log2 + 1) * den := hlt
      _ ≤ 2 ^ (f.fractionBits + 1 + ((steps / den).log2 - f.fractionBits)) * den := Nat.mul_le_mul_right den hpow
      _ = 2 ^ (f.fractionBits + 1) * (den * 2 ^ ((steps / den).log2 - f.fractionBits)) := by
        rw [Nat.pow_add 2 (f.fractionBits + 1), Nat.mul_assoc, Nat.mul_comm den]

/-- A quotient reaches the code at its rounded place in its binade. -/
theorem reaches_place {num den shift place : Nat} (hf : 0 < f.fractionBits) (hden : 0 < den)
    (hplace : place = halfEven (num * 2 ^ f.scale) (den * 2 ^ shift))
    (hlow : shift = 0 ∨ 2 ^ f.fractionBits * (den * 2 ^ shift) ≤ num * 2 ^ f.scale)
    (hhigh : place ≤ 2 ^ (f.fractionBits + 1)) (hpos : 0 < shift * 2 ^ f.fractionBits + place) :
    f.Reaches num den (shift * 2 ^ f.fractionBits + place) := by
  have hgrid : 0 < den * 2 ^ shift := Nat.mul_pos hden (Nat.two_pow_pos shift)
  have hbinade : shift = 0 ∨ 2 ^ f.fractionBits ≤ place :=
    hlow.imp id fun hle => hplace ▸ le_halfEven hgrid hle
  unfold Reaches
  by_cases hinside : shift = 0 ∨ 2 ^ f.fractionBits < place
  · -- The code before lies in the same binade.
    obtain ⟨before, rfl⟩ : ∃ before, place = before + 1 := by
      refine ⟨place - 1, ?_⟩
      rcases hinside with rfl | hlt <;> omega
    have hmiddle : f.middle (shift * 2 ^ f.fractionBits + (before + 1)) * den = (2 * before + 1) * (den * 2 ^ shift) := by
      rw [← Nat.add_assoc, middle_shift (by omega) (by omega), Nat.mul_assoc, Nat.mul_comm (2 ^ shift)]
    rw [hmiddle]
    have hbelow : before < halfEven (num * 2 ^ f.scale) (den * 2 ^ shift) := by
      rw [← hplace]
      exact Nat.lt_add_one before
    rcases (lt_halfEven_iff hgrid before).mp hbelow with hlt | ⟨heq, hodd⟩
    · exact Or.inl hlt
    · refine Or.inr ⟨heq, ?_⟩
      rw [code_mod_two hf]
      omega
  · -- The place is the first of its binade, which the quotient has in full.
    have hshift : shift ≠ 0 := fun h => hinside (Or.inl h)
    have hfirst : place = 2 ^ f.fractionBits := by
      have := hbinade.resolve_left hshift
      have : ¬ 2 ^ f.fractionBits < place := fun h => hinside (Or.inr h)
      omega
    have hsteps := hlow.resolve_left hshift
    have hless := f.middle_lt_two_mul_units hpos
    rw [units_shift hhigh hbinade] at hless
    have hproduct := Nat.mul_lt_mul_of_pos_right hless hden
    rw [hfirst] at hproduct ⊢
    rw [Nat.mul_comm den, ← Nat.mul_assoc] at hsteps
    rw [Nat.mul_assoc] at hproduct
    exact Or.inl (by omega)

/-- A quotient does not reach the code after its rounded place in its binade. -/
theorem not_reaches_succ {num den shift place : Nat} (hf : 0 < f.fractionBits) (hden : 0 < den)
    (hplace : place = halfEven (num * 2 ^ f.scale) (den * 2 ^ shift))
    (hbinade : shift = 0 ∨ 2 ^ f.fractionBits ≤ place) (hhigh : place ≤ 2 ^ (f.fractionBits + 1))
    (hsteps : num * 2 ^ f.scale < 2 ^ (f.fractionBits + 1) * (den * 2 ^ shift)) :
    ¬ f.Reaches num den (shift * 2 ^ f.fractionBits + place + 1) := by
  have hgrid : 0 < den * 2 ^ shift := Nat.mul_pos hden (Nat.two_pow_pos shift)
  unfold Reaches
  by_cases hinside : place < 2 ^ (f.fractionBits + 1)
  · have hmiddle : f.middle (shift * 2 ^ f.fractionBits + place + 1) * den = (2 * place + 1) * (den * 2 ^ shift) := by
      rw [middle_shift hinside hbinade, Nat.mul_assoc, Nat.mul_comm (2 ^ shift)]
    have hself : ¬ place < halfEven (num * 2 ^ f.scale) (den * 2 ^ shift) := by
      rw [← hplace]
      exact Nat.lt_irrefl place
    have hnot := mt (lt_halfEven_iff hgrid place).mpr hself
    rw [hmiddle]
    rintro (hlt | ⟨heq, hparity⟩)
    · exact hnot (Or.inl hlt)
    · refine hnot (Or.inr ⟨heq, ?_⟩)
      rw [Nat.add_assoc, code_mod_two hf] at hparity
      omega
  · unfold middle
    rw [Nat.add_sub_cancel, units_shift hhigh hbinade]
    obtain rfl : place = 2 ^ (f.fractionBits + 1) := by omega
    have hnext : 2 ^ (f.fractionBits + 1) * 2 ^ shift ≤
        f.units (shift * 2 ^ f.fractionBits + 2 ^ (f.fractionBits + 1) + 1) := by
      rw [← units_shift hhigh hbinade]
      exact f.units_strictMono.monotone (Nat.le_succ _)
    have hproduct := Nat.mul_le_mul_right den hnext
    rw [Nat.mul_comm den, ← Nat.mul_assoc] at hsteps
    rw [Nat.add_mul]
    omega

/-- The codes that a quotient reaches are those up to the one it is rounded to. -/
theorem le_round_iff {num den code : Nat} (hf : 0 < f.fractionBits) (hden : 0 < den) (hpos : 0 < code)
    (hcode : code ≤ f.infinity) : code ≤ f.round num den ↔ f.Reaches num den code := by
  obtain ⟨shift, place, hround, hplace, hlow, hsteps⟩ := f.round_eq_min num hden
  have hgrid : 0 < den * 2 ^ shift := Nat.mul_pos hden (Nat.two_pow_pos shift)
  have hhigh : place ≤ 2 ^ (f.fractionBits + 1) := hplace ▸ halfEven_le hgrid (Nat.le_of_lt hsteps)
  have hbinade : shift = 0 ∨ 2 ^ f.fractionBits ≤ place :=
    hlow.imp id fun hle => hplace ▸ le_halfEven hgrid hle
  have hnot := not_reaches_succ hf hden hplace hbinade hhigh hsteps
  rw [hround, Nat.le_min, and_iff_right hcode]
  constructor
  · intro hle
    have hreaches := reaches_place hf hden hplace hlow hhigh (Nat.lt_of_lt_of_le hpos hle)
    rcases Nat.eq_or_lt_of_le hle with heq | hlt
    · rwa [heq]
    · exact hreaches.of_lt hden hlt
  · intro hreaches
    apply Nat.le_of_not_lt
    intro hlt
    rcases Nat.eq_or_lt_of_le (Nat.succ_le_of_lt hlt) with heq | hless
    · exact hnot (by rwa [← heq] at hreaches)
    · exact hnot (hreaches.of_lt hden hless)

/-- Zero is rounded to the code of zero. -/
theorem round_zero_left (f : Format) (den : Nat) : f.round 0 den = 0 := by
  unfold round
  simp [halfEven]

/-- Rounding keeps the order of quotients. -/
theorem round_le_round {num den num' den' : Nat} (hf : 0 < f.fractionBits) (hden : 0 < den) (hden' : 0 < den')
    (h : num * den' ≤ num' * den) : f.round num den ≤ f.round num' den' := by
  rcases Nat.eq_zero_or_pos (f.round num den) with hzero | hpos
  · rw [hzero]
    exact Nat.zero_le _
  · have hbound := f.round_le_infinity num den
    have hreaches := (le_round_iff hf hden hpos hbound).mp (Nat.le_refl _)
    rw [le_round_iff hf hden' hpos hbound]
    generalize f.round num den = code at hreaches
    unfold Reaches at *
    generalize f.middle code = middle at *
    generalize 2 ^ f.scale = unit at *
    have hcross : 2 * (num * unit) * den' ≤ 2 * (num' * unit) * den := by
      rw [Nat.mul_assoc 2, Nat.mul_assoc 2, Nat.mul_right_comm num, Nat.mul_right_comm num']
      exact Nat.mul_le_mul_left 2 (Nat.mul_le_mul_right unit h)
    rcases hreaches with hlt | ⟨heq, heven⟩
    · left
      apply Nat.lt_of_mul_lt_mul_right (a := den)
      calc middle * den' * den = middle * den * den' := Nat.mul_right_comm _ _ _
        _ < 2 * (num * unit) * den' := Nat.mul_lt_mul_of_pos_right hlt hden'
        _ ≤ 2 * (num' * unit) * den := hcross
    · have hle : middle * den' * den ≤ 2 * (num' * unit) * den := by
        calc middle * den' * den = middle * den * den' := Nat.mul_right_comm _ _ _
          _ = 2 * (num * unit) * den' := by rw [heq]
          _ ≤ 2 * (num' * unit) * den := hcross
      rcases Nat.eq_or_lt_of_le (Nat.le_of_mul_le_mul_right hle hden) with hsame | hless
      · exact Or.inr ⟨hsame, heven⟩
      · exact Or.inl hless

/-- Rounding depends on the value of a quotient only. -/
theorem round_congr {num den num' den' : Nat} (hf : 0 < f.fractionBits) (hden : 0 < den) (hden' : 0 < den')
    (h : num * den' = num' * den) : f.round num den = f.round num' den' :=
  Nat.le_antisymm (round_le_round hf hden hden' (Nat.le_of_eq h)) (round_le_round hf hden' hden (Nat.le_of_eq h.symm))

/-- A value of the format is rounded to its code. -/
theorem round_units {code : Nat} (hf : 0 < f.fractionBits) (hcode : code ≤ f.infinity) :
    f.round (f.units code) (2 ^ f.scale) = code := by
  have hden : 0 < 2 ^ f.scale := Nat.two_pow_pos _
  apply Nat.le_antisymm
  · apply Nat.le_of_not_lt
    intro hlt
    have hbound : code + 1 ≤ f.infinity := Nat.le_trans hlt (f.round_le_infinity _ _)
    have hnext : 0 < code + 1 := Nat.zero_lt_succ code
    have hreaches := (le_round_iff hf hden hnext hbound).mp hlt
    have hproduct := Nat.mul_lt_mul_of_pos_right (f.two_mul_units_lt_middle code) hden
    rw [Nat.mul_assoc] at hproduct
    rcases hreaches with h | ⟨h, _⟩ <;> omega
  · rcases Nat.eq_zero_or_pos code with rfl | hpos
    · exact Nat.zero_le _
    · rw [le_round_iff hf hden hpos hcode]
      have hproduct := Nat.mul_lt_mul_of_pos_right (f.middle_lt_two_mul_units hpos) hden
      rw [Nat.mul_assoc] at hproduct
      exact Or.inl hproduct

/-- A quotient at least the value of a code is rounded to at least that code. -/
theorem le_round_of_units_le {num den code : Nat} (hf : 0 < f.fractionBits) (hden : 0 < den) (hcode : code ≤ f.infinity)
    (h : f.units code * den ≤ num * 2 ^ f.scale) : code ≤ f.round num den := by
  have hle : f.round (f.units code) (2 ^ f.scale) ≤ f.round num den := round_le_round hf (Nat.two_pow_pos _) hden h
  rwa [round_units hf hcode] at hle

/-- A quotient at most the value of a code is rounded to at most that code. -/
theorem round_le_of_le_units {num den code : Nat} (hf : 0 < f.fractionBits) (hden : 0 < den) (hcode : code ≤ f.infinity)
    (h : num * 2 ^ f.scale ≤ f.units code * den) : f.round num den ≤ code := by
  have hle : f.round num den ≤ f.round (f.units code) (2 ^ f.scale) := round_le_round hf hden (Nat.two_pow_pos _) h
  rwa [round_units hf hcode] at hle

end Format

end TinyScript
