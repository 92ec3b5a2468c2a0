import TinyScript.Proofs.Number.Grid

/-!
# Powers of two among the 32-bit numbers

The numbers that are narrowed to a power of two reach half as far below it as above it, so the nearest decimal of a number of
digits may not be among them where another one is. Of the 277 powers of two that are 32-bit numbers this happens to three
(`PowerOfTwo.exists_settled`): all others have a number of digits of which no decimal is narrowed to them, while the nearest one
of one digit more is.

That is computed for each of them, from the 64-bit codes halfway to the codes around it. The powers are counted from the least
number, which is two to the power of -149.
-/

namespace TinyScript

namespace PowerOfTwo

/-- The 32-bit code of a power of two. -/
def code (index : Nat) : Nat := if index < 23 then 2 ^ index else (index - 22) * 2 ^ 23

/-- The 64-bit code halfway to the code before, below the one at which the binade of the power starts. -/
def below (index : Nat) : Nat := (index + 874) * 2 ^ 52 - 2 ^ (52 - min index 24)

/-- The 64-bit code halfway to the next code, inside the binade of the power. -/
def above (index : Nat) : Nat := (index + 874) * 2 ^ 52 + 2 ^ (51 - min index 23)

/-- The digits of the exact decimal. -/
def coefficient (index : Nat) : Nat := 2 ^ (index + 925) * 5 ^ 1074

/-- How many digits the exact decimal has: 1075 and the logarithm of the power of two, where that of two is 0.30103. -/
def digits (index : Nat) : Nat := (index * 30103 + (1075 * 100000 - 149 * 30103)) / 100000

/-- A point of the grid that lacks so many digits of the exact decimal is narrowed to the power of two. -/
def Narrows (index places point : Nat) : Prop :=
  Format.double.Reaches (point * 10 ^ places) (10 ^ 1074) (below index + code index % 2) ∧
    ¬ Format.double.Reaches (point * 10 ^ places) (10 ^ 1074) (above index + (code index + 1) % 2)

instance (index places point : Nat) : Decidable (Narrows index places point) :=
  inferInstanceAs (Decidable (_ ∧ ¬ _))

/-- With so many digits neither of the two decimals around the power of two is narrowed to it, and with one more the nearest
one is. -/
def Settled (index count : Nat) : Prop :=
  ¬ Narrows index (digits index - count) (coefficient index / 10 ^ (digits index - count)) ∧
    ¬ Narrows index (digits index - count) (coefficient index / 10 ^ (digits index - count) + 1) ∧
    Narrows index (digits index - (count + 1)) (halfEven (coefficient index) (10 ^ (digits index - (count + 1))))

instance (index count : Nat) : Decidable (Settled index count) :=
  inferInstanceAs (Decidable (¬ _ ∧ ¬ _ ∧ _))

/-- The value of a power of two, in smallest steps. -/
theorem units_code (index : Nat) : Format.single.units (code index) = 2 ^ index := by
  unfold code
  split
  next hlow => exact Format.units_of_lt (Nat.pow_lt_pow_right (by decide) hlow)
  next hhigh =>
    obtain ⟨shift, rfl⟩ := Nat.exists_eq_add_of_le (Nat.le_of_not_lt hhigh)
    have hcode : (23 + shift - 22) * 2 ^ 23 = shift * 2 ^ 23 + 2 ^ 23 := by
      rw [← Nat.succ_mul]
      congr 1
      omega
    have hunits : Format.single.units (shift * 2 ^ 23 + 2 ^ 23) = 2 ^ 23 * 2 ^ shift :=
      Format.units_shift (by decide) (Or.inr (by decide))
    rw [hcode, Nat.pow_add, hunits]

/-- The points halfway to the codes around a power of two. -/
theorem halfway : ∀ index < 277, Format.Wider.Halfway .single .double (code index) (below index) ∧
    Format.Wider.Halfway .single .double (code index + 1) (above index) := by
  decide +kernel

/-- A power of two is finite. -/
theorem code_lt_infinity {index : Nat} (h : index < 277) : code index < Format.single.infinity :=
  (halfway index h).2.le_infinity

/-- The exact decimal of a power of two. -/
theorem coefficient_exact {index : Nat} (h : index < 277) :
    (Format.double.exact (Format.single.recode .double (code index))).coefficient = coefficient index := by
  have hunits := (Format.single_wider_double.units_widened (code_lt_infinity h)).2
  have hgap : Format.double.scale - Format.single.scale = 925 := rfl
  have hscale : Format.double.scale = 1074 := rfl
  rw [units_code, hgap] at hunits
  rw [Format.exact, hunits, coefficient, Nat.pow_add, hscale]

/-- The exact decimal of a power of two has so many digits. -/
theorem digits_bounds : ∀ index < 277,
    10 ^ (digits index - 1) ≤ coefficient index ∧ coefficient index < 10 ^ digits index := by
  decide +kernel

/-- The number of digits is the digit count of the exact decimal. -/
theorem digitCount_coefficient {index : Nat} (h : index < 277) : digitCount (coefficient index) = digits index := by
  obtain ⟨hlow, hhigh⟩ := digits_bounds index h
  have hpos : 0 < digits index := Nat.div_pos (by omega) (by decide)
  have hle := digitCount_le hpos hhigh
  have hlt := (Nat.pow_lt_pow_iff_right (by decide)).mp (Nat.lt_of_le_of_lt hlow (lt_pow_digitCount _))
  omega

/-- The test of a point of the grid tells whether it is narrowed to the power of two. -/
theorem narrows_iff {index places : Nat} (h : index < 277) {d : Decimal} (hd : d.exponent = -Format.double.scale + places) :
    Narrows index places d.coefficient ↔ Format.double.narrowed .single d.num d.den = code index := by
  have hscale : Format.double.scale = 1074 := rfl
  have hvalue := d.num_mul_pow Format.double.scale places (by omega)
  have hten : 0 < 10 ^ Format.double.scale := Nat.pow_pos (by decide)
  rw [Format.single_wider_double.narrowed_congr d.den_pos hten hvalue,
    Format.single_wider_double.narrowed_eq_iff (halfway index h).1 (halfway index h).2 hten, hscale, Narrows]

/-- All powers of two but three settle. -/
theorem settled : ∀ index < 277, index ∉ [53, 236, 239] → ∃ count ∈ [7, 6, 5, 4, 3, 2, 1, 0], Settled index count := by
  decide +kernel

/-- There is a number of digits of which no decimal is narrowed to a power of two, but the nearest one of one digit more is,
unless it is one of three. -/
theorem exists_settled {index : Nat} (h : index < 277) (hmem : index ∉ [53, 236, 239]) :
    ∃ count, count ≤ 7 ∧
      (∀ d : Decimal, Format.double.narrowed .single d.num d.den = code index → count < d.significant.length) ∧
      Format.double.narrowed .single (Format.double.written (Format.single.recode .double (code index)) (count + 1)).num
        (Format.double.written (Format.single.recode .double (code index)) (count + 1)).den = code index := by
  obtain ⟨count, hcount, hbelow, habove, hnearest⟩ := settled index h hmem
  have hseven : count ≤ 7 := (show ∀ count ∈ [7, 6, 5, 4, 3, 2, 1, 0], count ≤ 7 by decide) count hcount
  have hmany : count ≤ digits index := by
    unfold digits
    omega
  have hread := Format.single_wider_double.narrowed_exact (code_lt_infinity h)
  unfold Format.written
  generalize hexact : Format.double.exact (Format.single.recode .double (code index)) = x at hread ⊢
  have hcoefficient : x.coefficient = coefficient index := by rw [← hexact, coefficient_exact h]
  have hexponent : x.exponent = -Format.double.scale := by rw [← hexact, Format.exact]
  have hpos : 0 < x.coefficient := hcoefficient ▸ Nat.lt_of_lt_of_le (Nat.pow_pos (by decide)) (digits_bounds index h).1
  have hdigits : digitCount x.coefficient = digits index := by rw [hcoefficient, digitCount_coefficient h]
  have hnarrows : ∀ places : Nat, ∀ point : Decimal, point.exponent = x.exponent + places →
      (Narrows index places point.coefficient ↔ Format.double.narrowed .single point.num point.den = code index) :=
    fun places point hpoint => narrows_iff h (by rw [hpoint, hexponent])
  rw [← hcoefficient] at hbelow habove hnearest
  rw [hdigits]
  refine ⟨count, hseven, fun d hd => ?_, (hnarrows _ (x.round _) rfl).mp hnearest⟩
  apply Nat.lt_of_not_le
  intro hfew
  have hsome : 0 < d.significant.length := Format.single_wider_double.significant_pos (hd ▸ (halfway index h).1.pos)
  have hsides := Decimal.le_truncate_or_next_le hpos (Nat.le_trans hsome hfew) (hdigits ▸ hmany) hfew
  rw [hdigits] at hsides
  -- One of the two points around the power of two lies between it and the decimal.
  rcases hsides with hle | hle
  · have hpoint := Format.single_wider_double.narrowed_eq_of_between hle (x.value_truncate_le _) hd hread
    exact hbelow ((hnarrows _ (x.truncate _) rfl).mpr hpoint)
  · have hpoint := Format.single_wider_double.narrowed_eq_of_between (le_of_lt (x.value_lt_next_truncate _)) hle hread hd
    exact habove ((hnarrows _ (x.truncate _).next rfl).mpr hpoint)

end PowerOfTwo

end TinyScript
