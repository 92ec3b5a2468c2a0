import Mathlib.Algebra.Order.Field.Power
import Mathlib.Tactic.Ring
import TinyScript.Proofs.Number.Narrowing
import TinyScript.Proofs.Number.ReadBack

/-!
# Decimals of few digits

The decimals of a number of digits at most are, near a decimal of more digits, a grid: its multiples of one power of ten
(`Decimal.eq_mul_or_lt`). So the two points of the grid around a decimal separate it from every decimal of so few digits
(`Decimal.le_truncate_or_next_le`), and the decimal rounded to the grid is nearest among them (`Decimal.distance_round_le`).
-/

namespace TinyScript

namespace Decimal

/-- The value of a decimal. -/
def value (d : Decimal) : ℚ := d.num / d.den

/-- The value of a decimal is its coefficient times a power of ten. -/
theorem value_eq (d : Decimal) : d.value = d.coefficient * 10 ^ d.exponent := by
  unfold value num den
  obtain ⟨n, h | h⟩ := d.exponent.eq_nat_or_neg
  · simp [h]
  · simp [h, div_eq_mul_inv]

/-- Decimals are in the order of their quotients. -/
theorem value_le_value_iff {d d' : Decimal} : d.value ≤ d'.value ↔ d.num * d'.den ≤ d'.num * d.den := by
  have hden : (0 : ℚ) < d.den := by exact_mod_cast d.den_pos
  have hden' : (0 : ℚ) < d'.den := by exact_mod_cast d'.den_pos
  rw [value, value, div_le_div_iff₀ hden hden']
  exact_mod_cast Iff.rfl

/-- Decimals have one value if their quotients are equal. -/
theorem sameValue_iff {d d' : Decimal} : SameValue d d' ↔ d.value = d'.value := by
  rw [le_antisymm_iff, value_le_value_iff, value_le_value_iff, SameValue, Nat.le_antisymm_iff]

/-! ## Significant digits -/

/-- Zeros at the end of a coefficient are no significant digits. -/
theorem length_significant_le_of_eq {d : Decimal} {digits zeros count : Nat} (h : d.coefficient = digits * 10 ^ zeros)
    (hdigits : digits < 10 ^ count) : d.significant.length ≤ count := by
  rcases Nat.eq_zero_or_pos digits with rfl | hpos
  · rw [Nat.zero_mul] at h
    simp [significant, h]
  · have hcount : 0 < count := by
      apply Nat.pos_of_ne_zero
      rintro rfl
      omega
    have hzeros : ∀ c ∈ List.replicate zeros '0', c.isDigit = true := isDigit_of_mem_zeros
    have htext : Nat.toDigits 10 d.coefficient = Nat.toDigits 10 digits ++ List.replicate zeros '0' := by
      rw [toDigits_append_digits hpos hzeros, Nat.ofDigitChars_replicate_zero, h, Nat.mul_comm]
    have hdrop : (List.replicate zeros '0').dropWhile (· == '0') = [] := by simp
    calc d.significant.length
        = ((Nat.toDigits 10 digits).reverse.dropWhile (· == '0')).length := by
          rw [significant, htext, List.reverse_append, List.reverse_replicate,
            List.dropWhile_append_of_pos (by simp), List.length_reverse]
      _ ≤ (Nat.toDigits 10 digits).reverse.length := (List.dropWhile_sublist _).length_le
      _ = (Nat.toDigits 10 digits).length := List.length_reverse
      _ ≤ count := (Nat.length_toDigits_le_iff (by decide) hcount).mpr hdigits

/-- A coefficient of a number of digits has no more significant ones. -/
theorem length_significant_le_of_lt {d : Decimal} {count : Nat} (h : d.coefficient < 10 ^ count) :
    d.significant.length ≤ count := by
  have hwhole : d.coefficient = d.coefficient * 10 ^ 0 := by rw [Nat.pow_zero, Nat.mul_one]
  exact length_significant_le_of_eq hwhole h

/-- A decimal of a number of digits at most is so many digits and a power of ten. -/
theorem exists_value_eq {d : Decimal} {count : Nat} (h : d.significant.length ≤ count) :
    ∃ digits : Nat, digits < 10 ^ count ∧ ∃ power : Int, d.value = digits * 10 ^ power := by
  obtain ⟨zeros, hdigits⟩ := d.exists_significant
  have hcoefficient : d.coefficient = Reading.valueOf d.significant * 10 ^ zeros := by
    rw [← valueOf_append_zeros, ← hdigits, valueOf_toDigits]
  refine ⟨Reading.valueOf d.significant, ?_, zeros + d.exponent, ?_⟩
  · exact Nat.lt_of_lt_of_le (valueOf_lt fun c hc => isDigit_of_mem_significant hc) (Nat.pow_le_pow_right (by decide) h)
  · rw [value_eq, hcoefficient, zpow_add₀ (by decide), zpow_natCast]
    push_cast
    ring

/-- The significant digits are those of the value: where that is so many digits and a power of ten, they are no more. -/
theorem length_significant_le {d : Decimal} {digits count : Nat} {power : Int} (h : d.value = digits * 10 ^ power)
    (hdigits : digits < 10 ^ count) : d.significant.length ≤ count := by
  rw [value_eq] at h
  rcases Int.le_total d.exponent power with hle | hle
  · obtain ⟨zeros, rfl⟩ := Int.le.dest hle
    rw [zpow_add₀ (by decide), zpow_natCast, mul_left_comm, mul_comm, mul_right_inj' (by positivity)] at h
    exact length_significant_le_of_eq (by exact_mod_cast h) hdigits
  · obtain ⟨more, hmore⟩ := Int.le.dest hle
    rw [← hmore, zpow_add₀ (by decide), zpow_natCast, mul_left_comm, mul_comm, mul_left_inj' (by positivity)] at h
    have hwhole : d.coefficient * 10 ^ more = digits := by exact_mod_cast h
    have hle : d.coefficient ≤ digits := hwhole ▸ Nat.le_mul_of_pos_right _ (Nat.pow_pos (by decide))
    exact length_significant_le_of_lt (Nat.lt_of_le_of_lt hle hdigits)

/-- Decimals of one value have as many significant digits. -/
theorem SameValue.length_significant_eq {d d' : Decimal} (h : SameValue d d') :
    d.significant.length = d'.significant.length := by
  have hle : ∀ {d d' : Decimal}, d.value = d'.value → d'.significant.length ≤ d.significant.length := by
    intro d d' hvalue
    obtain ⟨digits, hdigits, power, hpower⟩ := exists_value_eq (Nat.le_refl d.significant.length)
    exact length_significant_le (hvalue ▸ hpower) hdigits
  rw [sameValue_iff] at h
  exact Nat.le_antisymm (hle h.symm) (hle h)

/-! ## Points of a grid -/

/-- A decimal of a number of digits at most is a multiple of a power of ten, or is less than so many digits can be. -/
theorem eq_mul_or_lt {d : Decimal} {count : Nat} (h : d.significant.length ≤ count + 1) (power : Int) :
    (∃ n : Nat, d.value = n * 10 ^ power) ∨ d.value < (10 ^ count : Nat) * 10 ^ power := by
  obtain ⟨digits, hdigits, low, hvalue⟩ := exists_value_eq h
  rcases Int.lt_or_le low power with hlt | hle
  · right
    have hcast : (digits : ℚ) < 10 ^ (count + 1) := by exact_mod_cast hdigits
    have hpower : (10 : ℚ) ^ (low + 1) ≤ 10 ^ power := zpow_le_zpow_right₀ (by norm_num) hlt
    push_cast
    calc d.value = digits * 10 ^ low := hvalue
      _ < 10 ^ (count + 1) * 10 ^ low := mul_lt_mul_of_pos_right hcast (by positivity)
      _ = 10 ^ count * 10 ^ (low + 1) := by rw [zpow_add₀ (by decide), zpow_one]; ring
      _ ≤ 10 ^ count * 10 ^ power := mul_le_mul_of_nonneg_left hpower (by positivity)
  · left
    obtain ⟨zeros, rfl⟩ := Int.le.dest hle
    refine ⟨digits * 10 ^ zeros, ?_⟩
    rw [hvalue, zpow_add₀ (by decide), zpow_natCast]
    push_cast
    ring

section Grid

variable {d x : Decimal} {places count : Nat}

/-- A point of the grid that lacks the last digits of a decimal is at most the decimal if its digits are at most the others. -/
theorem mul_le_value_iff (n : Nat) : n * 10 ^ (x.exponent + places) ≤ x.value ↔ n ≤ x.coefficient / 10 ^ places := by
  have hpower : (0 : ℚ) < 10 ^ x.exponent := by positivity
  rw [value_eq, Nat.le_div_iff_mul_le (Nat.pow_pos (by decide)), zpow_add₀ (by decide), zpow_natCast, mul_left_comm, mul_comm,
    mul_le_mul_iff_left₀ hpower]
  exact_mod_cast Iff.rfl

/-- The value of a decimal without its last digits. -/
theorem value_truncate (x : Decimal) (places : Nat) :
    (x.truncate places).value = (x.coefficient / 10 ^ places : Nat) * 10 ^ (x.exponent + places) :=
  value_eq _

/-- The value of the next point of the grid. -/
theorem value_next_truncate (x : Decimal) (places : Nat) :
    (x.truncate places).next.value = (x.coefficient / 10 ^ places + 1 : Nat) * 10 ^ (x.exponent + places) :=
  value_eq _

/-- The value of a rounded decimal. -/
theorem value_round (x : Decimal) (places : Nat) :
    (x.round places).value = (halfEven x.coefficient (10 ^ places) : Nat) * 10 ^ (x.exponent + places) :=
  value_eq _

/-- A decimal without its last digits is not greater. -/
theorem value_truncate_le (x : Decimal) (places : Nat) : (x.truncate places).value ≤ x.value := by
  rw [value_truncate, mul_le_value_iff]

/-- A decimal is less than the next point of the grid. -/
theorem value_lt_next_truncate (x : Decimal) (places : Nat) : x.value < (x.truncate places).next.value := by
  rw [value_next_truncate, ← not_le, mul_le_value_iff]
  exact Nat.not_succ_le_self _

/-- The points of the grid around a decimal separate it from every other decimal of so few digits. -/
theorem le_truncate_or_next_le (hx : 0 < x.coefficient) (hcount : 1 ≤ count) (hdigits : count ≤ digitCount x.coefficient)
    (h : d.significant.length ≤ count) :
    d.value ≤ (x.truncate (digitCount x.coefficient - count)).value ∨
      (x.truncate (digitCount x.coefficient - count)).next.value ≤ d.value := by
  obtain ⟨count, rfl⟩ := Nat.exists_eq_add_of_le' hcount
  generalize hplaces : digitCount x.coefficient - (count + 1) = places
  have hstep : (0 : ℚ) < 10 ^ (x.exponent + places) := by positivity
  rw [value_truncate, value_next_truncate]
  rcases eq_mul_or_lt h (x.exponent + places) with ⟨n, hn⟩ | hlt
  · rw [hn, mul_le_mul_iff_left₀ hstep, mul_le_mul_iff_left₀ hstep]
    exact_mod_cast (Nat.lt_or_ge _ n).symm
  · left
    have hfirst : 10 ^ count ≤ x.coefficient / 10 ^ places := by
      rw [Nat.le_div_iff_mul_le (Nat.pow_pos (by decide)), ← Nat.pow_add]
      have hsum : count + places = digitCount x.coefficient - 1 := by omega
      rw [hsum]
      exact pow_digitCount_le hx
    have hcast : ((10 ^ count : Nat) : ℚ) ≤ (x.coefficient / 10 ^ places : Nat) := by exact_mod_cast hfirst
    exact le_of_lt (lt_of_lt_of_le hlt (mul_le_mul_of_nonneg_right hcast (le_of_lt hstep)))

/-- The points of the grid around a decimal have no more digits than the grid leaves. -/
theorem length_significant_point_le (h : d = x.truncate places ∨ d = (x.truncate places).next) (hcount : 1 ≤ count)
    (hx : x.coefficient < 10 ^ (count + places)) : d.significant.length ≤ count := by
  have hbelow : x.coefficient / 10 ^ places < 10 ^ count := by
    rw [Nat.div_lt_iff_lt_mul (Nat.pow_pos (by decide)), ← Nat.pow_add]
    exact hx
  have hle : d.coefficient ≤ 10 ^ count := by
    rcases h with rfl | rfl
    · exact Nat.le_of_lt hbelow
    · exact hbelow
  rcases Nat.eq_or_lt_of_le hle with heq | hlt
  · have hone : d.coefficient = 1 * 10 ^ count := heq.trans (Nat.one_mul _).symm
    exact length_significant_le_of_eq hone (Nat.one_lt_pow (by omega) (by decide))
  · exact length_significant_le_of_lt hlt

/-- A rounded decimal is at most one half of a step away. -/
theorem value_round_near (x : Decimal) (places : Nat) :
    2 * (x.round places).value ≤ 2 * x.value + 10 ^ (x.exponent + places) ∧
      2 * x.value ≤ 2 * (x.round places).value + 10 ^ (x.exponent + places) := by
  have hgrid : 0 < 10 ^ places := Nat.pow_pos (by decide)
  obtain ⟨habove, hbelow⟩ := halfEven_near x.coefficient hgrid
  have hpower : (0 : ℚ) < 10 ^ x.exponent := by positivity
  rw [value_round, value_eq, zpow_add₀ (by decide), zpow_natCast]
  generalize halfEven x.coefficient (10 ^ places) = near at habove hbelow
  have habove' : (2 * (near * 10 ^ places) : ℚ) ≤ 2 * x.coefficient + 10 ^ places := by exact_mod_cast habove
  have hbelow' : (2 * x.coefficient : ℚ) ≤ 2 * (near * 10 ^ places) + 10 ^ places := by exact_mod_cast hbelow
  constructor
  · linarith [mul_le_mul_of_nonneg_right habove' (le_of_lt hpower)]
  · linarith [mul_le_mul_of_nonneg_right hbelow' (le_of_lt hpower)]

/-- No point of the grid is nearer to a decimal than the rounded one. -/
theorem distance_round_le_mul (x : Decimal) (places n : Nat) :
    |(x.round places).value - x.value| ≤ |n * 10 ^ (x.exponent + places) - x.value| := by
  obtain ⟨habove, hbelow⟩ := x.value_round_near places
  have hstep : (0 : ℚ) < 10 ^ (x.exponent + places) := by positivity
  rw [value_round] at habove hbelow ⊢
  generalize halfEven x.coefficient (10 ^ places) = near at habove hbelow ⊢
  generalize (10 : ℚ) ^ (x.exponent + places) = step at habove hbelow hstep ⊢
  rcases Nat.lt_trichotomy n near with hlt | rfl | hgt
  · have hsucc : ((n : ℚ) + 1) * step ≤ near * step := mul_le_mul_of_nonneg_right (by exact_mod_cast hlt) (le_of_lt hstep)
    exact Format.distance_le_of_half_le (by linarith) (by linarith)
  · exact le_refl _
  · have hsucc : ((near : ℚ) + 1) * step ≤ n * step := mul_le_mul_of_nonneg_right (by exact_mod_cast hgt) (le_of_lt hstep)
    exact Format.distance_le_of_le_half (by linarith) (by linarith)

/-- No decimal of so few digits is nearer to a decimal than the rounded one. -/
theorem distance_round_le (hx : 0 < x.coefficient) (hcount : 1 ≤ count) (hdigits : count ≤ digitCount x.coefficient)
    (h : d.significant.length ≤ count) :
    |(x.round (digitCount x.coefficient - count)).value - x.value| ≤ |d.value - x.value| := by
  have hsides := le_truncate_or_next_le hx hcount hdigits h
  generalize digitCount x.coefficient - count = places at hsides ⊢
  have hbelow := x.value_truncate_le places
  have habove := x.value_lt_next_truncate places
  rcases hsides with hle | hle
  · have hnear := x.distance_round_le_mul places (x.coefficient / 10 ^ places)
    rw [← value_truncate] at hnear
    refine le_trans hnear ?_
    rw [abs_of_nonpos (by linarith), abs_of_nonpos (by linarith)]
    linarith
  · have hnear := x.distance_round_le_mul places (x.coefficient / 10 ^ places + 1)
    rw [← value_next_truncate] at hnear
    refine le_trans hnear ?_
    rw [abs_of_nonneg (by linarith), abs_of_nonneg (by linarith)]
    linarith

end Grid

end Decimal

namespace Format

variable {f g : Format}

/-! ## Decimals around a magnitude -/

/-- Decimals are rounded in their order. -/
theorem round_le_round_of_value_le (hf : 0 < f.fractionBits) {d d' : Decimal} (h : d.value ≤ d'.value) :
    f.round d.num d.den ≤ f.round d'.num d'.den :=
  round_le_round hf d.den_pos d'.den_pos (Decimal.value_le_value_iff.mp h)

/-- A decimal between two that are rounded to a code is rounded to it. -/
theorem round_eq_of_between (hf : 0 < f.fractionBits) {low d high : Decimal} {code : Nat} (hlow : low.value ≤ d.value)
    (hhigh : d.value ≤ high.value) (hread : f.round low.num low.den = code) (hread' : f.round high.num high.den = code) :
    f.round d.num d.den = code :=
  Nat.le_antisymm (hread' ▸ round_le_round_of_value_le hf hhigh) (hread ▸ round_le_round_of_value_le hf hlow)

/-- Decimals are narrowed in their order. -/
theorem Wider.narrowed_le_of_value_le (h : Wider f g) {d d' : Decimal} (hle : d.value ≤ d'.value) :
    g.narrowed f d.num d.den ≤ g.narrowed f d'.num d'.den :=
  h.narrowed_le_narrowed d.den_pos d'.den_pos (Decimal.value_le_value_iff.mp hle)

/-- A decimal between two that are narrowed to a code is narrowed to it. -/
theorem Wider.narrowed_eq_of_between (h : Wider f g) {low d high : Decimal} {code : Nat} (hlow : low.value ≤ d.value)
    (hhigh : d.value ≤ high.value) (hread : g.narrowed f low.num low.den = code)
    (hread' : g.narrowed f high.num high.den = code) : g.narrowed f d.num d.den = code :=
  Nat.le_antisymm (hread' ▸ h.narrowed_le_of_value_le hhigh) (hread ▸ h.narrowed_le_of_value_le hlow)

/-- A decimal that is narrowed to another code than zero has a significant digit. -/
theorem Wider.significant_pos (h : Wider f g) {d : Decimal} (hpos : 0 < g.narrowed f d.num d.den) :
    0 < d.significant.length := by
  apply Nat.pos_of_ne_zero
  intro hnone
  obtain ⟨digits, hdigits, power, hvalue⟩ := Decimal.exists_value_eq (Nat.le_of_eq hnone)
  obtain rfl : digits = 0 := by simpa using hdigits
  have hzero : g.narrowed f 0 1 = 0 := by
    rw [narrowed, g.round_zero_left, recode_zero]
  have hle : d.value ≤ Decimal.value ⟨0, 0⟩ := by simp [hvalue, Decimal.value_eq]
  have hnarrow := h.narrowed_le_of_value_le hle
  have hnone : g.narrowed f (Decimal.num ⟨0, 0⟩) (Decimal.den ⟨0, 0⟩) = 0 := hzero
  omega

/-- The exact decimal of a magnitude has its value. -/
theorem value_exact (f : Format) (code : Nat) : (f.exact code).value = f.value code := by
  have hfive : (5 : ℚ) ^ f.scale ≠ 0 := by positivity
  have hten : (10 : ℚ) ^ f.scale = 2 ^ f.scale * 5 ^ f.scale := by rw [← mul_pow]; norm_num
  rw [Decimal.value_eq, exact, value, zpow_neg, zpow_natCast, hten, ← div_eq_mul_inv]
  push_cast
  exact mul_div_mul_right _ _ hfive

/-- Widening keeps the value. -/
theorem Wider.value_widened (h : Wider f g) {code : Nat} (hcode : code < f.infinity) :
    g.value (f.recode g code) = f.value code := by
  have hscale : (2 : ℚ) ^ g.scale = 2 ^ f.scale * 2 ^ (g.scale - f.scale) := by
    rw [mul_comm]
    exact_mod_cast h.two_pow_scale
  rw [value, value, (h.units_widened hcode).2, hscale]
  push_cast
  exact mul_div_mul_right _ _ (by positivity)

/-- The exact decimal of a widened magnitude is narrowed to it. -/
theorem Wider.narrowed_exact (h : Wider f g) {code : Nat} (hcode : code < f.infinity) :
    g.narrowed f (g.exact (f.recode g code)).num (g.exact (f.recode g code)).den = code := by
  rw [narrowed, readsBack_iff.mp (readsBack_exact h.fraction_pos' (f.recode_le_infinity g code)), h.narrowed_widened hcode]

/-- A candidate has no more digits than its grid leaves. -/
theorem length_significant_candidate? {code places count : Nat} {x d : Decimal} (h : f.candidate? code x places = some d)
    (hcount : 1 ≤ count) (hx : x.coefficient < 10 ^ (count + places)) : d.significant.length ≤ count := by
  refine Decimal.length_significant_point_le ?_ hcount hx
  unfold candidate? at h
  dsimp only at h
  split at h
  next => exact Option.some.inj h ▸ x.round_eq_or places
  next => exact Or.inl (Option.some.inj h).symm
  next => exact Or.inr (Option.some.inj h).symm
  next => cases h

/-- A magnitude is written with no more digits than asked for. -/
theorem length_significant_written (f : Format) (code : Nat) {kept : Nat} (hkept : 1 ≤ kept) :
    (f.written code kept).significant.length ≤ kept :=
  Decimal.length_significant_point_le ((f.exact code).round_eq_or _) hkept
    (Nat.lt_of_lt_of_le (lt_pow_digitCount _) (Nat.pow_le_pow_right (by decide) (by omega)))

/-- There is no candidate where neither of the two points reads back. -/
theorem candidate?_eq_none_iff {code places : Nat} {x : Decimal} :
    f.candidate? code x places = none ↔
      f.readsBack code (x.truncate places) = false ∧ f.readsBack code (x.truncate places).next = false := by
  unfold candidate?
  dsimp only
  split <;> simp_all

/-- Where a decimal of few digits reads back, there is a candidate of so many. -/
theorem candidate?_ne_none (hf : 0 < f.fractionBits) {code count : Nat} {x d : Decimal} (hx : 0 < x.coefficient)
    (hcount : 1 ≤ count) (hdigits : count ≤ digitCount x.coefficient) (h : d.significant.length ≤ count)
    (hexact : f.round x.num x.den = code) (hread : f.round d.num d.den = code) :
    f.candidate? code x (digitCount x.coefficient - count) ≠ none := by
  rw [Ne, candidate?_eq_none_iff]
  rintro ⟨hlow, hhigh⟩
  rcases Decimal.le_truncate_or_next_le hx hcount hdigits h with hle | hle
  · rw [readsBack_iff.mpr (round_eq_of_between hf hle (x.value_truncate_le _) hread hexact)] at hlow
    cases hlow
  · have habove := le_of_lt (x.value_lt_next_truncate (digitCount x.coefficient - count))
    rw [readsBack_iff.mpr (round_eq_of_between hf habove hle hexact hread)] at hhigh
    cases hhigh

/-- A magnitude is written with no more digits than a decimal that reads back as it, if these are few. -/
theorem length_significant_shortest (hf : 0 < f.fractionBits) {code count : Nat} {d : Decimal} (hcode : code ≤ f.infinity)
    (hpos : 0 < (f.exact code).coefficient) (hcount : 1 ≤ count) (hmost : count ≤ 17)
    (hdigits : count ≤ digitCount (f.exact code).coefficient) (h : d.significant.length ≤ count)
    (hread : f.round d.num d.den = code) : (f.shortest code).significant.length ≤ count := by
  have hcandidate := candidate?_ne_none hf hpos hcount hdigits h (readsBack_iff.mp (readsBack_exact hf hcode)) hread
  have hmem : count ∈ List.range' 1 17 := List.mem_range'_1.mpr ⟨hcount, by omega⟩
  unfold shortest
  dsimp only
  cases hfind : (List.range' 1 17).findSome? fun kept =>
      f.candidate? code (f.exact code) (digitCount (f.exact code).coefficient - kept) with
  | none => exact absurd (List.findSome?_eq_none_iff.mp hfind count hmem) hcandidate
  | some shortest =>
    obtain ⟨before, kept, after, hsplit, hkept, hnone⟩ := List.findSome?_eq_some_iff.mp hfind
    have hkeptMem : kept ∈ List.range' 1 17 := by simp [hsplit]
    -- The search has not passed the count.
    have hle : kept ≤ count := by
      have hordered := List.pairwise_lt_range' (s := 1) (n := 17)
      rw [hsplit] at hmem hordered
      have hafter := (List.pairwise_cons.mp (List.pairwise_append.mp hordered).2.1).1
      rcases List.mem_append.mp hmem with hbefore | hbehind
      · exact absurd (hnone count hbefore) hcandidate
      · rcases List.mem_cons.mp hbehind with rfl | hbehind
        · exact Nat.le_refl _
        · exact Nat.le_of_lt (hafter count hbehind)
    refine Nat.le_trans (length_significant_candidate? hkept (List.mem_range'_1.mp hkeptMem).1 ?_) hle
    exact Nat.lt_of_lt_of_le (lt_pow_digitCount _) (Nat.pow_le_pow_right (by decide) (by omega))

end Format

end TinyScript
