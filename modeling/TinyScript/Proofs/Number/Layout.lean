import TinyScript.Proofs.Number.ReadBack

/-!
# The shapes of printed numbers

The text of a decimal is digits around a point, or a numeral of one digit before the point with an exponent
(`Decimal.layout_written`). The exponents of 64-bit numbers are small (`Double.natAbs_exponent_le`).
-/

namespace TinyScript

/-- The shapes of a decimal's text, in terms of the exponent that its first digit has. -/
inductive Decimal.Written (exponent : Int) : List Char → Prop where
  /-- Digits around a point -/
  | positional {whole fraction : List Char} :
      whole ≠ [] → (∀ c ∈ whole, c.isDigit = true) → (∀ c ∈ fraction, c.isDigit = true) →
      Written exponent (whole ++ '.' :: fraction)
  /-- One digit and an exponent -/
  | oneDigit {first : Char} : first.isDigit = true → Written exponent (first :: exponentText exponent)
  /-- One digit before a point, others after it, and an exponent -/
  | moreDigits {first : Char} {more : List Char} :
      first.isDigit = true → (∀ c ∈ more, c.isDigit = true) →
      Written exponent (first :: '.' :: (more ++ exponentText exponent))

namespace Decimal

/-- No digits before the point are written as a zero. -/
theorem positional_zero {exponent : Int} {fraction : List Char} (h : ∀ c ∈ fraction, c.isDigit = true) :
    Written exponent ('0' :: '.' :: fraction) :=
  .positional (List.cons_ne_nil _ _) (List.forall_mem_singleton.mpr rfl) h

/-- The text of a decimal has one of the shapes. -/
theorem layout_written (d : Decimal) : Written (digitCount d.coefficient + d.exponent - 1) d.layout := by
  have hdigits : ∀ c ∈ d.significant, c.isDigit = true := fun c hc => isDigit_of_mem_significant hc
  unfold layout
  generalize d.significant = digits at hdigits
  dsimp only
  split
  next => exact positional_zero (List.forall_mem_singleton.mpr rfl)
  next hsome =>
    have hne : digits ≠ [] := by simpa using hsome
    split
    next =>
      split
      next =>
        refine positional_zero fun c hc => ?_
        rcases List.mem_append.mp hc with hc | hc
        · exact isDigit_of_mem_zeros c hc
        · exact hdigits c hc
      next hwhole =>
        refine .positional (fun hnil => ?_) (fun c hc => ?_) fun c hc => ?_
        · have htake := (List.append_eq_nil_iff.mp hnil).1
          rcases List.take_eq_nil_iff.mp htake with h | h
          · omega
          · exact hne h
        · rcases List.mem_append.mp hc with hc | hc
          · exact hdigits c (List.mem_of_mem_take hc)
          · exact isDigit_of_mem_zeros c hc
        · split at hc
          · exact isDigit_of_mem_zeros (n := 1) c hc
          · exact hdigits c (List.mem_of_mem_drop hc)
    next =>
      obtain ⟨first, more, rfl⟩ := List.exists_cons_of_ne_nil hne
      have hfirst : first.isDigit = true := hdigits first List.mem_cons_self
      simp only [List.take_succ_cons, List.take_zero, List.drop_succ_cons, List.drop_zero, List.length_cons]
      cases more with
      | nil => exact .oneDigit hfirst
      | cons second more => exact .moreDigits hfirst fun c hc => hdigits c (List.mem_cons_of_mem _ hc)

/-- The exponent part of scientific text: the letter, a sign and digits, one more than the exponent has at most. -/
theorem exists_exponentText (exponent : Int) :
    ∃ sign digits, exponentText exponent = 'e' :: sign :: digits ∧ sign ∈ ['+', '-'] ∧ digits ≠ [] ∧
      (∀ c ∈ digits, c.isDigit = true) ∧ Reading.valueOf digits = exponent.natAbs ∧
      digits.length ≤ digitCount exponent.natAbs + 1 := by
  have hdigits : ∀ c ∈ Nat.toDigits 10 exponent.natAbs, c.isDigit = true :=
    fun c hc => Nat.isDigit_of_mem_toDigits (by decide) (by decide) hc
  refine ⟨_, _, rfl, by split <;> decide, ?_⟩
  split
  next =>
    refine ⟨List.cons_ne_nil _ _, List.forall_mem_cons.mpr ⟨rfl, hdigits⟩, ?_, Nat.le_refl _⟩
    exact (valueOf_zeros_append 1 _).trans (valueOf_toDigits _)
  next => exact ⟨Nat.toDigits_ne_nil, hdigits, valueOf_toDigits _, Nat.le_succ _⟩

end Decimal

/-- A finite magnitude that is written without an exponent is the number that the digits around the point spell. -/
theorem Binary.toBinary_pointed {f : Format} (hf : 0 < f.fractionBits) {code : Nat} (hcode : code ≤ f.infinity)
    (hfinite : code ≠ f.infinity) {whole fraction : List Char} (hne : whole ≠ []) (hwhole : ∀ c ∈ whole, c.isDigit = true)
    (hfraction : ∀ c ∈ fraction, c.isDigit = true) (htext : (f.shortest code).layout = whole ++ '.' :: fraction) :
    (Reading.pointed whole fraction).toBinary f false = .signed false code hcode := by
  have hpoint := Decimal.ofText?_point hwhole hne hfraction
  have hinfinity : whole ++ '.' :: fraction ≠ ['i', 'n', 'f'] := by
    intro heq
    rw [heq] at hpoint
    cases hpoint
  have hpointed : Decimal.scaled whole fraction 0 = Reading.pointed whole fraction := by
    unfold Decimal.scaled Reading.pointed
    rw [Int.zero_sub]
  have hread := magnitudeOf?_text hf false hcode
  rw [if_neg hfinite, htext] at hread
  unfold magnitudeOf? at hread
  rw [if_neg hinfinity, hpoint, hpointed] at hread
  exact Option.some.inj hread

namespace Format

variable {f : Format}

/-- A candidate stands on its grid, and is at most the point above the decimal it stands for. -/
theorem bounds_of_candidate? {code places : Nat} {value d : Decimal} (h : f.candidate? code value places = some d) :
    d.exponent = value.exponent + places ∧ d.coefficient ≤ value.coefficient + 1 := by
  have hbelow : (value.truncate places).coefficient ≤ value.coefficient := Nat.div_le_self _ _
  have hpoint : ∀ d', d' = value.truncate places ∨ d' = (value.truncate places).next →
      d'.exponent = value.exponent + places ∧ d'.coefficient ≤ value.coefficient + 1 := by
    rintro d' (rfl | rfl)
    · exact ⟨rfl, Nat.le_succ_of_le hbelow⟩
    · exact ⟨rfl, Nat.succ_le_succ hbelow⟩
  unfold candidate? at h
  dsimp only at h
  split at h
  next => exact Option.some.inj h ▸ hpoint _ (value.round_eq_or places)
  next => exact Option.some.inj h ▸ hpoint _ (Or.inl rfl)
  next => exact Option.some.inj h ▸ hpoint _ (Or.inr rfl)
  next => cases h

/-- The shortest decimal of a magnitude in terms of its exact decimal. -/
theorem shortest_bounds (f : Format) (code : Nat) :
    -(f.scale : Int) ≤ (f.shortest code).exponent ∧
      (f.shortest code).exponent ≤ digitCount (f.exact code).coefficient - f.scale ∧
      (f.shortest code).coefficient ≤ (f.exact code).coefficient + 1 := by
  have hexponent : (f.exact code).exponent = -f.scale := rfl
  unfold shortest
  dsimp only
  cases hfind : (List.range' 1 17).findSome? fun kept =>
      f.candidate? code (f.exact code) (digitCount (f.exact code).coefficient - kept) with
  | none =>
    rw [Option.getD_none, hexponent]
    omega
  | some d =>
    obtain ⟨kept, _, hcandidate⟩ := List.exists_of_findSome?_eq_some hfind
    obtain ⟨hplaces, hle⟩ := bounds_of_candidate? hcandidate
    rw [Option.getD_some]
    omega

/-- The exact decimal of a magnitude is no greater than a power of ten. -/
theorem coefficient_exact_le (f : Format) (h : 0 < f.exponentBits) {code : Nat} (hcode : code ≤ f.infinity) :
    (f.exact code).coefficient ≤ 10 ^ (f.fractionBits + (2 ^ f.exponentBits - 2) + f.scale) := by
  calc f.units code * 5 ^ f.scale ≤ f.units f.infinity * 5 ^ f.scale :=
        Nat.mul_le_mul_right _ (f.units_strictMono.monotone hcode)
    _ = 2 ^ (f.fractionBits + (2 ^ f.exponentBits - 2)) * 5 ^ f.scale := by rw [units_infinity h]
    _ ≤ 10 ^ (f.fractionBits + (2 ^ f.exponentBits - 2)) * 10 ^ f.scale :=
        Nat.mul_le_mul (Nat.pow_le_pow_left (by decide) _) (Nat.pow_le_pow_left (by decide) _)
    _ = 10 ^ (f.fractionBits + (2 ^ f.exponentBits - 2) + f.scale) := (Nat.pow_add 10 _ _).symm

/-- The exponent that a magnitude is written with is no greater than the format is wide. -/
theorem natAbs_exponent_le (h : 0 < f.exponentBits) {code : Nat} (hcode : code ≤ f.infinity) :
    (digitCount (f.shortest code).coefficient + (f.shortest code).exponent - 1).natAbs ≤
      2 * (f.fractionBits + (2 ^ f.exponentBits - 2) + f.scale) + 1 := by
  have hexact := f.coefficient_exact_le h hcode
  obtain ⟨hlow, hhigh, hcoefficient⟩ := f.shortest_bounds code
  have hscale : f.scale ≤ f.fractionBits + (2 ^ f.exponentBits - 2) + f.scale := Nat.le_add_left _ _
  generalize f.fractionBits + (2 ^ f.exponentBits - 2) + f.scale = places at hexact hscale ⊢
  have hpower : 10 ^ places + 1 < 10 ^ (places + 1) := by
    have := Nat.pow_pos (n := places) (show 0 < 10 by decide)
    rw [Nat.pow_succ]
    omega
  -- Rounding up to a grid point may carry over to one more digit.
  have hcount : digitCount (f.exact code).coefficient ≤ places + 1 := digitCount_le (Nat.succ_pos _) (by omega)
  have hcount' : digitCount (f.shortest code).coefficient ≤ places + 1 := digitCount_le (Nat.succ_pos _) (by omega)
  omega

end Format

/-- The exponent that a 64-bit number is written with fits in 31 bits. -/
theorem Double.natAbs_exponent_le {code : Nat} (hcode : code ≤ Format.double.infinity) :
    (digitCount (Format.double.shortest code).coefficient + (Format.double.shortest code).exponent - 1).natAbs ≤
      2 ^ 31 - 1 :=
  Nat.le_trans (Format.natAbs_exponent_le (f := .double) (by decide) hcode) (by decide)

end TinyScript
