import TinyScript.Proofs.Number.PowerOfTwo

/-!
# How short the text of a 32-bit number is

A 32-bit number is written with the fewest digits of which the nearest decimal reads as it. Where the number is no power of two,
the decimals that read as it reach as far below it as above it, and so the nearest one of a number of digits is among them if any
is (`Single.Digits.le_length_of_inside`). At a power of two they reach half as far down, and yet the nearest one is among them
but for three numbers (`PowerOfTwo.exists_settled`). So the text of every other number has as few digits as any numeral that
reads as it (`Single.text_fewest_iff`).
-/

namespace TinyScript

namespace Single

variable {negative : Bool} {code kept : Nat} {hcode : code ≤ Format.single.infinity}

/-- The nearest decimal of a number of digits to a 32-bit number. -/
abbrev nearest (code kept : Nat) : Decimal := Format.double.written (Format.single.recode .double code) kept

/-- A decimal reads as a number of its sign if it is narrowed to the code. -/
theorem toSingle_toBinary_iff {d : Decimal} :
    Double.toSingle (d.toBinary .double negative) = .signed negative code hcode ↔
      Format.double.narrowed .single d.num d.den = code := by
  have hnarrow : Double.toSingle (d.toBinary .double negative) =
      .signed negative (Format.double.narrowed .single d.num d.den) (Format.narrowed_le_infinity _ _ _ _) :=
    Binary.narrow_signed Format.single_wider_double _
  rw [hnarrow]
  simp

/-- The digits of a finite number read as it. -/
theorem Digits.narrowed_written (h : Digits negative code hcode kept) :
    Format.double.narrowed .single (nearest code kept).num (nearest code kept).den = code :=
  toSingle_toBinary_iff.mp h.narrowed

/-- The nearest decimals of fewer digits do not read as a number. -/
theorem Digits.narrowed_written_ne (h : Digits negative code hcode kept) {fewer : Nat} (hpos : 1 ≤ fewer)
    (hfewer : fewer < kept) :
    Format.double.narrowed .single (nearest code fewer).num (nearest code fewer).den ≠ code :=
  fun hread => h.fewest fewer hpos hfewer (toSingle_toBinary_iff.mpr hread)

/-- A number is written with as many digits whatever its sign. -/
theorem Digits.unique {negative' : Bool} {kept' : Nat} (h : Digits negative code hcode kept)
    (h' : Digits negative' code hcode kept') : kept = kept' := by
  rcases Nat.lt_trichotomy kept kept' with hlt | heq | hgt
  · exact absurd h.narrowed_written (h'.narrowed_written_ne h.pos hlt)
  · exact heq
  · exact absurd h'.narrowed_written (h.narrowed_written_ne h'.pos hgt)

/-! ## The digits of the exact decimal -/

/-- A power of ten that a number is not below has fewer digits than the number. -/
theorem lt_digitCount {n places : Nat} (h : 10 ^ places ≤ n) : places < digitCount n :=
  (Nat.pow_lt_pow_iff_right (by decide)).mp (Nat.lt_of_le_of_lt h (lt_pow_digitCount n))

/-- The exact decimal of a 64-bit number other than zero is large. -/
theorem pow_le_coefficient {wide : Nat} (hpos : 0 < wide) : 10 ^ 9 ≤ (Format.double.exact wide).coefficient := by
  have hunits : 0 < Format.double.units wide := Nat.lt_of_le_of_lt (Nat.zero_le _) (Format.units_strictMono _ hpos)
  calc 10 ^ 9 ≤ 5 ^ 13 := by decide
    _ ≤ 5 ^ Format.double.scale := Nat.pow_le_pow_right (by decide) (by decide)
    _ ≤ Format.double.units wide * 5 ^ Format.double.scale := Nat.le_mul_of_pos_left _ hunits

/-- The exact decimal of a 64-bit number other than zero is not zero. -/
theorem coefficient_exact_pos {wide : Nat} (hpos : 0 < wide) : 0 < (Format.double.exact wide).coefficient :=
  Nat.lt_of_lt_of_le (by decide) (pow_le_coefficient hpos)

/-- The exact decimal of a 64-bit number other than zero has as many digits as are ever printed. -/
theorem le_digitCount_exact {wide count : Nat} (hpos : 0 < wide) (hcount : count ≤ 9) :
    count ≤ digitCount (Format.double.exact wide).coefficient :=
  Nat.le_of_lt (Nat.lt_of_le_of_lt (Nat.le_trans hcount (by decide)) (lt_digitCount (pow_le_coefficient hpos)))

/-- A number other than zero is widened to one. -/
theorem recode_pos (hpos : 0 < code) (hfinite : code < Format.single.infinity) : 0 < Format.single.recode .double code := by
  apply Nat.pos_of_ne_zero
  intro hzero
  have hunits := (Format.single_wider_double.units_widened hfinite).2
  have hsome := Nat.mul_pos (Nat.lt_of_le_of_lt (Nat.zero_le _) (Format.units_strictMono .single hpos))
    (Nat.two_pow_pos (Format.double.scale - Format.single.scale))
  rw [hzero, Format.units_zero] at hunits
  omega

/-! ## What is printed -/

/-- The numeral of a number that is written with so many digits. -/
def numeral (code kept : Nat) : List Char :=
  (Format.double.shortest (Format.double.round (nearest code kept).num (nearest code kept).den)).layout

/-- A finite number is written as a sign and its numeral. -/
theorem Digits.text_eq_numeral (h : Digits negative code hcode kept) (hfinite : code < Format.single.infinity) :
    text (.signed negative code hcode) = signText negative ++ numeral code kept := by
  have hwide : Format.double.round (nearest code kept).num (nearest code kept).den ≠ Format.double.infinity := by
    intro hinfinity
    have hnarrow := h.narrowed_written
    rw [Format.narrowed, hinfinity, Format.single_wider_double.recode_infinity] at hnarrow
    omega
  rw [h.text_eq]
  exact congrArg (signText negative ++ ·) (if_neg hwide)

/-- The numeral of a number reads as it, and has no more digits than it is written with. -/
theorem Digits.exists_printed (h : Digits negative code hcode kept) (hpos : 0 < code) :
    ∃ printed, Decimal.ofText? (numeral code kept) = some printed ∧
      Format.double.narrowed .single printed.num printed.den = code ∧ printed.significant.length ≤ kept := by
  have hnarrow := h.narrowed_written
  have hdigits : (nearest code kept).significant.length ≤ kept := Format.length_significant_written _ _ h.pos
  have hle := Format.double.round_le_infinity (nearest code kept).num (nearest code kept).den
  unfold numeral
  generalize nearest code kept = d at *
  generalize hwide : Format.double.round d.num d.den = wide at *
  obtain ⟨printed, hread, hvalue⟩ := (Format.double.shortest wide).ofText?_layout
  have hback : Format.double.round printed.num printed.den = wide :=
    (Format.round_congr (by decide) printed.den_pos (Decimal.den_pos _) hvalue).trans
      (Format.readsBack_iff.mp (Format.readsBack_shortest (by decide) hle))
  rw [Format.narrowed, hwide] at hnarrow
  have hsome : 0 < wide := by
    apply Nat.pos_of_ne_zero
    rintro rfl
    rw [Format.recode_zero] at hnarrow
    omega
  refine ⟨printed, hread, by rw [Format.narrowed, hback, hnarrow], ?_⟩
  rw [hvalue.length_significant_eq]
  exact Format.length_significant_shortest (by decide) hle (coefficient_exact_pos hsome) h.pos
    (Nat.le_trans h.le_nine (by decide)) (le_digitCount_exact hsome h.le_nine) hdigits hwide

/-! ## Numerals of fewer digits -/

/-- What the value of a number has to do with powers of two: it lies between two of them, or is one. -/
theorem inside_or_powerOfTwo (hpos : 0 < code) (hfinite : code < Format.single.infinity) :
    (∃ shift place bits, code = shift * 2 ^ 23 + place ∧ 2 ^ bits < place ∧ place < 2 ^ (bits + 1) ∧ place < 2 ^ 24 ∧
      (shift = 0 ∨ 2 ^ 23 ≤ place)) ∨
    ∃ index < 277, code = PowerOfTwo.code index := by
  obtain ⟨shift, place, rfl, hplace, hlow⟩ := Format.single.exists_shift code
  have hsome : place ≠ 0 := by
    rintro rfl
    rcases hlow with rfl | hle
    · simp at hpos
    · exact absurd hle (by decide)
  rcases Nat.eq_or_lt_of_le (Nat.log2_self_le hsome) with hpower | hinside
  · right
    have hcode : shift * 2 ^ Format.single.fractionBits + place = PowerOfTwo.code (place.log2 + shift) := by
      apply Format.single.units_strictMono.injective
      rw [Format.units_shift (Nat.le_of_lt hplace) hlow, PowerOfTwo.units_code, Nat.pow_add, hpower]
    refine ⟨place.log2 + shift, ?_, hcode⟩
    have hless := Format.single.units_strictMono hfinite
    rw [hcode, PowerOfTwo.units_code, Format.units_infinity (by decide)] at hless
    have hbits := (Nat.pow_lt_pow_iff_right (by decide)).mp hless
    exact hbits
  · exact Or.inl ⟨shift, place, place.log2, rfl, hinside, Nat.lt_log2_self, hplace, hlow⟩

/-- No decimal of fewer digits reads as a number that is no power of two. -/
theorem Digits.le_length_of_inside {shift place bits : Nat} (h : Digits negative code hcode kept)
    (hfinite : code < Format.single.infinity) (heq : code = shift * 2 ^ 23 + place) (hlow : 2 ^ bits < place)
    (hhigh : place < 2 ^ (bits + 1)) (hplace : place < 2 ^ 24) (hnormal : shift = 0 ∨ 2 ^ 23 ≤ place) {d : Decimal}
    (hd : Format.double.narrowed .single d.num d.den = code) : kept ≤ d.significant.length := by
  have hpos : 0 < code := by omega
  have hsome : 1 ≤ d.significant.length := Format.single_wider_double.significant_pos (hd ▸ hpos)
  have hwide := recode_pos hpos hfinite
  apply Nat.le_of_not_lt
  intro hfew
  -- The nearest decimal of so many digits is at least as near, and so it reads as the number too.
  have hnear := Decimal.distance_round_le (coefficient_exact_pos hwide) hsome
    (le_digitCount_exact hwide (Nat.le_trans (Nat.le_of_lt hfew) h.le_nine)) (Nat.le_refl d.significant.length)
  rw [Format.value_exact, Format.single_wider_double.value_widened hfinite] at hnear
  refine h.narrowed_written_ne hsome hfew ?_
  subst heq
  exact Format.single_wider_double.narrowed_eq_of_nearer (by decide) hlow hhigh hplace hnormal hfinite d.den_pos
    (Decimal.den_pos _) hd hnear

/-- No decimal of fewer digits reads as a power of two, but for three of them. -/
theorem Digits.le_length_of_powerOfTwo {index : Nat} (h : Digits negative code hcode kept) (hindex : index < 277)
    (hmem : index ∉ [53, 236, 239]) (heq : code = PowerOfTwo.code index) {d : Decimal}
    (hd : Format.double.narrowed .single d.num d.den = code) : kept ≤ d.significant.length := by
  obtain ⟨count, hcount, hnone, hnearest⟩ := PowerOfTwo.exists_settled hindex hmem
  subst heq
  have hkept : kept ≤ count + 1 := by
    apply Nat.le_of_not_lt
    intro hlt
    exact h.narrowed_written_ne (Nat.succ_pos count) hlt hnearest
  exact Nat.le_trans hkept (hnone d hd)

/-! ## The three exceptions -/

/-- Three values are those of powers of two that are written with one digit too many. -/
theorem value_mem_iff :
    Format.single.value code ∈ [2 ^ 87, 2 ^ 90, 1 / 2 ^ 96] ↔ ∃ index ∈ [53, 236, 239], code = PowerOfTwo.code index := by
  have hvalue : ∀ index, Format.single.value (PowerOfTwo.code index) = 2 ^ index / 2 ^ 149 := by
    intro index
    rw [Format.value, PowerOfTwo.units_code]
    push_cast
    rfl
  have hfirst : (1 / 2 ^ 96 : ℚ) = Format.single.value (PowerOfTwo.code 53) := by rw [hvalue]; norm_num
  have hsecond : (2 ^ 87 : ℚ) = Format.single.value (PowerOfTwo.code 236) := by rw [hvalue]; norm_num
  have hthird : (2 ^ 90 : ℚ) = Format.single.value (PowerOfTwo.code 239) := by rw [hvalue]; norm_num
  rw [hfirst, hsecond, hthird]
  simp only [List.mem_cons, List.not_mem_nil, or_false, exists_eq_or_imp, exists_eq_left,
    Format.single.value_strictMono.injective.eq_iff]
  tauto

/-- These have numerals of eight digits that read as them, and are written with nine. -/
theorem exists_fewer {index : Nat} (h : index ∈ [53, 236, 239]) :
    ∃ printed d : Decimal,
      (∀ hcode, Decimal.ofText? (text (.signed false (PowerOfTwo.code index) hcode)) = some printed) ∧
      Format.double.narrowed .single d.num d.den = PowerOfTwo.code index ∧
      d.significant.length < printed.significant.length := by
  simp only [List.mem_cons, List.not_mem_nil, or_false] at h
  rcases h with rfl | rfl | rfl
  · exact ⟨⟨126217745, -37⟩, ⟨12621775, -36⟩, by decide +kernel⟩
  · exact ⟨⟨154742505, 18⟩, ⟨15474251, 19⟩, by decide +kernel⟩
  · exact ⟨⟨123794004, 19⟩, ⟨12379401, 20⟩, by decide +kernel⟩

/-- Whatever their sign, a numeral of fewer digits than theirs reads as them. -/
theorem Digits.exists_fewer {index : Nat} {hcode : PowerOfTwo.code index ≤ Format.single.infinity}
    (h : Digits negative (PowerOfTwo.code index) hcode kept) (hfinite : PowerOfTwo.code index < Format.single.infinity)
    (hindex : index ∈ [53, 236, 239]) {printed : Decimal}
    (hprinted : Decimal.ofText? (numeral (PowerOfTwo.code index) kept) = some printed) :
    ∃ d : Decimal, Format.double.narrowed .single d.num d.den = PowerOfTwo.code index ∧
      d.significant.length < printed.significant.length := by
  obtain ⟨kept', hkept'⟩ := exists_digits false hcode hfinite
  obtain ⟨unsigned, d, hread, hd, hfewer⟩ := Single.exists_fewer hindex
  -- Without a sign the numeral is the same.
  have hsame := hread hcode
  have hsign : signText false = [] := rfl
  rw [hkept'.text_eq_numeral hfinite, hsign, List.nil_append, ← h.unique hkept', hprinted] at hsame
  obtain rfl := Option.some.inj hsame
  exact ⟨d, hd, hfewer⟩

/-- No decimal of fewer digits reads as any other number. -/
theorem Digits.le_length (h : Digits negative code hcode kept) (hpos : 0 < code) (hfinite : code < Format.single.infinity)
    (hother : ¬ ∃ index ∈ [53, 236, 239], code = PowerOfTwo.code index) {d : Decimal}
    (hd : Format.double.narrowed .single d.num d.den = code) : kept ≤ d.significant.length := by
  rcases inside_or_powerOfTwo hpos hfinite with hinside | ⟨index, hindex, heq⟩
  · obtain ⟨shift, place, bits, heq, hlow, hhigh, hplace, hnormal⟩ := hinside
    exact h.le_length_of_inside hfinite heq hlow hhigh hplace hnormal hd
  · exact h.le_length_of_powerOfTwo hindex (fun hmem => hother ⟨index, hmem, heq⟩) heq hd

/-- A finite number is written as a sign and a numeral that reads as it, and no numeral of fewer digits does, unless its
magnitude is one of three powers of two. -/
theorem text_fewest_iff (negative : Bool) (hcode : code ≤ Format.single.infinity) (hfinite : code ≠ Format.single.infinity) :
    ∃ numeral printed, text (.signed negative code hcode) = signText negative ++ numeral ∧
      Decimal.ofText? numeral = some printed ∧
      Double.toSingle (printed.toBinary .double negative) = .signed negative code hcode ∧
      ((∀ d : Decimal, Double.toSingle (d.toBinary .double negative) = .signed negative code hcode →
          printed.significant.length ≤ d.significant.length) ↔
        Format.single.value code ∉ [2 ^ 87, 2 ^ 90, 1 / 2 ^ 96]) := by
  simp only [toSingle_toBinary_iff, value_mem_iff]
  rcases Nat.eq_zero_or_pos code with rfl | hpos
  · refine ⟨['0', '.', '0'], Decimal.scaled ['0'] ['0'] 0, ?_, rfl, by decide +kernel, ?_⟩
    · revert hcode
      cases negative <;> decide +kernel
    · have hnone : (Decimal.scaled ['0'] ['0'] 0).significant.length = 0 := by decide +kernel
      have hpower : ∀ index ∈ [53, 236, 239], 0 ≠ PowerOfTwo.code index := by decide
      rw [hnone]
      constructor
      · rintro - ⟨index, hindex, hzero⟩
        exact hpower index hindex hzero
      · exact fun _ d _ => Nat.zero_le _
  · have hless := Nat.lt_of_le_of_ne hcode hfinite
    obtain ⟨kept, hkept⟩ := exists_digits negative hcode hless
    obtain ⟨printed, hread, hnarrow, hfew⟩ := hkept.exists_printed hpos
    refine ⟨numeral code kept, printed, hkept.text_eq_numeral hless, hread, hnarrow, ⟨?_, fun hother d hd => ?_⟩⟩
    · rintro hfewest ⟨index, hindex, rfl⟩
      obtain ⟨d, hd, hfewer⟩ := hkept.exists_fewer hless hindex hread
      exact absurd (hfewest d hd) (Nat.not_le_of_lt hfewer)
    · exact Nat.le_trans hfew (hkept.le_length hpos hless hother hd)

/-- The number that minus one tenth reads as is written with the fewest digits. -/
theorem text_fewest_tenth :
    let x : Single := .signed true 1036831949 (by decide)
    1036831949 ≠ Format.single.infinity ∧ ∃ numeral printed, x.text = '-' :: numeral ∧
      Decimal.ofText? numeral = some printed ∧ ∀ d : Decimal, Double.toSingle (d.toBinary .double true) = x →
        printed.significant.length ≤ d.significant.length := by
  intro x
  have hcode : 1036831949 ≤ Format.single.infinity := by decide
  have hfinite : 1036831949 ≠ Format.single.infinity := by decide
  obtain ⟨numeral, printed, htext, hread, -, hfewest⟩ := text_fewest_iff true hcode hfinite
  refine ⟨hfinite, numeral, printed, htext, hread, hfewest.mpr ?_⟩
  rw [value_mem_iff]
  rintro ⟨index, hindex, heq⟩
  exact absurd heq (by revert index; decide)

/-- Two to the power of 90 is written with nine digits, but a numeral of eight digits reads as it too. -/
theorem text_not_fewest :
    let x : Single := .signed false (217 * 2 ^ 23) (by decide)
    x.text = "1.23794004e+27".toList ∧
      ∃ printed d : Decimal, Decimal.ofText? x.text = some printed ∧ Decimal.ofText? "1.2379401e+27".toList = some d ∧
        Double.toSingle (d.toBinary .double false) = x ∧ d.significant.length < printed.significant.length := by
  intro x
  have htext : x.text = "1.23794004e+27".toList := by decide +kernel
  have hread : Decimal.ofText? "1.23794004e+27".toList = some ⟨123794004, 19⟩ := by decide
  have hfewer : Decimal.ofText? "1.2379401e+27".toList = some ⟨12379401, 20⟩ := by decide
  refine ⟨htext, ⟨123794004, 19⟩, ⟨12379401, 20⟩, htext ▸ hread, hfewer, ?_, by decide⟩
  exact toSingle_toBinary_iff.mpr (by decide +kernel)

end Single

end TinyScript
