import TinyScript.Proofs.Number.Numeral
import TinyScript.Proofs.Number.Widening
import TinyScript.Token

/-!
# Printed numbers read back

A number is printed by a text that reads as it in its own format (`Binary.ofText?_text`). A 32-bit number is printed by the
text of some 64-bit number that is narrowed to it: nine digits are always enough for that (`Format.Wider.recode_written`), so
the search in `Double.singleText` ends with digits that fit (`Single.exists_digits`).

So the text of a 32-bit number reads back (`Single.exists_text_eq`), and the number can be told from it
(`Single.text_injective`).
-/

namespace TinyScript

/-! ## Reading numbers -/

/-- The number of a format that a text without a sign spells. -/
def Binary.magnitudeOf? (f : Format) (negative : Bool) (text : List Char) : Option (Binary f) :=
  if text = ['i', 'n', 'f'] then some (infinity f negative) else (Decimal.ofText? text).map (Decimal.toBinary f negative)

/-- The number of a format that a text spells. -/
def Binary.ofText? (f : Format) : List Char → Option (Binary f)
  | '-' :: rest => magnitudeOf? f true rest
  | text => if text = ['n', 'a', 'n'] then some .nan else magnitudeOf? f false text

namespace Format

variable {f g : Format}

/-! ## The shortest decimal -/

/-- The exact decimal of a magnitude rounds to it. -/
theorem readsBack_exact (hf : 0 < f.fractionBits) {code : Nat} (hcode : code ≤ f.infinity) :
    f.readsBack code (f.exact code) = true := by
  have hnum : (f.exact code).num = f.units code * 5 ^ f.scale := by
    have hexponent : (f.exact code).exponent.toNat = 0 := by
      unfold exact
      dsimp only
      omega
    unfold Decimal.num
    rw [hexponent, Nat.pow_zero, Nat.mul_one]
    rfl
  have hden : (f.exact code).den = 2 ^ f.scale * 5 ^ f.scale := by
    have hexponent : (-(f.exact code).exponent).toNat = f.scale := by
      unfold exact
      dsimp only
      omega
    unfold Decimal.den
    rw [hexponent, ← Nat.mul_pow]
  have hround : f.round (f.exact code).num (f.exact code).den = code := by
    conv_rhs => rw [← round_units hf hcode]
    apply round_congr hf (Decimal.den_pos _) (Nat.two_pow_pos _)
    rw [hnum, hden, Nat.mul_assoc, Nat.mul_comm (5 ^ f.scale)]
  unfold readsBack
  rw [hround]
  exact beq_self_eq_true code

/-- A candidate reads back. -/
theorem readsBack_of_candidate? {code places : Nat} {value d : Decimal} (h : f.candidate? code value places = some d) :
    f.readsBack code d = true := by
  unfold candidate? at h
  dsimp only at h
  split at h
  next hbelow habove =>
    obtain rfl := Option.some.inj h
    rcases value.round_eq_or places with heq | heq
    · rwa [heq]
    · rwa [heq]
  next hbelow _ => exact Option.some.inj h ▸ hbelow
  next _ habove => exact Option.some.inj h ▸ habove
  next => cases h

/-- The shortest decimal of a magnitude rounds to it. -/
theorem readsBack_shortest (hf : 0 < f.fractionBits) {code : Nat} (hcode : code ≤ f.infinity) :
    f.readsBack code (f.shortest code) = true := by
  unfold shortest
  dsimp only
  cases hfind : (List.range' 1 17).findSome? fun kept =>
      f.candidate? code (f.exact code) (digitCount (f.exact code).coefficient - kept) with
  | none => exact readsBack_exact hf hcode
  | some d =>
    obtain ⟨kept, _, hcandidate⟩ := List.exists_of_findSome?_eq_some hfind
    exact readsBack_of_candidate? hcandidate

end Format

/-- A decimal is rounded to the magnitude that it reads back as. -/
theorem Format.readsBack_iff {f : Format} {code : Nat} {d : Decimal} :
    f.readsBack code d = true ↔ f.round d.num d.den = code := by
  unfold readsBack
  exact beq_iff_eq

/-- The text of a magnitude is read as it. -/
theorem Binary.magnitudeOf?_text {f : Format} (hf : 0 < f.fractionBits) (negative : Bool) {code : Nat}
    (hcode : code ≤ f.infinity) :
    magnitudeOf? f negative (if code = f.infinity then ['i', 'n', 'f'] else (f.shortest code).layout) =
      some (signed negative code hcode) := by
  split
  next hinfinity =>
    subst hinfinity
    rfl
  next hfinite =>
    obtain ⟨d, hread, hvalue⟩ := (f.shortest code).ofText?_layout
    have htext : (f.shortest code).layout ≠ ['i', 'n', 'f'] := by
      intro heq
      rw [heq] at hread
      cases hread
    have hround : f.round d.num d.den = code := by
      rw [← Format.readsBack_iff.mp (Format.readsBack_shortest hf hcode)]
      exact Format.round_congr hf (Decimal.den_pos _) (Decimal.den_pos _) hvalue
    unfold magnitudeOf?
    rw [if_neg htext, hread, Option.map_some]
    unfold Decimal.toBinary ofQuotient
    simp only [hround]

/-- A sign before a magnitude is read as a sign. -/
theorem Binary.ofText?_sign {f : Format} {negative : Bool} {digits : List Char} {x : Binary f}
    (h : magnitudeOf? f negative digits = some x) : ofText? f (signText negative ++ digits) = some x := by
  cases negative with
  | true => exact h
  | false =>
    have hsign : ∀ rest, digits ≠ '-' :: rest := by
      rintro rest rfl
      cases h
    have hnan : digits ≠ ['n', 'a', 'n'] := by
      rintro rfl
      cases h
    have hplain : signText false ++ digits = digits := rfl
    rw [hplain]
    unfold ofText?
    split
    next rest => exact absurd rfl (hsign rest)
    next => rw [if_neg hnan, h]

/-- A number is read from its text. -/
theorem Binary.ofText?_text {f : Format} (hf : 0 < f.fractionBits) (x : Binary f) : ofText? f x.text = some x := by
  cases x with
  | nan => rfl
  | signed negative code hcode => exact ofText?_sign (magnitudeOf?_text hf negative hcode)

/-- Numbers of one text are the same. -/
theorem Binary.text_injective {f : Format} (hf : 0 < f.fractionBits) {x y : Binary f} (h : x.text = y.text) : x = y := by
  have hread := ofText?_text hf x
  rw [h, ofText?_text hf y] at hread
  exact (Option.some.inj hread).symm

/-- A text of a number has no other characters than those of numbers. -/
theorem Binary.not_mem_text {f : Format} (hf : 0 < f.fractionBits) {c : Char} (hdigit : c.isDigit = false)
    (hc : c ∉ ['.', 'e', '+', '-', 'i', 'n', 'f', 'a']) (x : Binary f) : c ∉ x.text := by
  simp only [List.mem_cons, List.not_mem_nil, or_false, not_or] at hc
  obtain ⟨hpoint, he, hplus, hminus, hi, hn, hf', ha⟩ := hc
  intro hmem
  cases x with
  | nan =>
    have hnan : c ∉ ['n', 'a', 'n'] := by simp [hn, ha]
    exact hnan hmem
  | signed negative code hcode =>
    have hread := magnitudeOf?_text hf negative hcode
    rcases List.mem_append.mp hmem with hmem | hmem
    · cases negative
      · cases hmem
      · exact hminus (List.mem_singleton.mp hmem)
    · generalize (if code = f.infinity then ['i', 'n', 'f'] else (f.shortest code).layout) = digits at hread hmem
      unfold magnitudeOf? at hread
      split at hread
      next hinfinity =>
        have hinf : c ∉ ['i', 'n', 'f'] := by simp [hi, hn, hf']
        exact hinf (hinfinity ▸ hmem)
      next =>
        obtain ⟨d, hd, _⟩ := Option.map_eq_some_iff.mp hread
        rcases Decimal.mem_of_ofText? hd c hmem with hisDigit | hother
        · rw [hdigit] at hisDigit
          cases hisDigit
        · simp [hpoint, he, hplus, hminus] at hother

/-! ## Enough digits -/

/-- A number below a power of ten has no more digits than the power. -/
theorem digitCount_le {n places : Nat} (hplaces : 0 < places) (h : n < 10 ^ places) : digitCount n ≤ places :=
  (Nat.length_toDigits_le_iff (by decide) hplaces).mpr h

/-- A number is not below ten to the power of one less than its digit count. -/
theorem pow_digitCount_le {n : Nat} (hn : 0 < n) : 10 ^ (digitCount n - 1) ≤ n := by
  rcases Nat.eq_zero_or_pos (digitCount n - 1) with hone | hmore
  · rw [hone, Nat.pow_zero]
    exact hn
  · apply Nat.le_of_not_lt
    intro hlt
    have hle := (Nat.length_toDigits_le_iff (by decide) hmore).mpr hlt
    unfold digitCount at *
    omega

/-- A rounded quotient is within one half of the quotient. -/
theorem halfEven_near (num : Nat) {den : Nat} (hden : 0 < den) :
    2 * (halfEven num den * den) ≤ 2 * num + den ∧ 2 * num ≤ 2 * (halfEven num den * den) + den := by
  have hbelow := mt (lt_halfEven_iff hden (halfEven num den)).mpr (Nat.lt_irrefl _)
  have habove : ∀ k, k < halfEven num den → (2 * k + 1) * den < 2 * num ∨ ((2 * k + 1) * den = 2 * num ∧ k % 2 = 1) :=
    fun k => (lt_halfEven_iff hden k).mp
  generalize halfEven num den = near at hbelow habove
  constructor
  · cases near with
    | zero => omega
    | succ k =>
      have hk := habove k (Nat.lt_add_one k)
      have hexpand := two_mul_succ_mul k den
      have hsucc : (k + 1) * den = k * den + den := by rw [Nat.add_mul, Nat.one_mul]
      omega
  · have hexpand := two_mul_succ_mul near den
    omega

namespace Format

variable {f g : Format}

/-- The decimal of a number of digits nearest to a magnitude. -/
def written (f : Format) (code kept : Nat) : Decimal :=
  (f.exact code).round (digitCount (f.exact code).coefficient - kept)

/-- The numerator and the denominator of a written decimal, over the scale of the format. -/
theorem written_num_mul (f : Format) (code kept : Nat) :
    (f.written code kept).num * 10 ^ f.scale =
      halfEven (f.exact code).coefficient (10 ^ (digitCount (f.exact code).coefficient - kept)) *
        10 ^ (digitCount (f.exact code).coefficient - kept) * (f.written code kept).den := by
  apply Decimal.num_mul_pow
  unfold written Decimal.round exact
  dsimp only
  omega

/-- Zero is written as zero. -/
theorem round_written_zero (f : Format) (kept : Nat) : f.round (f.written 0 kept).num (f.written 0 kept).den = 0 := by
  have hzero : (f.written 0 kept).num = 0 := by
    unfold written Decimal.round exact Decimal.num
    dsimp only
    rw [units_zero, Nat.zero_mul]
    simp [halfEven]
  rw [hzero]
  exact f.round_zero_left _

/-- A number of tenths to the scale of the wider format comes back to a magnitude of the narrower one if it is at most half a
grid step away, and the magnitude has more grid steps than the narrower format has places in a binade. -/
theorem Wider.recode_near (h : Wider f g) {shift place coefficient decimal grid steps : Nat} (hpos : 0 < place)
    (hplace : place < 2 ^ (f.fractionBits + 1)) (hlow : shift = 0 ∨ 2 ^ f.fractionBits ≤ place)
    (hfinite : shift * 2 ^ f.fractionBits + place < f.infinity)
    (hcoefficient : coefficient = 8 * place * (2 ^ (shift + (g.scale - f.scale - 3)) * 5 ^ g.scale))
    (hsteps : 2 ^ (f.fractionBits + 3) ≤ steps) (hgrid : steps * grid ≤ coefficient)
    (habove : 2 * decimal ≤ 2 * coefficient + grid) (hbelow : 2 * coefficient ≤ 2 * decimal + grid) :
    g.recode f (g.round decimal (10 ^ g.scale)) = shift * 2 ^ f.fractionBits + place := by
  subst hcoefficient
  have hten : 10 ^ g.scale = 2 ^ g.scale * 5 ^ g.scale := by rw [← Nat.mul_pow]
  have hbits : 2 ^ (f.fractionBits + 3) = 4 * 2 ^ (f.fractionBits + 1) := by
    rw [Nat.pow_add 2 f.fractionBits 3, Nat.pow_succ]
    ring
  -- The grid step is less than two eighths of a step of the narrower format.
  have hfine : grid ≤ 2 * (2 ^ (shift + (g.scale - f.scale - 3)) * 5 ^ g.scale) := by
    generalize 2 ^ (shift + (g.scale - f.scale - 3)) * 5 ^ g.scale = eighth at hgrid ⊢
    apply Nat.le_of_mul_le_mul_left _ (Nat.lt_of_lt_of_le (Nat.two_pow_pos _) hsteps)
    calc steps * grid ≤ 8 * place * eighth := hgrid
      _ ≤ 8 * 2 ^ (f.fractionBits + 1) * eighth := Nat.mul_le_mul_right _ (by omega)
      _ = 2 ^ (f.fractionBits + 3) * (2 * eighth) := by rw [hbits]; ring
      _ ≤ steps * (2 * eighth) := Nat.mul_le_mul_right _ hsteps
  have hless : (8 * place - 1) * (2 ^ (shift + (g.scale - f.scale - 3)) * 5 ^ g.scale) +
      2 ^ (shift + (g.scale - f.scale - 3)) * 5 ^ g.scale =
      8 * place * (2 ^ (shift + (g.scale - f.scale - 3)) * 5 ^ g.scale) := by
    rw [← Nat.succ_mul]
    congr 1
    omega
  have hmore : (8 * place + 1) * (2 ^ (shift + (g.scale - f.scale - 3)) * 5 ^ g.scale) =
      8 * place * (2 ^ (shift + (g.scale - f.scale - 3)) * 5 ^ g.scale) +
        2 ^ (shift + (g.scale - f.scale - 3)) * 5 ^ g.scale := by rw [Nat.add_mul, Nat.one_mul]
  apply h.narrowed_round_eq (Nat.pow_pos (by decide)) hpos hplace hlow hfinite
  · calc (8 * place - 1) * 2 ^ (shift + (g.scale - f.scale - 3)) * 10 ^ g.scale
        = (8 * place - 1) * (2 ^ (shift + (g.scale - f.scale - 3)) * 5 ^ g.scale) * 2 ^ g.scale := by rw [hten]; ring
      _ ≤ decimal * 2 ^ g.scale := Nat.mul_le_mul_right _ (by omega)
  · calc decimal * 2 ^ g.scale
        ≤ (8 * place + 1) * (2 ^ (shift + (g.scale - f.scale - 3)) * 5 ^ g.scale) * 2 ^ g.scale :=
          Nat.mul_le_mul_right _ (by omega)
      _ = (8 * place + 1) * 2 ^ (shift + (g.scale - f.scale - 3)) * 10 ^ g.scale := by rw [hten]; ring

/-- The exact decimal of a widened magnitude, counted in eighths of a step of the narrower format. -/
theorem Wider.coefficient_exact (h : Wider f g) {shift place : Nat} (hplace : place < 2 ^ (f.fractionBits + 1))
    (hlow : shift = 0 ∨ 2 ^ f.fractionBits ≤ place) (hfinite : shift * 2 ^ f.fractionBits + place < f.infinity) :
    (g.exact (f.recode g (shift * 2 ^ f.fractionBits + place))).coefficient =
      8 * place * (2 ^ (shift + (g.scale - f.scale - 3)) * 5 ^ g.scale) := by
  have hscale := h.scale
  have hgap : g.scale - f.scale = 3 + (g.scale - f.scale - 3) := by omega
  unfold exact
  dsimp only
  rw [(h.units_widened hfinite).2, units_shift (Nat.le_of_lt hplace) hlow, Nat.pow_add 2 shift]
  conv_lhs => rw [hgap, Nat.pow_add]
  ring

/-- Where the digits are more than the bits of the narrower format, the nearest decimal of so many digits comes back to the
magnitude by way of the wider format. -/
theorem Wider.recode_written (h : Wider f g) {code kept : Nat} (hcode : code < f.infinity) (hkept : 0 < kept)
    (hdigits : 2 ^ (f.fractionBits + 3) ≤ 10 ^ (kept - 1)) (hexact : 10 ^ (kept - 1) ≤ 5 ^ g.scale) :
    g.recode f (g.round (g.written (f.recode g code) kept).num (g.written (f.recode g code) kept).den) = code := by
  rcases Nat.eq_zero_or_pos code with rfl | hpos
  · rw [recode_zero, round_written_zero, recode_zero]
  · obtain ⟨shift, place, rfl, hplace, hlow⟩ := f.exists_shift code
    have hplacePos : 0 < place := by
      rcases hlow with rfl | hle
      · omega
      · exact Nat.lt_of_lt_of_le (Nat.two_pow_pos _) hle
    have hcoefficient := h.coefficient_exact hplace hlow hcode
    have hwritten := g.written_num_mul (f.recode g (shift * 2 ^ f.fractionBits + place)) kept
    generalize g.written (f.recode g (shift * 2 ^ f.fractionBits + place)) kept = d at hwritten ⊢
    generalize (g.exact (f.recode g (shift * 2 ^ f.fractionBits + place))).coefficient = coefficient at hcoefficient hwritten
    rw [round_congr h.fraction_pos' d.den_pos (Nat.pow_pos (by decide)) hwritten]
    have hle : 5 ^ g.scale ≤ coefficient := by
      rw [hcoefficient, ← Nat.mul_assoc]
      exact Nat.le_mul_of_pos_left _ (Nat.mul_pos (by omega) (Nat.two_pow_pos _))
    have hcount := pow_digitCount_le (Nat.lt_of_lt_of_le (Nat.pow_pos (by decide)) hle)
    have henough : kept ≤ digitCount coefficient := by
      have hlt := Nat.lt_of_le_of_lt (Nat.le_trans hexact hle) (lt_pow_digitCount coefficient)
      have := (Nat.pow_lt_pow_iff_right (by decide : 1 < 10)).mp hlt
      omega
    have hgrid : 10 ^ (kept - 1) * 10 ^ (digitCount coefficient - kept) ≤ coefficient := by
      have hsum : kept - 1 + (digitCount coefficient - kept) = digitCount coefficient - 1 := by omega
      rw [← Nat.pow_add, hsum]
      exact hcount
    have hgridPos : 0 < 10 ^ (digitCount coefficient - kept) := Nat.pow_pos (by decide)
    obtain ⟨hnear, hnear'⟩ := halfEven_near coefficient hgridPos
    exact h.recode_near hplacePos hplace hlow hcode hcoefficient hdigits hgrid hnear hnear'

end Format

/-! ## 32-bit numbers -/

/-- Infinity of the wider format is out of reach of the narrower one. -/
theorem Format.Wider.recode_infinity {f g : Format} (h : f.Wider g) : g.recode f g.infinity = f.infinity := by
  apply Nat.le_antisymm (g.recode_le_infinity f _)
  apply le_round_of_units_le h.fraction_pos (Nat.two_pow_pos _) (Nat.le_refl _)
  rw [h.two_pow_scale, ← Nat.mul_assoc, units_infinity h.exponent_pos.1, units_infinity h.exponent_pos.2, ← Nat.pow_add]
  apply Nat.mul_le_mul_right
  have := h.range
  exact Nat.pow_le_pow_right (by decide) (by omega)

namespace Binary

variable {f g : Format}

/-- Every magnitude is narrowed by its code. -/
theorem narrow_signed (h : f.Wider g) {negative : Bool} {code : Nat} (hcode : code ≤ g.infinity) :
    (signed negative code hcode : Binary g).convert f = signed negative (g.recode f code) (g.recode_le_infinity f code) := by
  rcases Nat.eq_or_lt_of_le hcode with rfl | hlt
  · have hinfinity : (signed negative g.infinity hcode : Binary g).convert f = infinity f negative := if_pos rfl
    rw [hinfinity]
    unfold infinity
    simp only [h.recode_infinity]
  · exact convert_signed hcode hlt

/-- A conversion keeps the sign. -/
theorem exists_convert_signed (negative : Bool) {code : Nat} (hcode : code ≤ f.infinity) :
    ∃ code' hcode', (signed negative code hcode : Binary f).convert g = signed negative code' hcode' := by
  by_cases hinfinity : code = f.infinity
  · exact ⟨g.infinity, Nat.le_refl _, if_pos hinfinity⟩
  · exact ⟨_, f.recode_le_infinity g code, if_neg hinfinity⟩

/-- Equal numbers of one sign are the same. -/
theorem eq_of_same {negative : Bool} {code code' : Nat} {hcode : code ≤ f.infinity} {hcode' : code' ≤ f.infinity}
    (h : (signed negative code hcode : Binary f).same (signed negative code' hcode') = true) :
    (signed negative code hcode : Binary f) = signed negative code' hcode' := by
  simp only [same, Bool.and_eq_true, beq_iff_eq] at h
  obtain ⟨rfl, _⟩ := h
  rfl

end Binary

namespace Double

/-- The number that the nearest decimal of a number of digits reads as. -/
def ofDigits (negative : Bool) (code kept : Nat) : Double :=
  (Format.double.written code kept).toBinary .double negative

/-- So many digits of a magnitude are enough to tell a 32-bit number. -/
def enough (negative : Bool) (code : Nat) (hcode : code ≤ Format.double.infinity) (kept : Nat) : Bool :=
  ((ofDigits negative code kept).toSingle.convert .double).same (.signed negative code hcode)

/-- A finite number is printed with the fewest digits that are enough, or with nine. -/
theorem singleText_signed {negative : Bool} {code : Nat} (hcode : code ≤ Format.double.infinity)
    (hfinite : code ≠ Format.double.infinity) :
    singleText (.signed negative code hcode) =
      (ofDigits negative code (((List.range' 1 9).find? (enough negative code hcode)).getD 9)).text :=
  if_neg hfinite

/-- Digits that are enough read as a number that is narrowed and widened to the magnitude. -/
theorem eq_of_enough {negative : Bool} {code kept : Nat} {hcode : code ≤ Format.double.infinity}
    (h : enough negative code hcode kept = true) :
    (ofDigits negative code kept).toSingle.convert .double = .signed negative code hcode := by
  obtain ⟨narrow, hnarrow, hsingle⟩ := Binary.exists_convert_signed (g := .single) negative
    (Format.round_le_infinity .double (Format.double.written code kept).num (Format.double.written code kept).den)
  obtain ⟨wide, hwide, hdouble⟩ := Binary.exists_convert_signed (g := .double) negative hnarrow
  have heq : (ofDigits negative code kept).toSingle.convert .double = .signed negative wide hwide := by
    rw [← hdouble, ← hsingle]
    rfl
  unfold enough at h
  rw [heq] at h ⊢
  exact Binary.eq_of_same h

end Double

namespace Single

/-- Digits are enough for a finite 32-bit number exactly if they are narrowed to it. -/
theorem enough_iff (negative : Bool) {code : Nat} (hcode : code ≤ Format.single.infinity)
    (hfinite : code < Format.single.infinity) (kept : Nat) :
    Double.enough negative (Format.single.recode .double code) (Format.recode_le_infinity _ _ _) kept = true ↔
      (Double.ofDigits negative (Format.single.recode .double code) kept).toSingle = .signed negative code hcode := by
  have hwide : (Binary.signed negative code hcode : Single).convert .double =
      .signed negative (Format.single.recode .double code) (Format.recode_le_infinity _ _ _) :=
    Binary.convert_signed hcode hfinite
  constructor
  · intro henough
    -- The search compares widened numbers; narrowing both tells the numbers themselves.
    have hsame := (Double.eq_of_enough henough).trans hwide.symm
    have hnarrow := congrArg (Binary.convert .single) hsame
    rwa [Binary.convert_convert Format.single_wider_double, Binary.convert_convert Format.single_wider_double] at hnarrow
  · intro hnarrow
    unfold Double.enough
    rw [hnarrow, hwide]
    exact Binary.signed_same_self _ _ _

/-- Nine digits are enough for a 32-bit number. -/
theorem enough_nine (negative : Bool) {code : Nat} (hfinite : code < Format.single.infinity) :
    Double.enough negative (Format.single.recode .double code) (Format.recode_le_infinity _ _ _) 9 = true := by
  have hexact : 10 ^ (9 - 1) ≤ 5 ^ Format.double.scale := by
    calc 10 ^ (9 - 1) ≤ 5 ^ 12 := by decide
      _ ≤ 5 ^ Format.double.scale := Nat.pow_le_pow_right (by decide) (by decide)
  have hnine := Format.single_wider_double.recode_written hfinite (by decide : 0 < 9) (by decide) hexact
  refine (enough_iff negative (Nat.le_of_lt hfinite) hfinite 9).mpr ?_
  refine (Binary.narrow_signed Format.single_wider_double _).trans ?_
  simp only [hnine]

/-- A finite 32-bit number is printed with so many digits: the nearest decimal of so many digits reads as a number that is
narrowed to it, and none of fewer digits does. -/
structure Digits (negative : Bool) (code : Nat) (hcode : code ≤ Format.single.infinity) (kept : Nat) : Prop where
  pos : 1 ≤ kept
  le_nine : kept ≤ 9
  text_eq : text (.signed negative code hcode) = (Double.ofDigits negative (Format.single.recode .double code) kept).text
  narrowed : (Double.ofDigits negative (Format.single.recode .double code) kept).toSingle = .signed negative code hcode
  fewest : ∀ fewer, 1 ≤ fewer → fewer < kept →
    (Double.ofDigits negative (Format.single.recode .double code) fewer).toSingle ≠ .signed negative code hcode

/-- The search for the digits of a finite number finds them. -/
theorem exists_digits (negative : Bool) {code : Nat} (hcode : code ≤ Format.single.infinity)
    (hfinite : code < Format.single.infinity) : ∃ kept, Digits negative code hcode kept := by
  have hsome : ((List.range' 1 9).find? (Double.enough negative (Format.single.recode .double code)
      (Format.recode_le_infinity _ _ _))).isSome = true :=
    List.find?_isSome.mpr ⟨9, by decide, enough_nine negative hfinite⟩
  obtain ⟨kept, hkept⟩ := Option.isSome_iff_exists.mp hsome
  obtain ⟨henough, hmem, hfewest⟩ := List.find?_range'_eq_some.mp hkept
  have hrange := List.mem_range'_1.mp hmem
  refine ⟨kept, hrange.1, by omega, ?_, (enough_iff negative hcode hfinite kept).mp henough, fun fewer hpos hlt hfewer => ?_⟩
  · have hwide : toDouble (.signed negative code hcode) =
        .signed negative (Format.single.recode .double code) (Format.recode_le_infinity _ _ _) :=
      Binary.convert_signed hcode hfinite
    rw [text, hwide, Double.singleText_signed _ (Nat.ne_of_lt (Format.single_wider_double.units_widened hfinite).1), hkept]
    rfl
  · have hnot := hfewest fewer hpos hlt
    rw [(enough_iff negative hcode hfinite fewer).mpr hfewer] at hnot
    cases hnot

/-- A 32-bit number is printed by the text of a 64-bit number that is narrowed to it. -/
theorem exists_text_eq {x : Single} (hx : x ≠ .nan) : ∃ w : Double, x.text = w.text ∧ w.toSingle = x := by
  cases x with
  | nan => exact absurd rfl hx
  | signed negative code hcode =>
    rcases Nat.eq_or_lt_of_le hcode with rfl | hfinite
    · exact ⟨_, rfl, Binary.convert_convert Format.single_wider_double _⟩
    · obtain ⟨kept, hkept⟩ := exists_digits negative hcode hfinite
      exact ⟨_, hkept.text_eq, hkept.narrowed⟩

/-- A text of a 32-bit number has no other characters than those of numbers. -/
theorem not_mem_text {c : Char} (hdigit : c.isDigit = false) (hc : c ∉ ['.', 'e', '+', '-', 'i', 'n', 'f', 'a'])
    (x : Single) : c ∉ x.text := by
  by_cases hx : x = .nan
  · subst hx
    have hnan : c ∉ ['n', 'a', 'n'] := by
      simp only [List.mem_cons, List.not_mem_nil, or_false, not_or] at hc ⊢
      exact ⟨hc.2.2.2.2.2.1, hc.2.2.2.2.2.2.2, hc.2.2.2.2.2.1⟩
    exact hnan
  · obtain ⟨w, htext, _⟩ := exists_text_eq hx
    rw [htext]
    exact Binary.not_mem_text (by decide) hdigit hc w

/-- No text of a 32-bit number has a line feed. -/
theorem lineFeed_not_mem_text (x : Single) : '\n' ∉ x.text := x.not_mem_text rfl (by decide)

/-- A 32-bit number can be told from its text. -/
theorem text_injective {x y : Single} (hx : x ≠ .nan) (hy : y ≠ .nan) (h : x.text = y.text) : x = y := by
  obtain ⟨w, htext, hw⟩ := exists_text_eq hx
  obtain ⟨w', htext', hw'⟩ := exists_text_eq hy
  rw [htext, htext'] at h
  rw [← hw, ← hw', Binary.text_injective (by decide) h]

/-- The text of a 32-bit number reads as a 64-bit number that is narrowed to it, also for zeros and infinities of either sign.
The search for the digits of a finite number ends with nine at most. Float tokens that are written alike hold the same
number. -/
theorem text_readsBack {x : Single} (hx : x ≠ .nan) :
    (Binary.ofText? .double x.text).map Double.toSingle = some x ∧
      (∀ negative code hcode, x = .signed negative code hcode → code ≠ Format.single.infinity →
        ∃ kept, Digits negative code hcode kept) ∧
      ∀ y : Single, y ≠ .nan → (TokenValue.float y).lexeme = (TokenValue.float x).lexeme → y = x := by
  refine ⟨?_, ?_, fun y hy hlexeme => ?_⟩
  · obtain ⟨w, htext, hw⟩ := exists_text_eq hx
    rw [htext, Binary.ofText?_text (by decide), Option.map_some, hw]
  · rintro negative code hcode rfl hfinite
    exact exists_digits negative hcode (Nat.lt_of_le_of_ne hcode hfinite)
  · exact text_injective hy hx (String.ofList_injective hlexeme)

/-- The number below zero that is nearest to it reads back. -/
theorem text_readsBack_leastNegative :
    let x : Single := .signed true 1 (by decide)
    x ≠ .nan ∧ (Binary.ofText? .double x.text).map Double.toSingle = some x ∧
      1 ≠ Format.single.infinity ∧ ∃ kept, Digits true 1 (by decide) kept := by
  intro x
  have hx : x ≠ .nan := by simp [x]
  obtain ⟨hread, hdigits, -⟩ := text_readsBack hx
  exact ⟨hx, hread, by decide, hdigits _ _ _ rfl (by decide)⟩

end Single

end TinyScript
