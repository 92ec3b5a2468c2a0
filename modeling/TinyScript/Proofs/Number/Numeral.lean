import TinyScript.Number.Shortest
import TinyScript.Proofs.Scan.Munch

/-!
# Reading printed numerals

`Decimal.ofText?` reads the numerals that numbers are printed as: digits, a point among them or not, and an exponent or none.
The text that `Decimal.layout` writes of a decimal reads as a decimal of the same value (`Decimal.ofText?_layout`), so no two
values have one text.
-/

namespace TinyScript

namespace Decimal

/-- Two decimals have one value. -/
def SameValue (d d' : Decimal) : Prop := d.num * d'.den = d'.num * d.den

/-- The power of ten that the end of a numeral stands for: none, or `e` with a sign and digits. -/
def exponentOf? : List Char → Option Int
  | [] => some 0
  | 'e' :: sign :: digits =>
    if digits.isEmpty ∨ ¬ digits.all Char.isDigit then none
    else if sign = '+' then some (Reading.valueOf digits)
    else if sign = '-' then some (-Reading.valueOf digits)
    else none
  | _ => none

/-- The decimal of the digits around a point and a power of ten. -/
def scaled (whole fraction : List Char) (exponent : Int) : Decimal :=
  { coefficient := Reading.valueOf (whole ++ fraction), exponent := exponent - fraction.length }

/-- The decimal that a numeral spells. -/
def ofText? (text : List Char) : Option Decimal :=
  let whole := text.takeWhile Char.isDigit
  match text.dropWhile Char.isDigit with
  | '.' :: rest =>
    let fraction := rest.takeWhile Char.isDigit
    if whole.isEmpty ∧ fraction.isEmpty then none
    else (exponentOf? (rest.dropWhile Char.isDigit)).map (scaled whole fraction)
  | rest => if whole.isEmpty then none else (exponentOf? rest).map (scaled whole [])

/-! ## Values -/

/-- The value of a decimal over a power of ten. -/
theorem num_mul_pow (d : Decimal) (places power : Nat) (h : d.exponent = power - places) :
    d.num * 10 ^ places = d.coefficient * 10 ^ power * d.den := by
  unfold num den
  rcases Nat.le_total places power with hle | hle
  · have hnum : d.exponent.toNat = power - places := by omega
    have hden : (-d.exponent).toNat = 0 := by omega
    rw [hnum, hden, Nat.pow_zero, Nat.mul_one, Nat.mul_assoc, ← Nat.pow_add, Nat.sub_add_cancel hle]
  · have hnum : d.exponent.toNat = 0 := by omega
    have hden : (-d.exponent).toNat = places - power := by omega
    rw [hnum, hden, Nat.pow_zero, Nat.mul_one, Nat.mul_assoc, ← Nat.pow_add, Nat.add_sub_cancel' hle]

/-- Powers of ten may be in the coefficient or in the exponent. -/
theorem sameValue_of_eq {d d' : Decimal} {coefficient power power' : Nat} (hd : d.coefficient = coefficient * 10 ^ power)
    (hd' : d'.coefficient = coefficient * 10 ^ power') (h : power + d.exponent = power' + d'.exponent) : SameValue d d' := by
  -- Both over the power of ten that clears both exponents.
  obtain ⟨places, hplaces⟩ : ∃ places : Nat, -d.exponent ≤ places ∧ -d'.exponent ≤ places :=
    ⟨(-d.exponent).toNat + (-d'.exponent).toNat, by omega, by omega⟩
  have hnum := d.num_mul_pow places (d.exponent + places).toNat (by omega)
  have hnum' := d'.num_mul_pow places (d'.exponent + places).toNat (by omega)
  have hpower : power + (d.exponent + places).toNat = power' + (d'.exponent + places).toNat := by omega
  apply Nat.eq_of_mul_eq_mul_right (Nat.pow_pos (n := places) (by decide : 0 < 10))
  calc d.num * d'.den * 10 ^ places = d.num * 10 ^ places * d'.den := Nat.mul_right_comm _ _ _
    _ = coefficient * 10 ^ (power + (d.exponent + places).toNat) * d.den * d'.den := by
      rw [hnum, hd, Nat.mul_assoc coefficient (10 ^ power), ← Nat.pow_add]
    _ = coefficient * 10 ^ (power' + (d'.exponent + places).toNat) * d'.den * d.den := by
      rw [hpower, Nat.mul_right_comm]
    _ = d'.num * 10 ^ places * d.den := by
      rw [hnum', hd', Nat.mul_assoc coefficient (10 ^ power'), ← Nat.pow_add]
    _ = d'.num * d.den * 10 ^ places := Nat.mul_right_comm _ _ _

/-! ## Digits -/

/-- More digits after some raise their value by a power of ten. -/
theorem valueOf_append (front back : List Char) :
    Reading.valueOf (front ++ back) = Reading.valueOf front * 10 ^ back.length + Reading.valueOf back := by
  unfold Reading.valueOf
  rw [Nat.ofDigitChars_append, Nat.ofDigitChars_eq_ofDigitChars_zero, Nat.mul_comm]

/-- A digit is worth less than ten. -/
theorem valueOf_digit_le {c : Char} (h : c.isDigit = true) : Reading.valueOf [c] ≤ 9 := by
  have hle : c.toNat ≤ 57 := (Char.isDigit_iff_toNat.mp h).2
  simp only [Reading.valueOf, Nat.ofDigitChars_cons, Nat.ofDigitChars_nil]
  have hzero : '0'.toNat = 48 := rfl
  omega

/-- Digits are worth less than the power of ten of their number. -/
theorem valueOf_lt {digits : List Char} (h : ∀ c ∈ digits, c.isDigit = true) :
    Reading.valueOf digits < 10 ^ digits.length := by
  induction digits with
  | nil => decide
  | cons c digits ih =>
    obtain ⟨hc, hdigits⟩ := List.forall_mem_cons.mp h
    have hfirst := Nat.mul_le_mul_right (10 ^ digits.length) (valueOf_digit_le hc)
    have hmore := ih hdigits
    rw [← List.singleton_append, valueOf_append, List.length_append, List.length_singleton, Nat.add_comm 1, Nat.pow_succ]
    omega

/-- Zeros are worth nothing. -/
theorem valueOf_replicate_zero (n : Nat) : Reading.valueOf (List.replicate n '0') = 0 := by
  unfold Reading.valueOf
  rw [Nat.ofDigitChars_replicate_zero, Nat.mul_zero]

/-- Zeros before digits are worth nothing. -/
theorem valueOf_zeros_append (n : Nat) (digits : List Char) :
    Reading.valueOf (List.replicate n '0' ++ digits) = Reading.valueOf digits := by
  rw [valueOf_append, valueOf_replicate_zero, Nat.zero_mul, Nat.zero_add]

/-- Zeros after digits raise their value by a power of ten. -/
theorem valueOf_append_zeros (digits : List Char) (n : Nat) :
    Reading.valueOf (digits ++ List.replicate n '0') = Reading.valueOf digits * 10 ^ n := by
  rw [valueOf_append, valueOf_replicate_zero, List.length_replicate, Nat.add_zero]

/-- The digits of a number are worth it. -/
theorem valueOf_toDigits (n : Nat) : Reading.valueOf (Nat.toDigits 10 n) = n :=
  Nat.ofDigitChars_ten_toDigits

/-- A digit is that of its value. -/
theorem digitChar_sub {c : Char} (h : c.isDigit = true) : Nat.digitChar (c.toNat - 48) = c := by
  have hlow : 48 ≤ c.toNat := (Char.isDigit_iff_toNat.mp h).1
  have hhigh : c.toNat ≤ 57 := (Char.isDigit_iff_toNat.mp h).2
  apply Char.toNat_inj.mp
  rw [Nat.toNat_digitChar_of_lt_ten (by omega), Nat.add_comm, Nat.sub_add_cancel hlow]

/-- Digits behind those of a number that is not zero are the last digits of a larger one. -/
theorem toDigits_append_digits {n : Nat} (hn : 0 < n) {digits : List Char} (hdigits : ∀ c ∈ digits, c.isDigit = true) :
    Nat.toDigits 10 n ++ digits = Nat.toDigits 10 (Nat.ofDigitChars 10 digits n) := by
  induction digits generalizing n with
  | nil => rw [List.append_nil, Nat.ofDigitChars_nil]
  | cons c digits ih =>
    obtain ⟨hc, hmore⟩ := List.forall_mem_cons.mp hdigits
    have hhigh : c.toNat ≤ 57 := (Char.isDigit_iff_toNat.mp hc).2
    have hsmall : c.toNat - 48 < 10 := by omega
    have hpos : 0 < 10 * n + (c.toNat - 48) := by omega
    calc Nat.toDigits 10 n ++ c :: digits
        = Nat.toDigits 10 n ++ Nat.toDigits 10 (c.toNat - 48) ++ digits := by
          rw [Nat.toDigits_of_lt_base hsmall, digitChar_sub hc, List.append_assoc, List.singleton_append]
      _ = Nat.toDigits 10 (10 * n + (c.toNat - 48)) ++ digits := by
          rw [Nat.toDigits_append_toDigits (by decide) hn hsmall]
      _ = Nat.toDigits 10 (Nat.ofDigitChars 10 (c :: digits) n) := ih hpos hmore

/-- Digits that start with another one than zero are those of their value. -/
theorem toDigits_valueOf {first : Char} {more : List Char} (hdigits : ∀ c ∈ first :: more, c.isDigit = true)
    (hfirst : first ≠ '0') : Nat.toDigits 10 (Reading.valueOf (first :: more)) = first :: more := by
  obtain ⟨hdigit, hmore⟩ := List.forall_mem_cons.mp hdigits
  have hlow : 48 ≤ first.toNat := (Char.isDigit_iff_toNat.mp hdigit).1
  have hhigh : first.toNat ≤ 57 := (Char.isDigit_iff_toNat.mp hdigit).2
  have hne : first.toNat ≠ 48 := fun hzero => hfirst (Char.toNat_inj.mp hzero)
  have hpos : 0 < first.toNat - 48 := by omega
  have hsmall : first.toNat - 48 < 10 := by omega
  have hvalue : Reading.valueOf (first :: more) = Nat.ofDigitChars 10 more (first.toNat - 48) := by
    rw [Reading.valueOf, Nat.ofDigitChars_cons, Nat.mul_zero, Nat.zero_add]
    rfl
  rw [hvalue, ← toDigits_append_digits hpos hmore, Nat.toDigits_of_lt_base hsmall, digitChar_sub hdigit,
    List.singleton_append]

/-- The digits of a coefficient are the significant ones and zeros. -/
theorem exists_significant (d : Decimal) :
    ∃ zeros, Nat.toDigits 10 d.coefficient = d.significant ++ List.replicate zeros '0' := by
  have hsplit : (Nat.toDigits 10 d.coefficient).reverse =
      (Nat.toDigits 10 d.coefficient).reverse.takeWhile (· == '0') ++ d.significant.reverse := by
    unfold significant
    rw [List.reverse_reverse, List.takeWhile_append_dropWhile]
  have hzeros : (Nat.toDigits 10 d.coefficient).reverse.takeWhile (· == '0') =
      List.replicate ((Nat.toDigits 10 d.coefficient).reverse.takeWhile (· == '0')).length '0' := by
    rw [List.eq_replicate_iff]
    refine ⟨rfl, fun c hc => ?_⟩
    have hall := List.all_eq_true.mp List.all_takeWhile c hc
    simpa using hall
  refine ⟨((Nat.toDigits 10 d.coefficient).reverse.takeWhile (· == '0')).length, ?_⟩
  rw [hzeros] at hsplit
  have hreverse := congrArg List.reverse hsplit
  rwa [List.reverse_reverse, List.reverse_append, List.reverse_reverse, List.reverse_replicate] at hreverse

/-- The significant digits are digits. -/
theorem isDigit_of_mem_significant {d : Decimal} {c : Char} (h : c ∈ d.significant) : c.isDigit = true := by
  obtain ⟨zeros, hdigits⟩ := d.exists_significant
  have hmem : c ∈ Nat.toDigits 10 d.coefficient := by
    rw [hdigits]
    exact List.mem_append_left _ h
  exact Nat.isDigit_of_mem_toDigits (by decide) (by decide) hmem

/-! ## Numerals -/

/-- The end of a numeral starts with no digit and no point. -/
theorem head_exponent {rest : List Char} {exponent : Int} (h : exponentOf? rest = some exponent) :
    ∀ c ∈ rest.head?, c.isDigit = false ∧ c ≠ '.' := by
  intro c hc
  unfold exponentOf? at h
  split at h
  next => cases hc
  next =>
    obtain rfl : 'e' = c := by simpa using hc
    exact ⟨rfl, by decide⟩
  next => cases h

/-- Digits and an exponent are a numeral. -/
theorem ofText?_whole {whole rest : List Char} {exponent : Int} (hwhole : ∀ c ∈ whole, c.isDigit = true)
    (hne : whole ≠ []) (hrest : exponentOf? rest = some exponent) :
    ofText? (whole ++ rest) = some (scaled whole [] exponent) := by
  have hrun : MaximalRun Char.isDigit whole rest := ⟨hwhole, fun c hc => (head_exponent hrest c hc).1⟩
  unfold ofText?
  rw [hrun.takeWhile, hrun.dropWhile]
  dsimp only
  split
  next after => exact absurd rfl (head_exponent hrest '.' rfl).2
  next => rw [if_neg (by simpa using hne), hrest, Option.map_some]

/-- Digits around a point and an exponent are a numeral. -/
theorem ofText?_pointed {whole fraction rest : List Char} {exponent : Int} (hwhole : ∀ c ∈ whole, c.isDigit = true)
    (hne : whole ≠ []) (hfraction : ∀ c ∈ fraction, c.isDigit = true) (hrest : exponentOf? rest = some exponent) :
    ofText? (whole ++ '.' :: (fraction ++ rest)) = some (scaled whole fraction exponent) := by
  have hrun : MaximalRun Char.isDigit whole ('.' :: (fraction ++ rest)) := by
    refine ⟨hwhole, fun c hc => ?_⟩
    obtain rfl : '.' = c := by simpa using hc
    rfl
  have hrun' : MaximalRun Char.isDigit fraction rest := ⟨hfraction, fun c hc => (head_exponent hrest c hc).1⟩
  unfold ofText?
  simp only [hrun.takeWhile, hrun.dropWhile, hrun'.takeWhile, hrun'.dropWhile, hrest, Option.map_some, List.isEmpty_iff]
  rw [if_neg (fun hempty => hne hempty.1)]

/-- A sign and digits after `e` are an exponent. -/
theorem exponentOf?_digits {digits : List Char} (hne : digits ≠ []) (hdigits : ∀ c ∈ digits, c.isDigit = true)
    (negative : Prop) [Decidable negative] :
    exponentOf? ('e' :: (if negative then '-' else '+') :: digits) =
      some (if negative then -(Reading.valueOf digits : Int) else Reading.valueOf digits) := by
  have hgood : ¬ (digits.isEmpty ∨ ¬ digits.all Char.isDigit) := by
    simp only [List.isEmpty_iff, not_or, List.all_eq_true]
    exact ⟨hne, fun h => h hdigits⟩
  simp only [exponentOf?, if_neg hgood]
  by_cases hsign : negative
  · simp [hsign]
  · simp [hsign]

/-- The exponent part of scientific text reads as the exponent. -/
theorem exponentOf?_exponentText (exponent : Int) : exponentOf? (exponentText exponent) = some exponent := by
  have hdigits : ∀ c ∈ Nat.toDigits 10 exponent.natAbs, c.isDigit = true :=
    fun c hc => Nat.isDigit_of_mem_toDigits (by decide) (by decide) hc
  have hpadded : ∀ c ∈ '0' :: Nat.toDigits 10 exponent.natAbs, c.isDigit = true := by
    intro c hc
    rcases List.mem_cons.mp hc with rfl | hc
    · rfl
    · exact hdigits c hc
  have hvalue : Reading.valueOf ('0' :: Nat.toDigits 10 exponent.natAbs) = exponent.natAbs :=
    (valueOf_zeros_append 1 _).trans (valueOf_toDigits _)
  have hsign : (if exponent < 0 then -(exponent.natAbs : Int) else exponent.natAbs) = exponent := by
    split <;> omega
  unfold exponentText
  dsimp only
  by_cases hshort : (Nat.toDigits 10 exponent.natAbs).length < 2
  · rw [if_pos hshort, exponentOf?_digits (List.cons_ne_nil _ _) hpadded, hvalue, hsign]
  · rw [if_neg hshort, exponentOf?_digits Nat.toDigits_ne_nil hdigits, valueOf_toDigits, hsign]

/-- Digits around a point have the value of a decimal if they are its digits, up to zeros at the end, and stand at the same
powers of ten. -/
theorem sameValue_scaled (extra : Nat) {d : Decimal} {digits whole fraction : List Char} {zeros : Nat} {exponent : Int}
    (hd : d.coefficient = Reading.valueOf digits * 10 ^ zeros)
    (hvalue : Reading.valueOf (whole ++ fraction) = Reading.valueOf digits * 10 ^ extra)
    (hexponent : extra + (exponent - fraction.length) = zeros + d.exponent) : SameValue (scaled whole fraction exponent) d :=
  sameValue_of_eq hvalue hd hexponent

/-- Zeros are digits. -/
theorem isDigit_of_mem_zeros {n : Nat} : ∀ c ∈ List.replicate n '0', c.isDigit = true := by
  intro c hc
  rw [(List.mem_replicate.mp hc).2]
  rfl

/-- Digits around a point are a numeral. -/
theorem ofText?_point {whole fraction : List Char} (hwhole : ∀ c ∈ whole, c.isDigit = true) (hne : whole ≠ [])
    (hfraction : ∀ c ∈ fraction, c.isDigit = true) :
    ofText? (whole ++ '.' :: fraction) = some (scaled whole fraction 0) := by
  have hnone : exponentOf? [] = some 0 := rfl
  have hread := ofText?_pointed hwhole hne hfraction hnone
  rwa [List.append_nil] at hread

/-- The text of a decimal whose first digit stands after the point. -/
theorem ofText?_small {d : Decimal} {digits : List Char} {zeros : Nat} (hdigits : ∀ c ∈ digits, c.isDigit = true)
    (hd : d.coefficient = Reading.valueOf digits * 10 ^ zeros) {gap : Nat}
    (hexponent : -(gap : Int) = digits.length + zeros + d.exponent) :
    ∃ d', ofText? ('0' :: '.' :: (List.replicate gap '0' ++ digits)) = some d' ∧ SameValue d' d := by
  have hfraction : ∀ c ∈ List.replicate gap '0' ++ digits, c.isDigit = true := by
    intro c hc
    rcases List.mem_append.mp hc with hc | hc
    · exact isDigit_of_mem_zeros c hc
    · exact hdigits c hc
  have hwhole : ∀ c ∈ ['0'], c.isDigit = true := isDigit_of_mem_zeros (n := 1)
  refine ⟨_, ofText?_point hwhole (List.cons_ne_nil _ _) hfraction, sameValue_scaled 0 hd ?_ ?_⟩
  · rw [Nat.pow_zero, Nat.mul_one, ← valueOf_zeros_append (gap + 1) digits]
    rfl
  · rw [List.length_append, List.length_replicate]
    omega

/-- The text of a decimal whose first digit stands before the point. -/
theorem ofText?_large {d : Decimal} {digits : List Char} {zeros : Nat} (hdigits : ∀ c ∈ digits, c.isDigit = true)
    (hne : digits ≠ []) (hd : d.coefficient = Reading.valueOf digits * 10 ^ zeros) {places : Nat} (hplaces : 0 < places)
    (hexponent : (places : Int) = digits.length + zeros + d.exponent) :
    ∃ d', ofText? (digits.take places ++ List.replicate (places - (digits.take places).length) '0' ++
      '.' :: (if (digits.drop places).isEmpty then ['0'] else digits.drop places)) = some d' ∧ SameValue d' d := by
  have hwhole : ∀ c ∈ digits.take places ++ List.replicate (places - (digits.take places).length) '0', c.isDigit = true := by
    intro c hc
    rcases List.mem_append.mp hc with hc | hc
    · exact hdigits c (List.mem_of_mem_take hc)
    · exact isDigit_of_mem_zeros c hc
  have hwholeNe : digits.take places ++ List.replicate (places - (digits.take places).length) '0' ≠ [] := by
    intro hnil
    have htake := (List.append_eq_nil_iff.mp hnil).1
    rw [List.take_eq_nil_iff] at htake
    rcases htake with h | h
    · omega
    · exact hne h
  split
  next hempty =>
    -- The digits end before the point.
    have hall : digits.length ≤ places := by simpa using hempty
    have hfraction : ∀ c ∈ ['0'], c.isDigit = true := isDigit_of_mem_zeros (n := 1)
    refine ⟨_, ofText?_point hwhole hwholeNe hfraction, sameValue_scaled (places - digits.length + 1) hd ?_ ?_⟩
    · rw [List.take_of_length_le hall, List.append_assoc, ← valueOf_append_zeros, List.replicate_succ']
    · rw [List.length_singleton]
      omega
  next hsome =>
    have hall : places < digits.length := by simpa using hsome
    have hfraction : ∀ c ∈ digits.drop places, c.isDigit = true := fun c hc => hdigits c (List.mem_of_mem_drop hc)
    refine ⟨_, ofText?_point hwhole hwholeNe hfraction, sameValue_scaled 0 hd ?_ ?_⟩
    · rw [List.length_take_of_le (Nat.le_of_lt hall), Nat.sub_self, List.replicate_zero, List.append_nil,
        List.take_append_drop, Nat.pow_zero, Nat.mul_one]
    · rw [List.length_drop]
      omega

/-- The text of a decimal with an exponent. -/
theorem ofText?_scientific {d : Decimal} {digits : List Char} {zeros : Nat} (hdigits : ∀ c ∈ digits, c.isDigit = true)
    (hne : digits ≠ []) (hd : d.coefficient = Reading.valueOf digits * 10 ^ zeros) {places : Int}
    (hexponent : places = digits.length + zeros + d.exponent) :
    ∃ d', ofText? (digits.take 1 ++ (if digits.length ≤ 1 then [] else ['.']) ++ digits.drop 1 ++
      exponentText (places - 1)) = some d' ∧ SameValue d' d := by
  obtain ⟨first, rest, rfl⟩ := List.exists_cons_of_ne_nil hne
  have hexp := exponentOf?_exponentText (places - 1)
  have hwhole : ∀ c ∈ [first], c.isDigit = true := by
    intro c hc
    exact hdigits c (List.mem_cons.mpr (Or.inl (List.mem_singleton.mp hc)))
  simp only [List.take_succ_cons, List.take_zero, List.drop_succ_cons, List.drop_zero, List.length_cons]
  cases rest with
  | nil =>
    refine ⟨scaled [first] [] (places - 1), ?_, sameValue_scaled 0 hd ?_ ?_⟩
    · exact ofText?_whole hwhole (List.cons_ne_nil _ _) hexp
    · rw [List.append_nil, Nat.pow_zero, Nat.mul_one]
    · simp only [List.length_cons, List.length_nil] at hexponent ⊢
      omega
  | cons second rest =>
    have hfraction : ∀ c ∈ second :: rest, c.isDigit = true := fun c hc => hdigits c (List.mem_cons_of_mem _ hc)
    refine ⟨scaled [first] (second :: rest) (places - 1), ?_, sameValue_scaled 0 hd ?_ ?_⟩
    · rw [if_neg (by simp), List.append_assoc, List.append_assoc]
      exact ofText?_pointed hwhole (List.cons_ne_nil _ _) hfraction hexp
    · rw [Nat.pow_zero, Nat.mul_one]
      rfl
    · simp only [List.length_cons] at hexponent ⊢
      omega

/-- The text of a decimal reads as a decimal of the same value. -/
theorem ofText?_layout (d : Decimal) : ∃ d', ofText? d.layout = some d' ∧ SameValue d' d := by
  obtain ⟨zeros, hdigits⟩ := d.exists_significant
  have hsignificant : ∀ c ∈ d.significant, c.isDigit = true := fun c hc => isDigit_of_mem_significant hc
  have hcoefficient : d.coefficient = Reading.valueOf d.significant * 10 ^ zeros := by
    rw [← valueOf_append_zeros, ← hdigits, valueOf_toDigits]
  have hcount : digitCount d.coefficient = d.significant.length + zeros := by
    unfold digitCount
    rw [hdigits, List.length_append, List.length_replicate]
  unfold layout
  rw [hcount]
  generalize d.significant = digits at hsignificant hcoefficient
  dsimp only
  split
  next hempty =>
    obtain rfl := List.isEmpty_iff.mp hempty
    have hread : ofText? ['0', '.', '0'] = some (scaled ['0'] ['0'] 0) := rfl
    refine ⟨_, hread, ?_⟩
    have hzero : d.coefficient = 0 := by rw [hcoefficient]; exact Nat.zero_mul _
    unfold SameValue num
    rw [hzero]
    simp [scaled, Reading.valueOf, Nat.ofDigitChars_cons]
  next hsome =>
    have hne : digits ≠ [] := by simpa using hsome
    split
    next =>
      split
      next hsmall => exact ofText?_small hsignificant hcoefficient (by omega)
      next hlarge => exact ofText?_large hsignificant hne hcoefficient (by omega) (by omega)
    next => exact ofText?_scientific hsignificant hne hcoefficient (by omega)

/-! ## The characters of numerals -/

/-- The end of a numeral is made of digits, signs and the letter of an exponent. -/
theorem mem_of_exponentOf? {rest : List Char} {exponent : Int} (h : exponentOf? rest = some exponent) :
    ∀ c ∈ rest, c.isDigit = true ∨ c ∈ ['.', 'e', '+', '-'] := by
  unfold exponentOf? at h
  split at h
  next => exact fun c hc => by cases hc
  next sign digits =>
    split at h
    next => cases h
    next hgood =>
      obtain ⟨_, hall⟩ : digits ≠ [] ∧ digits.all Char.isDigit = true := by simpa using hgood
      have hsign : sign = '+' ∨ sign = '-' := by
        by_cases hplus : sign = '+'
        · exact Or.inl hplus
        · rw [if_neg hplus] at h
          by_cases hminus : sign = '-'
          · exact Or.inr hminus
          · rw [if_neg hminus] at h
            cases h
      intro c hc
      rcases List.mem_cons.mp hc with rfl | hc
      · exact Or.inr (by decide)
      rcases List.mem_cons.mp hc with rfl | hc
      · rcases hsign with rfl | rfl <;> exact Or.inr (by decide)
      · exact Or.inl (List.all_eq_true.mp hall c hc)
  next => cases h

/-- A numeral is made of digits, points, signs and the letter of an exponent. -/
theorem mem_of_ofText? {text : List Char} {d : Decimal} (h : ofText? text = some d) :
    ∀ c ∈ text, c.isDigit = true ∨ c ∈ ['.', 'e', '+', '-'] := by
  have htake : ∀ (text : List Char), ∀ c ∈ text.takeWhile Char.isDigit, c.isDigit = true :=
    fun text c hc => List.all_eq_true.mp List.all_takeWhile c hc
  intro c hc
  rw [← List.takeWhile_append_dropWhile (p := Char.isDigit) (l := text)] at hc
  rcases List.mem_append.mp hc with hc | hc
  · exact Or.inl (htake text c hc)
  unfold ofText? at h
  dsimp only at h
  split at h
  next rest hrest =>
    rw [hrest] at hc
    split at h
    next => cases h
    next =>
      obtain ⟨exponent, hexponent, _⟩ := Option.map_eq_some_iff.mp h
      rcases List.mem_cons.mp hc with rfl | hc
      · exact Or.inr (by decide)
      rw [← List.takeWhile_append_dropWhile (p := Char.isDigit) (l := rest)] at hc
      rcases List.mem_append.mp hc with hc | hc
      · exact Or.inl (htake rest c hc)
      · exact mem_of_exponentOf? hexponent c hc
  next rest _ =>
    split at h
    next => cases h
    next =>
      obtain ⟨exponent, hexponent, _⟩ := Option.map_eq_some_iff.mp h
      exact mem_of_exponentOf? hexponent c hc

end Decimal

end TinyScript
