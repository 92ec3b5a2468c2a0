import TinyScript.Proofs.Number.Grid
import TinyScript.Proofs.Scan.Rescan

/-!
# The values of float literals

A literal of digits with one point spells a number (`PointLiteral.value`), and the float that it is read as is that number
rounded twice: to the nearest 64-bit number and from there to the nearest 32-bit number, ties to even
(`PointLiteral.rounds_twice`). So literals are read in the order of their numbers, and the literals that are read as infinity
or as zero are those from one number on, or up to one.
-/

namespace TinyScript

/-- Digits with a point behind at least one of them. -/
structure PointLiteral where
  whole : List Char
  fraction : List Char
  whole_ne_nil : whole ≠ []
  isDigit_whole : ∀ c ∈ whole, c.isDigit = true
  isDigit_fraction : ∀ c ∈ fraction, c.isDigit = true

namespace PointLiteral

/-- The characters of a literal. -/
def chars (l : PointLiteral) : List Char := l.whole ++ '.' :: l.fraction

/-- The number that a literal spells. -/
def value (l : PointLiteral) : ℚ := Reading.valueOf l.whole + Reading.valueOf l.fraction / 10 ^ l.fraction.length

/-- The decimal that a literal is read as. -/
def decimal (l : PointLiteral) : Decimal := Reading.pointed l.whole l.fraction

/-- The code of the float that a literal is read as. -/
def code (l : PointLiteral) : Nat := Format.double.narrowed .single l.decimal.num l.decimal.den

/-- A literal is read as a code of the 32-bit format. -/
theorem code_le_infinity (l : PointLiteral) : l.code ≤ Format.single.infinity :=
  Format.narrowed_le_infinity _ _ _ _

/-- The float that a literal is read as. -/
def payload (l : PointLiteral) : Single := .signed false l.code l.code_le_infinity

/-- The number that a literal spells is the value of its decimal. -/
theorem value_eq (l : PointLiteral) : l.value = l.decimal.value := by
  have hpos : (10 : ℚ) ^ l.fraction.length ≠ 0 := by positivity
  rw [Decimal.value_eq, decimal, Reading.pointed, Decimal.valueOf_append, value, zpow_neg, zpow_natCast, ← div_eq_mul_inv]
  push_cast
  rw [add_div, mul_div_cancel_right₀ _ hpos]

/-! ## Reading -/

/-- The decimal of a literal is rounded to the 64-bit format, and that to the float. -/
theorem ofDouble_decimal (l : PointLiteral) : TokenValue.ofDouble (l.decimal.toBinary .double false) = .float l.payload :=
  congrArg TokenValue.float (Binary.narrow_signed Format.single_wider_double _)

/-- The characters of a literal are the lexeme of its float. -/
theorem lexeme (l : PointLiteral) {rest : List Char} (hrest : ∀ c ∈ rest.head?, isNumberPart c = false) :
    Lexeme l.chars rest (.float l.payload) := by
  rw [← l.ofDouble_decimal]
  exact lexeme_pointed l.whole_ne_nil l.isDigit_whole l.isDigit_fraction hrest

/-- A literal before another character than a digit or a point is read as its float. -/
theorem number_chars (l : PointLiteral) {rest : List Char} (hrest : ∀ c ∈ rest.head?, isNumberPart c = false)
    (start : Location) :
    Reading.number start (l.chars ++ rest) = { outcome := .ok (.float l.payload), length := l.chars.length } := by
  have hrun : MaximalRun isNumberPart (l.whole ++ '.' :: l.fraction) rest :=
    ⟨isNumberPart_of_pointed l.isDigit_whole l.isDigit_fraction, hrest⟩
  have hread : Reading.float l.whole l.fraction = .ok (.float l.payload) := by
    rw [← l.ofDouble_decimal]
    refine if_neg ?_
    simp [l.whole_ne_nil]
  rw [← hread, chars, List.append_assoc, List.cons_append,
    Reading.number_pointed hrun (point_not_mem l.isDigit_whole) (point_not_mem l.isDigit_fraction)]

/-- A literal alone is scanned to its float. -/
theorem lex_chars (l : PointLiteral) (filename : String) :
    lex (String.ofList l.chars) filename = .ok [⟨.float l.payload, l.chars.length⟩, .eof l.chars.length] := by
  have hnone : AllBlank [] := by decide
  have hfactors : Factors [⟨[], l.chars, .float l.payload⟩] (String.ofList l.chars).toList [] := by
    have hlexeme : Lexeme l.chars [] (.float l.payload) := l.lexeme (by simp)
    have hpiece := Factors.cons hnone hlexeme .nil
    rw [List.append_nil, List.nil_append] at hpiece
    rwa [String.toList_ofList]
  rw [lex_of_readable_factors hfactors hnone (by simp [Piece.Readable, TokenValue.kind]), ← String.length_toList,
    String.toList_ofList]
  simp [placed, Piece.anchor]

/-! ## Limits -/

/-- The literals that are read as infinity. -/
theorem code_eq_infinity_iff (l : PointLiteral) :
    l.code = Format.single.infinity ↔ 2 ^ 128 - 2 ^ 103 - 2 ^ 74 ≤ l.value := by
  have hden : (0 : ℚ) < l.decimal.den := by exact_mod_cast l.decimal.den_pos
  rw [Nat.le_antisymm_iff, and_iff_right l.code_le_infinity, code, Format.infinity_le_narrowed_iff l.decimal.den_pos,
    value_eq, Decimal.value, le_div_iff₀ hden]
  norm_num
  exact_mod_cast Iff.rfl

/-- The literals that are read as zero. -/
theorem code_eq_zero_iff (l : PointLiteral) : l.code = 0 ↔ l.value ≤ 1 / 2 ^ 150 + 1 / 2 ^ 203 := by
  have hden : (0 : ℚ) < l.decimal.den := by exact_mod_cast l.decimal.den_pos
  have hlimit : (1 / 2 ^ 150 + 1 / 2 ^ 203 : ℚ) = (2 ^ 53 + 1) / 2 ^ 203 := by norm_num
  rw [← Nat.lt_one_iff, ← Nat.not_le, code, Format.one_le_narrowed_iff l.decimal.den_pos, Nat.not_lt, value_eq, Decimal.value,
    hlimit, div_le_div_iff₀ hden (by positivity)]
  exact_mod_cast Iff.rfl

/-- A literal is read as the number that it spells, rounded to the nearest 64-bit number and that to the nearest 32-bit number,
ties to even. This is never not-a-number and has no sign, it grows with the number, and it is infinity or zero exactly for the
numbers from a limit on, or up to one. -/
theorem rounds_twice (l : PointLiteral) :
    (∀ filename, lex (String.ofList l.chars) filename =
      .ok [⟨.float l.payload, l.chars.length⟩, .eof l.chars.length]) ∧
    (∀ start rest, (∀ c ∈ rest.head?, isNumberPart c = false) →
      Reading.number start (l.chars ++ rest) = { outcome := .ok (.float l.payload), length := l.chars.length }) ∧
    (∃ hcode, l.payload = .signed false l.code hcode) ∧
    (∀ code, (∃ wide, Format.double.Nearest l.value wide ∧ Format.single.Nearest (Format.double.value wide) code) ↔
      code = l.code) ∧
    (∀ other : PointLiteral, l.value ≤ other.value → Format.single.value l.code ≤ Format.single.value other.code) ∧
    (l.code = Format.single.infinity ↔ 2 ^ 128 - 2 ^ 103 - 2 ^ 74 ≤ l.value) ∧
    (l.code = 0 ↔ l.value ≤ 1 / 2 ^ 150 + 1 / 2 ^ 203) := by
  refine ⟨l.lex_chars, fun start rest hrest => l.number_chars hrest start, ⟨l.code_le_infinity, rfl⟩, fun code => ?_,
    fun other hle => ?_, l.code_eq_infinity_iff, l.code_eq_zero_iff⟩
  · rw [value_eq]
    exact Format.single_wider_double.nearest_nearest_iff l.decimal.den_pos
  · rw [value_eq, value_eq] at hle
    exact (Format.value_strictMono _).monotone (Format.single_wider_double.narrowed_le_of_value_le hle)

/-- The least whole number that is read as infinity, and one tenth less, which is read as the largest finite number. -/
theorem rounds_twice_overflow :
    let least : PointLiteral := ⟨"340282356779733642748073463979561713664".toList, [], by decide,
      List.all_eq_true.mp (by decide +kernel), by simp⟩
    let less : PointLiteral := ⟨"340282356779733642748073463979561713663".toList, ['9'], by decide,
      List.all_eq_true.mp (by decide +kernel), by simp⟩
    (∀ c ∈ [')'].head?, isNumberPart c = false) ∧
      Reading.number (Location.first "f") ("340282356779733642748073463979561713663.9".toList ++ [')']) =
        { outcome := .ok (.float (.signed false 2139095039 (by decide))), length := 41 } ∧
      least.code = Format.single.infinity ∧ less.value ≤ least.value ∧
      Format.single.value 2139095039 ≤ Format.single.value Format.single.infinity := by
  intro least less
  have hhead : ∀ c ∈ [')'].head?, isNumberPart c = false := by
    intro c hc
    obtain rfl : ')' = c := by simpa using hc
    rfl
  have hless : less.code = 2139095039 := by decide +kernel
  have hvalue : less.value ≤ least.value := by
    rw [value_eq, value_eq, Decimal.value_le_value_iff]
    decide +kernel
  have hleast : least.code = Format.single.infinity := by decide +kernel
  obtain ⟨-, hread, ⟨hcode, hpayload⟩, -, hmono, -, -⟩ := less.rounds_twice
  have hnumber := hread (Location.first "f") [')'] hhead
  have hordered := hmono least hvalue
  simp only [hpayload, hless] at hnumber
  rw [hless, hleast] at hordered
  exact ⟨hhead, hnumber, hleast, hvalue, hordered⟩

end PointLiteral

end TinyScript
