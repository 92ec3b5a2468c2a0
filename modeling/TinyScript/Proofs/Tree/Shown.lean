import TinyScript.Proofs.Number.ReadBack
import TinyScript.Proofs.Tree.Legible

/-!
# Operands in an outline

The text of an operand in an outline, its line without the keyword (`TokenValue.shown`), tells the token's value and where the
line ends, for all values that are scanned (`Scanned.eq_of_shown`). Names and marks stand by themselves; the text of a
literal has its kind before it. A string may have line feeds in it, and ends at its closing quote all the same.
-/

namespace TinyScript

/-! ## Words and lines -/

/-- Two words that end at one place are the same. -/
theorem word_append_inj {run run' rest rest' : List Char} {x x' : Char}
    (hrun : ∀ c ∈ run, Reading.isWordPart c = true) (hrun' : ∀ c ∈ run', Reading.isWordPart c = true)
    (hx : Reading.isWordPart x = false) (hx' : Reading.isWordPart x' = false)
    (h : run ++ x :: rest = run' ++ x' :: rest') : run = run' ∧ x = x' ∧ rest = rest' := by
  have hmaximal : MaximalRun Reading.isWordPart run (x :: rest) := by
    refine ⟨hrun, fun c hc => ?_⟩
    obtain rfl : x = c := by simpa using hc
    exact hx
  have hmaximal' : MaximalRun Reading.isWordPart run' (x' :: rest') := by
    refine ⟨hrun', fun c hc => ?_⟩
    obtain rfl : x' = c := by simpa using hc
    exact hx'
  obtain ⟨hsame, hsame'⟩ := hmaximal.unique hmaximal' h
  exact ⟨hsame, (List.cons.inj hsame').1, (List.cons.inj hsame').2⟩

/-- Two lines that end at one place are the same. -/
theorem line_append_inj {run run' rest rest' : List Char} (hrun : '\n' ∉ run) (hrun' : '\n' ∉ run')
    (h : run ++ '\n' :: rest = run' ++ '\n' :: rest') : run = run' ∧ rest = rest' := by
  have hmaximal : ∀ {run rest : List Char}, '\n' ∉ run → MaximalRun (· != '\n') run ('\n' :: rest) := by
    intro run rest hnone
    refine ⟨fun c hc => ?_, fun c hc => ?_⟩
    · have hne : c ≠ '\n' := fun heq => hnone (heq ▸ hc)
      simpa using hne
    · obtain rfl : '\n' = c := by simpa using hc
      rfl
  obtain ⟨hsame, hsame'⟩ := (hmaximal hrun).unique (hmaximal hrun') h
  exact ⟨hsame, (List.cons.inj hsame').2⟩

/-- Two strings that end at one place are the same: each ends at the first quote that is not escaped. -/
theorem string_append_inj {contents contents' rest rest' : List Char} (h : QuotesEscaped contents)
    (hlast : contents.getLast? ≠ some '\\') (h' : QuotesEscaped contents') (hlast' : contents'.getLast? ≠ some '\\')
    (heq : contents ++ '"' :: rest = contents' ++ '"' :: rest') : contents = contents' ∧ rest = rest' := by
  have hread := Reading.untilQuote_closed h hlast rest
  rw [heq, Reading.untilQuote_closed h' hlast' rest'] at hread
  obtain rfl := Option.some.inj hread
  exact ⟨rfl, (List.cons.inj (List.append_cancel_left heq)).2⟩

/-! ## Scanned values -/

namespace Scanned

/-- A scanned mark is no blank and no part of a word. -/
theorem character {mark : Char} (h : Scanned (.character mark)) :
    Reading.isBlank mark = false ∧ Reading.isWordPart mark = false := by
  obtain ⟨run, rest, hlexeme⟩ := h
  generalize hvalue : TokenValue.character mark = value at hlexeme
  cases hlexeme with
  | character hblank hdigit hword _ =>
    obtain rfl := TokenValue.character.inj hvalue
    refine ⟨hblank, ?_⟩
    simp only [Reading.isWordStart, Bool.or_eq_false_iff] at hword
    simp [Reading.isWordPart, Char.isAlphanum, hdigit, hword]
  | integer _ _ _ | float _ _ _ | boolean _ | string _ _ | identifier _ _ _ => cases hvalue

/-- The quotes of a scanned string are escaped, and it does not end with a backslash. -/
theorem string {text : String} (h : Scanned (.string text)) :
    QuotesEscaped text.toList ∧ text.toList.getLast? ≠ some '\\' := by
  obtain ⟨run, rest, hlexeme⟩ := h
  generalize hvalue : TokenValue.string text = value at hlexeme
  cases hlexeme with
  | string hescaped hlast =>
    obtain rfl := TokenValue.string.inj hvalue
    rw [String.toList_ofList]
    exact ⟨hescaped, hlast⟩
  | integer _ _ _ | float _ _ _ | boolean _ | character _ _ _ _ | identifier _ _ _ => cases hvalue

/-- A scanned integer is a number of 31 bits. -/
theorem integer {value : Int32} (h : Scanned (.integer value)) : ∃ n, n < 2 ^ 31 ∧ value = Int32.ofNat n := by
  obtain ⟨run, rest, hlexeme⟩ := h
  generalize hvalue : TokenValue.integer value = value' at hlexeme
  cases hlexeme with
  | integer _ _ hbound =>
    obtain rfl := TokenValue.integer.inj hvalue
    exact ⟨_, Nat.lt_of_le_of_lt hbound (by decide), rfl⟩
  | string _ _ | float _ _ _ | boolean _ | character _ _ _ _ | identifier _ _ _ => cases hvalue

/-- A scanned float has no sign. -/
theorem float_unsigned {value : Single} (h : Scanned (.float value)) : ∃ code hcode, value = .signed false code hcode := by
  obtain ⟨run, rest, hlexeme⟩ := h
  generalize hvalue : TokenValue.float value = value' at hlexeme
  cases hlexeme with
  | @float whole fraction _ _ _ _ =>
    generalize Reading.pointed whole fraction = d at hvalue
    unfold TokenValue.ofDouble at hvalue
    rw [TokenValue.float.inj hvalue]
    exact Binary.exists_convert_signed (g := .single) false (Format.round_le_infinity .double d.num d.den)
  | string _ _ | integer _ _ _ | boolean _ | character _ _ _ _ | identifier _ _ _ => cases hvalue

/-- A scanned float is a number. -/
theorem float {value : Single} (h : Scanned (.float value)) : value ≠ .nan := by
  obtain ⟨code, hcode, rfl⟩ := h.float_unsigned
  intro hnan
  cases hnan

/-- The text of a scanned integer is its digits. -/
theorem toList_lexeme_integer {n : Nat} (h : n < 2 ^ 31) :
    (TokenValue.integer (Int32.ofNat n)).lexeme.toList = Nat.toDigits 10 n := by
  have hlexeme : (TokenValue.integer (Int32.ofNat n)).lexeme = toString (Int32.ofNat n).toInt := rfl
  rw [hlexeme, Int32.toInt_ofNat_of_lt h]
  exact Nat.toList_repr

/-- The text of a scanned string tells it, and where the line ends. -/
theorem string_line_inj {text text' : String} {rest rest' : List Char} (h : Scanned (.string text))
    (h' : Scanned (.string text'))
    (heq : (TokenValue.string text).lexeme.toList ++ '\n' :: rest = (TokenValue.string text').lexeme.toList ++ '\n' :: rest') :
    text = text' ∧ rest = rest' := by
  have hlexeme : ∀ text rest, (TokenValue.string text).lexeme.toList ++ '\n' :: rest =
      '"' :: (text.toList ++ '"' :: '\n' :: rest) := by
    intro text rest
    simp [TokenValue.lexeme]
  obtain ⟨hescaped, hlast⟩ := h.string
  obtain ⟨hescaped', hlast'⟩ := h'.string
  rw [hlexeme, hlexeme] at heq
  obtain ⟨hsame, hrest⟩ := string_append_inj hescaped hlast hescaped' hlast' (List.cons.inj heq).2
  exact ⟨String.toList_inj.mp hsame, (List.cons.inj hrest).2⟩

/-- The text of a scanned integer tells it, and where the line ends. -/
theorem integer_line_inj {value value' : Int32} {rest rest' : List Char} (h : Scanned (.integer value))
    (h' : Scanned (.integer value'))
    (heq : (TokenValue.integer value).lexeme.toList ++ '\n' :: rest =
      (TokenValue.integer value').lexeme.toList ++ '\n' :: rest') : value = value' ∧ rest = rest' := by
  obtain ⟨n, hn, rfl⟩ := h.integer
  obtain ⟨n', hn', rfl⟩ := h'.integer
  have hdigits : ∀ n, '\n' ∉ Nat.toDigits 10 n := by
    intro n hmem
    exact absurd (Nat.isDigit_of_mem_toDigits (by decide) (by decide) hmem) (by decide)
  rw [toList_lexeme_integer hn, toList_lexeme_integer hn'] at heq
  obtain ⟨hsame, hrest⟩ := line_append_inj (hdigits n) (hdigits n') heq
  rw [← Decimal.valueOf_toDigits n, hsame, Decimal.valueOf_toDigits]
  exact ⟨rfl, hrest⟩

/-- The text of a scanned float tells it, and where the line ends. -/
theorem float_line_inj {value value' : Single} {rest rest' : List Char} (h : Scanned (.float value))
    (h' : Scanned (.float value'))
    (heq : (TokenValue.float value).lexeme.toList ++ '\n' :: rest = (TokenValue.float value').lexeme.toList ++ '\n' :: rest') :
    value = value' ∧ rest = rest' := by
  simp only [TokenValue.lexeme, String.toList_ofList] at heq
  obtain ⟨hsame, hrest⟩ := line_append_inj value.lineFeed_not_mem_text value'.lineFeed_not_mem_text heq
  exact ⟨Single.text_injective h.float h'.float hsame, hrest⟩

/-- The text of a truth value tells it, and where the line ends. -/
theorem boolean_line_inj {value value' : Bool} {rest rest' : List Char}
    (heq : (TokenValue.boolean value).lexeme.toList ++ '\n' :: rest =
      (TokenValue.boolean value').lexeme.toList ++ '\n' :: rest') : value = value' ∧ rest = rest' := by
  have hword : ∀ b, '\n' ∉ (TokenValue.booleanText b).toList := by decide
  have hinj : ∀ b b', (TokenValue.booleanText b).toList = (TokenValue.booleanText b').toList → b = b' := by decide
  obtain ⟨hsame, hrest⟩ := line_append_inj (hword value) (hword value') heq
  exact ⟨hinj value value' hsame, hrest⟩

/-- The text of a scanned literal tells the literal from the others of its kind, and where the line ends. -/
theorem eq_of_lexeme {value value' : TokenValue} {rest rest' : List Char} (h : Scanned value) (h' : Scanned value')
    (hliteral : value.isLiteral = true) (hkind : value.kind = value'.kind)
    (heq : value.lexeme.toList ++ '\n' :: rest = value'.lexeme.toList ++ '\n' :: rest') : value = value' ∧ rest = rest' := by
  cases value with
  | identifier _ | character _ | eof => cases hliteral
  | char c =>
    obtain ⟨run, after, hlexeme⟩ := h
    cases hlexeme
  | string text =>
    cases value' with
    | string text' => exact (string_line_inj h h' heq).imp_left (congrArg TokenValue.string)
    | _ => cases hkind
  | integer n =>
    cases value' with
    | integer n' => exact (integer_line_inj h h' heq).imp_left (congrArg TokenValue.integer)
    | _ => cases hkind
  | float x =>
    cases value' with
    | float x' => exact (float_line_inj h h' heq).imp_left (congrArg TokenValue.float)
    | _ => cases hkind
  | boolean b =>
    cases value' with
    | boolean b' => exact (boolean_line_inj heq).imp_left (congrArg TokenValue.boolean)
    | _ => cases hkind

end Scanned

/-! ## Operands -/

/-- The line of an operand without its keyword: a literal after its kind, anything else by itself. -/
def TokenValue.shown (value : TokenValue) : List Char :=
  if value.isLiteral then value.kind.word.toList ++ ' ' :: value.lexeme.toList else value.lexeme.toList

/-- The line of an operand is a keyword and what shows its value. -/
theorem label_ofToken (t : Token) : (Var.ofToken t).label.toList = "Var ".toList ++ t.value.shown := by
  unfold Var.label Var.ofToken TokenValue.shown
  dsimp only
  split
  · simp [Token.kind, Token.lexeme]
  · simp [Token.lexeme]

/-- What the text of an operand starts with: a word, and the character after it. A literal has a blank there, a name the end of
its line, and a mark stands there itself. -/
theorem Scanned.exists_word {value : TokenValue} (h : Scanned value) (rest : List Char) :
    ∃ word mark after, value.shown ++ '\n' :: rest = word ++ mark :: after ∧ (∀ c ∈ word, Reading.isWordPart c = true) ∧
      Reading.isWordPart mark = false ∧
      ((value.isLiteral = true ∧ word = value.kind.word.toList ∧ mark = ' ' ∧ after = value.lexeme.toList ++ '\n' :: rest) ∨
        (∃ name, value = .identifier name ∧ word = name.toList ∧ mark = '\n' ∧ after = rest) ∨
        (value = .character mark ∧ Reading.isBlank mark = false ∧ word = [] ∧ after = '\n' :: rest)) := by
  have hkind : ∀ kind : TokenKind, ∀ c ∈ kind.word.toList, Reading.isWordPart c = true := by
    intro kind
    apply List.all_eq_true.mp
    cases kind <;> decide
  by_cases hliteral : value.isLiteral = true
  · refine ⟨value.kind.word.toList, ' ', _, ?_, hkind value.kind, rfl, Or.inl ⟨hliteral, rfl, rfl, rfl⟩⟩
    unfold TokenValue.shown
    rw [if_pos hliteral, List.append_assoc, List.cons_append]
  · have hshown : value.shown = value.lexeme.toList := by
      unfold TokenValue.shown
      rw [if_neg hliteral]
    rw [hshown]
    cases value with
    | identifier name => exact ⟨name.toList, '\n', rest, rfl, h.isWord, rfl, Or.inr (Or.inl ⟨name, rfl, rfl, rfl, rfl⟩)⟩
    | character mark =>
      obtain ⟨hblank, hword⟩ := h.character
      refine ⟨[], mark, _, ?_, List.forall_mem_nil _, hword, Or.inr (Or.inr ⟨rfl, hblank, rfl, rfl⟩)⟩
      simp [TokenValue.lexeme]
    | eof => exact absurd rfl h.not_eof
    | string _ | char _ | integer _ | float _ | boolean _ => exact absurd rfl hliteral

/-- The text of an operand tells its value and where its line ends. -/
theorem Scanned.eq_of_shown {value value' : TokenValue} {rest rest' : List Char} (h : Scanned value) (h' : Scanned value')
    (heq : value.shown ++ '\n' :: rest = value'.shown ++ '\n' :: rest') : value = value' ∧ rest = rest' := by
  obtain ⟨word, mark, after, hshown, hword, hmark, hcases⟩ := h.exists_word rest
  obtain ⟨word', mark', after', hshown', hword', hmark', hcases'⟩ := h'.exists_word rest'
  rw [hshown, hshown'] at heq
  obtain ⟨rfl, rfl, rfl⟩ := word_append_inj hword hword' hmark hmark' heq
  rcases hcases with ⟨hliteral, hkind, rfl, rfl⟩ | ⟨name, rfl, rfl, rfl, rfl⟩ | ⟨rfl, hblank, rfl, rfl⟩
  · rcases hcases' with ⟨hliteral', hkind', _, hafter⟩ | ⟨_, _, _, hspace, _⟩ | ⟨_, hblank', _, _⟩
    · have hinj : ∀ kind kind' : TokenKind, kind.word.toList = kind'.word.toList → kind = kind' := by
        intro kind kind'
        cases kind <;> cases kind' <;> decide
      exact h.eq_of_lexeme h' hliteral (hinj _ _ (hkind.symm.trans hkind')) hafter
    · exact absurd hspace (by decide)
    · exact absurd hblank' (by decide)
  · rcases hcases' with ⟨_, _, hspace, _⟩ | ⟨name', rfl, hname, _, rfl⟩ | ⟨_, hblank', _, _⟩
    · exact absurd hspace (by decide)
    · rw [String.toList_inj.mp hname]
      exact ⟨rfl, rfl⟩
    · exact absurd hblank' (by decide)
  · rcases hcases' with ⟨_, _, rfl, _⟩ | ⟨_, _, _, rfl, _⟩ | ⟨rfl, _, _, hafter⟩
    · exact absurd hblank (by decide)
    · exact absurd hblank (by decide)
    · exact ⟨rfl, (List.cons.inj hafter).2⟩

end TinyScript
