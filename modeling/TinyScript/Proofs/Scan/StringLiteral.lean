import TinyScript.Proofs.Scan.Rescan

/-!
# String literals

Which texts a string literal can hold: those that are `Quotable`. A quotable text between quotes is scanned to the string
token of that text, whatever follows, and what follows is scanned as it is alone. No source has a string token of any other
text (`lex_stringLiteral`).
-/

namespace TinyScript

/-- Every quote of the text comes directly after a backslash of the text, which does not end with a backslash. -/
def Quotable (text : String) : Prop := QuotesEscaped text.toList ∧ text.toList.getLast? ≠ some '\\'

/-- The quotes of a text are escaped exactly if none of them ends it at the start of a literal. -/
theorem quotesEscaped_iff (text : List Char) : QuotesEscaped text ↔ Reading.untilQuote '\x00' text = none := by
  have hnull : '\x00' ≠ '\\' := by decide
  rw [← Reading.escapedAfter_iff hnull]
  constructor
  · exact Reading.untilQuote_eq_none
  · intro hnone
    refine (Reading.escapedAfter_or_open '\x00' text).resolve_right ?_
    rintro ⟨contents, rest, rfl, hescaped, hlast⟩
    rw [Reading.untilQuote_append hescaped hlast] at hnone
    cases hnone

instance (text : String) : Decidable (Quotable text) :=
  decidable_of_iff (Reading.untilQuote '\x00' text.toList = none ∧ text.toList.getLast? ≠ some '\\')
    (and_congr_left' (quotesEscaped_iff text.toList).symm)

/-- The text between quotes. -/
def stringLiteral (text : String) : String := "\"" ++ text ++ "\""

theorem toList_stringLiteral (text : String) : (stringLiteral text).toList = '"' :: (text.toList ++ ['"']) := by
  simp [stringLiteral, String.toList_append]

theorem length_stringLiteral (text : String) : (stringLiteral text).length = text.length + 2 := by
  rw [← String.length_toList, toList_stringLiteral, List.length_cons, List.length_append, String.length_toList,
    List.length_singleton]

section Quotable

variable {text : String}

/-- The quoted text is one piece. -/
theorem Quotable.factors (h : Quotable text) :
    Factors [⟨[], '"' :: (text.toList ++ ['"']), .string text⟩] (stringLiteral text).toList [] := by
  have hnone : AllBlank [] := List.forall_mem_nil _
  have hlexeme : Lexeme ('"' :: (text.toList ++ ['"'])) [] (.string (String.ofList text.toList)) := .string h.1 h.2
  rw [String.ofList_toList] at hlexeme
  rw [toList_stringLiteral]
  simpa using Factors.cons hnone hlexeme .nil

/-- The quoted text is scanned to the string token of the text, which stands at the closing quote. -/
theorem Quotable.lex_eq (h : Quotable text) (filename : String) :
    lex (stringLiteral text) filename = .ok [⟨.string text, text.length + 1⟩, .eof (text.length + 2)] := by
  have hnone : AllBlank [] := List.forall_mem_nil _
  have hreadable : ∀ piece ∈ [(⟨[], '"' :: (text.toList ++ ['"']), .string text⟩ : Piece)], piece.Readable := by
    refine List.forall_mem_singleton.mpr fun hkind => ?_
    cases hkind
  rw [lex_of_readable_factors h.factors hnone hreadable, length_stringLiteral]
  have hplace : (0 : Int) + ([] : List Char).length + Piece.anchor ⟨[], '"' :: (text.toList ++ ['"']), .string text⟩ =
      text.length + 1 := by
    simp only [Piece.anchor, List.length_cons, List.length_append, List.length_nil, String.length_toList]
    omega
  simp only [placed, hplace, List.cons_append, List.nil_append]
  rfl

/-- A quoted text ends in no number and in no word, so nothing goes on with it. -/
theorem Quotable.not_goesOn (h : Quotable text) (back : List Char) : ¬ GoesOn (stringLiteral text).toList back := by
  have hnone : AllBlank [] := List.forall_mem_nil _
  have hends : ∀ kinds, TokenKind.string ∉ kinds → ¬ EndsIn kinds (stringLiteral text).toList := by
    rintro kinds hkinds ⟨pieces, piece, hpieces, hkind⟩
    have hpieces : Factors (pieces ++ [piece]) (stringLiteral text).toList ([] ++ []) := hpieces
    have hsame := (hpieces.unique hnone (Or.inl rfl) h.factors hnone (Or.inl rfl)).1
    have hlast := congrArg List.getLast? hsame
    rw [List.getLast?_concat, List.getLast?_singleton, Option.some.injEq] at hlast
    rw [hlast] at hkind
    exact hkinds hkind
  rintro (⟨h, -⟩ | ⟨h, -⟩)
  · exact hends _ (by decide) h
  · exact hends _ (by decide) h

end Quotable

/-- A text that stands in a string token is quotable. -/
theorem quotable_of_lex {source filename text : String} {tokens : List Token} (h : lex source filename = .ok tokens)
    {t : Token} (ht : t ∈ tokens) (hvalue : t.value = .string text) : Quotable text := by
  have hscanned := scanned_of_lex h (.string text) (List.mem_map.mpr ⟨t, ht, hvalue⟩)
  exact (hscanned.resolve_left fun heq => by cases heq).string

/-- A text stands in a string token of some source exactly if it is quotable. Between quotes it is then scanned to the string
token of the text, at the closing quote, and what is written behind is scanned as it is alone, further on by the length of the
literal: to the same values, or to an error of the same cause. A text that is not quotable is not scanned to its string token
between quotes. -/
theorem lex_stringLiteral (text : String) :
    ((∃ source filename tokens, lex source filename = .ok tokens ∧ ∃ t ∈ tokens, t.value = .string text) ↔ Quotable text) ∧
    (Quotable text → ∀ rest filename, lex (stringLiteral text ++ rest) filename =
      ((lex rest filename).map fun tokens => ⟨.string text, text.length + 1⟩ ::
        tokens.map fun t => { t with position := t.position + (text.length + 2) }).mapError
          (·.behind (stringLiteral text).toList)) ∧
    (∀ e : LexError, (e.behind (stringLiteral text).toList).cause = e.cause ∧
      (e.behind (stringLiteral text).toList).location.offset = e.location.offset + (text.length + 2)) ∧
    (¬ Quotable text → ∀ filename tokens, lex (stringLiteral text) filename = .ok tokens →
      tokens.map (·.value) ≠ [.string text, .eof]) := by
  have hlength : ((stringLiteral text).toList.length : Int) = text.length + 2 := by
    rw [String.length_toList, length_stringLiteral]
    rfl
  refine ⟨⟨?_, fun h => ?_⟩, fun h rest filename => ?_, fun e => ⟨rfl, ?_⟩, fun h filename tokens hlex hvalues => ?_⟩
  · rintro ⟨source, filename, tokens, hlex, t, ht, hvalue⟩
    exact quotable_of_lex hlex ht hvalue
  · exact ⟨stringLiteral text, defaultFilename, _, h.lex_eq defaultFilename, _, List.mem_cons_self, rfl⟩
  · have hbehind : Token.behind (stringLiteral text).toList =
        fun t => { t with position := t.position + (text.length + 2) } := by
      funext t
      rw [Token.behind, hlength]
    rw [lex_append_of_not_goesOn (h.lex_eq filename) (h.not_goesOn rest.toList), hbehind]
    rfl
  · simp only [LexError.behind, Location.behind, hlength]
  · have hmem : TokenValue.string text ∈ tokens.map (·.value) := by rw [hvalues]; exact List.mem_cons_self
    obtain ⟨t, ht, hvalue⟩ := List.mem_map.mp hmem
    exact h (quotable_of_lex hlex ht hvalue)

/-- An escaped quote stays inside its literal. A quote or a backslash at the end of a text is not quotable: the first ends the
literal before the last quote, and the second escapes that quote. -/
theorem lex_stringLiteral_escapedQuote :
    Quotable "a\\\"b" ∧ ¬ Quotable "a\"" ∧ ¬ Quotable "a\\" ∧
      (∃ source filename tokens, lex source filename = .ok tokens ∧ ∃ t ∈ tokens, t.value = .string "a\\\"b") ∧
      lex (stringLiteral "a\\\"b" ++ " 7") "f" = .ok [⟨.string "a\\\"b", 5⟩, ⟨.integer 7, 8⟩, .eof 8] ∧
      (∀ tokens, lex (stringLiteral "a\"") "f" = .ok tokens → tokens.map (·.value) ≠ [.string "a\"", .eof]) ∧
      ∀ tokens, lex (stringLiteral "a\\") "f" = .ok tokens → tokens.map (·.value) ≠ [.string "a\\", .eof] := by
  have hquotable : Quotable "a\\\"b" := by decide
  have hquote : ¬ Quotable "a\"" := by decide
  have hbackslash : ¬ Quotable "a\\" := by decide
  have hrest : lex " 7" "f" = .ok [⟨.integer 7, 2⟩, .eof 2] := by with_unfolding_all rfl
  obtain ⟨hexists, happend, -, -⟩ := lex_stringLiteral "a\\\"b"
  refine ⟨hquotable, hquote, hbackslash, hexists.mpr hquotable, ?_, (lex_stringLiteral "a\"").2.2.2 hquote "f",
    (lex_stringLiteral "a\\").2.2.2 hbackslash "f"⟩
  rw [happend hquotable, hrest]
  rfl

end TinyScript
