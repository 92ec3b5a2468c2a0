import TinyScript.Proofs.Scan.Concat
import TinyScript.Proofs.Scan.Stopping
import TinyScript.Text.Plain

/-!
# Line ends

In a text file every line ends with a line feed, however it ends in the text that was written (`Text.unified`). The lexical
grammar does not mind: line ends are blanks outside string literals, and what ends a string literal or leaves it open is
neither made nor lost by them. So a text and the unified text are scanned to the same values, string literals unified, or stop
for the same cause (`lex_unified`).
-/

namespace TinyScript

namespace Text

/-- The text with every line end a line feed. -/
def unified (text : String) : String := String.ofList (unifyNewlines text.toList)

@[simp] theorem toList_unified (text : String) : (unified text).toList = unifyNewlines text.toList :=
  String.toList_ofList

/-! ## Texts -/

/-- A character before others becomes a line feed if it is a carriage return, unless it makes one line end with the next. -/
theorem unifyNewlines_cons {c : Char} {rest : List Char} (h : c = '\r' → rest.head? ≠ some '\n') :
    unifyNewlines (c :: rest) = (if c = '\r' then '\n' else c) :: unifyNewlines rest := by
  rw [unifyNewlines]
  rintro rest' rfl rfl
  exact h rfl rfl

/-- Two texts that no line end joins are unified apart. -/
theorem unifyNewlines_append {front back : List Char} (h : front.getLast? = some '\r' → back.head? ≠ some '\n') :
    unifyNewlines (front ++ back) = unifyNewlines front ++ unifyNewlines back := by
  fun_induction unifyNewlines front with
  | case1 => rfl
  | case2 rest ih =>
    have hrest : rest.getLast? = some '\r' → back.head? ≠ some '\n' := fun hlast =>
      h (by rw [List.getLast?_cons_cons, List.getLast?_cons, hlast]; rfl)
    exact congrArg ('\n' :: ·) (ih hrest)
  | case3 c rest hapart ih =>
    have hrest : rest.getLast? = some '\r' → back.head? ≠ some '\n' := fun hlast =>
      h (by rw [List.getLast?_cons, hlast]; rfl)
    have hnext : c = '\r' → (rest ++ back).head? ≠ some '\n' := by
      rintro rfl
      cases rest with
      | nil => exact h rfl
      | cons d rest =>
        intro hd
        exact hapart rest rfl (by rw [Option.some.inj hd])
    rw [List.cons_append, unifyNewlines_cons hnext, ih hrest, List.cons_append]

/-- A text without carriage returns stays. -/
theorem unifyNewlines_eq_self {text : List Char} (h : '\r' ∉ text) : unifyNewlines text = text := by
  induction text with
  | nil => rfl
  | cons c rest ih =>
    obtain ⟨hc, hrest⟩ : '\r' ≠ c ∧ '\r' ∉ rest := by simpa using h
    rw [unifyNewlines_cons fun heq => absurd heq.symm hc, if_neg hc.symm, ih hrest]

/-- The first character becomes a line feed if it is a carriage return. -/
theorem head?_unifyNewlines (text : List Char) :
    (unifyNewlines text).head? = text.head?.map fun c => if c = '\r' then '\n' else c := by
  fun_cases unifyNewlines text <;> rfl

/-- The last character becomes a line feed if it is a carriage return. -/
theorem getLast?_unifyNewlines (text : List Char) :
    (unifyNewlines text).getLast? = text.getLast?.map fun c => if c = '\r' then '\n' else c := by
  fun_induction unifyNewlines text with
  | case1 => rfl
  | case2 rest ih =>
    rw [List.getLast?_cons, ih, List.getLast?_cons_cons, List.getLast?_cons]
    cases rest.getLast? <;> rfl
  | case3 c rest _ ih =>
    rw [List.getLast?_cons, ih, List.getLast?_cons]
    cases rest.getLast? <;> rfl

/-- Unifying a text adds nothing but line feeds. -/
theorem mem_of_mem_unifyNewlines {text : List Char} {c : Char} (h : c ∈ unifyNewlines text) : c = '\n' ∨ c ∈ text := by
  fun_induction unifyNewlines text with
  | case1 => exact Or.inr h
  | case2 rest ih =>
    rcases List.mem_cons.mp h with rfl | h
    · exact Or.inl rfl
    · exact (ih h).imp_right fun hmem => List.mem_cons_of_mem _ (List.mem_cons_of_mem _ hmem)
  | case3 d rest _ ih =>
    rcases List.mem_cons.mp h with rfl | h
    · split
      · exact Or.inl rfl
      · exact Or.inr List.mem_cons_self
    · exact (ih h).imp_right (List.mem_cons_of_mem _)

/-- Unifying a text makes it no longer. -/
theorem length_unifyNewlines_le (text : List Char) : (unifyNewlines text).length ≤ text.length := by
  fun_induction unifyNewlines text with
  | case1 => exact Nat.le_refl _
  | case2 rest ih => exact Nat.succ_le_succ (Nat.le_succ_of_le ih)
  | case3 _ rest _ ih => exact Nat.succ_le_succ ih

/-- What can be taken of a class without line ends is the same. -/
theorem takeWhile_unifyNewlines {p : Char → Bool} (hreturn : p '\r' = false) (hfeed : p '\n' = false) (text : List Char) :
    (unifyNewlines text).takeWhile p = text.takeWhile p := by
  fun_induction unifyNewlines text with
  | case1 => rfl
  | case2 rest _ => simp [hreturn, hfeed]
  | case3 c rest _ ih =>
    by_cases hc : c = '\r'
    · subst hc
      simp [hreturn, hfeed]
    · rw [if_neg hc, List.takeWhile_cons, List.takeWhile_cons, ih]

end Text

/-- The value with its line ends unified, if it is a string literal. -/
def TokenValue.unified : TokenValue → TokenValue
  | .string text => .string (Text.unified text)
  | value => value

@[simp] theorem TokenValue.kind_unified (value : TokenValue) : value.unified.kind = value.kind := by
  cases value <;> rfl

/-- Other values than string literals stay. -/
theorem TokenValue.unified_eq_self {value : TokenValue} (h : value.kind ≠ .string) : value.unified = value := by
  cases value <;> first | rfl | exact absurd rfl h

/-- The piece in the unified text. -/
def Piece.unified (piece : Piece) : Piece where
  blanks := Text.unifyNewlines piece.blanks
  run := Text.unifyNewlines piece.run
  value := piece.value.unified

/-! ## The lexical grammar -/

section Grammar

open Text (unifyNewlines)

variable {p : Char → Bool} {run rest text : List Char} {value : TokenValue}

/-- A class without the line feed that does not come next comes next in no unified text. -/
theorem head?_unified (hfeed : p '\n' = false) (h : ∀ c ∈ text.head?, p c = false) :
    ∀ c ∈ (unifyNewlines text).head?, p c = false := by
  intro c hc
  rw [Text.head?_unifyNewlines] at hc
  obtain ⟨d, hd, rfl⟩ := Option.map_eq_some_iff.mp hc
  split
  · exact hfeed
  · exact h d hd

theorem EndsBefore.unified {kind : TokenKind} (h : EndsBefore kind rest) : EndsBefore kind (unifyNewlines rest) :=
  ⟨fun hkind => head?_unified rfl (h.1 hkind), fun hkind => head?_unified rfl (h.2 hkind)⟩

theorem AllBlank.unified (h : AllBlank text) : AllBlank (unifyNewlines text) := by
  intro c hc
  rcases Text.mem_of_mem_unifyNewlines hc with rfl | hmem
  · rfl
  · exact h c hmem

/-- Quotes that are escaped in a text are escaped in the unified text, behind a backslash if they were behind one. -/
theorem Reading.EscapedAfter.unified {last last' : Char} (hlast : last = '\\' → last' = '\\')
    (h : EscapedAfter last text) : EscapedAfter last' (unifyNewlines text) := by
  fun_induction unifyNewlines text generalizing last last' with
  | case1 => exact fun front back heq => by simp at heq
  | case2 rest ih =>
    have hrest := (escapedAfter_cons.mp (escapedAfter_cons.mp h).2).2
    exact escapedAfter_cons.mpr ⟨fun hquote => absurd hquote (by decide), ih id hrest⟩
  | case3 c rest _ ih =>
    obtain ⟨hfirst, hrest⟩ := escapedAfter_cons.mp h
    by_cases hc : c = '\r'
    · subst hc
      exact escapedAfter_cons.mpr ⟨fun hquote => absurd hquote (by decide), ih (fun h => absurd h (by decide)) hrest⟩
    · rw [if_neg hc]
      exact escapedAfter_cons.mpr ⟨fun hquote => hlast (hfirst hquote), ih id hrest⟩

theorem QuotesEscaped.unified (h : QuotesEscaped text) : QuotesEscaped (unifyNewlines text) := by
  have hnull : '\x00' ≠ '\\' := by decide
  exact (Reading.escapedAfter_iff hnull).mp (((Reading.escapedAfter_iff hnull).mpr h).unified id)

/-- The characters of other lexemes than string literals are no carriage returns. -/
theorem Lexeme.not_mem_return (h : Lexeme run rest value) (hkind : value.kind ≠ .string) : '\r' ∉ run := by
  intro hmem
  have hpart : value.kind ∈ numberKinds ∨ value.kind ∈ wordKinds → False := fun hsort =>
    absurd (h.not_isBlank hsort '\r' hmem) (by decide)
  cases h with
  | integer | float => exact hpart (Or.inl (by simp [TokenValue.ofDouble, TokenValue.kind, numberKinds]))
  | boolean | identifier => exact hpart (Or.inr (by simp [TokenValue.kind, wordKinds]))
  | string => exact hkind rfl
  | character hblank =>
    obtain rfl := List.mem_singleton.mp hmem
    exact absurd hblank (by decide)

/-- No lexeme ends with a carriage return. -/
theorem Lexeme.getLast?_ne_return (h : Lexeme run rest value) : run.getLast? ≠ some '\r' := by
  by_cases hkind : value.kind = .string
  · cases h with
    | string _ _ => simp [List.getLast?_cons]
    | integer | float | boolean | identifier | character => cases hkind
  · exact fun hlast => h.not_mem_return hkind (List.mem_of_getLast? hlast)

/-- A lexeme and what follows it are unified apart. -/
theorem Lexeme.unifyNewlines_append (h : Lexeme run rest value) :
    unifyNewlines (run ++ rest) = unifyNewlines run ++ unifyNewlines rest :=
  Text.unifyNewlines_append fun hlast => absurd hlast h.getLast?_ne_return

/-- In the unified text there stands the lexeme of the unified value. -/
theorem Lexeme.unified (h : Lexeme run rest value) : Lexeme (unifyNewlines run) (unifyNewlines rest) value.unified := by
  by_cases hkind : value.kind = .string
  · cases h with
    | @string contents _ hescaped hlast =>
      have hrun : unifyNewlines ('"' :: (contents ++ ['"'])) = '"' :: (unifyNewlines contents ++ ['"']) := by
        have hback : unifyNewlines (contents ++ ['"']) = unifyNewlines contents ++ unifyNewlines ['"'] :=
          Text.unifyNewlines_append fun _ => by decide
        rw [Text.unifyNewlines_cons fun hquote => absurd hquote (by decide), hback]
        rfl
      have hlast' : (unifyNewlines contents).getLast? ≠ some '\\' := by
        rw [Text.getLast?_unifyNewlines]
        intro hbackslash
        obtain ⟨c, hc, hsame⟩ := Option.map_eq_some_iff.mp hbackslash
        split at hsame
        · exact absurd hsame (by decide)
        · exact hlast (hsame ▸ hc)
      have hvalue : (TokenValue.string (String.ofList contents)).unified = .string (String.ofList (unifyNewlines contents)) := by
        rw [TokenValue.unified, Text.unified, String.toList_ofList]
      rw [hrun, hvalue]
      exact .string hescaped.unified hlast'
    | integer | float | boolean | identifier | character => cases hkind
  · rw [Text.unifyNewlines_eq_self (h.not_mem_return hkind), TokenValue.unified_eq_self hkind]
    exact h.before h.endsBefore.unified

/-- Blanks and what follows them are unified apart, if that starts with no blank. -/
theorem unifyNewlines_blanks_append {blanks : List Char} (h : ∀ c ∈ rest.head?, Reading.isBlank c = false) :
    unifyNewlines (blanks ++ rest) = unifyNewlines blanks ++ unifyNewlines rest :=
  Text.unifyNewlines_append fun _ hfeed => absurd (h '\n' hfeed) (by decide)

/-- Where a text is pieces, the unified text is the unified pieces. -/
theorem Factors.unified {pieces : List Piece} (h : Factors pieces text rest) :
    Factors (pieces.map Piece.unified) (unifyNewlines text) (unifyNewlines rest) := by
  induction h with
  | nil => exact .nil
  | @cons blanks run after _ value pieces hblanks hlexeme _ ih =>
    rw [unifyNewlines_blanks_append (hblanks.before_lexeme hlexeme).2, hlexeme.unifyNewlines_append]
    exact .cons hblanks.unified hlexeme.unified ih

/-- Unified pieces are readable if they were before. -/
theorem Piece.Readable.unified {piece : Piece} (h : piece.Readable) : piece.unified.Readable := fun hkind =>
  Nat.le_trans (Text.length_unifyNewlines_le _) (h ((TokenValue.kind_unified _).symm.trans hkind))

/-- A number in a text is the same number in the unified text. -/
theorem NumberRun.unified (h : NumberRun run rest) :
    unifyNewlines (run ++ rest) = run ++ unifyNewlines rest ∧ NumberRun run (unifyNewlines rest) := by
  have hnone : '\r' ∉ run := fun hmem => absurd (h.2.1 '\r' hmem) (by decide)
  refine ⟨?_, h.1, h.2.1, head?_unified rfl h.2.2⟩
  rw [Text.unifyNewlines_append fun hlast => absurd (List.mem_of_getLast? hlast) hnone, Text.unifyNewlines_eq_self hnone]

/-- A bad literal is bad for the same cause in the unified text. -/
theorem BadLiteral.unified {cause : LexCause} (h : BadLiteral text cause) : BadLiteral (unifyNewlines text) cause := by
  cases h with
  | extraPoint hrun hwhole hfraction =>
    rw [hrun.unified.1]
    exact .extraPoint hrun.unified.2 hwhole hfraction
  | overflow hrun hpoint hvalue =>
    rw [hrun.unified.1]
    exact .overflow hrun.unified.2 hpoint hvalue
  | unterminated hescaped =>
    rw [Text.unifyNewlines_cons fun hquote => absurd hquote (by decide)]
    exact .unterminated hescaped.unified

/-- Integers that can be read in a text can be read in the unified text. -/
theorem ReadableDigits.unified (h : ReadableDigits text) : ReadableDigits (unifyNewlines text) := by
  intro run rest heq hrun hpoint
  have hsame : text.takeWhile isNumberPart = run := by
    rw [← Text.takeWhile_unifyNewlines rfl rfl text, heq, hrun.2.takeWhile]
  have hmaximal : MaximalRun isNumberPart run (text.dropWhile isNumberPart) := hsame ▸ maximalRun_takeWhile isNumberPart text
  refine h run (text.dropWhile isNumberPart) ?_ ⟨hrun.1, hmaximal⟩ hpoint
  rw [← hsame, List.takeWhile_append_dropWhile]

end Grammar

/-! ## Sources -/

/-- What stops a scan, apart from where. -/
def ScanFault.cause : ScanFault → LexCause ⊕ Refusal
  | .diagnosed error => .inl error.cause
  | .refused reason => .inr reason

/-- A scan of the unified text stops where the scan of the text does, for the same cause. -/
theorem Stops.unified {l : Location} {text : List Char} {fault : Option ScanFault} (h : Stops l text fault) (l' : Location) :
    ∃ fault', Stops l' (Text.unifyNewlines text) fault' ∧ fault'.map ScanFault.cause = fault.map ScanFault.cause := by
  cases h with
  | ended => exact ⟨none, .ended, rfl⟩
  | @badLiteral _ cause hbad hlimit => exact ⟨some (.diagnosed ⟨cause, l'⟩), .badLiteral hbad.unified hlimit.unified, rfl⟩
  | tooLong hdigits hpoint hlong =>
    rw [hdigits.unified.1]
    exact ⟨_, .tooLong hdigits.unified.2 hpoint hlong, rfl⟩

/-- A text and the unified text are scanned to the same values, those of string literals unified, or neither is scanned, for
the same cause. -/
theorem lex_unified (source filename filename' : String) :
    ((lex (Text.unified source) filename').map (·.map (·.value))).mapError ScanFault.cause =
      ((lex source filename).map (·.map (·.value.unified))).mapError ScanFault.cause := by
  obtain ⟨pieces, blanks, rest, fault, hpieces, hblanks, hreadable, hstops⟩ := exists_stops source.toList (.first filename)
  have hpieces' := hpieces.unified
  rw [unifyNewlines_blanks_append hstops.not_isBlank, ← Text.toList_unified] at hpieces'
  have hreadable' : ∀ piece ∈ pieces.map Piece.unified, piece.Readable := by
    intro piece hpiece
    obtain ⟨piece, hmem, rfl⟩ := List.mem_map.mp hpiece
    exact (hreadable piece hmem).unified
  obtain ⟨fault', hstops', hcause⟩ := hstops.unified
    ((Location.first filename').stepAll (spelled (pieces.map Piece.unified) ++ Text.unifyNewlines blanks))
  rw [lex_of_stops hpieces hblanks hreadable hstops, lex_of_stops hpieces' hblanks.unified hreadable' hstops']
  cases fault with
  | none =>
    obtain rfl : fault' = none := Option.map_eq_none_iff.mp hcause
    have hvalues : ∀ tokens : List Token, tokens.map (·.value.unified) = (tokens.map (·.value)).map TokenValue.unified :=
      fun tokens => by rw [List.map_map]; rfl
    have hplaced : (placed 0 (pieces.map Piece.unified) ++ [Token.eof (Text.unified source).length]).map (·.value) =
        (placed 0 pieces ++ [Token.eof source.length]).map (·.value.unified) := by
      rw [hvalues, map_value_tokens, map_value_tokens, List.map_append, List.map_map, List.map_map]
      rfl
    exact congrArg Except.ok hplaced
  | some fault =>
    obtain ⟨fault'', rfl, hsame⟩ := Option.map_eq_some_iff.mp hcause
    exact congrArg Except.error hsame

end TinyScript
