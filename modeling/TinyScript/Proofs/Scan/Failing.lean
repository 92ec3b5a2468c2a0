import TinyScript.Proofs.Scan.Tokenization

/-!
# Where a scan fails

A scan fails at the first bad literal of a source and says where that is. `Location.after` is the place past a text in terms
of its line feeds, and the steps of a cursor over the text come to that place (`Location.stepAll_first`). So `lex` fails
exactly on the sources that are pieces, blanks and a bad literal, with the error for that literal at its first character
(`lex_eq_error_iff`).
-/

namespace TinyScript

/-! ## Places -/

/-- The index of the last line feed of a text, one less than zero if there is none. -/
def lastLineFeed : List Char → Int
  | [] => -1
  | c :: rest => if 0 ≤ lastLineFeed rest then lastLineFeed rest + 1 else if c = '\n' then 0 else -1

/-- Without a line feed there is no last one. -/
theorem lastLineFeed_of_not_mem {text : List Char} (h : '\n' ∉ text) : lastLineFeed text = -1 := by
  induction text with
  | nil => rfl
  | cons c rest ih =>
    obtain ⟨hc, hrest⟩ : '\n' ≠ c ∧ '\n' ∉ rest := by simpa using h
    rw [lastLineFeed, ih hrest, if_neg (by decide), if_neg (Ne.symm hc)]

/-- A line feed that no other one follows is the last. -/
theorem lastLineFeed_append (front : List Char) {back : List Char} (h : '\n' ∉ back) :
    lastLineFeed (front ++ '\n' :: back) = front.length := by
  induction front with
  | nil => simp [lastLineFeed, lastLineFeed_of_not_mem h]
  | cons c front ih =>
    rw [List.cons_append, lastLineFeed, ih, if_pos (by omega), List.length_cons, Int.natCast_add_one]

/-- Any other character leaves the last line feed where it is. -/
theorem lastLineFeed_snoc (text : List Char) {c : Char} (h : c ≠ '\n') :
    lastLineFeed (text ++ [c]) = lastLineFeed text := by
  induction text with
  | nil => exact lastLineFeed_of_not_mem (by simpa using h.symm)
  | cons d text ih => rw [List.cons_append, lastLineFeed, lastLineFeed, ih]

/-- The place past a text at the start of a source. -/
def Location.after (filename : String) (text : List Char) : Location where
  filename
  line := 1 + text.count '\n'
  column := text.length - lastLineFeed text
  offset := text.length

/-- A step over one more character comes to the place past it. -/
theorem Location.step_after (filename : String) (text : List Char) (c : Char) :
    (Location.after filename text).step c = .after filename (text ++ [c]) := by
  unfold Location.step Location.after
  by_cases h : c = '\n'
  · subst h
    have hlast := lastLineFeed_append text (List.not_mem_nil (a := '\n'))
    simp only [if_true, hlast, List.count_append, List.count_singleton_self, List.length_append, List.length_singleton,
      Location.mk.injEq, true_and]
    omega
  · have hcount : List.count '\n' [c] = 0 := List.count_eq_zero_of_not_mem (by simpa using Ne.symm h)
    simp only [if_neg h, lastLineFeed_snoc text h, List.count_append, hcount, List.length_append,
      List.length_singleton, Location.mk.injEq, true_and]
    omega

/-- The steps over a text come to the place past it. -/
theorem Location.stepAll_after (filename : String) (front back : List Char) :
    (Location.after filename front).stepAll back = .after filename (front ++ back) := by
  induction back generalizing front with
  | nil => rw [List.append_nil]; rfl
  | cons c back ih =>
    have hstep : (Location.after filename front).stepAll (c :: back) =
        (Location.after filename (front ++ [c])).stepAll back := by
      rw [← Location.step_after]
      rfl
    rw [hstep, ih, List.append_assoc, List.singleton_append]

/-- The steps over the start of a source come to the place past it. -/
theorem Location.stepAll_first (filename : String) (text : List Char) :
    (Location.first filename).stepAll text = .after filename text :=
  Location.stepAll_after filename [] text

/-! ## Failures -/

/-- A source is a complete text and a bad literal in one way only. -/
theorem Complete.unique {front rest front' rest' : List Char} (h : Complete front rest) (hhalts : Halts rest)
    (h' : Complete front' rest') (hhalts' : Halts rest') (heq : front ++ rest = front' ++ rest') :
    front = front' ∧ rest = rest' := by
  obtain ⟨pieces, blanks, hpieces, hblanks⟩ := h
  obtain ⟨pieces', blanks', hpieces', hblanks'⟩ := h'
  rw [heq] at hpieces
  obtain ⟨rfl, rfl, rfl⟩ := hpieces.unique hblanks hhalts hpieces' hblanks' hhalts'
  exact ⟨List.append_cancel_right heq, rfl⟩

/-- After a complete text a bad literal is reported at the place past that text. -/
theorem lex_of_complete {source : String} {front rest : List Char} {cause : LexCause}
    (hsource : source.toList = front ++ rest) (hfront : Complete front rest) (hbad : BadLiteral rest cause)
    (hlimit : WithinDigitLimit source.toList) (filename : String) :
    lex source filename = .error (.diagnosed ⟨cause, .after filename front⟩) := by
  obtain ⟨pieces, blanks, hpieces, hblanks⟩ := hfront
  rw [← hsource] at hpieces
  have hspelled : front = spelled pieces ++ blanks := by
    have heq := hsource.symm.trans hpieces.eq_spelled
    rw [← List.append_assoc] at heq
    exact List.append_cancel_right heq
  rw [lex_of_badLiteral hpieces hblanks hbad hlimit, ← hspelled, Location.stepAll_first]

/-- A source without too long integers fails to be scanned exactly when a complete text and a bad literal make it up. The
error is the one for that literal, at its first character. A source is made up so in one way only, and the kind, the code
and the words of the error are those of its cause. -/
theorem lex_eq_error_iff {source : String} (hlimit : WithinDigitLimit source.toList) (filename : String) :
    (∀ fault, lex source filename = .error fault ↔
      ∃ front rest cause, source.toList = front ++ rest ∧ Complete front rest ∧ BadLiteral rest cause ∧
        fault = .diagnosed ⟨cause, .after filename front⟩) ∧
    (∀ front rest cause front' rest' cause',
      source.toList = front ++ rest → Complete front rest → BadLiteral rest cause →
      source.toList = front' ++ rest' → Complete front' rest' → BadLiteral rest' cause' →
      front = front' ∧ rest = rest' ∧ cause = cause') ∧
    (∀ lexeme, (LexCause.extraPoint lexeme).kind = .malformedNumber ∧ (LexCause.extraPoint lexeme).code = "L003" ∧
      (LexCause.extraPoint lexeme).message = "Cannot have more than one decimal point in a number: '" ++ lexeme ++ "'") ∧
    (∀ lexeme, (LexCause.overflow lexeme).kind = .malformedNumber ∧ (LexCause.overflow lexeme).code = "L007" ∧
      (LexCause.overflow lexeme).message = "Integer literal out of range: '" ++ lexeme ++ "'") ∧
    LexCause.unterminated.kind = .unterminatedString ∧ LexCause.unterminated.code = "L002" := by
  refine ⟨fun fault => ⟨fun herror => ?_, ?_⟩, ?_, fun _ => ⟨rfl, rfl, rfl⟩, fun _ => ⟨rfl, rfl, rfl⟩, rfl, rfl⟩
  · obtain ⟨pieces, blanks, rest, hpieces, hblanks, rfl | ⟨cause, hbad⟩⟩ := Factors.total source.toList
    · rw [List.append_nil] at hpieces
      rw [lex_of_factors hpieces hblanks hlimit] at herror
      cases herror
    · have hsource : source.toList = (spelled pieces ++ blanks) ++ rest := by
        rw [List.append_assoc, ← hpieces.eq_spelled]
      have hfront : Complete (spelled pieces ++ blanks) rest := ⟨pieces, blanks, hsource ▸ hpieces, hblanks⟩
      have hsame := herror.symm.trans (lex_of_complete hsource hfront hbad hlimit filename)
      exact ⟨_, rest, cause, hsource, hfront, hbad, Except.error.inj hsame⟩
  · rintro ⟨front, rest, cause, hsource, hfront, hbad, rfl⟩
    exact lex_of_complete hsource hfront hbad hlimit filename
  · intro front rest cause front' rest' cause' hsource hfront hbad hsource' hfront' hbad'
    obtain ⟨hsame, hsame'⟩ :=
      hfront.unique (Or.inr ⟨cause, hbad⟩) hfront' (Or.inr ⟨cause', hbad'⟩) (hsource.symm.trans hsource')
    have hlex := lex_of_complete hsource hfront hbad hlimit filename
    rw [lex_of_complete hsource' hfront' hbad' hlimit filename] at hlex
    have herror := ScanFault.diagnosed.inj (Except.error.inj hlex)
    exact ⟨hsame, hsame', (congrArg LexError.cause herror).symm⟩

/-- A number with two points on the second line. -/
theorem lex_twoPoints :
    lex "x\n 1.2.3" "f" = .error (.diagnosed ⟨.extraPoint "1.2.", { filename := "f", line := 2, column := 2, offset := 3 }⟩) := by
  have hword : Lexeme ['x'] (['\n', ' '] ++ ['1', '.', '2', '.', '3']) (.identifier (String.ofList ['x'])) :=
    .identifier ⟨'x', rfl, rfl⟩ (by decide) (by decide)
  have hnone : AllBlank [] := by decide
  have hgap : AllBlank ['\n', ' '] := by decide
  have hbad : BadLiteral (['1'] ++ '.' :: (['2'] ++ '.' :: ['3']) ++ [])
      (.extraPoint (String.ofList (['1'] ++ '.' :: (['2'] ++ ['.'])))) :=
    .extraPoint ⟨⟨'1', rfl, rfl⟩, by decide⟩ (by decide) (by decide)
  have hfront := (hgap.complete ['1', '.', '2', '.', '3']).cons hnone hword
  have hlimit : WithinDigitLimit "x\n 1.2.3".toList := withinDigitLimit_of_length_le (by decide)
  exact ((lex_eq_error_iff hlimit "f").1 _).mpr ⟨_, _, _, rfl, hfront, hbad, rfl⟩

end TinyScript
