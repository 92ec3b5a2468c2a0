import TinyScript.Proofs.Scan.Munch

/-!
# One way to factor

A text that starts with no blank starts with a lexeme or with a bad literal (`lexeme_or_badLiteral`), with one lexeme at
most (`Lexeme.unique`), and not with both (`Lexeme.not_badLiteral`). None of this depends on how many digits can be read.

So every text is pieces, blanks, and then nothing or a bad literal (`Factors.total`), in one way (`Factors.unique`).
-/

namespace TinyScript

/-! ## Exclusion -/

/-- A number run is all that can be taken of number characters, so two of them at one place are the same. -/
theorem NumberRun.unique {run rest digits after : List Char} (h : NumberRun run rest) (h' : NumberRun digits after)
    (heq : run ++ rest = digits ++ after) : run = digits := by
  rw [← h.2.takeWhile, heq, h'.2.takeWhile]

/-- A lexeme at an integer is that integer. -/
theorem Lexeme.of_digits {run rest digits after : List Char} {value : TokenValue} (h : Lexeme run rest value)
    (hdigits : NumberRun digits after) (hpoint : '.' ∉ digits) (heq : run ++ rest = digits ++ after) :
    value = .integer (Int32.ofNat (Reading.valueOf digits)) ∧ Reading.valueOf digits ≤ 2 ^ 31 - 1 := by
  obtain ⟨d, tail, rfl, hd⟩ := hdigits.exists_cons
  cases h with
  | integer hrun _ hvalue =>
    obtain rfl := hrun.unique hdigits heq
    exact ⟨rfl, hvalue⟩
  | @float whole fraction _ hrun _ _ =>
    have hsame := hrun.unique hdigits heq
    rw [← hsame] at hpoint
    simp at hpoint
  | @boolean value _ _ =>
    cases value with
    | false =>
      obtain rfl : 'f' = d := (List.cons.inj heq).1
      exact absurd hd (by decide)
    | true =>
      obtain rfl : 't' = d := (List.cons.inj heq).1
      exact absurd hd (by decide)
  | identifier hstart _ _ =>
    obtain ⟨c, back, rfl, hword⟩ := exists_cons_of_head? hstart
    obtain rfl : c = d := (List.cons.inj heq).1
    simp [isDigit_of_isWordStart hword] at hd
  | string _ _ =>
    obtain rfl : '"' = d := (List.cons.inj heq).1
    exact absurd hd (by decide)
  | @character c _ _ hdigit _ _ =>
    obtain rfl : c = d := (List.cons.inj heq).1
    simp [hdigit] at hd

/-- Where a lexeme stands integers are readable if it is none of too many digits. -/
theorem Lexeme.readableDigits_iff {run rest : List Char} {value : TokenValue} (h : Lexeme run rest value) :
    ReadableDigits (run ++ rest) ↔ (value.kind = .integer → run.length ≤ Refusal.maxDigits) := by
  constructor
  · intro hlimit hkind
    cases h with
    | integer hrun hpoint _ => exact hlimit _ _ rfl hrun hpoint
    | float _ _ _ | boolean _ | identifier _ _ _ | string _ _ | character _ _ _ _ => cases hkind
  · intro hshort digits after heq hdigits hpoint
    have hvalue := (h.of_digits hdigits hpoint heq).1
    cases h with
    | integer hrun _ _ =>
      obtain rfl := hrun.unique hdigits heq
      exact hshort rfl
    | float _ _ _ | boolean _ | identifier _ _ _ | string _ _ | character _ _ _ _ => cases hvalue

/-- A bad literal at an integer is the overflow of that integer. -/
theorem BadLiteral.of_digits {digits after : List Char} {cause : LexCause} (h : BadLiteral (digits ++ after) cause)
    (hdigits : NumberRun digits after) (hpoint : '.' ∉ digits) : 2 ^ 31 - 1 < Reading.valueOf digits := by
  generalize htext : digits ++ after = text at h
  cases h with
  | extraPoint hrun _ _ =>
    have hsame := hrun.unique hdigits htext.symm
    rw [← hsame] at hpoint
    simp at hpoint
  | overflow hrun _ hvalue =>
    rw [← hrun.unique hdigits htext.symm]
    exact hvalue
  | unterminated _ =>
    obtain ⟨d, tail, rfl, hd⟩ := hdigits.exists_cons
    obtain rfl : d = '"' := (List.cons.inj htext).1
    exact absurd hd (by decide)

/-- A text whose integers are not readable starts with one that is too long. -/
theorem exists_digits_of_not_readable {text : List Char} (h : ¬ ReadableDigits text) :
    ∃ digits after, text = digits ++ after ∧ NumberRun digits after ∧ '.' ∉ digits ∧ Refusal.maxDigits < digits.length := by
  apply Classical.byContradiction
  intro hnone
  refine h fun run rest htext hrun hpoint => Nat.le_of_not_lt fun hlong => ?_
  exact hnone ⟨run, rest, htext, hrun, hpoint, hlong⟩

/-- No lexeme stands where a bad literal does. -/
theorem Lexeme.not_badLiteral {run rest : List Char} {value : TokenValue} (h : Lexeme run rest value) {cause : LexCause} :
    ¬ BadLiteral (run ++ rest) cause := by
  intro hbad
  by_cases hlimit : ReadableDigits (run ++ rest)
  · obtain ⟨first, tail, rfl, _⟩ := h.exists_cons
    have hmem : first ∈ (first :: tail).head? := rfl
    have hok := (h.reading hmem (.beforeStart "")).2 hlimit
    have herror := hbad.reading hmem hlimit (.beforeStart "")
    rw [hok] at herror
    cases herror
  · obtain ⟨digits, after, htext, hdigits, hpoint, _⟩ := exists_digits_of_not_readable hlimit
    have hle := (h.of_digits hdigits hpoint htext).2
    rw [htext] at hbad
    have hlt := hbad.of_digits hdigits hpoint
    omega

/-- A text starts with one lexeme at most. -/
theorem Lexeme.unique {run rest run' rest' : List Char} {value value' : TokenValue} (h : Lexeme run rest value)
    (h' : Lexeme run' rest' value') (heq : run ++ rest = run' ++ rest') : run = run' ∧ rest = rest' ∧ value = value' := by
  obtain ⟨first, tail, hcons, _⟩ := h.exists_cons
  obtain ⟨first', tail', hcons', _⟩ := h'.exists_cons
  obtain rfl : first = first' := by
    rw [hcons, hcons'] at heq
    exact (List.cons.inj heq).1
  have hmem : first ∈ run.head? := by simp [hcons]
  have hmem' : first ∈ run'.head? := by simp [hcons']
  have hread := h.reading hmem (.beforeStart "")
  have hread' := h'.reading hmem' (.beforeStart "")
  have hlength : run.length = run'.length := by rw [← hread.1, ← hread'.1, heq]
  obtain ⟨rfl, rfl⟩ := List.append_inj heq hlength
  refine ⟨rfl, rfl, ?_⟩
  by_cases hlimit : ReadableDigits (run ++ rest)
  · have hsame := (hread.2 hlimit).symm.trans (hread'.2 hlimit)
    exact Except.ok.inj hsame
  · obtain ⟨digits, after, htext, hdigits, hpoint, _⟩ := exists_digits_of_not_readable hlimit
    rw [(h.of_digits hdigits hpoint htext).1, (h'.of_digits hdigits hpoint htext).1]

/-! ## Existence -/

/-- A number at the start of a text is a lexeme or a bad literal. -/
theorem NumberRun.lexeme_or_badLiteral {run rest : List Char} (h : NumberRun run rest) :
    (∃ value, Lexeme run rest value) ∨ ∃ cause, BadLiteral (run ++ rest) cause := by
  by_cases hpoint : '.' ∈ run
  · obtain ⟨whole, after, rfl, hwhole⟩ := List.eq_append_cons_of_mem hpoint
    by_cases hagain : '.' ∈ after
    · obtain ⟨fraction, more, rfl, hfraction⟩ := List.eq_append_cons_of_mem hagain
      exact Or.inr ⟨_, .extraPoint h hwhole hfraction⟩
    · exact Or.inl ⟨_, .float h hwhole hagain⟩
  · by_cases hvalue : Reading.valueOf run ≤ 2 ^ 31 - 1
    · exact Or.inl ⟨_, .integer h hpoint hvalue⟩
    · exact Or.inr ⟨_, .overflow h hpoint (Nat.lt_of_not_le hvalue)⟩

/-- A word at the start of a text is a lexeme. -/
theorem exists_lexeme_of_word {run rest : List Char} (hstart : ∃ c ∈ run.head?, Reading.isWordStart c = true)
    (hrun : MaximalRun Reading.isWordPart run rest) : ∃ value, Lexeme run rest value := by
  by_cases hname : ∃ value, run = (TokenValue.booleanText value).toList
  · obtain ⟨value, rfl⟩ := hname
    exact ⟨_, .boolean hrun⟩
  · exact ⟨_, .identifier hstart hrun fun value heq => hname ⟨value, heq⟩⟩

/-- A text that starts with no blank starts with a lexeme or a bad literal. -/
theorem lexeme_or_badLiteral {first : Char} (hfirst : Reading.isBlank first = false) (tail : List Char) :
    (∃ run rest value, first :: tail = run ++ rest ∧ Lexeme run rest value) ∨ ∃ cause, BadLiteral (first :: tail) cause := by
  by_cases hdigit : first.isDigit = true
  · have hrun : NumberRun ((first :: tail).takeWhile isNumberPart) ((first :: tail).dropWhile isNumberPart) := by
      refine ⟨⟨first, ?_, hdigit⟩, maximalRun_takeWhile _ _⟩
      simp [isNumberPart, hdigit]
    rcases hrun.lexeme_or_badLiteral with ⟨value, h⟩ | ⟨cause, h⟩
    · exact Or.inl ⟨_, _, value, List.takeWhile_append_dropWhile.symm, h⟩
    · rw [List.takeWhile_append_dropWhile] at h
      exact Or.inr ⟨cause, h⟩
  by_cases hword : Reading.isWordStart first = true
  · have hstart : ∃ c ∈ ((first :: tail).takeWhile Reading.isWordPart).head?, Reading.isWordStart c = true := by
      refine ⟨first, ?_, hword⟩
      simp [Reading.isWordPart_of_isWordStart hword]
    obtain ⟨value, h⟩ := exists_lexeme_of_word hstart (maximalRun_takeWhile _ _)
    exact Or.inl ⟨_, _, value, List.takeWhile_append_dropWhile.symm, h⟩
  by_cases hquote : first = '"'
  · subst hquote
    have hnull : '\x00' ≠ '\\' := by decide
    rcases Reading.escapedAfter_or_open '\x00' tail with hall | ⟨contents, rest, rfl, hescaped, hlast⟩
    · exact Or.inr ⟨_, .unterminated ((Reading.escapedAfter_iff hnull).mp hall)⟩
    · refine Or.inl ⟨_, rest, _, ?_, .string ((Reading.escapedAfter_iff hnull).mp hescaped) (fun hback => hlast ?_)⟩
      · simp
      · cases contents with
        | nil => cases hback
        | cons c contents => rwa [List.getLast?_cons_cons]
  · exact Or.inl ⟨[first], tail, _, rfl, .character hfirst (by simpa using hdigit) (by simpa using hword) hquote⟩

/-- What is read as a token is a lexeme. -/
theorem exists_lexeme_of_reading {first : Char} {tail : List Char} {start : Location} {value : TokenValue}
    (hfirst : Reading.isBlank first = false)
    (h : (Reading.readingFor first start (first :: tail)).outcome = .ok value) :
    ReadableDigits (first :: tail) ∧ ∃ run rest, first :: tail = run ++ rest ∧ Lexeme run rest value := by
  have hmem : first ∈ (first :: tail).head? := rfl
  by_cases hlimit : ReadableDigits (first :: tail)
  · refine ⟨hlimit, ?_⟩
    rcases lexeme_or_badLiteral hfirst tail with ⟨run, rest, value', htext, hlexeme⟩ | ⟨cause, hbad⟩
    · obtain ⟨c, back, hrun, _⟩ := hlexeme.exists_cons
      have hsame : first = c := by
        rw [hrun] at htext
        exact (List.cons.inj htext).1
      have hhead : first ∈ run.head? := by simp [hrun, hsame]
      have hread := (hlexeme.reading hhead start).2 (htext ▸ hlimit)
      rw [← htext, h] at hread
      exact ⟨run, rest, htext, Except.ok.inj hread ▸ hlexeme⟩
    · rw [hbad.reading hmem hlimit] at h
      cases h
  · exfalso
    obtain ⟨digits, after, htext, hdigits, hpoint, hlong⟩ := exists_digits_of_not_readable hlimit
    obtain ⟨d, back, rfl, _⟩ := hdigits.exists_cons
    obtain rfl : first = d := (List.cons.inj htext).1
    rw [hdigits.readingFor rfl, htext, Reading.number_whole hdigits.2 hpoint] at h
    unfold Reading.integer at h
    rw [if_neg (by simp), if_pos hlong] at h
    cases h

/-! ## Factorizations -/

/-- A text starts with a bad literal or has ended. -/
def Halts (text : List Char) : Prop := text = [] ∨ ∃ cause, BadLiteral text cause

/-- A bad literal starts with no blank. -/
theorem BadLiteral.exists_cons {text : List Char} {cause : LexCause} (h : BadLiteral text cause) :
    ∃ first tail, text = first :: tail ∧ Reading.isBlank first = false := by
  cases h with
  | @extraPoint whole fraction more rest hrun _ _ =>
    obtain ⟨c, tail, heq, hdigit⟩ := hrun.exists_cons
    exact ⟨c, tail ++ rest, by rw [heq, List.cons_append], isBlank_eq_false (Or.inl hdigit)⟩
  | @overflow run rest hrun _ _ =>
    obtain ⟨c, tail, heq, hdigit⟩ := hrun.exists_cons
    exact ⟨c, tail ++ rest, by rw [heq, List.cons_append], isBlank_eq_false (Or.inl hdigit)⟩
  | unterminated _ => exact ⟨'"', _, rfl, rfl⟩

/-- Blanks are a maximal run where a lexeme follows them. -/
theorem AllBlank.before_lexeme {blanks run rest : List Char} {value : TokenValue} (h : AllBlank blanks)
    (hlexeme : Lexeme run rest value) : MaximalRun Reading.isBlank blanks (run ++ rest) := by
  refine ⟨h, fun c hc => ?_⟩
  obtain ⟨first, tail, rfl, hfirst⟩ := hlexeme.exists_cons
  obtain rfl : first = c := by simpa using hc
  exact hfirst

/-- Blanks are a maximal run where a text ends or a bad literal follows them. -/
theorem AllBlank.before_halt {blanks rest : List Char} (h : AllBlank blanks) (hhalts : Halts rest) :
    MaximalRun Reading.isBlank blanks rest := by
  refine ⟨h, fun c hc => ?_⟩
  rcases hhalts with rfl | ⟨cause, hbad⟩
  · cases hc
  · obtain ⟨first, tail, rfl, hfirst⟩ := hbad.exists_cons
    obtain rfl : first = c := by simpa using hc
    exact hfirst

/-- Where one text is two maximal runs of a class, the runs are the same and so is what follows. -/
theorem MaximalRun.unique {p : Char → Bool} {run rest run' rest' : List Char} (h : MaximalRun p run rest)
    (h' : MaximalRun p run' rest') (heq : run ++ rest = run' ++ rest') : run = run' ∧ rest = rest' := by
  obtain rfl : run = run' := by rw [← h.takeWhile, heq, h'.takeWhile]
  exact ⟨rfl, List.append_cancel_left heq⟩

/-- Where a text has ended or starts with a bad literal there is no lexeme. -/
theorem Lexeme.not_halts {run rest : List Char} {value : TokenValue} (h : Lexeme run rest value) :
    ¬ Halts (run ++ rest) := by
  rintro (hnil | ⟨cause, hbad⟩)
  · obtain ⟨first, tail, rfl, _⟩ := h.exists_cons
    cases hnil
  · exact h.not_badLiteral hbad

/-- A text is pieces, blanks and an end or a bad literal in one way only. -/
theorem Factors.unique {pieces pieces' : List Piece} {text blanks rest blanks' rest' : List Char}
    (h : Factors pieces text (blanks ++ rest)) (hblanks : AllBlank blanks) (hhalts : Halts rest)
    (h' : Factors pieces' text (blanks' ++ rest')) (hblanks' : AllBlank blanks') (hhalts' : Halts rest') :
    pieces = pieces' ∧ blanks = blanks' ∧ rest = rest' := by
  generalize hend : blanks ++ rest = last at h
  induction h generalizing pieces' with
  | nil =>
    subst hend
    generalize htext : blanks ++ rest = text at h'
    generalize hend' : blanks' ++ rest' = last' at h'
    cases h' with
    | nil =>
      obtain ⟨rfl, rfl⟩ := (hblanks.before_halt hhalts).unique (hblanks'.before_halt hhalts') (htext.trans hend'.symm)
      exact ⟨rfl, rfl, rfl⟩
    | cons hgap hlexeme _ =>
      obtain ⟨_, rfl⟩ := (hblanks.before_halt hhalts).unique (hgap.before_lexeme hlexeme) htext
      exact absurd hhalts hlexeme.not_halts
  | @cons gap run after _ value pieces hgap hlexeme _ ih =>
    subst hend
    generalize htext : gap ++ (run ++ after) = text at h'
    generalize hend' : blanks' ++ rest' = last' at h'
    cases h' with
    | nil =>
      obtain ⟨_, rfl⟩ := (hblanks'.before_halt hhalts').unique (hgap.before_lexeme hlexeme) (hend'.trans htext.symm)
      exact absurd hhalts' hlexeme.not_halts
    | cons hgap' hlexeme' hpieces' =>
      subst hend'
      obtain ⟨rfl, hrest⟩ := (hgap.before_lexeme hlexeme).unique (hgap'.before_lexeme hlexeme') htext
      obtain ⟨rfl, rfl, rfl⟩ := hlexeme.unique hlexeme' hrest
      obtain ⟨rfl, rfl, rfl⟩ := ih hpieces' rfl
      exact ⟨rfl, rfl, rfl⟩

/-- Every text is pieces, blanks and an end or a bad literal. -/
theorem Factors.total (text : List Char) :
    ∃ pieces blanks rest, Factors pieces text (blanks ++ rest) ∧ AllBlank blanks ∧ Halts rest := by
  induction hlength : text.length using Nat.strongRecOn generalizing text with
  | _ length ih =>
    obtain ⟨blanks, rest, rfl, hblanks⟩ := exists_maximalRun Reading.isBlank text
    cases rest with
    | nil => exact ⟨[], blanks, [], .nil, hblanks.1, Or.inl rfl⟩
    | cons first tail =>
      rcases lexeme_or_badLiteral (hblanks.2 first rfl) tail with ⟨run, after, value, heq, hlexeme⟩ | hbad
      · have hless : after.length < length := by
          rw [← hlength, heq, List.length_append]
          exact Nat.lt_of_lt_of_le hlexeme.length_lt (Nat.le_add_left _ _)
        obtain ⟨pieces, last, rest, hpieces, hlast, hhalts⟩ := ih _ hless after rfl
        rw [heq]
        exact ⟨_ :: pieces, last, rest, .cons hblanks.1 hlexeme hpieces, hlast, hhalts⟩
      · exact ⟨[], blanks, first :: tail, .nil, hblanks.1, Or.inr hbad⟩

end TinyScript
