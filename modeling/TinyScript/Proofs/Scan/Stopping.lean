import TinyScript.Proofs.Scan.Failing

/-!
# Where a scan stops

A scan passes pieces that can be read and stops behind them, for one of three reasons (`Stops`): the source has ended, a bad
literal starts, or an integer starts that has more digits than can be read. Every source comes to such a place
(`exists_stops`), and what the scan gives is told by it (`lex_of_stops`).

The last reason is no error in the source. It arises exactly on the sources that have a too long integer where a lexeme
starts (`lex_refused_iff`).
-/

namespace TinyScript

/-- Why a scan stops at the start of a text, which is at a place of the source. -/
inductive Stops (l : Location) : List Char → Option ScanFault → Prop where
  /-- The text has ended -/
  | ended : Stops l [] none
  /-- A bad literal starts -/
  | badLiteral {text : List Char} {cause : LexCause} : BadLiteral text cause → ReadableDigits text →
      Stops l text (some (.diagnosed ⟨cause, l⟩))
  /-- An integer starts that is too long to be read -/
  | tooLong {digits rest : List Char} : NumberRun digits rest → '.' ∉ digits → Refusal.maxDigits < digits.length →
      Stops l (digits ++ rest) (some (.refused (.digitLimit digits.length)))

section Stops

variable {l : Location} {text : List Char} {fault : Option ScanFault}

/-- Where a scan stops, no blank comes next. -/
theorem Stops.not_isBlank (h : Stops l text fault) : ∀ c ∈ text.head?, Reading.isBlank c = false := by
  intro c hc
  cases h with
  | ended => cases hc
  | badLiteral hbad _ =>
    obtain ⟨first, tail, rfl, hfirst⟩ := hbad.exists_cons
    obtain rfl : first = c := by simpa using hc
    exact hfirst
  | tooLong hdigits _ _ =>
    obtain ⟨first, tail, rfl, hdigit⟩ := hdigits.exists_cons
    obtain rfl : first = c := by simpa using hc
    exact isBlank_eq_false (Or.inl hdigit)

/-- Where integers are not readable a scan stops. -/
theorem exists_stops_of_not_readable (h : ¬ ReadableDigits text) (l : Location) :
    ∃ count, Stops l text (some (.refused (.digitLimit count))) := by
  obtain ⟨digits, after, rfl, hdigits, hpoint, hlong⟩ := exists_digits_of_not_readable h
  exact ⟨digits.length, .tooLong hdigits hpoint hlong⟩

/-- At a character that is no blank there is a lexeme that can be read, or a scan stops. -/
theorem lexeme_or_stops {first : Char} (hfirst : Reading.isBlank first = false) (tail : List Char) (l : Location) :
    (∃ run rest value, first :: tail = run ++ rest ∧ Lexeme run rest value ∧ ReadableDigits (run ++ rest)) ∨
      ∃ fault, Stops l (first :: tail) (some fault) := by
  by_cases hlimit : ReadableDigits (first :: tail)
  · rcases lexeme_or_badLiteral hfirst tail with ⟨run, rest, value, heq, hlexeme⟩ | ⟨cause, hbad⟩
    · exact Or.inl ⟨run, rest, value, heq, hlexeme, heq ▸ hlimit⟩
    · exact Or.inr ⟨_, .badLiteral hbad hlimit⟩
  · obtain ⟨count, hstops⟩ := exists_stops_of_not_readable hlimit l
    exact Or.inr ⟨_, hstops⟩

/-- Every text is pieces that can be read, blanks, and a text at which a scan stops. -/
theorem exists_stops (text : List Char) (l : Location) :
    ∃ pieces blanks rest fault, Factors pieces text (blanks ++ rest) ∧ AllBlank blanks ∧
      (∀ piece ∈ pieces, piece.Readable) ∧ Stops (l.stepAll (spelled pieces ++ blanks)) rest fault := by
  -- On the number of characters, as a piece takes several of them.
  induction hlength : text.length using Nat.strongRecOn generalizing text l with
  | _ length ih =>
    subst hlength
    obtain ⟨blanks, rest, rfl, hblanks⟩ := exists_maximalRun Reading.isBlank text
    cases rest with
    | nil => exact ⟨[], blanks, [], none, .nil, hblanks.1, by simp, .ended⟩
    | cons first tail =>
      rcases lexeme_or_stops (hblanks.2 first rfl) tail (l.stepAll blanks) with
        ⟨run, after, value, heq, hlexeme, hlimit⟩ | ⟨fault, hstops⟩
      · rw [heq] at ih ⊢
        have hless : after.length < (blanks ++ (run ++ after)).length := by
          rw [List.length_append]
          exact Nat.lt_of_lt_of_le hlexeme.length_lt (Nat.le_add_left _ _)
        obtain ⟨pieces, last, rest, fault, hpieces, hlast, hreadable, hstops⟩ :=
          ih _ hless after ((l.stepAll blanks).stepAll run) rfl
        have hread : Piece.Readable ⟨blanks, run, value⟩ := hlexeme.readableDigits_iff.mp hlimit
        refine ⟨_ :: pieces, last, rest, fault, .cons hblanks.1 hlexeme hpieces, hlast,
          List.forall_mem_cons.mpr ⟨hread, hreadable⟩, ?_⟩
        simpa only [spelled, List.append_assoc, Location.stepAll_append] using hstops
      · exact ⟨[], blanks, first :: tail, some fault, .nil, hblanks.1, by simp, hstops⟩

namespace Cursor

/-- A scan stops where it does for the reason that it has there. -/
theorem scan_stops (h : Stops l text fault) : (scan { location := l, rest := text }).fault = fault := by
  cases h with
  | ended => rw [scan_nil]
  | badLiteral hbad hlimit => exact scan_badLiteral hbad hlimit l
  | @tooLong digits rest hdigits hpoint hlong =>
    obtain ⟨first, tail, rfl, hdigit⟩ := hdigits.exists_cons
    have hnumber : Reading.readingFor first l (first :: tail ++ rest) =
        { outcome := Reading.integer l (first :: tail), length := (first :: tail).length } := by
      rw [hdigits.readingFor rfl, Reading.number_whole hdigits.2 hpoint]
    have hread : (read (Reading.readingFor first) { location := l, rest := first :: tail ++ rest }).1 =
        .error (.refused (.digitLimit (first :: tail).length)) := by
      unfold read
      simp only [hnumber, Reading.integer, List.isEmpty_cons, Bool.false_eq_true, if_false, if_pos hlong]
      rfl
    have hscan := scan_cons (isBlank_eq_false (Or.inl hdigit)) l (tail ++ rest)
    dsimp only at hscan
    rw [← List.cons_append, hread] at hscan
    rw [hscan]

/-- A scan that comes to a too long integer is refused there, or at such an integer before it. -/
theorem scan_refused_of_factors {pieces : List Piece} {blanks rest : List Char}
    (h : Factors pieces text (blanks ++ rest)) (hblanks : AllBlank blanks) (hlimit : ¬ ReadableDigits rest) (l : Location) :
    ∃ reason, (scan { location := l, rest := text }).fault = some (.refused reason) := by
  have hrefused : ∀ {text : List Char} (l : Location), ¬ ReadableDigits text →
      ∃ reason, (scan { location := l, rest := text }).fault = some (.refused reason) := fun l h =>
    have ⟨count, hstops⟩ := exists_stops_of_not_readable h l
    ⟨_, scan_stops hstops⟩
  generalize hend : blanks ++ rest = last at h
  induction h generalizing l with
  | nil =>
    subst hend
    rw [scan_blanks hblanks]
    exact hrefused _ hlimit
  | @cons gap run after _ value pieces hgap hlexeme _ ih =>
    rw [scan_blanks hgap]
    by_cases hread : ReadableDigits (run ++ after)
    · rw [scan_lexeme hlexeme hread]
      exact ih _ hend
    · exact hrefused _ hread

end Cursor

end Stops

/-! ## Sources -/

/-- What scanning a source comes to, where the scan passes pieces and stops behind them. -/
theorem lex_of_stops {source filename : String} {pieces : List Piece} {blanks rest : List Char} {fault : Option ScanFault}
    (h : Factors pieces source.toList (blanks ++ rest)) (hblanks : AllBlank blanks)
    (hreadable : ∀ piece ∈ pieces, piece.Readable)
    (hstops : Stops ((Location.first filename).stepAll (spelled pieces ++ blanks)) rest fault) :
    lex source filename =
      match fault with
      | none => .ok (placed 0 pieces ++ [.eof source.length])
      | some fault => .error fault := by
  cases fault with
  | none =>
    obtain rfl : rest = [] := by cases hstops; rfl
    rw [List.append_nil] at h
    exact lex_of_readable_factors h hblanks hreadable filename
  | some fault =>
    have hfault := Cursor.scan_stops hstops
    rw [Location.stepAll_append] at hfault
    rw [lex_eq, Cursor.scan_factors h hreadable, Cursor.scan_blanks hblanks]
    simp only [hfault]

/-- A scan that is refused comes to a too long integer. -/
theorem lex_refused_iff (source filename : String) :
    (∃ reason, lex source filename = .error (.refused reason)) ↔ ¬ WithinDigitLimit source.toList := by
  constructor
  · rintro ⟨reason, hrefused⟩ hlimit
    obtain ⟨pieces, blanks, rest, fault, hpieces, hblanks, hreadable, hstops⟩ :=
      exists_stops source.toList (.first filename)
    have hsource : source.toList = (spelled pieces ++ blanks) ++ rest := by
      rw [List.append_assoc, ← hpieces.eq_spelled]
    have hcomplete : Complete (spelled pieces ++ blanks) rest := ⟨pieces, blanks, hsource ▸ hpieces, hblanks⟩
    rw [lex_of_stops hpieces hblanks hreadable hstops] at hrefused
    cases hstops with
    | ended => cases hrefused
    | badLiteral _ _ => cases hrefused
    | tooLong hdigits hpoint hlong =>
      have hshort := hlimit _ _ hsource hcomplete _ _ rfl hdigits hpoint
      omega
  · intro hlimit
    apply Classical.byContradiction
    intro hnone
    refine hlimit fun front rest hsource hcomplete => Classical.byContradiction fun hlong => hnone ?_
    obtain ⟨pieces, blanks, hpieces, hblanks⟩ := hcomplete
    rw [← hsource] at hpieces
    obtain ⟨reason, hfault⟩ := Cursor.scan_refused_of_factors hpieces hblanks hlong (.first filename)
    refine ⟨reason, ?_⟩
    rw [lex_eq, hfault]

/-- Digits alone are refused if they are too many, and otherwise the integer that they spell or its overflow. -/
theorem lex_digits {digits : List Char} (hne : digits ≠ []) (hdigits : ∀ c ∈ digits, c.isDigit = true) (filename : String) :
    lex (String.ofList digits) filename =
      if Refusal.maxDigits < digits.length then .error (.refused (.digitLimit digits.length))
      else if Reading.valueOf digits ≤ 2 ^ 31 - 1 then
        .ok [⟨.integer (Int32.ofNat (Reading.valueOf digits)), digits.length⟩, .eof digits.length]
      else .error (.diagnosed ⟨.overflow (String.ofList digits), .first filename⟩) := by
  have hpoint := point_not_mem hdigits
  have hrun : NumberRun digits [] := by
    refine ⟨?_, fun c hc => by simp [isNumberPart, hdigits c hc], by simp⟩
    cases digits with
    | nil => exact absurd rfl hne
    | cons c digits => exact ⟨c, rfl, hdigits c List.mem_cons_self⟩
  have hstart : Factors [] (String.ofList digits).toList ([] ++ digits) := by
    rw [String.toList_ofList]
    exact .nil
  have hnone : AllBlank [] := by decide
  split
  next hlong =>
    have hstops := Stops.tooLong (l := .first filename) hrun hpoint hlong
    rw [List.append_nil] at hstops
    rw [lex_of_stops hstart hnone (by simp) hstops]
  next hlong =>
    have hlength : digits.length ≤ Refusal.maxDigits := Nat.le_of_not_lt hlong
    split
    next hvalue =>
      have hwhole : Factors [⟨[], digits, .integer (Int32.ofNat (Reading.valueOf digits))⟩] (String.ofList digits).toList [] := by
        have hfactors := Factors.cons hnone (.integer hrun hpoint hvalue) .nil
        rw [List.append_nil, List.nil_append] at hfactors
        rw [String.toList_ofList]
        exact hfactors
      have hreadable : ∀ piece ∈ [(⟨[], digits, .integer (Int32.ofNat (Reading.valueOf digits))⟩ : Piece)],
          piece.Readable := List.forall_mem_cons.mpr ⟨fun _ => hlength, by simp⟩
      rw [lex_of_readable_factors hwhole hnone hreadable, ← String.length_toList, String.toList_ofList]
      simp [placed, Piece.anchor]
    next hvalue =>
      have hlimit : ReadableDigits digits := by
        rintro run rest rfl hrun' _
        rw [List.length_append] at hlength
        omega
      have hbad := BadLiteral.overflow hrun hpoint (Nat.lt_of_not_le hvalue)
      rw [List.append_nil] at hbad
      rw [lex_of_stops hstart hnone (by simp) (.badLiteral hbad hlimit)]
      rfl

end TinyScript
