import TinyScript.Proofs.Scan.Failing

/-!
# Sources in sequence

A source that is written behind another one is scanned as it is alone, only further on, unless it goes on with the last lexeme
of the first (`lex_append`). Two things are shown for that. A scan from a place behind other text does what it does from the
place itself, with every place moved (`Cursor.scan_behind`); and a scan of the first source does not look at what follows it
(`Cursor.scan_append`).

`Location.behind` says where a place goes when a text is written before its source.
-/

namespace TinyScript

/-! ## Places behind a text -/

/-- A place of a source behind the text `front`. The first line goes on where that text ends. -/
def Location.behind (front : List Char) (l : Location) : Location where
  filename := l.filename
  line := l.line + front.count '\n'
  column := if l.line = 1 then l.column + (front.length - 1 - lastLineFeed front) else l.column
  offset := l.offset + front.length

/-- A token behind a text. -/
def Token.behind (front : List Char) (t : Token) : Token := { t with position := t.position + front.length }

/-- A malformed literal behind a text. -/
def LexError.behind (front : List Char) (e : LexError) : LexError := { e with location := e.location.behind front }

/-- What stops a scan, behind a text. -/
def ScanFault.behind (front : List Char) : ScanFault → ScanFault
  | .diagnosed e => .diagnosed (e.behind front)
  | .refused reason => .refused reason

/-- A cursor behind a text. -/
def Cursor.behind (front : List Char) (c : Cursor) : Cursor := { c with location := c.location.behind front }

/-- A scan behind a text. -/
def Scanning.behind (front : List Char) (s : Scanning) : Scanning where
  tokens := s.tokens.map (·.behind front)
  fault := s.fault.map (·.behind front)
  cursor := s.cursor.behind front

namespace Location

variable (front : List Char)

/-- The first place of a source goes where the text before it ends. -/
theorem behind_first (filename : String) : (first filename).behind front = after filename front := by
  simp only [behind, first, after, if_true, mk.injEq, true_and]
  omega

/-- Steps never go back to an earlier line. -/
theorem line_le_step (l : Location) (c : Char) : l.line ≤ (l.step c).line := by
  unfold step
  split
  · dsimp only
    omega
  · exact Int.le_refl _

/-- A step behind a text is the step, behind the text. -/
theorem step_behind {l : Location} (h : 1 ≤ l.line) (c : Char) : (l.behind front).step c = (l.step c).behind front := by
  unfold step behind
  by_cases hc : c = '\n'
  · have hline : ¬ l.line + 1 = 1 := by omega
    simp only [hc, if_true, hline, if_false, mk.injEq, true_and]
    omega
  · simp only [hc, if_false, mk.injEq, true_and]
    split <;> omega

end Location

namespace Reading

variable (front : List Char)

/-- A reading behind a text. -/
def behind (r : Reading) : Reading := { r with outcome := r.outcome.mapError (·.behind front) }

theorem integer_behind (l : Location) (digits : List Char) :
    integer (l.behind front) digits = (integer l digits).mapError (·.behind front) := by
  unfold integer
  split
  · rfl
  · split
    · rfl
    · split <;> rfl

theorem float_behind (whole fraction : List Char) : (float whole fraction).mapError (·.behind front) = float whole fraction := by
  unfold float
  split <;> rfl

theorem number_behind (l : Location) (text : List Char) : number (l.behind front) text = (number l text).behind front := by
  unfold number
  dsimp only
  split
  · split
    · rfl
    · rw [behind, float_behind]
  · rw [integer_behind, behind]

theorem string_behind (l : Location) (text : List Char) : string (l.behind front) text = (string l text).behind front := by
  unfold string
  split <;> rfl

/-- The place where a text starts is seen in errors only. -/
theorem readingFor_behind (first : Char) (l : Location) (text : List Char) :
    readingFor first (l.behind front) text = (readingFor first l text).behind front := by
  unfold readingFor
  split
  · exact number_behind front l text
  · split
    · rfl
    · split
      · exact string_behind front l text
      · rfl

end Reading

namespace Cursor

variable (front : List Char)

theorem advance_behind {c : Cursor} (h : 1 ≤ c.location.line) : (c.behind front).advance = c.advance.behind front := by
  simp only [advance, behind, current, Location.step_behind front h]

theorem advanceBy_behind (n : Nat) {c : Cursor} (h : 1 ≤ c.location.line) :
    (c.behind front).advanceBy n = (c.advanceBy n).behind front := by
  induction n generalizing c with
  | zero => rfl
  | succ n ih =>
    rw [advanceBy, advanceBy, advance_behind front h]
    exact ih (Int.le_trans h (c.location.line_le_step c.current))

/-- Moving on never goes back to an earlier line. -/
theorem line_le_advanceBy (n : Nat) (c : Cursor) : c.location.line ≤ (c.advanceBy n).location.line := by
  induction n generalizing c with
  | zero => exact Int.le_refl _
  | succ n ih => exact Int.le_trans (c.location.line_le_step c.current) (ih c.advance)

/-- The offset that a token keeps moves with the place past it. -/
theorem anchor_add (value : TokenValue) (past n : Int) : anchor value (past + n) = anchor value past + n := by
  unfold anchor
  split <;> omega

/-- A token is read behind a text as it is read alone. -/
theorem read_behind (first : Char) {c : Cursor} (h : 1 ≤ c.location.line) :
    read (Reading.readingFor first) (c.behind front) =
      (((read (Reading.readingFor first) c).1.map (·.behind front)).mapError (·.behind front),
        (read (Reading.readingFor first) c).2.behind front) := by
  have hreading : Reading.readingFor first (c.behind front).location (c.behind front).rest =
      (Reading.readingFor first c.location c.rest).behind front := Reading.readingFor_behind front first c.location c.rest
  unfold read
  rw [hreading]
  simp only [Reading.behind, advanceBy_behind front _ h]
  cases (Reading.readingFor first c.location c.rest).outcome with
  | error fault => rfl
  | ok value =>
    rw [Prod.mk.injEq]
    refine ⟨congrArg Except.ok ?_, rfl⟩
    simp only [Token.behind, behind, Location.behind, anchor_add]

/-- A scan behind a text is the scan, behind the text. -/
theorem scan_behind (c : Cursor) (h : 1 ≤ c.location.line) : (c.behind front).scan = c.scan.behind front := by
  -- On the number of characters ahead, as a token takes several of them.
  induction hlength : c.rest.length using Nat.strongRecOn generalizing c with
  | _ length ih =>
    subst hlength
    obtain ⟨l, text⟩ := c
    cases text with
    | nil =>
      change scan { location := l.behind front, rest := [] } = _
      rw [scan_nil, scan_nil]
      rfl
    | cons first tail =>
      cases hblank : Reading.isBlank first with
      | true =>
        have hstep : 1 ≤ (l.step first).line := Int.le_trans h (l.line_le_step first)
        have htail := ih tail.length (Nat.lt_succ_self _) { location := l.step first, rest := tail } hstep rfl
        change scan { location := l.behind front, rest := first :: tail } = _
        rw [scan_blank hblank, scan_blank hblank, l.step_behind front h]
        exact htail
      | false =>
        have hread := read_behind front first (c := { location := l, rest := first :: tail }) h
        have hpos := Reading.readingFor_length_pos first l tail
        have hshort : (read (Reading.readingFor first) { location := l, rest := first :: tail }).2.rest.length <
            (first :: tail).length := by
          simp only [rest_read, List.length_drop, List.length_cons]
          omega
        have hline : 1 ≤ (read (Reading.readingFor first) { location := l, rest := first :: tail }).2.location.line :=
          Int.le_trans h (line_le_advanceBy _ _)
        have hmore := ih _ hshort _ hline rfl
        have hscan := scan_cons hblank l tail
        have hscan' := scan_cons hblank (l.behind front) tail
        dsimp only at hscan hscan'
        change scan { location := l.behind front, rest := first :: tail } = _
        change read _ { location := l.behind front, rest := first :: tail } = _ at hread
        rw [hscan, hscan', hread]
        cases (read (Reading.readingFor first) { location := l, rest := first :: tail }).1 with
        | error fault => rfl
        | ok token =>
          exact congrArg (fun s : Scanning => { s with tokens := token.behind front :: s.tokens }) hmore

end Cursor

/-! ## Where one text ends and another goes on -/

/-- The kinds of numbers. -/
def numberKinds : List TokenKind := [.integer, .float]

/-- The kinds of words. -/
def wordKinds : List TokenKind := [.identifier, .boolean]

/-- The text is pieces to its very end, and the last of them is of one of the kinds. -/
def EndsIn (kinds : List TokenKind) (text : List Char) : Prop :=
  ∃ pieces piece, Factors (pieces ++ [piece]) text [] ∧ piece.value.kind ∈ kinds

/-- The second text goes on with the last lexeme of the first: with a number if it starts with a digit or a point, with a word
if it starts with a letter, a digit or an underscore. -/
def GoesOn (front back : List Char) : Prop :=
  (EndsIn numberKinds front ∧ ∃ c ∈ back.head?, isNumberPart c = true) ∨
    (EndsIn wordKinds front ∧ ∃ c ∈ back.head?, Reading.isWordPart c = true)

section GoesOn

variable {blanks run after back : List Char} {value : TokenValue} {kinds : List TokenKind}

theorem EndsIn.cons (hblanks : AllBlank blanks) (hlexeme : Lexeme run after value) (h : EndsIn kinds after) :
    EndsIn kinds (blanks ++ (run ++ after)) := by
  obtain ⟨pieces, piece, hpieces, hkind⟩ := h
  exact ⟨⟨blanks, run, value⟩ :: pieces, piece, .cons hblanks hlexeme hpieces, hkind⟩

/-- What goes on behind a lexeme goes on behind the text with the lexeme. -/
theorem GoesOn.cons (hblanks : AllBlank blanks) (hlexeme : Lexeme run after value) (h : GoesOn after back) :
    GoesOn (blanks ++ (run ++ after)) back := by
  rcases h with ⟨hends, hhead⟩ | ⟨hends, hhead⟩
  · exact Or.inl ⟨hends.cons hblanks hlexeme, hhead⟩
  · exact Or.inr ⟨hends.cons hblanks hlexeme, hhead⟩

/-- A lexeme at the end of a text is its last one. -/
theorem endsIn_lexeme (hblanks : AllBlank blanks) (hlexeme : Lexeme run [] value) (hkind : value.kind ∈ kinds) :
    EndsIn kinds (blanks ++ (run ++ [])) :=
  ⟨[], ⟨blanks, run, value⟩, .cons hblanks hlexeme .nil, hkind⟩

/-- The text goes on with no lexeme of the kind. -/
def EndsBefore (kind : TokenKind) (rest : List Char) : Prop :=
  (kind ∈ numberKinds → ∀ c ∈ rest.head?, isNumberPart c = false) ∧
    (kind ∈ wordKinds → ∀ c ∈ rest.head?, Reading.isWordPart c = false)

/-- A lexeme is as long as its characters go on. -/
theorem Lexeme.endsBefore (h : Lexeme run after value) : EndsBefore value.kind after := by
  cases h with
  | integer hrun _ _ | float hrun _ _ =>
    exact ⟨fun _ => hrun.2.2, fun hkind => by simp [TokenValue.ofDouble, TokenValue.kind, wordKinds] at hkind⟩
  | boolean hrun | identifier _ hrun _ =>
    exact ⟨fun hkind => by simp [TokenValue.kind, numberKinds] at hkind, fun _ => hrun.2⟩
  | string _ _ | character _ _ _ _ =>
    exact ⟨fun hkind => by simp [TokenValue.kind, numberKinds] at hkind,
      fun hkind => by simp [TokenValue.kind, wordKinds] at hkind⟩

/-- A lexeme stays one before any other text that does not go on with it. -/
theorem Lexeme.before (h : Lexeme run after value) (hback : EndsBefore value.kind back) : Lexeme run back value := by
  cases h with
  | integer hrun hpoint hvalue =>
    exact .integer ⟨hrun.1, hrun.2.1, hback.1 (by simp [TokenValue.kind, numberKinds])⟩ hpoint hvalue
  | float hrun hwhole hfraction =>
    refine .float ⟨hrun.1, hrun.2.1, hback.1 ?_⟩ hwhole hfraction
    simp [TokenValue.ofDouble, TokenValue.kind, numberKinds]
  | boolean hrun => exact .boolean ⟨hrun.1, hback.2 (by simp [TokenValue.kind, wordKinds])⟩
  | identifier hstart hrun hname =>
    exact .identifier hstart ⟨hrun.1, hback.2 (by simp [TokenValue.kind, wordKinds])⟩ hname
  | string hescaped hlast => exact .string hescaped hlast
  | character hblank hdigit hstart hquote => exact .character hblank hdigit hstart hquote

/-- A lexeme stays one where more text follows that does not go on with the text of the lexeme. -/
theorem Lexeme.append_of_not_goesOn (h : Lexeme run after value) (hblanks : AllBlank blanks)
    (hapart : ¬ GoesOn (blanks ++ (run ++ after)) back) : Lexeme run (after ++ back) value := by
  apply h.before
  cases after with
  | nil =>
    constructor
    · intro hkind c hc
      exact Bool.eq_false_iff.mpr fun hpart => hapart (Or.inl ⟨endsIn_lexeme hblanks h hkind, c, hc, hpart⟩)
    · intro hkind c hc
      exact Bool.eq_false_iff.mpr fun hpart => hapart (Or.inr ⟨endsIn_lexeme hblanks h hkind, c, hc, hpart⟩)
  | cons d after => exact h.endsBefore

end GoesOn

namespace Cursor

/-- A scan that succeeds makes a token, if only that of the end. -/
theorem tokens_ne_nil {text : List Char} {l : Location} (h : (scan { location := l, rest := text }).fault = none) :
    (scan { location := l, rest := text }).tokens ≠ [] := by
  obtain ⟨pieces, blanks, _, _, htokens⟩ := exists_factors_of_scan text l h
  simp [htokens]

/-- A scan of a text that succeeds goes on with what follows it, if that does not go on with its last lexeme. -/
theorem scan_append {front back : List Char} (hapart : ¬ GoesOn front back) {l : Location}
    (h : (scan { location := l, rest := front }).fault = none) :
    scan { location := l, rest := front ++ back } =
      { scan { location := l.stepAll front, rest := back } with
        tokens := (scan { location := l, rest := front }).tokens.dropLast ++
          (scan { location := l.stepAll front, rest := back }).tokens } := by
  induction hlength : front.length using Nat.strongRecOn generalizing front l with
  | _ length ih =>
    subst hlength
    obtain ⟨blanks, rest, rfl, hblanks⟩ := exists_maximalRun Reading.isBlank front
    rw [List.append_assoc, scan_blanks hblanks.1, Location.stepAll_append]
    rw [scan_blanks hblanks.1] at h ⊢
    cases rest with
    | nil => rw [scan_nil]; rfl
    | cons first tail =>
      have hfirst := hblanks.2 first rfl
      obtain ⟨value, houtcome⟩ := exists_outcome_of_scan hfirst h
      obtain ⟨hlimit, run, after, heq, hlexeme⟩ := exists_lexeme_of_reading hfirst houtcome
      rw [heq] at hlimit h ih hapart ⊢
      have hlexeme' := hlexeme.append_of_not_goesOn hblanks.1 hapart
      have hlimit' := hlexeme'.readableDigits_iff.mpr (hlexeme.readableDigits_iff.mp hlimit)
      have hless : after.length < (blanks ++ (run ++ after)).length := by
        rw [List.length_append]
        exact Nat.lt_of_lt_of_le hlexeme.length_lt (Nat.le_add_left _ _)
      rw [scan_lexeme hlexeme hlimit] at h ⊢
      have hmore := ih _ hless (fun hgoes => hapart (hgoes.cons hblanks.1 hlexeme)) h rfl
      have hdrop := List.dropLast_cons_of_ne_nil (x := ⟨value, anchor value ((l.stepAll blanks).offset + run.length)⟩)
        (tokens_ne_nil h)
      rw [List.append_assoc, scan_lexeme hlexeme' hlimit', hmore, hdrop, Location.stepAll_append]
      rfl

end Cursor

/-! ## Blanks between texts -/

/-- Blanks stand in no number and in no word. -/
theorem not_isPart_of_isBlank {c : Char} (h : Reading.isBlank c = true) :
    isNumberPart c = false ∧ Reading.isWordPart c = false := by
  simp only [Reading.isBlank, Bool.or_eq_true, beq_iff_eq] at h
  rcases h with ((rfl | rfl) | rfl) | rfl <;> decide

/-- What starts with a character of no number and of no word goes on with no lexeme. -/
theorem not_goesOn_of_head {front back : List Char} {c : Char} (hnumber : isNumberPart c = false)
    (hword : Reading.isWordPart c = false) : ¬ GoesOn front (c :: back) := by
  rintro (⟨_, d, hd, hpart⟩ | ⟨_, d, hd, hpart⟩)
  · obtain rfl : c = d := by simpa using hd
    simp [hnumber] at hpart
  · obtain rfl : c = d := by simpa using hd
    simp [hword] at hpart

/-- A lexeme of the kind of a number or a word ends with no blank. -/
theorem Lexeme.not_isBlank {run rest : List Char} {value : TokenValue} (h : Lexeme run rest value)
    (hkind : value.kind ∈ numberKinds ∨ value.kind ∈ wordKinds) : ∀ c ∈ run, Reading.isBlank c = false := by
  have hpart : ∀ c ∈ run, isNumberPart c = true ∨ Reading.isWordPart c = true := by
    intro c hc
    cases h with
    | integer hrun _ _ => exact Or.inl (hrun.2.1 c hc)
    | float hrun _ _ => exact Or.inl (hrun.2.1 c hc)
    | boolean hrun => exact Or.inr (hrun.1 c hc)
    | identifier _ hrun _ => exact Or.inr (hrun.1 c hc)
    | string _ _ | character _ _ _ _ => simp [TokenValue.kind, numberKinds, wordKinds] at hkind
  intro c hc
  refine Bool.eq_false_iff.mpr fun hblank => ?_
  obtain ⟨hnumber, hword⟩ := not_isPart_of_isBlank hblank
  rcases hpart c hc with h | h
  · simp [hnumber] at h
  · simp [hword] at h

/-- The last piece of a text is a lexeme at its end. -/
theorem Factors.last {pieces : List Piece} {piece : Piece} {text rest : List Char}
    (h : Factors (pieces ++ [piece]) text rest) :
    Lexeme piece.run rest piece.value ∧ ∃ front, text = front ++ (piece.run ++ rest) := by
  induction pieces generalizing text with
  | nil =>
    cases h with
    | cons _ hlexeme hnone =>
      cases hnone
      exact ⟨hlexeme, _, rfl⟩
  | cons first pieces ih =>
    cases h with
    | @cons blanks run after _ value _ _ _ hpieces =>
      obtain ⟨hlexeme, front, rfl⟩ := ih hpieces
      exact ⟨hlexeme, blanks ++ (run ++ front), by simp only [List.append_assoc]⟩

/-- A text that ends with a blank ends in no number and in no word. -/
theorem not_goesOn_after_blank {front back : List Char} {c : Char} (h : Reading.isBlank c = true) :
    ¬ GoesOn (front ++ [c]) back := by
  have hends : ∀ kinds, (∀ kind ∈ kinds, kind ∈ numberKinds ∨ kind ∈ wordKinds) → ¬ EndsIn kinds (front ++ [c]) := by
    rintro kinds hkinds ⟨pieces, piece, hpieces, hkind⟩
    obtain ⟨hlexeme, before, htext⟩ := hpieces.last
    obtain ⟨d, tail, hrun, -⟩ := hlexeme.exists_cons
    have hlast : piece.run.getLast? = some c := by
      have hsame := congrArg List.getLast? htext
      rw [hrun] at hsame ⊢
      simpa [List.getLast?_append, List.getLast?_cons] using hsame.symm
    have hnot := hlexeme.not_isBlank (hkinds _ hkind) c (List.mem_of_getLast? hlast)
    simp [h] at hnot
  rintro (⟨h, _⟩ | ⟨h, _⟩)
  · exact hends _ (fun _ hkind => Or.inl hkind) h
  · exact hends _ (fun _ hkind => Or.inr hkind) h

/-! ## Sources -/

/-- What follows a source that is scanned, and does not go on with its last lexeme, is scanned behind it. -/
theorem lex_append_of_not_goesOn {a b filename : String} {tokens : List Token} (h : lex a filename = .ok tokens)
    (hapart : ¬ GoesOn a.toList b.toList) :
    lex (a ++ b) filename = ((lex b filename).map fun more => tokens.dropLast ++ more.map (·.behind a.toList)).mapError
      (·.behind a.toList) := by
  rw [lex_eq] at h
  split at h
  next hfault =>
    obtain rfl := Except.ok.inj h
    have hbehind : Cursor.scan { location := (Location.first filename).stepAll a.toList, rest := b.toList } =
        (Cursor.scan { location := .first filename, rest := b.toList }).behind a.toList := by
      rw [Location.stepAll_first, ← Location.behind_first]
      exact Cursor.scan_behind a.toList { location := .first filename, rest := b.toList } (Int.le_refl 1)
    rw [lex_eq, lex_eq, String.toList_append, Cursor.scan_append hapart hfault, hbehind]
    cases hb : (Cursor.scan { location := .first filename, rest := b.toList }).fault with
    | none => simp only [Scanning.behind, hb]; rfl
    | some fault => simp only [Scanning.behind, hb]; rfl
  next => cases h

/-- A source and blanks are scanned as the source, with a later end. -/
theorem lex_append_blanks {a filename : String} {tokens : List Token} (h : lex a filename = .ok tokens) {blanks : String}
    (hblanks : AllBlank blanks.toList) (hne : blanks ≠ "") :
    lex (a ++ blanks) filename = .ok (tokens.dropLast ++ [.eof (a ++ blanks).length]) := by
  have hlex : lex blanks filename = .ok [.eof blanks.length] := by
    have hscan := Cursor.scan_blanks hblanks (Location.first filename) []
    rw [List.append_nil, Cursor.scan_nil] at hscan
    rw [lex_eq, hscan, ← String.length_toList]
    simp [Location.first]
  have hapart : ¬ GoesOn a.toList blanks.toList := by
    cases htext : blanks.toList with
    | nil => exact absurd (String.toList_eq_nil_iff.mp htext) hne
    | cons c rest =>
      have hpart := not_isPart_of_isBlank (hblanks c (by rw [htext]; exact List.mem_cons_self))
      exact not_goesOn_of_head hpart.1 hpart.2
  rw [lex_append_of_not_goesOn h hapart, hlex]
  have hend : (Token.eof blanks.length).behind a.toList = .eof (a ++ blanks).length := by
    simp only [Token.behind, Token.eof, String.length_append, String.length_toList, Int.natCast_add, Int.add_comm]
  rw [← hend]
  rfl

/-- What follows a source that is scanned is scanned as it is alone, behind the source, unless it goes on with its last
lexeme. The tokens of both come in order, without the end of the first. An error has the same cause, and so the same kind,
code and message, and its offset grows by the length of what is before it. Blanks in between always keep two sources apart. -/
theorem lex_append {a filename : String} {tokens : List Token} (h : lex a filename = .ok tokens) :
    (∀ b : String, ¬ GoesOn a.toList b.toList → lex (a ++ b) filename =
      ((lex b filename).map fun more => tokens.dropLast ++ more.map (·.behind a.toList)).mapError (·.behind a.toList)) ∧
    (∀ blanks b : String, AllBlank blanks.toList → blanks ≠ "" → lex (a ++ blanks ++ b) filename =
      ((lex b filename).map fun more => tokens.dropLast ++ more.map (·.behind (a ++ blanks).toList)).mapError
        (·.behind (a ++ blanks).toList)) ∧
    (∀ t : Token, (t.behind a.toList).value = t.value ∧ (t.behind a.toList).position = t.position + a.length) ∧
    ∀ e : LexError, (e.behind a.toList).cause = e.cause ∧
      (e.behind a.toList).diagnostic.message = e.diagnostic.message ∧
      (e.behind a.toList).diagnostic.code = e.diagnostic.code ∧
      (e.behind a.toList).diagnostic.position = e.diagnostic.position + a.length := by
  refine ⟨fun b => lex_append_of_not_goesOn h, fun blanks b hblanks hne => ?_, fun t => ⟨rfl, ?_⟩, fun e => ⟨rfl, rfl, rfl, ?_⟩⟩
  · have happend := lex_append_blanks h hblanks hne
    have hlast : ∃ front c, (a ++ blanks).toList = front ++ [c] ∧ Reading.isBlank c = true := by
      rcases List.eq_nil_or_concat blanks.toList with hnil | ⟨front, c, hfront⟩
      · exact absurd (String.toList_eq_nil_iff.mp hnil) hne
      · refine ⟨a.toList ++ front, c, ?_, hblanks c (by simp [hfront])⟩
        rw [String.toList_append, hfront, List.concat_eq_append, List.append_assoc]
    obtain ⟨front, c, htext, hblank⟩ := hlast
    have hapart : ¬ GoesOn (a ++ blanks).toList b.toList := by
      rw [htext]
      exact not_goesOn_after_blank hblank
    have hlex := lex_append_of_not_goesOn happend hapart
    rwa [List.dropLast_concat] at hlex
  · simp only [Token.behind, String.length_toList]
  · simp only [LexError.diagnostic, LexError.behind, Location.behind, String.length_toList]

/-- A mark ends a number. Behind it another source is scanned, or it fails, as it is alone. -/
theorem lex_append_mark :
    lex ("x 1" ++ "+2") "f" = .ok [⟨.identifier "x", 1⟩, ⟨.integer 1, 3⟩, ⟨.character '+', 3⟩, ⟨.integer 2, 5⟩, .eof 5] ∧
      lex ("x 1" ++ "\n" ++ "\"y") "f" = .error (.diagnosed ⟨.unterminated, ⟨"f", 2, 1, 4⟩⟩) := by
  have hfirst : lex "x 1" "f" = .ok [⟨.identifier "x", 1⟩, ⟨.integer 1, 3⟩, .eof 3] := by with_unfolding_all rfl
  have hmark : lex "+2" "f" = .ok [⟨.character '+', 0⟩, ⟨.integer 2, 2⟩, .eof 2] := by with_unfolding_all rfl
  have hopen : lex "\"y" "f" = .error (.diagnosed ⟨.unterminated, ⟨"f", 1, 1, 0⟩⟩) := by with_unfolding_all rfl
  obtain ⟨happend, hspaced, -, -⟩ := lex_append hfirst
  constructor
  · rw [happend "+2" (not_goesOn_of_head (by decide) (by decide)), hmark]
    rfl
  · rw [hspaced "\n" "\"y" (by decide) (by decide), hopen]
    rfl

end TinyScript
