import TinyScript.Proofs.Scan.Lexeme

/-!
# Reading a lexeme

The readers of a scan against the lexical grammar. Where a text starts with a lexeme its reading is that lexeme
(`Lexeme.reading`), and where it starts with a bad literal its reading is the error for it (`BadLiteral.reading`), unless it
starts with an integer of more digits than can be read (`ReadableDigits`).
-/

namespace TinyScript

/-! ## Runs -/

/-- A maximal run is what can be taken of its class. -/
theorem MaximalRun.takeWhile {p : Char → Bool} {run rest : List Char} (h : MaximalRun p run rest) :
    (run ++ rest).takeWhile p = run := by
  obtain ⟨hrun, hrest⟩ := h
  rw [List.takeWhile_append_of_pos hrun]
  cases rest with
  | nil => simp
  | cons c rest => simp [hrest c rfl]

/-- After a maximal run stands what follows it. -/
theorem MaximalRun.dropWhile {p : Char → Bool} {run rest : List Char} (h : MaximalRun p run rest) :
    (run ++ rest).dropWhile p = rest := by
  obtain ⟨hrun, hrest⟩ := h
  rw [List.dropWhile_append_of_pos hrun]
  cases rest with
  | nil => rfl
  | cons c rest => simp [hrest c rfl]

/-- What can be taken of a class is a maximal run. -/
theorem maximalRun_takeWhile (p : Char → Bool) (text : List Char) :
    MaximalRun p (text.takeWhile p) (text.dropWhile p) := by
  refine ⟨fun c hc => ?_, fun c hc => ?_⟩
  · exact List.all_eq_true.mp List.all_takeWhile c hc
  · have h := List.head?_dropWhile_not p text
    rw [Option.mem_def.mp hc] at h
    simpa using h

/-- Every text is a maximal run of a class and what follows it. -/
theorem exists_maximalRun (p : Char → Bool) (text : List Char) : ∃ run rest, text = run ++ rest ∧ MaximalRun p run rest :=
  ⟨_, _, List.takeWhile_append_dropWhile.symm, maximalRun_takeWhile p text⟩

/-- A text whose first character is of a class has one. -/
theorem exists_cons_of_head? {p : Char → Bool} {run : List Char} (h : ∃ c ∈ run.head?, p c = true) :
    ∃ c tail, run = c :: tail ∧ p c = true := by
  obtain ⟨c, hc, hp⟩ := h
  cases run with
  | nil => cases hc
  | cons d tail =>
    obtain rfl : d = c := by simpa using hc
    exact ⟨d, tail, rfl, hp⟩

/-- A digit starts no word. -/
theorem isDigit_of_isWordStart {c : Char} (h : Reading.isWordStart c = true) : c.isDigit = false := by
  simp only [Reading.isWordStart, Bool.or_eq_true, beq_iff_eq] at h
  rcases h with h | rfl
  · have hletter : 65 ≤ c.toNat := by
      rcases (Bool.or_eq_true _ _).mp h with hupper | hlower
      · exact UInt32.le_iff_toNat_le.mp (of_decide_eq_true hupper).1
      · have hge := of_decide_eq_true ((Bool.and_eq_true _ _).mp hlower).1
        exact Nat.le_trans (by decide) (UInt32.le_iff_toNat_le.mp hge)
    refine Bool.eq_false_iff.mpr fun hdigit => ?_
    have hle : c.toNat ≤ 57 := (Char.isDigit_iff_toNat.mp hdigit).2
    omega
  · rfl

/-- Digits and the characters that start a word are no blanks. -/
theorem isBlank_eq_false {c : Char} (h : c.isDigit = true ∨ Reading.isWordStart c = true) :
    Reading.isBlank c = false := by
  cases hblank : Reading.isBlank c with
  | false => rfl
  | true =>
    simp only [Reading.isBlank, Bool.or_eq_true, beq_iff_eq] at hblank
    rcases hblank with ((rfl | rfl) | rfl) | rfl <;> exact absurd h (by decide)

/-! ## Numbers -/

/-- A number character other than the point is a digit. -/
theorem isDigit_of_isNumberPart {c : Char} (h : isNumberPart c = true) (hpoint : c ≠ '.') : c.isDigit = true := by
  simp only [isNumberPart, Bool.or_eq_true, beq_iff_eq] at h
  exact h.resolve_right hpoint

/-- Number characters without a point are digits. -/
theorem MaximalRun.isDigit {run rest : List Char} (h : MaximalRun isNumberPart run rest) (hpoint : '.' ∉ run) :
    MaximalRun Char.isDigit run rest := by
  refine ⟨fun c hc => isDigit_of_isNumberPart (h.1 c hc) (fun heq => hpoint (heq ▸ hc)), fun c hc => ?_⟩
  have hpart := h.2 c hc
  simp only [isNumberPart, Bool.or_eq_false_iff] at hpart
  exact hpart.1

/-- No digit is a point. -/
theorem point_not_mem {digits : List Char} (h : ∀ c ∈ digits, c.isDigit = true) : '.' ∉ digits :=
  fun hmem => absurd (h '.' hmem) (by decide)

/-- No point follows a run of number characters. -/
theorem MaximalRun.ne_point {run rest : List Char} (h : MaximalRun isNumberPart run rest) (after : List Char) :
    rest ≠ '.' :: after := by
  rintro rfl
  exact absurd (h.2 '.' rfl) (by decide)

/-- Number characters before a point, without another one, are digits that end at the point. -/
theorem MaximalRun.isDigit_front {front back rest : List Char} (h : MaximalRun isNumberPart (front ++ '.' :: back) rest)
    (hpoint : '.' ∉ front) (text : List Char) : MaximalRun Char.isDigit front ('.' :: text) := by
  refine ⟨fun c hc => ?_, fun c hc => ?_⟩
  · exact isDigit_of_isNumberPart (h.1 c (List.mem_append_left _ hc)) (fun heq => hpoint (heq ▸ hc))
  · obtain rfl : '.' = c := by simpa using hc
    rfl

/-- What follows a point in a run of number characters is one. -/
theorem MaximalRun.isNumberPart_back {front back rest : List Char}
    (h : MaximalRun isNumberPart (front ++ '.' :: back) rest) : MaximalRun isNumberPart back rest :=
  ⟨fun c hc => h.1 c (List.mem_append_right front (List.mem_cons_of_mem _ hc)), h.2⟩

namespace Reading

/-- A number without a point is read as an integer. -/
theorem number_whole {start : Location} {run rest : List Char} (h : MaximalRun isNumberPart run rest)
    (hpoint : '.' ∉ run) : number start (run ++ rest) = { outcome := integer start run, length := run.length } := by
  have hdigits := h.isDigit hpoint
  unfold number
  rw [hdigits.takeWhile, hdigits.dropWhile]
  dsimp only
  split
  next after => exact absurd rfl (h.ne_point after)
  next => rfl

/-- A number with one point is read as a float. -/
theorem number_pointed {start : Location} {whole fraction rest : List Char}
    (h : MaximalRun isNumberPart (whole ++ '.' :: fraction) rest) (hwhole : '.' ∉ whole) (hfraction : '.' ∉ fraction) :
    number start (whole ++ '.' :: (fraction ++ rest)) =
      { outcome := float whole fraction, length := (whole ++ '.' :: fraction).length } := by
  have hbefore := h.isDigit_front hwhole (fraction ++ rest)
  have hafter := h.isNumberPart_back.isDigit hfraction
  unfold number
  simp only [hbefore.takeWhile, hbefore.dropWhile, hafter.takeWhile, hafter.dropWhile]
  split
  next after => exact absurd rfl (h.ne_point after)
  next =>
    congr 1
    simp only [List.length_append, List.length_cons]
    omega

/-- A number with a second point is refused there. -/
theorem number_extraPoint {start : Location} {whole fraction more rest : List Char}
    (h : MaximalRun isNumberPart (whole ++ '.' :: (fraction ++ '.' :: more)) rest)
    (hwhole : '.' ∉ whole) (hfraction : '.' ∉ fraction) :
    (number start (whole ++ '.' :: (fraction ++ '.' :: (more ++ rest)))).outcome =
      .error (.diagnosed ⟨.extraPoint (String.ofList (whole ++ '.' :: (fraction ++ ['.']))), start⟩) := by
  have hbefore := h.isDigit_front hwhole (fraction ++ '.' :: (more ++ rest))
  have hafter := h.isNumberPart_back.isDigit_front hfraction (more ++ rest)
  unfold number
  simp only [hbefore.takeWhile, hbefore.dropWhile, hafter.takeWhile, hafter.dropWhile]
  simp

/-! ## Words -/

/-- A word is read as far as it goes. -/
theorem word_append {run rest : List Char} (h : MaximalRun isWordPart run rest) :
    word (run ++ rest) = { outcome := .ok (wordValue (String.ofList run)), length := run.length } := by
  unfold word
  rw [h.takeWhile]

/-- The names of the truth values are read as truth values. -/
theorem wordValue_booleanText (value : Bool) :
    wordValue (TokenValue.booleanText value) = .boolean value := by
  cases value <;> rfl

/-- Any other word is read as an identifier. -/
theorem wordValue_of_ne {run : List Char} (h : ∀ value, run ≠ (TokenValue.booleanText value).toList) :
    wordValue (String.ofList run) = .identifier (String.ofList run) := by
  have hne : ∀ value, String.ofList run ≠ TokenValue.booleanText value := by
    intro value heq
    apply h value
    rw [← heq, String.toList_ofList]
  unfold wordValue
  rw [if_neg (hne true), if_neg (hne false)]

/-! ## Strings -/

/-- Every quote of a text comes directly after a backslash, where `last` stands before the text. -/
def EscapedAfter (last : Char) (text : List Char) : Prop :=
  ∀ front back, text = front ++ '"' :: back → (last :: front).getLast? = some '\\'

/-- The quotes of a text are escaped exactly when they are so after some other character than a backslash. -/
theorem escapedAfter_iff {last : Char} (hlast : last ≠ '\\') {text : List Char} :
    EscapedAfter last text ↔ QuotesEscaped text := by
  have hsame : ∀ front : List Char, (last :: front).getLast? = some '\\' ↔ front.getLast? = some '\\' := by
    intro front
    cases front with
    | nil => simp [hlast]
    | cons c front => simp [List.getLast?_cons_cons]
  unfold EscapedAfter QuotesEscaped
  simp only [hsame]

/-- The quotes of a text are escaped if its first character is no open quote and the others are escaped after it. -/
theorem escapedAfter_cons {last c : Char} {text : List Char} :
    EscapedAfter last (c :: text) ↔ (c = '"' → last = '\\') ∧ EscapedAfter c text := by
  constructor
  · intro h
    refine ⟨?_, fun front back heq => ?_⟩
    · rintro rfl
      simpa using h [] text rfl
    · have := h (c :: front) back (by rw [heq, List.cons_append])
      rwa [List.getLast?_cons_cons] at this
  · rintro ⟨hfirst, hrest⟩ front back heq
    cases front with
    | nil =>
      obtain ⟨rfl, rfl⟩ : c = '"' ∧ text = back := by simpa using heq
      simp [hfirst rfl]
    | cons d front =>
      obtain ⟨rfl, rfl⟩ : c = d ∧ text = front ++ '"' :: back := by simpa using heq
      rw [List.getLast?_cons_cons]
      exact hrest front back rfl

/-- A text ends at a quote where no quote before it is open and it is not escaped itself. -/
theorem untilQuote_append {last : Char} {contents rest : List Char} (h : EscapedAfter last contents)
    (hlast : (last :: contents).getLast? ≠ some '\\') :
    untilQuote last (contents ++ '"' :: rest) = some contents := by
  induction contents generalizing last with
  | nil =>
    have hne : last ≠ '\\' := by simpa using hlast
    simp [untilQuote, hne]
  | cons c contents ih =>
    obtain ⟨hfirst, hrest⟩ := escapedAfter_cons.mp h
    have hopen : ¬ (c = '"' ∧ last ≠ '\\') := fun hc => hc.2 (hfirst hc.1)
    rw [List.getLast?_cons_cons] at hlast
    rw [List.cons_append, untilQuote, if_neg hopen, ih hrest hlast, Option.map_some]

/-- A text in which every quote is escaped has no end. -/
theorem untilQuote_eq_none {last : Char} {text : List Char} (h : EscapedAfter last text) : untilQuote last text = none := by
  induction text generalizing last with
  | nil => rfl
  | cons c text ih =>
    obtain ⟨hfirst, hrest⟩ := escapedAfter_cons.mp h
    have hopen : ¬ (c = '"' ∧ last ≠ '\\') := fun hc => hc.2 (hfirst hc.1)
    rw [untilQuote, if_neg hopen, ih hrest, Option.map_none]

/-- Either every quote of a text is escaped or the text has a first quote that is not. -/
theorem escapedAfter_or_open (last : Char) (text : List Char) :
    EscapedAfter last text ∨ ∃ contents rest, text = contents ++ '"' :: rest ∧ EscapedAfter last contents ∧
      (last :: contents).getLast? ≠ some '\\' := by
  induction text generalizing last with
  | nil => exact Or.inl (fun front back heq => by simp at heq)
  | cons c text ih =>
    by_cases hopen : c = '"' ∧ last ≠ '\\'
    · obtain ⟨rfl, hlast⟩ := hopen
      refine Or.inr ⟨[], text, rfl, fun front back heq => by simp at heq, ?_⟩
      simpa using hlast
    · have hfirst : c = '"' → last = '\\' := fun hc => Decidable.not_not.mp fun hlast => hopen ⟨hc, hlast⟩
      rcases ih c with hall | ⟨contents, rest, rfl, hescaped, hlast⟩
      · exact Or.inl (escapedAfter_cons.mpr ⟨hfirst, hall⟩)
      · refine Or.inr ⟨c :: contents, rest, rfl, escapedAfter_cons.mpr ⟨hfirst, hescaped⟩, ?_⟩
        rwa [List.getLast?_cons_cons]

/-- At the start of a literal a text ends at a quote where no quote before it is open and it is not escaped itself. -/
theorem untilQuote_closed {contents : List Char} (h : QuotesEscaped contents) (hlast : contents.getLast? ≠ some '\\')
    (rest : List Char) : untilQuote '\x00' (contents ++ '"' :: rest) = some contents := by
  apply untilQuote_append ((escapedAfter_iff (by decide)).mpr h)
  cases contents with
  | nil => simp
  | cons c contents => rwa [List.getLast?_cons_cons]

/-- A string literal is read up to its closing quote. -/
theorem string_closed {start : Location} {contents rest : List Char} (h : QuotesEscaped contents)
    (hlast : contents.getLast? ≠ some '\\') :
    string start ('"' :: (contents ++ '"' :: rest)) =
      { outcome := .ok (.string (String.ofList contents)), length := contents.length + 2 } := by
  unfold string
  rw [List.tail_cons, untilQuote_closed h hlast]

/-- A string literal without a closing quote is refused. -/
theorem string_open {start : Location} {text : List Char} (h : QuotesEscaped text) :
    (string start ('"' :: text)).outcome = .error (.diagnosed ⟨.unterminated, start⟩) := by
  unfold string
  rw [List.tail_cons, untilQuote_eq_none ((escapedAfter_iff (by decide)).mpr h)]

end Reading

/-! ## Lexemes and bad literals -/

/-- An integer at the start of a text has no more digits than can be read. -/
def ReadableDigits (text : List Char) : Prop :=
  ∀ run rest, text = run ++ rest → NumberRun run rest → '.' ∉ run → run.length ≤ Refusal.maxDigits

/-- What starts like a word is read as a word. -/
theorem Reading.readingFor_wordStart {first : Char} (h : isWordStart first = true) (start : Location)
    (text : List Char) : readingFor first start text = word text := by
  unfold readingFor
  rw [if_neg (by simp [isDigit_of_isWordStart h]), if_pos h]

/-- An integer of a readable number of digits that fits in 31 bits is read as it is. -/
theorem Reading.integer_eq_ok {start : Location} {run : List Char} (hne : run ≠ []) (hlength : run.length ≤ Refusal.maxDigits)
    (hvalue : valueOf run ≤ 2 ^ 31 - 1) : integer start run = .ok (.integer (Int32.ofNat (valueOf run))) := by
  unfold integer
  rw [if_neg (by simpa using hne), if_neg (by omega), if_pos (by omega)]

/-- An integer of a readable number of digits that does not fit in 31 bits overflows. -/
theorem Reading.integer_eq_error {start : Location} {run : List Char} (hne : run ≠ [])
    (hlength : run.length ≤ Refusal.maxDigits) (hvalue : 2 ^ 31 - 1 < valueOf run) :
    integer start run = .error (.diagnosed ⟨.overflow (String.ofList run), start⟩) := by
  unfold integer
  rw [if_neg (by simpa using hne), if_neg (by omega), if_neg (by omega)]

/-- A number run has a first character, a digit. -/
theorem NumberRun.exists_cons {run rest : List Char} (h : NumberRun run rest) :
    ∃ c tail, run = c :: tail ∧ c.isDigit = true :=
  exists_cons_of_head? h.1

/-- Where a number run starts a number is read. -/
theorem NumberRun.readingFor {run rest : List Char} (h : NumberRun run rest) {first : Char}
    (hfirst : first ∈ run.head?) (start : Location) (text : List Char) :
    Reading.readingFor first start text = Reading.number start text := by
  obtain ⟨c, tail, rfl, hdigit⟩ := h.exists_cons
  obtain rfl : c = first := by simpa using hfirst
  unfold Reading.readingFor
  rw [if_pos hdigit]

/-- A lexeme has a first character, which is no blank. -/
theorem Lexeme.exists_cons {run rest : List Char} {value : TokenValue} (h : Lexeme run rest value) :
    ∃ first tail, run = first :: tail ∧ Reading.isBlank first = false := by
  cases h with
  | integer hrun _ _ =>
    obtain ⟨c, tail, heq, hdigit⟩ := hrun.exists_cons
    exact ⟨c, tail, heq, isBlank_eq_false (Or.inl hdigit)⟩
  | float hrun _ _ =>
    obtain ⟨c, tail, heq, hdigit⟩ := hrun.exists_cons
    exact ⟨c, tail, heq, isBlank_eq_false (Or.inl hdigit)⟩
  | @boolean value _ _ =>
    cases value with
    | false => exact ⟨'f', ['a', 'l', 's', 'e'], rfl, rfl⟩
    | true => exact ⟨'t', ['r', 'u', 'e'], rfl, rfl⟩
  | identifier hstart _ _ =>
    obtain ⟨c, tail, heq, hword⟩ := exists_cons_of_head? hstart
    exact ⟨c, tail, heq, isBlank_eq_false (Or.inr hword)⟩
  | string _ _ => exact ⟨'"', _, rfl, rfl⟩
  | @character c _ hb _ _ _ => exact ⟨c, [], rfl, hb⟩

/-- What follows a lexeme is shorter than the text with the lexeme. -/
theorem Lexeme.length_lt {run rest : List Char} {value : TokenValue} (h : Lexeme run rest value) :
    rest.length < (run ++ rest).length := by
  obtain ⟨first, tail, rfl, _⟩ := h.exists_cons
  simp only [List.length_append, List.length_cons]
  omega

/-- Where a lexeme starts as much is read as it has, and its value is read if integers are readable there. -/
theorem Lexeme.reading {run rest : List Char} {value : TokenValue} (h : Lexeme run rest value) {first : Char}
    (hfirst : first ∈ run.head?) (start : Location) :
    (Reading.readingFor first start (run ++ rest)).length = run.length ∧
      (ReadableDigits (run ++ rest) → (Reading.readingFor first start (run ++ rest)).outcome = .ok value) := by
  cases h with
  | integer hrun hpoint hvalue =>
    rw [hrun.readingFor hfirst, Reading.number_whole hrun.2 hpoint]
    refine ⟨rfl, fun hlimit => ?_⟩
    obtain ⟨c, tail, rfl, _⟩ := hrun.exists_cons
    exact Reading.integer_eq_ok (List.cons_ne_nil _ _) (hlimit _ _ rfl hrun hpoint) hvalue
  | @float whole fraction _ hrun hwhole hfraction =>
    rw [hrun.readingFor hfirst, List.append_assoc, List.cons_append, Reading.number_pointed hrun.2 hwhole hfraction]
    refine ⟨rfl, fun _ => ?_⟩
    obtain ⟨c, tail, heq, hdigit⟩ := hrun.exists_cons
    have hsome : ¬ (whole.isEmpty && fraction.isEmpty) = true := by
      intro hempty
      simp only [Bool.and_eq_true, List.isEmpty_iff] at hempty
      obtain ⟨rfl, rfl⟩ := hempty
      obtain rfl : '.' = c := by simpa using (List.cons.inj heq).1
      exact absurd hdigit (by decide)
    unfold Reading.float
    rw [if_neg hsome]
  | @boolean value _ hrun =>
    have hword : Reading.isWordStart first = true := by
      cases value <;> (obtain rfl := Option.mem_some_iff.mp hfirst; rfl)
    rw [Reading.readingFor_wordStart hword, Reading.word_append hrun]
    refine ⟨rfl, fun _ => ?_⟩
    rw [String.ofList_toList, Reading.wordValue_booleanText]
  | identifier hstart hrun hname =>
    obtain ⟨c, hc, hword⟩ := hstart
    obtain rfl : c = first := Option.mem_unique hc hfirst
    rw [Reading.readingFor_wordStart hword, Reading.word_append hrun]
    exact ⟨rfl, fun _ => by rw [Reading.wordValue_of_ne hname]⟩
  | @string contents _ hescaped hlast =>
    obtain rfl : '"' = first := by simpa using hfirst
    have hread : Reading.readingFor '"' start ('"' :: (contents ++ ['"']) ++ rest) =
        { outcome := .ok (.string (String.ofList contents)), length := contents.length + 2 } := by
      rw [List.cons_append, List.append_assoc, List.cons_append, List.nil_append]
      exact Reading.string_closed hescaped hlast
    rw [hread]
    exact ⟨by simp, fun _ => rfl⟩
  | @character c _ _ hdigit hword hquote =>
    obtain rfl : c = first := by simpa using hfirst
    unfold Reading.readingFor
    rw [if_neg (by simp [hdigit]), if_neg (by simp [hword]), if_neg hquote]
    exact ⟨rfl, fun _ => rfl⟩

/-- Where a bad literal starts its error is read, if integers are readable there. -/
theorem BadLiteral.reading {text : List Char} {cause : LexCause} (h : BadLiteral text cause) {first : Char}
    (hfirst : first ∈ text.head?) (hlimit : ReadableDigits text) (start : Location) :
    (Reading.readingFor first start text).outcome = .error (.diagnosed ⟨cause, start⟩) := by
  have hhead : ∀ {run rest : List Char}, NumberRun run rest → first ∈ (run ++ rest).head? → first ∈ run.head? := by
    intro run rest hrun hmem
    obtain ⟨c, tail, rfl, _⟩ := hrun.exists_cons
    exact hmem
  cases h with
  | extraPoint hrun hwhole hfraction =>
    rw [hrun.readingFor (hhead hrun hfirst)]
    simpa only [List.append_assoc, List.cons_append] using Reading.number_extraPoint hrun.2 hwhole hfraction
  | overflow hrun hpoint hvalue =>
    rw [hrun.readingFor (hhead hrun hfirst), Reading.number_whole hrun.2 hpoint]
    obtain ⟨c, tail, rfl, _⟩ := hrun.exists_cons
    exact Reading.integer_eq_error (List.cons_ne_nil _ _) (hlimit _ _ rfl hrun hpoint) hvalue
  | unterminated hescaped =>
    obtain rfl : '"' = first := by simpa using hfirst
    exact Reading.string_open hescaped

end TinyScript
