import TinyScript.Proofs.Scan.Factoring

/-!
# What a scan makes of a source

A scan passes the pieces of a source one by one, makes a token of each, and stops where the source ends or at the first bad
literal (`Cursor.scan_factors`). So `lex` gives tokens exactly on the sources that are pieces and blanks, and then the tokens
of the pieces where they stand (`lex_eq_ok_iff`).

A scan cannot read an integer of more than `Refusal.maxDigits` digits. The statements are about sources without one
(`WithinDigitLimit`).
-/

namespace TinyScript

/-! ## Pieces in a source -/

/-- The characters of pieces in order. -/
def spelled : List Piece → List Char
  | [] => []
  | piece :: pieces => piece.blanks ++ (piece.run ++ spelled pieces)

/-- Where the token of a piece stands, from its first character on: a string at its closing quote, a mark at itself, and
every other token past its last character. -/
def Piece.anchor (piece : Piece) : Int :=
  match piece.value with
  | .string _ => piece.run.length - 1
  | .character _ => 0
  | _ => piece.run.length

/-- The tokens of pieces that start at an offset. -/
def placed (offset : Int) : List Piece → List Token
  | [] => []
  | piece :: pieces =>
    ⟨piece.value, offset + piece.blanks.length + piece.anchor⟩ ::
      placed (offset + piece.blanks.length + piece.run.length) pieces

/-- The values of the tokens of pieces are those of the pieces. -/
theorem map_value_placed (pieces : List Piece) (offset : Int) :
    (placed offset pieces).map (·.value) = pieces.map (·.value) := by
  induction pieces generalizing offset with
  | nil => rfl
  | cons piece pieces ih => rw [placed, List.map_cons, List.map_cons, ih]

/-- The values of the tokens of a source: those of its pieces, and the end. -/
theorem map_value_tokens (pieces : List Piece) (offset stop : Int) :
    (placed offset pieces ++ [Token.eof stop]).map (·.value) = pieces.map (·.value) ++ [.eof] := by
  rw [List.map_append, map_value_placed]
  rfl

/-- The text `front` is pieces and blanks, where `rest` follows it. -/
def Complete (front rest : List Char) : Prop :=
  ∃ pieces blanks, Factors pieces (front ++ rest) (blanks ++ rest) ∧ AllBlank blanks

/-- No integer of a text has more digits than can be read. An integer is digits without a point where a number starts, not
digits inside a word or a string literal. -/
def WithinDigitLimit (text : List Char) : Prop :=
  ∀ front rest, text = front ++ rest → Complete front rest → ReadableDigits rest

/-- A text that factors is the characters of its pieces and the rest. -/
theorem Factors.eq_spelled {pieces : List Piece} {text rest : List Char} (h : Factors pieces text rest) :
    text = spelled pieces ++ rest := by
  induction h with
  | nil => rfl
  | cons _ _ _ ih => rw [spelled, List.append_assoc, List.append_assoc, ← ih]

/-- Blanks are complete. -/
theorem AllBlank.complete {blanks : List Char} (h : AllBlank blanks) (rest : List Char) : Complete blanks rest :=
  ⟨[], blanks, .nil, h⟩

/-- Blanks and a lexeme before what is complete are complete. -/
theorem Complete.cons {blanks run front rest : List Char} {value : TokenValue} (hblanks : AllBlank blanks)
    (hlexeme : Lexeme run (front ++ rest) value) (h : Complete front rest) :
    Complete (blanks ++ (run ++ front)) rest := by
  obtain ⟨pieces, last, hpieces, hlast⟩ := h
  refine ⟨⟨blanks, run, value⟩ :: pieces, last, ?_, hlast⟩
  rw [List.append_assoc, List.append_assoc]
  exact .cons hblanks hlexeme hpieces

/-- Integers are readable where the text before them is complete. -/
theorem WithinDigitLimit.readable {front rest : List Char} (h : WithinDigitLimit (front ++ rest))
    (hfront : Complete front rest) : ReadableDigits rest :=
  h front rest rfl hfront

/-- What follows a lexeme has no long integer if the text has none. -/
theorem WithinDigitLimit.after_lexeme {blanks run after : List Char} {value : TokenValue}
    (h : WithinDigitLimit (blanks ++ (run ++ after))) (hblanks : AllBlank blanks) (hlexeme : Lexeme run after value) :
    WithinDigitLimit after := by
  rintro front rest rfl hfront
  apply h (blanks ++ (run ++ front)) rest
  · rw [List.append_assoc, List.append_assoc]
  · exact hfront.cons hblanks hlexeme

/-- If the piece is an integer, it has no more digits than can be read. -/
def Piece.Readable (piece : Piece) : Prop := piece.value.kind = .integer → piece.run.length ≤ Refusal.maxDigits

/-- The pieces of a text without a long integer are readable. -/
theorem Factors.readable {pieces : List Piece} {text rest : List Char} (h : Factors pieces text rest)
    (hlimit : WithinDigitLimit text) : ∀ piece ∈ pieces, piece.Readable := by
  induction h with
  | nil => exact fun piece hmem => by cases hmem
  | cons hblanks hlexeme _ ih =>
    have hread := hlexeme.readableDigits_iff.mp (hlimit.readable (hblanks.complete _))
    exact List.forall_mem_cons.mpr ⟨hread, ih (hlimit.after_lexeme hblanks hlexeme)⟩

/-- No integer of a short text is too long. -/
theorem withinDigitLimit_of_length_le {text : List Char} (h : text.length ≤ Refusal.maxDigits) : WithinDigitLimit text := by
  rintro front rest rfl _ run after rfl _ _
  simp only [List.length_append] at h
  omega

/-! ## Steps of a scan -/

/-- The steps over two texts are those over the first and then over the second. -/
theorem Location.stepAll_append (l : Location) (front back : List Char) :
    l.stepAll (front ++ back) = (l.stepAll front).stepAll back :=
  List.foldl_append

namespace Cursor

/-- Moving over characters leaves what follows them and takes their steps. -/
theorem advanceBy_append (l : Location) (text rest : List Char) :
    advanceBy text.length { location := l, rest := text ++ rest } = { location := l.stepAll text, rest } := by
  induction text generalizing l with
  | nil => rfl
  | cons c text ih =>
    rw [List.length_cons, advanceBy]
    exact ih (l.step c)

/-- At the end of a source a scan makes the last token. -/
theorem scan_nil (l : Location) :
    scan { location := l, rest := [] } =
      { tokens := [.eof l.offset], fault := none, cursor := { location := l, rest := [] } } := by
  rw [scan]

/-- A scan passes a blank. -/
theorem scan_blank {c : Char} (h : Reading.isBlank c = true) (l : Location) (rest : List Char) :
    scan { location := l, rest := c :: rest } = scan { location := l.step c, rest } := by
  rw [scan]
  simp only [h]
  rfl

/-- A scan passes blanks. -/
theorem scan_blanks {blanks : List Char} (h : AllBlank blanks) (l : Location) (rest : List Char) :
    scan { location := l, rest := blanks ++ rest } = scan { location := l.stepAll blanks, rest } := by
  induction blanks generalizing l with
  | nil => rfl
  | cons c blanks ih =>
    rw [List.cons_append, scan_blank (h c List.mem_cons_self)]
    exact ih (fun d hd => h d (List.mem_cons_of_mem c hd)) (l.step c)

/-- At a character that is no blank a scan makes a token or stops. -/
theorem scan_cons {first : Char} (h : Reading.isBlank first = false) (l : Location) (tail : List Char) :
    let step := read (Reading.readingFor first) { location := l, rest := first :: tail }
    scan { location := l, rest := first :: tail } =
      match step.1 with
      | .ok token => { step.2.scan with tokens := token :: step.2.scan.tokens }
      | .error fault => { tokens := [], fault := some fault, cursor := step.2 } := by
  intro step
  rw [scan]
  simp only [h]
  rfl

/-- The offset that a token keeps is where its piece has it. -/
theorem anchor_eq {run rest : List Char} {value : TokenValue} (h : Lexeme run rest value) (blanks : List Char) (start : Int) :
    anchor value (start + run.length) = start + Piece.anchor ⟨blanks, run, value⟩ := by
  cases h with
  | string _ _ => simp only [anchor, TokenValue.kind, Piece.anchor]; omega
  | character _ _ _ _ => simp [anchor, TokenValue.kind, Piece.anchor]
  | integer _ _ _ | float _ _ _ | boolean _ | identifier _ _ _ => rfl

/-- A scan makes a token of a lexeme. -/
theorem scan_lexeme {run rest : List Char} {value : TokenValue} (h : Lexeme run rest value)
    (hlimit : ReadableDigits (run ++ rest)) (l : Location) :
    scan { location := l, rest := run ++ rest } =
      { scan { location := l.stepAll run, rest } with
        tokens := ⟨value, anchor value (l.offset + run.length)⟩ :: (scan { location := l.stepAll run, rest }).tokens } := by
  obtain ⟨first, tail, hcons, hfirst⟩ := h.exists_cons
  have hmem : first ∈ run.head? := by simp [hcons]
  obtain ⟨hlength, houtcome⟩ := h.reading hmem l
  have hstep : read (Reading.readingFor first) { location := l, rest := run ++ rest } =
      (.ok ⟨value, anchor value (l.offset + run.length)⟩, { location := l.stepAll run, rest }) := by
    unfold read
    simp only [hlength, houtcome hlimit, advanceBy_append, Location.offset_stepAll]
    rfl
  have hscan := scan_cons hfirst l (tail ++ rest)
  rw [← List.cons_append, ← hcons, hstep] at hscan
  exact hscan

/-- A scan stops at a bad literal. -/
theorem scan_badLiteral {text : List Char} {cause : LexCause} (h : BadLiteral text cause) (hlimit : ReadableDigits text)
    (l : Location) : (scan { location := l, rest := text }).fault = some (.diagnosed ⟨cause, l⟩) := by
  obtain ⟨first, tail, rfl, hfirst⟩ := h.exists_cons
  have hmem : first ∈ (first :: tail).head? := rfl
  have houtcome := h.reading hmem hlimit l
  have hstep : (read (Reading.readingFor first) { location := l, rest := first :: tail }).1 =
      .error (.diagnosed ⟨cause, l⟩) := by
    unfold read
    simp only [houtcome]
    rfl
  have hscan := scan_cons hfirst l tail
  simp only [hstep] at hscan
  rw [hscan]

/-- A scan makes the tokens of pieces and goes on after them. -/
theorem scan_factors {pieces : List Piece} {text rest : List Char} (h : Factors pieces text rest)
    (hreadable : ∀ piece ∈ pieces, piece.Readable) (l : Location) :
    scan { location := l, rest := text } =
      { scan { location := l.stepAll (spelled pieces), rest } with
        tokens := placed l.offset pieces ++ (scan { location := l.stepAll (spelled pieces), rest }).tokens } := by
  induction h generalizing l with
  | nil => rfl
  | @cons blanks run after rest value pieces hblanks hlexeme hpieces ih =>
    obtain ⟨hfirst, hothers⟩ := List.forall_mem_cons.mp hreadable
    have hread := hlexeme.readableDigits_iff.mpr hfirst
    have hsteps : l.stepAll (spelled (⟨blanks, run, value⟩ :: pieces)) =
        ((l.stepAll blanks).stepAll run).stepAll (spelled pieces) := by
      simp only [spelled, Location.stepAll_append]
    rw [scan_blanks hblanks, scan_lexeme hlexeme hread, ih hothers, hsteps]
    simp only [placed, Location.offset_stepAll, anchor_eq hlexeme blanks, List.cons_append]

/-- Where a scan goes on at a character that is no blank, a value is read there. -/
theorem exists_outcome_of_scan {first : Char} {tail : List Char} {l : Location} (hfirst : Reading.isBlank first = false)
    (h : (scan { location := l, rest := first :: tail }).fault = none) :
    ∃ value, (Reading.readingFor first l (first :: tail)).outcome = .ok value := by
  cases houtcome : (Reading.readingFor first l (first :: tail)).outcome with
  | ok value => exact ⟨value, rfl⟩
  | error fault =>
    have hread : (read (Reading.readingFor first) { location := l, rest := first :: tail }).1 = .error fault := by
      unfold read
      simp only [houtcome]
      rfl
    have hstep := scan_cons hfirst l tail
    dsimp only at hstep
    rw [hread] at hstep
    rw [hstep] at h
    cases h

/-- What a scan makes tokens of is pieces and blanks, however long its integers are. -/
theorem exists_factors_of_scan (text : List Char) (l : Location)
    (h : (scan { location := l, rest := text }).fault = none) :
    ∃ pieces blanks, Factors pieces text blanks ∧ AllBlank blanks ∧
      (scan { location := l, rest := text }).tokens = placed l.offset pieces ++ [.eof (l.offset + text.length)] := by
  induction hlength : text.length using Nat.strongRecOn generalizing text l with
  | _ length ih =>
    subst hlength
    obtain ⟨blanks, rest, rfl, hblanks⟩ := exists_maximalRun Reading.isBlank text
    rw [scan_blanks hblanks.1] at h ⊢
    cases rest with
    | nil =>
      refine ⟨[], blanks, by rw [List.append_nil]; exact .nil, hblanks.1, ?_⟩
      rw [scan_nil, List.append_nil, Location.offset_stepAll]
      rfl
    | cons first tail =>
      have hfirst := hblanks.2 first rfl
      obtain ⟨value, houtcome⟩ := exists_outcome_of_scan hfirst h
      obtain ⟨hlimit, run, after, heq, hlexeme⟩ := exists_lexeme_of_reading hfirst houtcome
      rw [heq] at hlimit h ih ⊢
      rw [scan_lexeme hlexeme hlimit] at h ⊢
      have hless : after.length < (blanks ++ (run ++ after)).length := by
        rw [List.length_append]
        exact Nat.lt_of_lt_of_le hlexeme.length_lt (Nat.le_add_left _ _)
      obtain ⟨pieces, last, hpieces, hlast, htokens⟩ := ih _ hless after _ h rfl
      refine ⟨⟨blanks, run, value⟩ :: pieces, last, .cons hblanks.1 hlexeme hpieces, hlast, ?_⟩
      have hend : l.offset + (blanks ++ (run ++ after)).length = l.offset + blanks.length + run.length + after.length := by
        simp only [List.length_append]
        omega
      rw [htokens, hend]
      simp only [placed, Location.offset_stepAll, anchor_eq hlexeme blanks, List.cons_append]

end Cursor

/-! ## Sources -/

/-- The place of the first character of a source. -/
def Location.first (filename : String) : Location := { filename, line := 1, column := 1, offset := 0 }

/-- A source is scanned from its first character on. -/
theorem lex_eq (source filename : String) :
    lex source filename =
      match (Cursor.scan { location := .first filename, rest := source.toList }).fault with
      | none => .ok (Cursor.scan { location := .first filename, rest := source.toList }).tokens
      | some fault => .error fault :=
  rfl

/-- A source that is scanned to tokens is pieces and blanks, and the tokens are theirs. -/
theorem exists_factors_of_lex {source filename : String} {tokens : List Token} (h : lex source filename = .ok tokens) :
    ∃ pieces blanks, Factors pieces source.toList blanks ∧ AllBlank blanks ∧
      tokens = placed 0 pieces ++ [.eof source.length] := by
  rw [lex_eq] at h
  split at h
  next hfault =>
    obtain ⟨pieces, blanks, hpieces, hblanks, htokens⟩ := Cursor.exists_factors_of_scan _ _ hfault
    rw [Except.ok.inj h] at htokens
    refine ⟨pieces, blanks, hpieces, hblanks, ?_⟩
    rw [htokens, String.length_toList]
    simp [Location.first]
  next => cases h

/-- A token stands at a character of its lexeme or just past it. -/
theorem Lexeme.anchor_bounds {run rest : List Char} {value : TokenValue} (h : Lexeme run rest value) (blanks : List Char) :
    0 ≤ Piece.anchor ⟨blanks, run, value⟩ ∧ Piece.anchor ⟨blanks, run, value⟩ ≤ run.length := by
  cases h with
  | string _ _ => simp only [Piece.anchor, List.length_cons]; omega
  | character _ _ _ _ => simp [Piece.anchor]
  | integer _ _ _ | float _ _ _ | boolean _ | identifier _ _ _ => exact ⟨Int.natCast_nonneg _, Int.le_refl _⟩

/-- The tokens of pieces stand between the start of the first and the end of the last piece. -/
theorem Factors.position_bounds {pieces : List Piece} {text rest : List Char} (h : Factors pieces text rest) (offset : Int) :
    ∀ t ∈ placed offset pieces, offset ≤ t.position ∧ t.position ≤ offset + text.length := by
  induction h generalizing offset with
  | nil => intro t ht; cases ht
  | @cons blanks run after rest value pieces _ hlexeme _ ih =>
    have hanchor := hlexeme.anchor_bounds blanks
    intro t ht
    simp only [List.length_append, Int.natCast_add]
    rcases List.mem_cons.mp ht with rfl | ht
    · dsimp only
      omega
    · have hlater := ih _ t ht
      dsimp only at hlater
      omega

/-- The tokens of a source stand inside it, its end included. -/
theorem position_bounds_of_lex {source filename : String} {tokens : List Token} (h : lex source filename = .ok tokens) :
    ∀ t ∈ tokens, 0 ≤ t.position ∧ t.position ≤ source.length := by
  obtain ⟨pieces, blanks, hpieces, -, rfl⟩ := exists_factors_of_lex h
  intro t ht
  rcases List.mem_append.mp ht with ht | ht
  · have hbounds := hpieces.position_bounds 0 t ht
    rw [String.length_toList] at hbounds
    omega
  · obtain rfl := List.mem_singleton.mp ht
    simp [Token.eof]

/-- A source that is readable pieces and blanks is scanned to their tokens. -/
theorem lex_of_readable_factors {source : String} {pieces : List Piece} {blanks : List Char}
    (h : Factors pieces source.toList blanks) (hblanks : AllBlank blanks) (hreadable : ∀ piece ∈ pieces, piece.Readable)
    (filename : String) : lex source filename = .ok (placed 0 pieces ++ [.eof source.length]) := by
  have hrest := Cursor.scan_blanks hblanks ((Location.first filename).stepAll (spelled pieces)) []
  rw [List.append_nil, Cursor.scan_nil] at hrest
  have hlength : source.length = (spelled pieces).length + blanks.length := by
    rw [← String.length_toList, h.eq_spelled, List.length_append]
  rw [lex_eq, Cursor.scan_factors h hreadable, hrest, hlength]
  simp [Location.first]

/-- A source that is pieces and blanks, without a long integer, is scanned to their tokens. -/
theorem lex_of_factors {source : String} {pieces : List Piece} {blanks : List Char}
    (h : Factors pieces source.toList blanks) (hblanks : AllBlank blanks) (hlimit : WithinDigitLimit source.toList)
    (filename : String) : lex source filename = .ok (placed 0 pieces ++ [.eof source.length]) :=
  lex_of_readable_factors h hblanks (h.readable hlimit) filename

/-- A source that is pieces, blanks and a bad literal is refused there. -/
theorem lex_of_badLiteral {source : String} {pieces : List Piece} {blanks rest : List Char} {cause : LexCause}
    (h : Factors pieces source.toList (blanks ++ rest)) (hblanks : AllBlank blanks) (hbad : BadLiteral rest cause)
    (hlimit : WithinDigitLimit source.toList) (filename : String) :
    lex source filename =
      .error (.diagnosed ⟨cause, (Location.first filename).stepAll (spelled pieces ++ blanks)⟩) := by
  have hread : ReadableDigits rest := by
    apply hlimit (spelled pieces ++ blanks) rest
    · rw [List.append_assoc, ← h.eq_spelled]
    · refine ⟨pieces, blanks, ?_, hblanks⟩
      rw [List.append_assoc, ← h.eq_spelled]
      exact h
  have hrest := Cursor.scan_blanks hblanks ((Location.first filename).stepAll (spelled pieces)) rest
  have hfault := Cursor.scan_badLiteral hbad hread (((Location.first filename).stepAll (spelled pieces)).stepAll blanks)
  rw [lex_eq, Cursor.scan_factors h (h.readable hlimit), hrest]
  simp only [hfault, Location.stepAll_append]

/-- A source is scanned to tokens exactly when it is lexemes with blanks between them, and then to their tokens, each where
it stands, and the end of the input. A source is so in one way only. -/
theorem lex_eq_ok_iff {source : String} (hlimit : WithinDigitLimit source.toList) (filename : String) :
    (∀ tokens, lex source filename = .ok tokens ↔
      ∃ pieces blanks, Factors pieces source.toList blanks ∧ AllBlank blanks ∧
        tokens = placed 0 pieces ++ [.eof source.length]) ∧
    ∀ pieces blanks pieces' blanks', Factors pieces source.toList blanks → AllBlank blanks →
      Factors pieces' source.toList blanks' → AllBlank blanks' → pieces = pieces' ∧ blanks = blanks' := by
  constructor
  · intro tokens
    constructor
    · exact exists_factors_of_lex
    · rintro ⟨pieces, blanks, hpieces, hblanks, rfl⟩
      exact lex_of_factors hpieces hblanks hlimit filename
  · intro pieces blanks pieces' blanks' h hblanks h' hblanks'
    rw [← List.append_nil blanks] at h
    rw [← List.append_nil blanks'] at h'
    obtain ⟨rfl, rfl, _⟩ := h.unique hblanks (Or.inl rfl) h' hblanks' (Or.inl rfl)
    exact ⟨rfl, rfl⟩

/-- A word, a string and an integer. -/
theorem lex_word_string_integer :
    lex "x1 \"a;\" 07" "<string>" = .ok [⟨.identifier "x1", 2⟩, ⟨.string "a;", 6⟩, ⟨.integer 7, 10⟩, .eof 10] := by
  have hword : Lexeme ['x', '1'] [' ', '"', 'a', ';', '"', ' ', '0', '7'] (.identifier (String.ofList ['x', '1'])) :=
    .identifier ⟨'x', rfl, rfl⟩ (by decide) (by decide)
  have hstring : Lexeme ('"' :: (['a', ';'] ++ ['"'])) [' ', '0', '7'] (.string (String.ofList ['a', ';'])) := by
    refine .string (fun front back heq => ?_) (by decide)
    have hmem : '"' ∈ ['a', ';'] := heq ▸ List.mem_append_right front List.mem_cons_self
    exact absurd hmem (by decide)
  have hinteger : Lexeme ['0', '7'] [] (.integer (Int32.ofNat (Reading.valueOf ['0', '7']))) :=
    .integer ⟨⟨'0', rfl, rfl⟩, by decide⟩ (by decide) (by decide)
  have hnone : AllBlank [] := by decide
  have hgap : AllBlank [' '] := by decide
  have hfactors := Factors.cons hnone hword (.cons hgap hstring (.cons hgap hinteger .nil))
  have hlimit : WithinDigitLimit "x1 \"a;\" 07".toList := withinDigitLimit_of_length_le (by decide)
  exact ((lex_eq_ok_iff hlimit "<string>").1 _).mpr ⟨_, [], hfactors, hnone, rfl⟩

end TinyScript
