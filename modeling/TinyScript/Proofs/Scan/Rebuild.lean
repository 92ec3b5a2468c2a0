import TinyScript.Proofs.Scan.Concat
import TinyScript.Proofs.Tree.Shown

/-!
# Sources rebuilt from their tokens

The texts of the tokens of a source, one behind the other, are the source without the blanks outside its string literals
(`join_lexemes_of_lex`), if its numbers are spelled as tokens print them (`PrintedNumbers`). Where a literal starts and ends
is said by `unblanked` alone, character by character, and not by the scan.

Lexemes of other kinds than numbers are always the text of their token (`Lexeme.text_eq`). An integer is if it has no zero
before its other digits (`Lexeme.integer_text_eq_iff`).
-/

namespace TinyScript

/-! ## Blanks outside literals -/

/-- A text without the blanks outside its string literals. If the text starts inside a literal, `last` is the character
before it, at first the quote that opens the literal. The literal goes on to a quote that does not come after a backslash. -/
def unblanked : Option Char → List Char → List Char
  | _, [] => []
  | none, c :: rest =>
    if Reading.isBlank c then unblanked none rest else c :: unblanked (if c = '"' then some c else none) rest
  | some last, c :: rest => c :: unblanked (if c = '"' ∧ last ≠ '\\' then none else some c) rest

/-- Blanks outside literals vanish. -/
theorem unblanked_blanks {blanks : List Char} (h : AllBlank blanks) (rest : List Char) :
    unblanked none (blanks ++ rest) = unblanked none rest := by
  induction blanks with
  | nil => rfl
  | cons c blanks ih =>
    obtain ⟨hc, hblanks⟩ := List.forall_mem_cons.mp h
    rw [List.cons_append, unblanked, if_pos hc, ih hblanks]

/-- Other characters than blanks and quotes are kept. -/
theorem unblanked_plain {run : List Char} (h : ∀ c ∈ run, Reading.isBlank c = false ∧ c ≠ '"') (rest : List Char) :
    unblanked none (run ++ rest) = run ++ unblanked none rest := by
  induction run with
  | nil => rfl
  | cons c run ih =>
    obtain ⟨⟨hblank, hquote⟩, hrun⟩ := List.forall_mem_cons.mp h
    rw [List.cons_append, unblanked, hblank, if_neg Bool.false_ne_true, if_neg hquote, ih hrun, List.cons_append]

/-- Inside a literal everything is kept, up to the quote that closes it. -/
theorem unblanked_contents {last : Char} {contents : List Char} (h : Reading.EscapedAfter last contents)
    (hlast : (last :: contents).getLast? ≠ some '\\') (rest : List Char) :
    unblanked (some last) (contents ++ '"' :: rest) = contents ++ '"' :: unblanked none rest := by
  induction contents generalizing last with
  | nil =>
    have hopen : last ≠ '\\' := by simpa using hlast
    rw [List.nil_append, unblanked, if_pos ⟨rfl, hopen⟩, List.nil_append]
  | cons c contents ih =>
    obtain ⟨hfirst, hrest⟩ := Reading.escapedAfter_cons.mp h
    have hinside : ¬ (c = '"' ∧ last ≠ '\\') := by
      rintro ⟨hquote, hopen⟩
      exact hopen (hfirst hquote)
    rw [List.getLast?_cons_cons] at hlast
    rw [List.cons_append, unblanked, if_neg hinside, ih hrest hlast, List.cons_append]

/-- Characters of numbers and words are no blanks and no quotes. -/
theorem plain_of_isPart {c : Char} (h : isNumberPart c = true ∨ Reading.isWordPart c = true) :
    Reading.isBlank c = false ∧ c ≠ '"' := by
  constructor
  · refine Bool.eq_false_iff.mpr fun hblank => ?_
    obtain ⟨hnumber, hword⟩ := not_isPart_of_isBlank hblank
    rcases h with h | h
    · simp [hnumber] at h
    · simp [hword] at h
  · rintro rfl
    exact absurd h (by decide)

section Lexeme

variable {run rest : List Char} {value : TokenValue}

/-- A lexeme is kept as it is, and no literal is open behind it. -/
theorem Lexeme.unblanked_append (h : Lexeme run rest value) :
    unblanked none (run ++ rest) = run ++ unblanked none rest := by
  cases h with
  | integer hrun _ _ | float hrun _ _ => exact unblanked_plain (fun c hc => plain_of_isPart (Or.inl (hrun.2.1 c hc))) rest
  | boolean hrun | identifier _ hrun _ => exact unblanked_plain (fun c hc => plain_of_isPart (Or.inr (hrun.1 c hc))) rest
  | @string contents _ hescaped hlast =>
    have hopen : '"' ≠ '\\' := by decide
    have hlast' : ('"' :: contents).getLast? ≠ some '\\' := by
      cases contents with
      | nil => simp
      | cons c contents => rwa [List.getLast?_cons_cons]
    have hcontents := unblanked_contents ((Reading.escapedAfter_iff hopen).mpr hescaped) hlast' rest
    have hquote : Reading.isBlank '"' = false := rfl
    rw [List.cons_append, List.append_assoc, List.singleton_append, unblanked, hquote, if_neg Bool.false_ne_true, if_pos rfl,
      hcontents]
    simp
  | character hblank _ _ hquote =>
    refine unblanked_plain (fun c hc => ?_) rest
    obtain rfl := List.mem_singleton.mp hc
    exact ⟨hblank, hquote⟩

/-- A lexeme of another kind than a number is the text of its token. -/
theorem Lexeme.text_eq (h : Lexeme run rest value) (hkind : value.kind ∉ numberKinds) : value.lexeme.toList = run := by
  cases h with
  | integer _ _ _ | float _ _ _ => exact absurd (by simp [TokenValue.ofDouble, TokenValue.kind, numberKinds]) hkind
  | boolean _ => rfl
  | identifier _ _ _ => exact String.toList_ofList
  | string _ _ => simp [TokenValue.lexeme]
  | character _ _ _ _ => simp [TokenValue.lexeme]

end Lexeme

/-- Without the blanks outside its literals a text is its lexemes one behind the other. -/
theorem Factors.unblanked {pieces : List Piece} {text rest : List Char} (h : Factors pieces text rest) :
    unblanked none text = pieces.flatMap (·.run) ++ TinyScript.unblanked none rest := by
  induction h with
  | nil => rfl
  | cons hblanks hlexeme _ ih =>
    rw [unblanked_blanks hblanks, hlexeme.unblanked_append, ih, List.flatMap_cons, List.append_assoc]

/-- An integer is the text of its token exactly if it has no zero before other digits. -/
theorem Lexeme.integer_text_eq_iff {run rest : List Char} {n : Int32} (h : Lexeme run rest (.integer n)) :
    (TokenValue.integer n).lexeme.toList = run ↔ (run.head? = some '0' → run = ['0']) := by
  generalize hvalue : TokenValue.integer n = value at h
  cases h with
  | @integer _ _ hrun hpoint hbound =>
    rw [Scanned.toList_lexeme_integer (Nat.lt_of_le_of_lt hbound (by decide))]
    have hdigits := (hrun.2.isDigit hpoint).1
    obtain ⟨zeros, others, rfl, hzeros⟩ := exists_maximalRun (· == '0') run
    have hreplicate : zeros = List.replicate zeros.length '0' :=
      List.eq_replicate_iff.mpr ⟨rfl, fun c hc => by simpa using hzeros.1 c hc⟩
    have hworth : Reading.valueOf (zeros ++ others) = Reading.valueOf others := by
      rw [hreplicate, Decimal.valueOf_zeros_append]
    rw [hworth]
    cases others with
    | nil =>
      obtain ⟨c, more, hrun', -⟩ := hrun.exists_cons
      have hmem : c ∈ zeros := by
        rw [← List.append_nil zeros, hrun']
        exact List.mem_cons_self
      have hzero : c = '0' := by simpa using hzeros.1 c hmem
      rw [hrun', hzero]
      exact ⟨fun hprinted _ => hprinted.symm, fun hplain => (hplain rfl).symm⟩
    | cons first more =>
      have hfirst : first ≠ '0' := by simpa using hzeros.2 first rfl
      rw [Decimal.toDigits_valueOf (fun c hc => hdigits c (List.mem_append_right _ hc)) hfirst]
      cases zeros with
      | nil =>
        constructor
        · intro _ hhead
          exact absurd (Option.some.inj hhead) hfirst
        · intro _
          rfl
      | cons zero zeros =>
        -- One more digit than is printed, and more than one.
        have hzero : zero = '0' := by simpa using hzeros.1 zero List.mem_cons_self
        constructor
        · intro hprinted
          have hlength := congrArg List.length hprinted
          simp only [List.length_append, List.length_cons] at hlength
          omega
        · intro hplain
          have hlength := congrArg List.length (hplain (by rw [hzero]; rfl))
          simp only [List.length_append, List.length_cons, List.length_nil] at hlength
          omega
  | float _ _ _ | boolean _ | string _ _ | character _ _ _ _ | identifier _ _ _ => cases hvalue

/-! ## Sources -/

/-- Every number of a text is spelled as its token prints it. -/
def PrintedNumbers (text : List Char) : Prop :=
  ∀ pieces blanks, Factors pieces text blanks → AllBlank blanks →
    ∀ piece ∈ pieces, piece.value.kind ∈ numberKinds → piece.value.lexeme.toList = piece.run

/-- The pieces of a text tell if its numbers are printed ones, as it has no other pieces. -/
theorem printedNumbers_of_factors {pieces : List Piece} {text blanks : List Char} (h : Factors pieces text blanks)
    (hblanks : AllBlank blanks)
    (hprinted : ∀ piece ∈ pieces, piece.value.kind ∈ numberKinds → piece.value.lexeme.toList = piece.run) :
    PrintedNumbers text := by
  intro pieces' blanks' h' hblanks'
  rw [← List.append_nil blanks] at h
  rw [← List.append_nil blanks'] at h'
  obtain ⟨rfl, -, -⟩ := h.unique hblanks (Or.inl rfl) h' hblanks' (Or.inl rfl)
  exact hprinted

/-- The texts of the values of pieces are the pieces, if that holds of the numbers among them. -/
theorem flatMap_lexemes {pieces : List Piece} {text rest : List Char} (h : Factors pieces text rest)
    (hprinted : ∀ piece ∈ pieces, piece.value.kind ∈ numberKinds → piece.value.lexeme.toList = piece.run) :
    pieces.flatMap (·.value.lexeme.toList) = pieces.flatMap (·.run) := by
  induction h with
  | nil => rfl
  | @cons blanks run after rest value pieces _ hlexeme _ ih =>
    obtain ⟨hfirst, hothers⟩ := List.forall_mem_cons.mp hprinted
    have htext : value.lexeme.toList = run := by
      by_cases hkind : value.kind ∈ numberKinds
      · exact hfirst hkind
      · exact hlexeme.text_eq hkind
    rw [List.flatMap_cons, List.flatMap_cons, htext, ih hothers]

/-- The texts of the tokens of a source, one behind the other, are the source without the blanks outside its string literals,
if its numbers are spelled as they are printed. An integer is spelled so if it has no zero before other digits, a float if it
is the text of its value. -/
theorem join_lexemes_of_lex {source filename : String} {tokens : List Token} (h : lex source filename = .ok tokens)
    (hprinted : PrintedNumbers source.toList) :
    String.join (tokens.map (·.lexeme)) = String.ofList (unblanked none source.toList) ∧
      (∀ run rest n, Lexeme run rest (.integer n) →
        ((TokenValue.integer n).lexeme.toList = run ↔ (run.head? = some '0' → run = ['0']))) ∧
      ∀ run rest x, Lexeme run rest (.float x) → ((TokenValue.float x).lexeme.toList = run ↔ x.text = run) := by
  refine ⟨?_, fun run rest n => Lexeme.integer_text_eq_iff, fun run rest x _ => ?_⟩
  · obtain ⟨pieces, blanks, hpieces, hblanks, rfl⟩ := exists_factors_of_lex h
    have hvalues : (placed 0 pieces ++ [Token.eof source.length]).map (·.lexeme) =
        pieces.map (·.value.lexeme) ++ [""] := by
      have hmap : ∀ tokens : List Token, tokens.map (·.lexeme) = (tokens.map (·.value)).map (·.lexeme) := by
        intro tokens
        rw [List.map_map]
        rfl
      rw [hmap, map_value_tokens, List.map_append, List.map_map]
      rfl
    have hblank : unblanked none blanks = [] := by
      have hnone := unblanked_blanks hblanks []
      rwa [List.append_nil] at hnone
    rw [hvalues, ← String.toList_inj, String.toList_join, String.toList_ofList, hpieces.unblanked, hblank,
      ← flatMap_lexemes hpieces (hprinted pieces blanks hpieces hblanks)]
    simp [List.flatMap_map]
  · rw [TokenValue.lexeme, String.toList_ofList]

/-- A printed number, a string with an escaped quote and a blank in it, and an integer of one zero. -/
theorem join_lexemes_escapedQuote :
    PrintedNumbers "f 1.5\t\"a\\\" b\"\n;0".toList ∧ ∃ tokens, lex "f 1.5\t\"a\\\" b\"\n;0" "f" = .ok tokens ∧
      String.join (tokens.map (·.lexeme)) = "f1.5\"a\\\" b\";0" := by
  have hprinted : PrintedNumbers "f 1.5\t\"a\\\" b\"\n;0".toList := by
    have hword : Lexeme ['f'] " 1.5\t\"a\\\" b\"\n;0".toList (.identifier "f") :=
      .identifier ⟨'f', rfl, rfl⟩ (by decide) (by decide)
    have hfloat : Lexeme (['1'] ++ '.' :: ['5']) "\t\"a\\\" b\"\n;0".toList
        (.ofDouble ((Reading.pointed ['1'] ['5']).toBinary .double false)) :=
      .float ⟨⟨'1', rfl, rfl⟩, by decide⟩ (by decide) (by decide)
    have hstring : Lexeme ('"' :: (['a', '\\', '"', ' ', 'b'] ++ ['"'])) "\n;0".toList
        (.string (String.ofList ['a', '\\', '"', ' ', 'b'])) := by
      have hend : Reading.EscapedAfter 'b' [] := fun front back heq => by simp at heq
      refine .string ((Reading.escapedAfter_iff (by decide : 'a' ≠ '\\')).mp ?_) (by decide)
      simp [Reading.escapedAfter_cons, hend]
    have hmark : Lexeme [';'] ['0'] (.character ';') := .character rfl rfl rfl (by decide)
    have hinteger : Lexeme ['0'] [] (.integer (Int32.ofNat (Reading.valueOf ['0']))) :=
      .integer ⟨⟨'0', rfl, rfl⟩, by decide⟩ (by decide) (by decide)
    have hnone : AllBlank [] := by decide
    have hfactors := Factors.cons hnone hword (.cons (by decide : AllBlank [' ']) hfloat
      (.cons (by decide : AllBlank ['\t']) hstring
        (.cons (by decide : AllBlank ['\n']) hmark (.cons hnone hinteger .nil))))
    exact printedNumbers_of_factors hfactors hnone (by decide +kernel)
  have hlex : lex "f 1.5\t\"a\\\" b\"\n;0" "f" = .ok [⟨.identifier "f", 1⟩,
      ⟨.float (.signed false 1069547520 (by decide)), 5⟩, ⟨.string "a\\\" b", 12⟩, ⟨.character ';', 14⟩, ⟨.integer 0, 16⟩,
      .eof 16] := by decide +kernel
  refine ⟨hprinted, _, hlex, ?_⟩
  rw [(join_lexemes_of_lex hlex hprinted).1]
  decide +kernel

end TinyScript
