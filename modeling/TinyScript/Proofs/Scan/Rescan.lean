import TinyScript.Proofs.Number.Layout
import TinyScript.Proofs.Scan.Concat
import TinyScript.Proofs.Tree.Shown

/-!
# Tokens written out and scanned again

The texts of scanned tokens with blanks between them are scanned again, and to the same values exactly when every float among
them is written without an exponent and is finite (`lex_rendered`). A float that is not is scanned to other values: infinity to
a name, and an exponent to a name, a sign and an integer behind the digits (`Scanned.exists_rescans`).
-/

namespace TinyScript

/-- If the value is a float, its text is digits and points. -/
def TokenValue.Plain (value : TokenValue) : Prop :=
  value.kind = .float → ∀ c ∈ value.lexeme.toList, isNumberPart c = true

/-- The pieces that the text of a value is, where a blank or the end of the text follows. -/
structure Rescans (value : TokenValue) (pieces : List Piece) : Prop where
  factors : ∀ rest, (∀ c ∈ rest.head?, Reading.isBlank c = true) → Factors pieces (value.lexeme.toList ++ rest) rest
  readable : ∀ piece ∈ pieces, piece.Readable
  ne_nil : pieces ≠ []
  same_iff : pieces.map (·.value) = [value] ↔ value.Plain

/-- What starts with a blank goes on with no lexeme. -/
theorem endsBefore_blank {rest : List Char} (h : ∀ c ∈ rest.head?, Reading.isBlank c = true) (kind : TokenKind) :
    EndsBefore kind rest :=
  ⟨fun _ c hc => (not_isPart_of_isBlank (h c hc)).1, fun _ c hc => (not_isPart_of_isBlank (h c hc)).2⟩

/-! ## Numbers -/

/-- Digits that stand for a number of 31 bits are its lexeme. -/
theorem lexeme_digits {digits rest : List Char} (hne : digits ≠ []) (hdigits : ∀ c ∈ digits, c.isDigit = true)
    (hvalue : Reading.valueOf digits ≤ 2 ^ 31 - 1) (hrest : ∀ c ∈ rest.head?, isNumberPart c = false) :
    Lexeme digits rest (.integer (Int32.ofNat (Reading.valueOf digits))) := by
  obtain ⟨first, more, rfl⟩ := List.exists_cons_of_ne_nil hne
  refine .integer ⟨⟨first, rfl, hdigits first List.mem_cons_self⟩, fun c hc => ?_, hrest⟩ (point_not_mem hdigits) hvalue
  simp [isNumberPart, hdigits c hc]

/-- Digits around a point are characters of numbers. -/
theorem isNumberPart_of_pointed {whole fraction : List Char} (hwhole : ∀ c ∈ whole, c.isDigit = true)
    (hfraction : ∀ c ∈ fraction, c.isDigit = true) : ∀ c ∈ whole ++ '.' :: fraction, isNumberPart c = true := by
  intro c hc
  simp only [List.mem_append, List.mem_cons] at hc
  rcases hc with hc | rfl | hc
  · simp [isNumberPart, hwhole c hc]
  · rfl
  · simp [isNumberPart, hfraction c hc]

/-- Digits around a point are the lexeme of the float that they spell. -/
theorem lexeme_pointed {whole fraction rest : List Char} (hne : whole ≠ []) (hwhole : ∀ c ∈ whole, c.isDigit = true)
    (hfraction : ∀ c ∈ fraction, c.isDigit = true) (hrest : ∀ c ∈ rest.head?, isNumberPart c = false) :
    Lexeme (whole ++ '.' :: fraction) rest (.ofDouble ((Reading.pointed whole fraction).toBinary .double false)) := by
  obtain ⟨first, more, rfl⟩ := List.exists_cons_of_ne_nil hne
  exact .float ⟨⟨first, rfl, hwhole first List.mem_cons_self⟩, isNumberPart_of_pointed hwhole hfraction, hrest⟩
    (point_not_mem hwhole) (point_not_mem hfraction)

/-- A number of 31 bits has no more digits than can be read. -/
theorem digitCount_lt_maxDigits {n : Nat} (h : n ≤ 2 ^ 31 - 1) : digitCount n + 1 ≤ Refusal.maxDigits := by
  have hcount : digitCount n ≤ 10 := digitCount_le (by decide) (Nat.lt_of_le_of_lt h (by decide))
  exact Nat.le_trans (Nat.succ_le_succ hcount) (by decide)

/-- An exponent is scanned to a name, a sign and an integer. -/
theorem exists_factors_exponentText {exponent : Int} (h : exponent.natAbs ≤ 2 ^ 31 - 1) :
    ∃ pieces, pieces ≠ [] ∧ (∀ piece ∈ pieces, piece.Readable) ∧
      ∀ rest, (∀ c ∈ rest.head?, Reading.isBlank c = true) → Factors pieces (Decimal.exponentText exponent ++ rest) rest := by
  obtain ⟨sign, digits, htext, hsign, hne, hdigits, hvalue, hlength⟩ := Decimal.exists_exponentText exponent
  rw [← hvalue] at h
  have hshort : digits.length ≤ Refusal.maxDigits := by
    rw [← hvalue] at hlength
    exact Nat.le_trans hlength (digitCount_lt_maxDigits h)
  refine ⟨[⟨[], ['e'], .identifier (String.ofList ['e'])⟩, ⟨[], [sign], .character sign⟩,
    ⟨[], digits, .integer (Int32.ofNat (Reading.valueOf digits))⟩], List.cons_ne_nil _ _, ?_, fun rest hrest => ?_⟩
  · refine List.forall_mem_cons.mpr ⟨fun hkind => ?_, List.forall_mem_cons.mpr ⟨fun hkind => ?_, ?_⟩⟩
    · cases hkind
    · cases hkind
    · exact List.forall_mem_cons.mpr ⟨fun _ => hshort, List.forall_mem_nil _⟩
  · simp only [List.mem_cons, List.not_mem_nil, or_false] at hsign
    have hword : Reading.isWordPart sign = false := by
      rcases hsign with rfl | rfl <;> rfl
    have hletter : Lexeme ['e'] (sign :: (digits ++ rest)) (.identifier (String.ofList ['e'])) := by
      refine .identifier ⟨'e', rfl, rfl⟩ ⟨List.all_eq_true.mp rfl, fun c hc => ?_⟩ (by decide)
      obtain rfl : sign = c := by simpa using hc
      exact hword
    have hmark : Lexeme [sign] (digits ++ rest) (.character sign) := by
      rcases hsign with rfl | rfl <;> exact .character rfl rfl rfl (by decide)
    have hinteger := lexeme_digits hne hdigits h fun c hc => ((endsBefore_blank hrest .integer).1 (by decide) c hc)
    have hnone : AllBlank [] := List.forall_mem_nil _
    rw [htext, List.cons_append, List.cons_append]
    exact .cons hnone hletter (.cons hnone hmark (.cons hnone hinteger .nil))

/-! ## Values -/

/-- A value whose text is a lexeme of it is scanned again from that. -/
theorem Lexeme.rescans {value : TokenValue} {run after : List Char} (h : Lexeme run after value)
    (htext : value.lexeme.toList = run) (hreadable : value.kind = .integer → run.length ≤ Refusal.maxDigits)
    (hplain : value.Plain) : Rescans value [⟨[], run, value⟩] where
  factors := fun rest hrest => by
    rw [htext]
    exact .cons (List.forall_mem_nil _) (h.before (endsBefore_blank hrest _)) .nil
  readable := List.forall_mem_cons.mpr ⟨hreadable, List.forall_mem_nil _⟩
  ne_nil := List.cons_ne_nil _ _
  same_iff := ⟨fun _ => hplain, fun _ => rfl⟩

/-- A value of another kind than a number is scanned again from its text, if that is a lexeme of it. -/
theorem Lexeme.rescans_of_kind {value : TokenValue} {run after : List Char} (h : Lexeme run after value)
    (hkind : value.kind ∉ numberKinds) (htext : value.lexeme.toList = run) : ∃ pieces, Rescans value pieces := by
  refine ⟨_, h.rescans htext (fun hinteger => absurd ?_ hkind) fun hfloat => absurd ?_ hkind⟩
  · simp [hinteger, numberKinds]
  · simp [hfloat, numberKinds]

/-- A float that is written with an exponent is scanned to the digits before it and the pieces of the exponent. -/
theorem exists_rescans_exponent {x : Single} (mantissa : List Char) {value : TokenValue} {exponent : Int}
    (htext : (TokenValue.float x).lexeme.toList = mantissa ++ Decimal.exponentText exponent)
    (hexponent : exponent.natAbs ≤ 2 ^ 31 - 1)
    (hmantissa : ∀ rest : List Char, (∀ c ∈ rest.head?, isNumberPart c = false) → Lexeme mantissa rest value)
    (hreadable : value.kind = .integer → mantissa.length ≤ Refusal.maxDigits) :
    ∃ pieces, Rescans (.float x) pieces := by
  obtain ⟨pieces, hne, hpieces, hfactors⟩ := exists_factors_exponentText hexponent
  obtain ⟨sign, digits, hletter, -⟩ := Decimal.exists_exponentText exponent
  refine ⟨⟨[], mantissa, value⟩ :: pieces, fun rest hrest => ?_, List.forall_mem_cons.mpr ⟨hreadable, hpieces⟩,
    List.cons_ne_nil _ _, fun hsame => ?_, fun hplain => ?_⟩
  · rw [htext, List.append_assoc]
    refine .cons (List.forall_mem_nil _) (hmantissa _ fun c hc => ?_) (hfactors rest hrest)
    obtain rfl : 'e' = c := by simpa [hletter] using hc
    rfl
  · have hnone := (List.cons.inj hsame).2
    exact absurd (List.map_eq_nil_iff.mp hnone) hne
  · have hmem : 'e' ∈ (TokenValue.float x).lexeme.toList := by simp [htext, hletter]
    exact absurd (hplain rfl 'e' hmem) (by decide)

/-- A number that is narrowed to one without a sign has no sign. -/
theorem Double.unsigned_of_toSingle {w : Double} {code : Nat} {hcode : code ≤ Format.single.infinity}
    (h : w.toSingle = .signed false code hcode) : ∃ wide hwide, w = .signed false wide hwide := by
  cases w with
  | nan => cases h
  | signed negative wide hwide =>
    obtain ⟨narrow, hnarrow, hsigned⟩ := Binary.exists_convert_signed (g := .single) negative hwide
    have hsame := hsigned.symm.trans h
    obtain ⟨rfl, _⟩ := Binary.signed.inj hsame
    exact ⟨wide, hwide, rfl⟩

/-- The text of a scanned float is that of a 64-bit number without a sign which is narrowed to the float. -/
theorem Scanned.exists_wide {x : Single} (h : Scanned (.float x)) :
    ∃ wide hwide, Double.toSingle (.signed false wide hwide) = x ∧ (TokenValue.float x).lexeme.toList =
      if wide = Format.double.infinity then ['i', 'n', 'f'] else (Format.double.shortest wide).layout := by
  obtain ⟨code, hcode, rfl⟩ := h.float_unsigned
  obtain ⟨w, hprinted, hw⟩ := Single.exists_text_eq h.float
  obtain ⟨wide, hwide, rfl⟩ := Double.unsigned_of_toSingle hw
  refine ⟨wide, hwide, hw, ?_⟩
  rw [TokenValue.lexeme, String.toList_ofList, hprinted]
  rfl

/-- The text of a scanned float is digits and points exactly if the float is finite and its text has no exponent. -/
theorem Scanned.plain_iff {x : Single} (h : Scanned (.float x)) :
    (TokenValue.float x).Plain ↔ (TokenValue.float x).lexeme ≠ "inf" ∧ 'e' ∉ (TokenValue.float x).lexeme.toList := by
  constructor
  · intro hplain
    refine ⟨fun hinfinity => ?_, fun hletter => absurd (hplain rfl 'e' hletter) (by decide)⟩
    have hletter : 'i' ∈ (TokenValue.float x).lexeme.toList := by rw [hinfinity]; decide
    exact absurd (hplain rfl 'i' hletter) (by decide)
  · rintro ⟨hinfinity, hletter⟩ _ c hc
    obtain ⟨wide, hwide, -, htext⟩ := h.exists_wide
    rw [htext] at hletter hc
    split at htext
    next => exact absurd (String.toList_inj.mp htext) hinfinity
    next hfinite =>
      rw [if_neg hfinite] at hletter hc
      have hwritten := (Format.double.shortest wide).layout_written
      obtain ⟨sign, digits, hexponent, -⟩ := Decimal.exists_exponentText
        (digitCount (Format.double.shortest wide).coefficient + (Format.double.shortest wide).exponent - 1)
      generalize (Format.double.shortest wide).layout = text at hletter hc hwritten
      cases hwritten with
      | positional hne hwhole hfraction => exact isNumberPart_of_pointed hwhole hfraction c hc
      | oneDigit hfirst => exact absurd (by simp [hexponent]) hletter
      | moreDigits hfirst hmore => exact absurd (by simp [hexponent]) hletter

/-- A scanned float is scanned again from its text, to itself if that is digits and points. -/
theorem exists_rescans_float {x : Single} (h : Scanned (.float x)) : ∃ pieces, Rescans (.float x) pieces := by
  obtain ⟨wide, hwide, hw, htext⟩ := h.exists_wide
  by_cases hfinite : wide = Format.double.infinity
  · rw [if_pos hfinite] at htext
    have hname : ∀ rest : List Char, (∀ c ∈ rest.head?, Reading.isBlank c = true) →
        Lexeme ['i', 'n', 'f'] rest (.identifier (String.ofList ['i', 'n', 'f'])) := fun rest hrest =>
      .identifier ⟨'i', rfl, rfl⟩ ⟨List.all_eq_true.mp rfl, (endsBefore_blank hrest .identifier).2 (by decide)⟩ (by decide)
    refine ⟨[⟨[], ['i', 'n', 'f'], .identifier (String.ofList ['i', 'n', 'f'])⟩], fun rest hrest => ?_, ?_,
      List.cons_ne_nil _ _, fun hsame => ?_, fun hplain => ?_⟩
    · rw [htext]
      exact .cons (List.forall_mem_nil _) (hname rest hrest) .nil
    · exact List.forall_mem_cons.mpr ⟨fun hkind => (by cases hkind), List.forall_mem_nil _⟩
    · cases hsame
    · exact absurd (hplain rfl 'i' (by rw [htext]; decide)) (by decide)
  · rw [if_neg hfinite] at htext
    have hexponent := Double.natAbs_exponent_le hwide
    have hwritten := (Format.double.shortest wide).layout_written
    generalize hlayout : (Format.double.shortest wide).layout = text at htext hwritten
    cases hwritten with
    | @positional whole fraction hne hwhole hfraction =>
      -- The digits spell the wide number that they print, and narrowing that gives the float.
      have hvalue : TokenValue.ofDouble ((Reading.pointed whole fraction).toBinary .double false) = .float x := by
        rw [Binary.toBinary_pointed (by decide) hwide hfinite hne hwhole hfraction hlayout, TokenValue.ofDouble, hw]
      have hlexeme : Lexeme (whole ++ '.' :: fraction) [] _ := lexeme_pointed hne hwhole hfraction fun c hc => by cases hc
      rw [hvalue] at hlexeme
      refine ⟨_, hlexeme.rescans htext (fun hkind => by cases hkind) fun _ => ?_⟩
      rw [htext]
      exact isNumberPart_of_pointed hwhole hfraction
    | @oneDigit first hfirst =>
      have hdigit : ∀ c ∈ [first], c.isDigit = true := by simpa using hfirst
      have hsmall : Reading.valueOf [first] ≤ 2 ^ 31 - 1 := Nat.le_trans (Decimal.valueOf_digit_le hfirst) (by decide)
      exact exists_rescans_exponent [first] htext hexponent
        (fun _ hrest => lexeme_digits (List.cons_ne_nil _ _) hdigit hsmall hrest) fun _ => show 1 ≤ 4300 by decide
    | @moreDigits first more hfirst hmore =>
      have hdigit : ∀ c ∈ [first], c.isDigit = true := by simpa using hfirst
      exact exists_rescans_exponent ([first] ++ '.' :: more) (by simpa using htext) hexponent
        (fun _ hrest => lexeme_pointed (List.cons_ne_nil _ _) hdigit hmore hrest) fun hkind => by cases hkind

/-- Every scanned value is scanned again from its text, to itself unless it is a float whose text is not digits and points. -/
theorem Scanned.exists_rescans {value : TokenValue} (h : Scanned value) : ∃ pieces, Rescans value pieces := by
  have hfloat : ∀ x, value = .float x → ∃ pieces, Rescans value pieces := by
    rintro x rfl
    exact exists_rescans_float h
  obtain ⟨run, rest, hlexeme⟩ := h
  cases hlexeme with
  | @integer _ _ _ _ hvalue =>
    have htext := Scanned.toList_lexeme_integer (Nat.lt_of_le_of_lt hvalue (by decide))
    have hdigits : ∀ c ∈ Nat.toDigits 10 (Reading.valueOf run), c.isDigit = true :=
      fun c hc => Nat.isDigit_of_mem_toDigits (by decide) (by decide) hc
    have hagain : Lexeme (Nat.toDigits 10 (Reading.valueOf run)) [] _ :=
      lexeme_digits Nat.toDigits_ne_nil hdigits (by rwa [Decimal.valueOf_toDigits]) fun c hc => by cases hc
    rw [Decimal.valueOf_toDigits] at hagain
    exact ⟨_, hagain.rescans htext (fun _ => Nat.le_of_succ_le (digitCount_lt_maxDigits hvalue)) fun hkind => by cases hkind⟩
  | float _ _ _ => exact hfloat _ rfl
  | boolean hrun => exact (Lexeme.boolean hrun).rescans_of_kind (by simp [TokenValue.kind, numberKinds]) rfl
  | identifier hstart hrun hname =>
    exact (Lexeme.identifier hstart hrun hname).rescans_of_kind (by simp [TokenValue.kind, numberKinds]) String.toList_ofList
  | string hescaped hlast =>
    have hlexeme : Lexeme _ rest _ := .string hescaped hlast
    exact hlexeme.rescans_of_kind (by simp [TokenValue.kind, numberKinds]) (by simp [TokenValue.lexeme])
  | character hblank hdigit hstart hquote =>
    have hlexeme : Lexeme _ rest _ := .character hblank hdigit hstart hquote
    exact hlexeme.rescans_of_kind (by simp [TokenValue.kind, numberKinds]) (by simp [TokenValue.lexeme])

/-! ## Texts -/

/-- The texts of values, each behind a space. -/
def spaced (values : List TokenValue) : List Char := values.flatMap fun value => ' ' :: value.lexeme.toList

/-- The texts of values with spaces between them are no text, or the first text and the others behind it. -/
theorem toList_intercalate_lexemes (first : TokenValue) (rest : List TokenValue) :
    (" ".intercalate ((first :: rest).map (·.lexeme))).toList = first.lexeme.toList ++ spaced rest := by
  induction rest generalizing first with
  | nil => simp [spaced]
  | cons next rest ih =>
    rw [List.map_cons, List.map_cons, String.intercalate_cons_cons, ← List.map_cons, String.toList_append, ih]
    simp [spaced]

/-- Pieces before pieces are pieces. -/
theorem Factors.append {pieces more : List Piece} {text middle rest : List Char} (h : Factors pieces text middle)
    (h' : Factors more middle rest) : Factors (pieces ++ more) text rest := by
  induction h with
  | nil => exact h'
  | cons hblanks hlexeme _ ih => exact .cons hblanks hlexeme (ih h')

/-- The text is pieces that are scanned to as many values or more, and to the values themselves if they are plain. -/
structure RescansAll (values : List TokenValue) (text : List Char) (pieces : List Piece) : Prop where
  factors : Factors pieces text []
  readable : ∀ piece ∈ pieces, piece.Readable
  length_le : values.length ≤ pieces.length
  same_iff : pieces.map (·.value) = values ↔ ∀ value ∈ values, value.Plain

namespace RescansAll

theorem nil : RescansAll [] [] [] where
  factors := .nil
  readable := List.forall_mem_nil _
  length_le := Nat.le_refl _
  same_iff := ⟨fun _ => List.forall_mem_nil _, fun _ => rfl⟩

/-- A value before others is scanned again before them. As no value comes to less than one piece, the pieces of all can only
be the values if those of each are. -/
theorem cons {value : TokenValue} {values : List TokenValue} {pieces more : List Piece} (h : Rescans value pieces)
    (hall : RescansAll values (spaced values) more) :
    RescansAll (value :: values) (value.lexeme.toList ++ spaced values) (pieces ++ more) where
  factors := by
    refine (h.factors (spaced values) fun c hc => ?_).append hall.factors
    cases values with
    | nil => cases hc
    | cons next values =>
      obtain rfl : ' ' = c := by simpa [spaced] using hc
      rfl
  readable := List.forall_mem_append.mpr ⟨h.readable, hall.readable⟩
  length_le := by
    have hpos := List.length_pos_iff.mpr h.ne_nil
    have hmore := hall.length_le
    simp only [List.length_cons, List.length_append]
    omega
  same_iff := by
    have hsplit : (pieces ++ more).map (·.value) = value :: values ↔
        pieces.map (·.value) = [value] ∧ more.map (·.value) = values := by
      rw [List.map_append, ← List.singleton_append]
      constructor
      · intro heq
        have hlength := congrArg List.length heq
        have hpos := List.length_pos_iff.mpr h.ne_nil
        have hmore := hall.length_le
        simp only [List.length_append, List.length_map, List.length_singleton] at hlength
        exact List.append_inj heq (by simp only [List.length_map, List.length_singleton]; omega)
      · rintro ⟨hfirst, hothers⟩
        rw [hfirst, hothers]
    rw [hsplit, h.same_iff, hall.same_iff, List.forall_mem_cons]

/-- A space before the first piece changes no value. -/
theorem space {values : List TokenValue} {text : List Char} {first : Piece} {pieces : List Piece}
    (h : RescansAll values text (first :: pieces)) :
    RescansAll values (' ' :: text) ({ first with blanks := ' ' :: first.blanks } :: pieces) where
  factors := by
    cases h.factors with
    | cons hblanks hlexeme hpieces => exact .cons (List.forall_mem_cons.mpr ⟨rfl, hblanks⟩) hlexeme hpieces
  readable := by
    obtain ⟨hfirst, hothers⟩ := List.forall_mem_cons.mp h.readable
    exact List.forall_mem_cons.mpr ⟨hfirst, hothers⟩
  length_le := h.length_le
  same_iff := h.same_iff

end RescansAll

/-- Scanned values are scanned again from their texts, each behind a space. -/
theorem exists_rescansAll_spaced {values : List TokenValue} (h : ∀ value ∈ values, Scanned value) :
    ∃ pieces, RescansAll values (spaced values) pieces := by
  induction values with
  | nil => exact ⟨[], .nil⟩
  | cons value values ih =>
    obtain ⟨hvalue, hvalues⟩ := List.forall_mem_cons.mp h
    obtain ⟨pieces, hpieces⟩ := hvalue.exists_rescans
    obtain ⟨more, hmore⟩ := ih hvalues
    obtain ⟨first, others, rfl⟩ := List.exists_cons_of_ne_nil hpieces.ne_nil
    exact ⟨_, (hmore.cons hpieces).space⟩

/-- Scanned values are scanned again from their texts with single spaces between them. -/
theorem exists_rescansAll {values : List TokenValue} (h : ∀ value ∈ values, Scanned value) :
    ∃ pieces, RescansAll values (" ".intercalate (values.map (·.lexeme))).toList pieces := by
  cases values with
  | nil => exact ⟨[], .nil⟩
  | cons value values =>
    obtain ⟨hvalue, hvalues⟩ := List.forall_mem_cons.mp h
    obtain ⟨pieces, hpieces⟩ := hvalue.exists_rescans
    obtain ⟨more, hmore⟩ := exists_rescansAll_spaced hvalues
    rw [toList_intercalate_lexemes]
    exact ⟨_, hmore.cons hpieces⟩

/-! ## Sources -/

/-- The values of tokens of a source are scanned, or the end. -/
theorem scanned_of_lex {source filename : String} {tokens : List Token} (h : lex source filename = .ok tokens) :
    ∀ value ∈ tokens.map (·.value), value = .eof ∨ Scanned value := by
  obtain ⟨pieces, blanks, hpieces, -, rfl⟩ := exists_factors_of_lex h
  refine List.forall_mem_map.mpr (List.forall_mem_append.mpr ⟨fun t ht => Or.inr (hpieces.scanned 0 t ht), fun t ht => ?_⟩)
  obtain rfl := List.mem_singleton.mp ht
  exact Or.inl rfl

/-- Values of tokens of sources are equal only if they are the same: a float among them is a number without a sign. -/
theorem same_iff {value value' : TokenValue} (h : value = .eof ∨ Scanned value) (h' : value' = .eof ∨ Scanned value') :
    value.same value' = true ↔ value = value' := by
  cases value with
  | float x =>
    cases value' with
    | float y =>
      obtain ⟨code, hcode, rfl⟩ := (h.resolve_left TokenValue.noConfusion).float_unsigned
      obtain ⟨code', hcode', rfl⟩ := (h'.resolve_left TokenValue.noConfusion).float_unsigned
      simp [TokenValue.same, Binary.same]
    | _ => simp [TokenValue.same]
  | _ => cases value' <;> simp [TokenValue.same]

theorem sameAll_iff {values values' : List TokenValue} (h : ∀ value ∈ values, value = .eof ∨ Scanned value)
    (h' : ∀ value ∈ values', value = .eof ∨ Scanned value) : TokenValue.sameAll values values' = true ↔ values = values' := by
  induction values generalizing values' with
  | nil => cases values' <;> simp [TokenValue.sameAll]
  | cons value values ih =>
    cases values' with
    | nil => simp [TokenValue.sameAll]
    | cons value' values' =>
      obtain ⟨hvalue, hvalues⟩ := List.forall_mem_cons.mp h
      obtain ⟨hvalue', hvalues'⟩ := List.forall_mem_cons.mp h'
      rw [TokenValue.sameAll, Bool.and_eq_true, same_iff hvalue hvalue', ih hvalues hvalues', List.cons.injEq]

/-- The texts of tokens with single spaces between them, without the end of the input. -/
def rendered (tokens : List Token) : String := " ".intercalate ((tokens.filter (!·.isEof)).map (·.lexeme))

/-- The texts of tokens depend on their values only. -/
theorem rendered_eq (tokens : List Token) :
    rendered tokens = " ".intercalate (((tokens.map (·.value)).filter (· != .eof)).map (·.lexeme)) := by
  rw [List.filter_map, List.map_map]
  rfl

/-- The texts of tokens are those of the values before the end. -/
theorem rendered_of_map_value {tokens : List Token} {values : List TokenValue} (hvalues : ∀ value ∈ values, Scanned value)
    (h : tokens.map (·.value) = values ++ [.eof]) : rendered tokens = " ".intercalate (values.map (·.lexeme)) := by
  have hkept : values.filter (· != .eof) = values :=
    List.filter_eq_self.mpr fun value hvalue => by simpa using (hvalues value hvalue).not_eof
  rw [rendered_eq, h, List.filter_append, hkept]
  simp

/-- A source that is scanned is scanned again from the texts of its tokens, to the same values exactly when all are plain. -/
theorem exists_rescanned {source filename : String} {tokens : List Token} (h : lex source filename = .ok tokens) :
    ∃ again, lex (rendered tokens) filename = .ok again ∧
      (again.map (·.value) = tokens.map (·.value) ↔ ∀ value ∈ tokens.map (·.value), value.Plain) := by
  obtain ⟨pieces, blanks, hpieces, -, rfl⟩ := exists_factors_of_lex h
  have hscanned : ∀ value ∈ pieces.map (·.value), Scanned value := by
    rw [← map_value_placed pieces 0]
    exact List.forall_mem_map.mpr (hpieces.scanned 0)
  have hend : ∀ value ∈ [TokenValue.eof], value.Plain := by
    intro value hvalue hkind
    rw [List.mem_singleton.mp hvalue] at hkind
    cases hkind
  obtain ⟨again, hagain⟩ := exists_rescansAll hscanned
  have hfactors := hagain.factors
  rw [← rendered_of_map_value hscanned (map_value_tokens pieces 0 source.length)] at hfactors
  refine ⟨_, lex_of_readable_factors hfactors (List.forall_mem_nil _) hagain.readable filename, ?_⟩
  rw [map_value_tokens, map_value_tokens, List.forall_mem_append, and_iff_left hend, ← hagain.same_iff]
  exact ⟨List.append_cancel_right, fun heq => by rw [heq]⟩

/-- A source that is scanned is scanned again from the texts of its tokens with single spaces between them. Its values come
again, in order, exactly when every float among them is digits and points: when none is infinite or has an exponent. Then the
texts of the tokens stay what they are. -/
theorem lex_rendered {source filename : String} {tokens : List Token} (h : lex source filename = .ok tokens) :
    (∃ again, lex (rendered tokens) filename = .ok again ∧
      (TokenValue.sameAll (again.map (·.value)) (tokens.map (·.value)) = true ↔ ∀ t ∈ tokens, t.value.Plain) ∧
      ((∀ t ∈ tokens, t.value.Plain) → again.map (·.value) = tokens.map (·.value) ∧ rendered again = rendered tokens)) ∧
    ∀ t ∈ tokens, t.kind = .float → (t.value.Plain ↔ t.lexeme ≠ "inf" ∧ 'e' ∉ t.lexeme.toList) := by
  have hvalues := scanned_of_lex h
  obtain ⟨again, hlex, hsame⟩ := exists_rescanned h
  rw [List.forall_mem_map] at hsame
  refine ⟨⟨again, hlex, ?_, fun hplain => ?_⟩, fun t ht hkind => ?_⟩
  · rw [sameAll_iff (scanned_of_lex hlex) hvalues, hsame]
  · have heq := hsame.mpr hplain
    exact ⟨heq, by rw [rendered_eq, rendered_eq, heq]⟩
  · have hvalue := hvalues t.value (List.mem_map_of_mem ht)
    obtain ⟨value, position⟩ := t
    cases value with
    | float x => exact (hvalue.resolve_left TokenValue.noConfusion).plain_iff
    | _ => cases hkind

/-- The texts `7` and `1.5` of `007` and `1.50` are scanned to the same values again, but the text of a large number is not: it
has an exponent. -/
theorem lex_rendered_numbers :
    (∃ again, lex "x 7 1.5 \"a b\"" "f" = .ok again ∧ again.map (·.value) =
      [.identifier "x", .integer 7, .float (.signed false 1069547520 (by decide)), .string "a b", .eof]) ∧
    ∃ again, lex "1e+20" "f" = .ok again ∧ TokenValue.sameAll (again.map (·.value))
      [.float (.signed false 1621981420 (by decide)), .eof] ≠ true := by
  have hplain : lex "x 007 1.50\n\"a b\"" "f" = .ok [⟨.identifier "x", 1⟩, ⟨.integer 7, 5⟩,
      ⟨.float (.signed false 1069547520 (by decide)), 10⟩, ⟨.string "a b", 15⟩, .eof 16] := by decide +kernel
  have hlarge : lex "100000000000000000000." "f" =
      .ok [⟨.float (.signed false 1621981420 (by decide)), 22⟩, .eof 22] := by decide +kernel
  constructor
  · obtain ⟨⟨again, hlex, -, hsame⟩, hwritten⟩ := lex_rendered hplain
    refine ⟨again, ?_, (hsame ?_).1⟩
    · have htext : rendered [⟨.identifier "x", 1⟩, ⟨.integer 7, 5⟩, ⟨.float (.signed false 1069547520 (by decide)), 10⟩,
          ⟨.string "a b", 15⟩, .eof 16] = "x 7 1.5 \"a b\"" := by decide +kernel
      rwa [htext] at hlex
    · intro t ht hkind
      exact (hwritten t ht hkind).mpr (by revert t; decide +kernel) hkind
  · obtain ⟨⟨again, hlex, hsame, -⟩, -⟩ := lex_rendered hlarge
    have htext : rendered [⟨.float (.signed false 1621981420 (by decide)), 22⟩, .eof 22] = "1e+20" := by decide +kernel
    rw [htext] at hlex
    refine ⟨again, hlex, fun hagain => ?_⟩
    have hletter := hsame.mp hagain _ List.mem_cons_self rfl 'e' (by decide +kernel)
    exact absurd hletter (by decide)

end TinyScript
