import TinyScript.Command.Run
import TinyScript.Proofs.Scan.Rescan
import TinyScript.Proofs.Text.Lines

/-!
# Printed token lists

The lines of a listing tell the values of the tokens (`listing_eq_iff`), for a line has the kind before the payload and each
payload of a kind has a text of its own. As a text the listing has a line for each token only if no string has a line feed,
for payloads are written as they are. Then the text tells the values, too (`listing_of_lex`). A string with a line feed can
look like further tokens (`listingText_forged`).

So it is on a terminal. Where the output is none, terminal sequences in strings are left out, and the text tells the rest
(`TokenValue.unstyled`). Of writing nothing more is used than that (`Command.OnTerminal`, `Command.OffTerminal`).
-/

namespace TinyScript

/-! ## Lines of tokens -/

/-- The line feeds in the payload of a value. -/
def TokenValue.lineFeeds : TokenValue → Nat
  | .string text => text.toList.count '\n'
  | _ => 0

/-- The line feeds in the payloads of tokens. -/
def lineFeeds (tokens : List Token) : Nat := (tokens.map (·.value.lineFeeds)).sum

/-- A value without the terminal sequences of its text, if it is a string. -/
def TokenValue.unstyled : TokenValue → TokenValue
  | .string text => .string (String.ofList (Text.withoutStyle text.toList))
  | value => value

/-- The text before the payload of a kind. -/
def TokenKind.heading (kind : TokenKind) : List Char := "Token: ".toList ++ kind.caption.toList

/-- What stands in a line behind the kind: the payload, and nothing for the end of the input. -/
def TokenValue.tail (value : TokenValue) : List Char :=
  if value = .eof then [] else ':' :: ' ' :: value.plainPayload.toList

/-- A line is the kind and what stands behind it. -/
theorem Token.toList_listing (t : Token) : t.listing.toList = t.value.kind.heading ++ t.value.tail := by
  unfold Token.listing TokenKind.heading TokenValue.tail
  split
  next heof =>
    rw [heof, if_pos rfl, List.append_nil]
    decide
  next hne =>
    rw [if_neg hne, String.toList_append, String.toList_append, String.toList_append]
    have hcolon : ": ".toList = [':', ' '] := by decide
    rw [hcolon, List.append_assoc]
    rfl

/-- No heading has a control character. -/
theorem TokenKind.not_mem_heading (kind : TokenKind) : '\n' ∉ kind.heading ∧ '\x1b' ∉ kind.heading := by
  cases kind <;> decide

section Told

variable {value value' : TokenValue}

/-- Values of a kind are told by their payloads, numbers if they are scanned. -/
theorem TokenValue.eq_of_plainPayload (h : value.kind ∈ numberKinds → Scanned value)
    (h' : value'.kind ∈ numberKinds → Scanned value') (hkind : value.kind = value'.kind)
    (heq : value.plainPayload = value'.plainPayload) : value = value' := by
  have hsingleton : ∀ c c' : Char, c.toString = c'.toString → c = c' := by
    intro c c' hc
    simpa using hc
  have hinteger : TokenKind.integer ∈ numberKinds := by decide
  have hfloat : TokenKind.float ∈ numberKinds := by decide
  cases value with
  | identifier name => cases value' with
    | identifier name' => exact congrArg TokenValue.identifier heq
    | _ => cases hkind
  | character mark => cases value' with
    | character mark' => exact congrArg TokenValue.character (hsingleton _ _ heq)
    | _ => cases hkind
  | string text => cases value' with
    | string text' => exact congrArg TokenValue.string heq
    | _ => cases hkind
  | char c => cases value' with
    | char c' => exact congrArg TokenValue.char (hsingleton _ _ heq)
    | _ => cases hkind
  | integer n => cases value' with
    | integer n' =>
      have hline := congrArg (fun text : String => text.toList ++ ['\n']) heq
      exact congrArg TokenValue.integer ((h hinteger).integer_line_inj (h' hinteger) hline).1
    | _ => cases hkind
  | float x => cases value' with
    | float x' =>
      have htext : x.text = x'.text := String.ofList_injective heq
      exact congrArg TokenValue.float (Single.text_injective (h hfloat).float (h' hfloat).float htext)
    | _ => cases hkind
  | boolean b => cases value' with
    | boolean b' =>
      have hinj : ∀ b b', TokenValue.booleanText b = TokenValue.booleanText b' → b = b' := by decide
      exact congrArg TokenValue.boolean (hinj b b' heq)
    | _ => cases hkind
  | eof => cases value' with
    | eof => rfl
    | _ => cases hkind

/-- A line tells the kind and what stands behind it: the kind is the word up to the colon, or up to the end of the line. -/
theorem TokenKind.eq_of_heading_append {kind kind' : TokenKind}
    (heq : kind.heading ++ value.tail = kind'.heading ++ value'.tail) : kind = kind' ∧ value.tail = value'.tail := by
  have hcaption : ∀ kind : TokenKind, ∀ c ∈ kind.caption.toList, Reading.isWordPart c = true := by
    intro kind
    apply List.all_eq_true.mp
    cases kind <;> decide
  have hinj : ∀ kind kind' : TokenKind, kind.caption.toList = kind'.caption.toList → kind = kind' := by
    intro kind kind'
    cases kind <;> cases kind' <;> decide
  have htail : ∀ value : TokenValue, ∃ mark after,
      value.tail ++ ['\n'] = mark :: after ∧ Reading.isWordPart mark = false := by
    intro value
    unfold TokenValue.tail
    split
    · exact ⟨_, _, rfl, rfl⟩
    · exact ⟨_, _, rfl, rfl⟩
  obtain ⟨mark, after, hafter, hmark⟩ := htail value
  obtain ⟨mark', after', hafter', hmark'⟩ := htail value'
  unfold heading at heq
  generalize "Token: ".toList = front at heq
  have hlines := congrArg (· ++ ['\n']) heq
  simp only [List.append_assoc, hafter, hafter'] at hlines
  obtain ⟨hsame, rfl, rfl⟩ := word_append_inj (hcaption _) (hcaption _) hmark hmark' (List.append_cancel_left hlines)
  exact ⟨hinj _ _ hsame, List.append_cancel_right (hafter.trans hafter'.symm)⟩

end Told

/-- Values are told by the lines of their tokens, numbers if they are scanned. -/
theorem Token.value_eq_of_listing {t t' : Token} (h : t.value.kind ∈ numberKinds → Scanned t.value)
    (h' : t'.value.kind ∈ numberKinds → Scanned t'.value) (heq : t.listing = t'.listing) : t.value = t'.value := by
  have hlines := congrArg String.toList heq
  rw [toList_listing, toList_listing] at hlines
  obtain ⟨hkind, htails⟩ := TokenKind.eq_of_heading_append hlines
  unfold TokenValue.tail at htails
  by_cases heof : t.value = .eof
  · by_cases heof' : t'.value = .eof
    · rw [heof, heof']
    · rw [if_pos heof, if_neg heof'] at htails
      cases htails
  · by_cases heof' : t'.value = .eof
    · rw [if_neg heof, if_pos heof'] at htails
      cases htails
    · rw [if_neg heof, if_neg heof'] at htails
      have hpayload := (List.cons.inj (List.cons.inj htails).2).2
      exact TokenValue.eq_of_plainPayload h h' hkind (String.toList_inj.mp hpayload)

/-! ## Lines of scanned tokens -/

section Line

variable {value : TokenValue} {c : Char}

/-- Payloads of numbers and words have no other characters than those of words, points and signs. -/
theorem Scanned.not_mem_plainPayload (h : Scanned value) (hkind : value.kind ∉ [.string, .character])
    (hword : Reading.isWordPart c = false) (hc : c ∉ ['.', '+', '-']) : c ∉ value.plainPayload.toList := by
  have hpart : ∀ d, Reading.isWordPart d = true → c ≠ d := by
    rintro d hd rfl
    rw [hword] at hd
    cases hd
  intro hmem
  cases value with
  | identifier name => exact hpart c (h.isWord c hmem) rfl
  | character _ | string _ => exact absurd (by simp [TokenValue.kind]) hkind
  | char _ =>
    obtain ⟨run, rest, hlexeme⟩ := h
    cases hlexeme
  | integer n =>
    obtain ⟨k, hk, rfl⟩ := h.integer
    change c ∈ (TokenValue.integer (Int32.ofNat k)).lexeme.toList at hmem
    rw [Scanned.toList_lexeme_integer hk] at hmem
    have hdigit := Nat.isDigit_of_mem_toDigits (by decide) (by decide) hmem
    exact hpart c (by simp [Reading.isWordPart, Char.isAlphanum, hdigit]) rfl
  | float x =>
    have hdigit : c.isDigit = false := by
      refine Bool.eq_false_iff.mpr fun hdigit => hpart c ?_ rfl
      simp [Reading.isWordPart, Char.isAlphanum, hdigit]
    change c ∈ (String.ofList x.text).toList at hmem
    rw [String.toList_ofList] at hmem
    refine x.not_mem_text hdigit ?_ hmem
    simp only [List.mem_cons, List.not_mem_nil, or_false, not_or] at hc ⊢
    exact ⟨hc.1, hpart 'e' rfl, hc.2.1, hc.2.2, hpart 'i' rfl, hpart 'n' rfl, hpart 'f' rfl, hpart 'a' rfl⟩
  | boolean b =>
    have hletters : ∀ d ∈ (TokenValue.booleanText b).toList, Reading.isWordPart d = true := by
      apply List.all_eq_true.mp
      cases b <;> decide
    exact hpart c (hletters c hmem) rfl
  | eof => exact h.not_eof rfl

/-- A scanned mark is no line feed. -/
theorem Scanned.ne_lineFeed {mark : Char} (h : Scanned (.character mark)) : mark ≠ '\n' := by
  rintro rfl
  exact absurd h.character.1 (by decide)

/-- What stands behind the kind has no other line feeds than those of a string. -/
theorem TokenValue.count_tail (h : value = .eof ∨ Scanned value) : value.tail.count '\n' = value.lineFeeds := by
  rcases h with rfl | h
  · rfl
  · unfold TokenValue.tail
    rw [if_neg h.not_eof, List.count_cons_of_ne (by decide), List.count_cons_of_ne (by decide)]
    cases value with
    | string text => rfl
    | character mark => exact List.count_eq_zero_of_not_mem (by simpa [plainPayload, lexeme] using h.ne_lineFeed.symm)
    | identifier _ | integer _ | float _ | boolean _ | char _ | eof =>
      exact List.count_eq_zero_of_not_mem (h.not_mem_plainPayload (by simp [kind]) rfl (by decide))

/-- The kind of a value does not change without terminal sequences. -/
theorem TokenValue.kind_unstyled (value : TokenValue) : value.unstyled.kind = value.kind := by
  cases value <;> rfl

/-- What stands behind the kind has no other terminal sequences than those of a string. -/
theorem TokenValue.withoutStyle_tail (h : value = .eof ∨ Scanned value) :
    Text.withoutStyle value.tail = value.unstyled.tail := by
  rcases h with rfl | h
  · exact Text.withoutStyle_eq_self List.not_mem_nil
  · have htail : Text.withoutStyle value.tail = ':' :: ' ' :: Text.withoutStyle value.plainPayload.toList := by
      unfold TokenValue.tail
      rw [if_neg h.not_eof, Text.withoutStyle_cons (by decide), Text.withoutStyle_cons (by decide)]
    rw [htail]
    cases value with
    | string text => simp [tail, unstyled, plainPayload]
    | character mark =>
      have hsingle : (TokenValue.character mark).plainPayload.toList = [mark] := by simp [plainPayload, lexeme]
      rw [hsingle, Text.withoutStyle_singleton, ← hsingle]
      rfl
    | identifier _ | integer _ | float _ | boolean _ | char _ | eof =>
      rw [Text.withoutStyle_eq_self (h.not_mem_plainPayload (by simp [kind]) rfl (by decide))]
      exact (if_neg h.not_eof).symm

end Line

/-- A token without the terminal sequences of its text, if it is a string. -/
def Token.unstyled (t : Token) : Token := { t with value := t.value.unstyled }

section Lines

variable {t : Token}

/-- The line of a scanned token has no other line feeds than those of a string. -/
theorem Token.count_listing (h : t.value = .eof ∨ Scanned t.value) :
    t.listing.toList.count '\n' = t.value.lineFeeds := by
  rw [toList_listing, List.count_append, List.count_eq_zero_of_not_mem t.value.kind.not_mem_heading.1, Nat.zero_add,
    TokenValue.count_tail h]

/-- Without terminal sequences the line of a scanned token is that of the token without them. -/
theorem Token.withoutStyle_listing (h : t.value = .eof ∨ Scanned t.value) :
    Text.withoutStyle t.listing.toList = t.unstyled.listing.toList := by
  rw [toList_listing, toList_listing, Text.withoutStyle_append t.value.kind.not_mem_heading.2,
    TokenValue.withoutStyle_tail h]
  unfold Token.unstyled
  rw [TokenValue.kind_unstyled]

end Lines

/-- The numbers among tokens are scanned. -/
def ScannedNumbers (tokens : List Token) : Prop := ∀ t ∈ tokens, t.value.kind ∈ numberKinds → Scanned t.value

/-- Lists of tokens are told by their listings, if their numbers are scanned. -/
theorem listing_eq_iff {tokens tokens' : List Token} (h : ScannedNumbers tokens) (h' : ScannedNumbers tokens') :
    listing tokens = listing tokens' ↔ tokens.map (·.value) = tokens'.map (·.value) := by
  constructor
  · intro heq
    induction tokens generalizing tokens' with
    | nil =>
      have hnil : tokens' = [] := List.map_eq_nil_iff.mp heq.symm
      rw [hnil]
    | cons t tokens ih =>
      cases tokens' with
      | nil => cases heq
      | cons t' tokens' =>
        obtain ⟨hline, hlines⟩ := List.cons.inj heq
        obtain ⟨hfirst, hothers⟩ := List.forall_mem_cons.mp h
        obtain ⟨hfirst', hothers'⟩ := List.forall_mem_cons.mp h'
        rw [List.map_cons, List.map_cons, Token.value_eq_of_listing hfirst hfirst' hline, ih hothers hothers' hlines]
  · intro heq
    have hvalues : ∀ tokens : List Token,
        listing tokens = (tokens.map (·.value)).map fun value => Token.listing ⟨value, 0⟩ := by
      intro tokens
      rw [List.map_map]
      rfl
    rw [hvalues, heq, ← hvalues]

/-! ## Texts -/

/-- A listing as a text, a line feed behind each line. -/
def listingText (tokens : List Token) : String := String.join ((listing tokens).map (· ++ "\n"))

/-- A listing as it arrives at an output, line after line. -/
def writtenListing (write : String → String) (tokens : List Token) : String := String.join ((listing tokens).map write)

theorem toList_listingText (tokens : List Token) : (listingText tokens).toList = Text.ended (listing tokens) := by
  have hend : "\n".toList = ['\n'] := by decide
  rw [listingText, String.toList_join, List.flatMap_map]
  simp only [String.toList_append, hend]
  rfl

section Scanned

variable {tokens tokens' : List Token}

/-- The text of scanned tokens has a line feed for each token, and those of the strings. -/
theorem count_listingText (h : ∀ t ∈ tokens, t.value = .eof ∨ Scanned t.value) :
    (listingText tokens).toList.count '\n' = tokens.length + lineFeeds tokens := by
  rw [toList_listingText]
  induction tokens with
  | nil => rfl
  | cons t tokens ih =>
    obtain ⟨hfirst, hothers⟩ := List.forall_mem_cons.mp h
    have hrest : Text.ended (listing (t :: tokens)) = t.listing.toList ++ ['\n'] ++ Text.ended (listing tokens) := rfl
    have hsum : lineFeeds (t :: tokens) = t.value.lineFeeds + lineFeeds tokens := rfl
    rw [hrest, List.count_append, List.count_append, Token.count_listing hfirst, ih hothers, hsum, List.length_cons,
      List.count_singleton_self]
    omega

/-- Without line feeds in strings no line has one. -/
theorem lineFeed_not_mem_of_mem_listing (h : ∀ t ∈ tokens, t.value = .eof ∨ Scanned t.value)
    (hnone : lineFeeds tokens = 0) : ∀ line ∈ listing tokens, '\n' ∉ line.toList := by
  refine List.forall_mem_map.mpr fun t ht => List.count_eq_zero.mp ?_
  rw [Token.count_listing (h t ht)]
  exact List.sum_eq_zero_iff_forall_eq_nat.mp hnone _ (List.mem_map_of_mem ht)

/-- On a terminal the text arrives. -/
theorem writtenListing_of_onTerminal {write : String → String} (hwrite : Command.OnTerminal write) (tokens : List Token) :
    writtenListing write tokens = listingText tokens :=
  congrArg String.join (List.map_congr_left fun line _ => hwrite line)

/-- Where the output is no terminal, the text of the tokens without terminal sequences arrives. -/
theorem writtenListing_of_offTerminal {write : String → String} (hwrite : Command.OffTerminal write)
    (h : ∀ t ∈ tokens, t.value = .eof ∨ Scanned t.value) :
    writtenListing write tokens = listingText (tokens.map Token.unstyled) := by
  unfold writtenListing listingText listing
  rw [List.map_map, List.map_map, List.map_map]
  refine congrArg String.join (List.map_congr_left fun t ht => ?_)
  change write t.listing = t.unstyled.listing ++ "\n"
  rw [hwrite, Token.withoutStyle_listing (h t ht), String.ofList_toList]

/-- Texts of lists of tokens are equal exactly if the values are, where no line has a line feed of its own. -/
theorem listingText_eq_iff (h : ScannedNumbers tokens) (h' : ScannedNumbers tokens')
    (hline : ∀ line ∈ listing tokens, '\n' ∉ line.toList) (hline' : ∀ line ∈ listing tokens', '\n' ∉ line.toList) :
    listingText tokens = listingText tokens' ↔ tokens.map (·.value) = tokens'.map (·.value) := by
  rw [← listing_eq_iff h h', ← String.toList_inj, toList_listingText, toList_listingText]
  exact ⟨Text.ended_injective hline hline', congrArg Text.ended⟩

/-- A number of a source is scanned, and it has no terminal sequences. -/
theorem scanned_of_number {value : TokenValue} (h : value = .eof ∨ Scanned value) (hkind : value.kind ∈ numberKinds) :
    Scanned value ∧ value.unstyled = value := by
  have hscanned : Scanned value := by
    refine h.resolve_left ?_
    rintro rfl
    exact absurd hkind (by decide)
  cases value with
  | string text => simp [TokenValue.kind, numberKinds] at hkind
  | _ => exact ⟨hscanned, rfl⟩

theorem scannedNumbers (h : ∀ t ∈ tokens, t.value = .eof ∨ Scanned t.value) : ScannedNumbers tokens :=
  fun t ht hkind => (scanned_of_number (h t ht) hkind).1

/-- Without terminal sequences, too, the numbers are scanned. -/
theorem scannedNumbers_unstyled (h : ∀ t ∈ tokens, t.value = .eof ∨ Scanned t.value) :
    ScannedNumbers (tokens.map Token.unstyled) := by
  refine List.forall_mem_map.mpr fun t ht hkind => ?_
  unfold Token.unstyled at hkind ⊢
  rw [TokenValue.kind_unstyled] at hkind
  obtain ⟨hscanned, hsame⟩ := scanned_of_number (h t ht) hkind
  rwa [hsame]

/-- Without terminal sequences, too, no line has a line feed. -/
theorem lineFeed_not_mem_unstyled (h : ∀ t ∈ tokens, t.value = .eof ∨ Scanned t.value)
    (hnone : lineFeeds tokens = 0) : ∀ line ∈ listing (tokens.map Token.unstyled), '\n' ∉ line.toList := by
  refine List.forall_mem_map.mpr (List.forall_mem_map.mpr fun t ht hmem => ?_)
  rw [← Token.withoutStyle_listing (h t ht)] at hmem
  have hline := lineFeed_not_mem_of_mem_listing h hnone t.listing (List.mem_map_of_mem ht)
  exact hline ((Text.withoutStyle_sublist _).subset hmem)

end Scanned

/-- Where a source is scanned and no tree is asked for, the command prints the listing of its tokens. -/
theorem Command.stdout_process (c : Console) {source name : String} {tokens : List Token} (h : lex source name = .ok tokens) :
    (process c {} source name).stdout = writtenListing c.out tokens := by
  have hempty : writtenListing c.out tokens ++ "" = writtenListing c.out tokens := String.append_empty
  rw [process, lexSource_of_ok h]
  dsimp only
  cases Slice.ofTokens? tokens with
  | error reason => rfl
  | ok slice =>
    dsimp only
    cases slice.parse with
    | error e => rfl
    | ok nodes => exact hempty

/-- The text of the tokens of a source has a line feed for each token and those of its strings. Without line feeds in strings
it splits into the lines of the tokens, and the values of the tokens can be told from it. It is what arrives at a terminal; from
what arrives elsewhere the values can be told up to terminal sequences. The lines by themselves always tell the values. -/
theorem listingText_of_lex {source source' filename filename' : String} {tokens tokens' : List Token}
    (h : lex source filename = .ok tokens) (h' : lex source' filename' = .ok tokens') :
    (listingText tokens).toList.count '\n' = tokens.length + lineFeeds tokens ∧
      (lineFeeds tokens = 0 → (listingText tokens).toList.splitOn '\n' = (listing tokens).map String.toList ++ [[]]) ∧
      (listing tokens = listing tokens' ↔ tokens.map (·.value) = tokens'.map (·.value)) ∧
      (lineFeeds tokens = 0 → lineFeeds tokens' = 0 →
        (listingText tokens = listingText tokens' ↔ tokens.map (·.value) = tokens'.map (·.value)) ∧
        ∀ write, Command.OffTerminal write → (writtenListing write tokens = writtenListing write tokens' ↔
          tokens.map (·.value.unstyled) = tokens'.map (·.value.unstyled))) ∧
      ∀ write, Command.OnTerminal write → writtenListing write tokens = listingText tokens := by
  have hscanned := List.forall_mem_map.mp (scanned_of_lex h)
  have hscanned' := List.forall_mem_map.mp (scanned_of_lex h')
  have hlisting := listing_eq_iff (scannedNumbers hscanned) (scannedNumbers hscanned')
  refine ⟨count_listingText hscanned, fun hnone => ?_, hlisting, fun hnone hnone' => ⟨?_, fun write hwrite => ?_⟩,
    fun write hwrite => writtenListing_of_onTerminal hwrite tokens⟩
  · rw [toList_listingText]
    exact Text.splitOn_ended (lineFeed_not_mem_of_mem_listing hscanned hnone)
  · exact listingText_eq_iff (scannedNumbers hscanned) (scannedNumbers hscanned')
      (lineFeed_not_mem_of_mem_listing hscanned hnone) (lineFeed_not_mem_of_mem_listing hscanned' hnone')
  · have hprinted := listingText_eq_iff (scannedNumbers_unstyled hscanned) (scannedNumbers_unstyled hscanned')
      (lineFeed_not_mem_unstyled hscanned hnone) (lineFeed_not_mem_unstyled hscanned' hnone')
    rw [List.map_map, List.map_map] at hprinted
    rw [writtenListing_of_offTerminal hwrite hscanned, writtenListing_of_offTerminal hwrite hscanned', hprinted]
    rfl

/-- Two sources of which one has a name where the other has a string are told, on a terminal and elsewhere. -/
theorem listingText_name_ne_string :
    let named : List Token := [⟨.identifier "x", 1⟩, ⟨.integer 7, 3⟩, .eof 3]
    let quoted : List Token := [⟨.string "x", 2⟩, ⟨.integer 7, 5⟩, .eof 5]
    lex "x 7" "f" = .ok named ∧ lex "\"x\" 7" "f" = .ok quoted ∧ listingText named ≠ listingText quoted ∧
      Command.OnTerminal (· ++ "\n") ∧ writtenListing (· ++ "\n") named = listingText named ∧
      Command.OffTerminal Command.printed ∧
      writtenListing Command.printed named ≠ writtenListing Command.printed quoted := by
  intro named quoted
  have hnamed : lex "x 7" "f" = .ok named := by decide +kernel
  have hquoted : lex "\"x\" 7" "f" = .ok quoted := by decide +kernel
  obtain ⟨-, -, -, htold, hterminal⟩ := listingText_of_lex hnamed hquoted
  obtain ⟨htext, hwritten⟩ := htold (by decide) (by decide)
  refine ⟨hnamed, hquoted, fun heq => ?_, fun _ => rfl, hterminal _ fun _ => rfl, Command.offTerminal_printed,
    fun heq => ?_⟩
  · exact absurd (htext.mp heq) (by decide)
  · cases (hwritten Command.printed Command.offTerminal_printed).mp heq

/-- A string with a line feed is listed like a string and a name, and the command prints the same for both, on a terminal and
elsewhere. Its source has two tokens, and the text has three lines. -/
theorem listingText_forged :
    let forged : List Token := [⟨.string "a\nToken: IDENTIFIER: x", 23⟩, .eof 24]
    let plain : List Token := [⟨.string "a", 2⟩, ⟨.identifier "x", 5⟩, .eof 5]
    lex "\"a\nToken: IDENTIFIER: x\"" "f" = .ok forged ∧ lex "\"a\" x" "f" = .ok plain ∧
      forged.map (·.value) ≠ plain.map (·.value) ∧ listingText forged = listingText plain ∧
      (∀ c : Command.Console, Command.OnTerminal c.out ∨ Command.OffTerminal c.out →
        (Command.process c {} "\"a\nToken: IDENTIFIER: x\"" "f").stdout = (Command.process c {} "\"a\" x" "f").stdout) ∧
      (listingText forged).toList.count '\n' = 3 := by
  intro forged plain
  have hforged : lex "\"a\nToken: IDENTIFIER: x\"" "f" = .ok forged := by decide +kernel
  have hplain : lex "\"a\" x" "f" = .ok plain := by decide +kernel
  have htext : listingText forged = listingText plain := by decide +kernel
  have hunstyled : listingText (forged.map Token.unstyled) = listingText (plain.map Token.unstyled) := by decide +kernel
  refine ⟨hforged, hplain, by decide, htext, fun c hc => ?_, by decide +kernel⟩
  rw [Command.stdout_process c hforged, Command.stdout_process c hplain]
  rcases hc with hon | hoff
  · rw [writtenListing_of_onTerminal hon, writtenListing_of_onTerminal hon, htext]
  · rw [writtenListing_of_offTerminal hoff (List.forall_mem_map.mp (scanned_of_lex hforged)),
      writtenListing_of_offTerminal hoff (List.forall_mem_map.mp (scanned_of_lex hplain)), hunstyled]

end TinyScript
