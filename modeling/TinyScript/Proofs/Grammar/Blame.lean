import TinyScript.Proofs.Grammar.Contract
import TinyScript.Proofs.Grammar.Exactness
import TinyScript.Proofs.Scan.Tokenization

/-!
# What a parse fails at

A parse that fails is a parse error at a token, and the token is one of the list or the end of a slice that one of them
closes (`parseTokens_reported`). Everything that a parse passes from rule to rule on the way is cut out of the list:
`Slice.PartOf` is what such slices have in common, and on them every rule fails with an error of the list (`Slice.Blames`).
-/

namespace TinyScript

/-- The marks that close a slice: the brackets of the groups in programs, and the semicolon of a value. -/
def closingMarks : List Char := [')', ']', '\x7d', ';']

/-- The token closes a slice. -/
def Token.Closes (t : Token) : Prop := ∃ mark ∈ closingMarks, t.isMark mark = true

/-- The report of the error is about a token: at its place, and with a code that says if the input ends there. -/
structure ParseError.ReportedAt (e : ParseError) (found : Token) : Prop where
  kind : e.kind = .unexpectedToken ∨ e.kind = .unterminatedBracketGroup
  token : e.token? = some found
  position : e.position = found.position
  code : e.code = "P001" ↔ found.isEof = false
  endCode : found.isEof = true → e.code = "P010" ∨ e.code = "P003" ∨ e.code = "P004"
  groupCode : e.code = "P004" ↔ e.kind = .unterminatedBracketGroup

namespace Slice

/-- The token is one of the slice with its end, or the end of a slice that one of its tokens closes. -/
def Shows (s : Slice) (t : Token) : Prop := t ∈ s.toList ∨ ∃ c ∈ s.tokens, c.Closes ∧ t = .eof c.position

/-- The error is one that reading programs has, and at a token that the slice shows. -/
def Blames (s : Slice) : ParseError → Prop
  | .unexpected _ found => s.Shows found
  | .missingSemicolon found | .unclosed _ found => s.Shows found ∧ found.isEof = true
  | .unrecognized _ _ => False

/-- The slice is cut out of another one, and that one shows its end. -/
structure PartOf (s whole : Slice) : Prop where
  subset : s.tokens ⊆ whole.tokens
  stop : whole.Shows (.eof s.stop)

/-- An error that a slice is to blame for is reported at a token that it shows. -/
theorem Blames.exists_reportedAt {s : Slice} {e : ParseError} (h : s.Blames e) :
    ∃ found, e.ReportedAt found ∧ s.Shows found := by
  cases e with
  | unexpected what found =>
    refine ⟨found, ⟨Or.inl rfl, rfl, rfl, ?_, ?_, ?_⟩, h⟩
    · cases hend : found.isEof <;> simp [ParseError.code, hend]
    · intro hend
      simp [ParseError.code, hend]
    · cases hend : found.isEof <;> simp [ParseError.code, ParseError.kind, hend]
  | missingSemicolon found =>
    exact ⟨found, ⟨Or.inl rfl, rfl, rfl, by simp [ParseError.code, h.2], fun _ => Or.inr (Or.inl rfl),
      by simp [ParseError.code, ParseError.kind]⟩, h.1⟩
  | unclosed opening found =>
    exact ⟨found, ⟨Or.inr rfl, rfl, rfl, by simp [ParseError.code, h.2], fun _ => Or.inr (Or.inr rfl),
      by simp [ParseError.code, ParseError.kind]⟩, h.1⟩
  | unrecognized opening position => exact h.elim

/-- A token ahead is one of the slice with its end. -/
theorem lookahead_mem_toList (n : Nat) (s : Slice) : s.lookahead n ∈ s.toList := by
  unfold lookahead toList
  cases hdrop : s.tokens.drop n with
  | nil => simp
  | cons t rest =>
    have hmem : t ∈ s.tokens := List.mem_of_mem_drop (i := n) (by rw [hdrop]; exact List.mem_cons_self)
    exact List.mem_append_left _ hmem

namespace PartOf

variable {s t inner whole : Slice}

theorem refl (s : Slice) : s.PartOf s := ⟨List.Subset.refl _, Or.inl (by simp [toList])⟩

/-- What a part shows, the whole does. -/
theorem shows (h : s.PartOf whole) {t : Token} (ht : s.Shows t) : whole.Shows t := by
  rcases ht with ht | ⟨c, hc, hcloses, rfl⟩
  · rcases List.mem_append.mp ht with ht | ht
    · exact Or.inl (List.mem_append_left _ (h.subset ht))
    · obtain rfl := List.mem_singleton.mp ht
      exact h.stop
  · exact Or.inr ⟨c, h.subset hc, hcloses, rfl⟩

/-- The rest of a part is one. -/
theorem of_append (h : s.PartOf whole) {front : List Token} (htokens : s.tokens = front ++ t.tokens)
    (hstop : t.stop = s.stop) : t.PartOf whole := by
  refine ⟨fun x hx => h.subset ?_, by rw [hstop]; exact h.stop⟩
  rw [htokens]
  exact List.mem_append_right _ hx

theorem advance (h : s.PartOf whole) : s.advance.PartOf whole :=
  ⟨fun _ hx => h.subset (List.mem_of_mem_tail hx), h.stop⟩

/-- Tokens of a part before one that closes a slice are a part that ends there. -/
theorem of_closed (h : s.PartOf whole) {c : Token} (hsub : inner.tokens ⊆ s.tokens) (hc : c ∈ s.tokens)
    (hcloses : c.Closes) (hstop : inner.stop = c.position) : inner.PartOf whole :=
  ⟨fun _ hx => h.subset (hsub hx), Or.inr ⟨c, h.subset hc, hcloses, by rw [hstop]⟩⟩

/-- An unexpected token ahead in a part is the whole's to blame. -/
theorem blames_lookahead (h : s.PartOf whole) (what : String) (n : Nat) :
    whole.Blames (.unexpected what (s.lookahead n)) :=
  h.shows (Or.inl (s.lookahead_mem_toList n))

end PartOf

end Slice

namespace Rule

/-! ## Rules on parts of a slice -/

section Confined

variable {α : Type} {whole : Slice}

/-- On parts of a slice the rule leaves parts of it, gives good results, and fails with errors of the slice. -/
def Confined (whole : Slice) (r : Rule α) (good : α → Prop) : Prop :=
  Preserves (·.PartOf whole) whole.Blames r good

theorem confined_skip : Confined whole skip fun _ => True :=
  keeps_skip fun _ hs => ⟨hs.advance, True.intro⟩

theorem confined_expect (mark : Char) (what : String) : Confined whole (expect mark what) fun _ => True :=
  keeps_expectToken (fun _ hs _ => ⟨hs.advance, True.intro⟩) fun _ hs => hs.blames_lookahead what 0

theorem confined_identifier (what : String) : Confined whole (identifier what) fun _ => True :=
  keeps_identifier (fun _ _ hs _ => ⟨hs.advance, True.intro⟩) fun _ hs => hs.blames_lookahead what 0

/-- A slice that was cut out is a part, and so is the token that closed it. -/
def CutFrom (whole : Slice) (mark : Char) (inner : Slice) : Prop :=
  inner.PartOf whole ∧ inner.closer mark ∈ whole.tokens

/-- A slice that ends before a mark is closed by that mark. -/
theorem closer_eq {inner : Slice} {mark : Char} {c : Token} (hc : c.isMark mark = true) (hstop : inner.stop = c.position) :
    inner.closer mark = c := by
  obtain ⟨value, position⟩ := c
  obtain rfl : value = .character mark := (Token.isMark_iff _ _).mp hc
  rw [Slice.closer, hstop]

/-- Tokens of a part up to a mark that closes them are cut out, and what follows the mark is left. -/
theorem cutFrom_of_append {s inner t : Slice} {mark : Char} {c : Token} (hs : s.PartOf whole) (hmark : mark ∈ closingMarks)
    (hc : c.isMark mark = true) (htokens : s.tokens = inner.tokens ++ c :: t.tokens) (hstop : inner.stop = c.position)
    (hrest : t.stop = s.stop) : t.PartOf whole ∧ CutFrom whole mark inner := by
  have hmem : c ∈ s.tokens := by
    rw [htokens]
    simp
  have hsub : inner.tokens ⊆ s.tokens := by
    intro x hx
    rw [htokens]
    exact List.mem_append_left _ hx
  have happend : s.tokens = (inner.tokens ++ [c]) ++ t.tokens := by
    rw [htokens]
    simp
  refine ⟨hs.of_append happend hrest, hs.of_closed hsub hmem ⟨_, hmark, hc⟩ hstop, ?_⟩
  rw [closer_eq hc hstop]
  exact hs.subset hmem

theorem confined_group {b : Bracket} (hb : b.closing ∈ closingMarks) :
    Confined whole (group b) (CutFrom whole b.closing) := by
  intro s hs
  cases hg : group b s with
  | ok inner t =>
    obtain ⟨c, hc, htokens, hstop, hrest⟩ := group_eq_ok hg
    exact cutFrom_of_append hs hb hc htokens hstop hrest
  | error e t =>
    obtain ⟨found, rfl, hfound, hend⟩ := group_eq_error hg
    exact ⟨hs.shows (Or.inl hfound), hend⟩

theorem confined_value : Confined whole value (CutFrom whole ';') := by
  intro s hs
  cases hv : value s with
  | ok inner t =>
    obtain ⟨c, hc, htokens, hstop, hrest⟩ := value_eq_ok hv
    exact cutFrom_of_append hs.advance (by decide) hc htokens hstop hrest
  | error e t =>
    obtain ⟨found, rfl, hfound, hend⟩ := value_eq_error hv
    exact ⟨hs.shows (Or.inl hfound), hend⟩

theorem confined_enclosed {b : Bracket} (hb : b.closing ∈ closingMarks) (what : String) :
    Confined whole (enclosed b what) (CutFrom whole b.closing) :=
  (confined_expect _ _).bind fun _ _ => confined_group hb

end Confined

end Rule

/-! ## Readings of parts of a slice -/

namespace Rule

/-- A group that is cut out of a part as a whole operand is a part. -/
theorem confined_operandGroup (whole : Slice) {b : Bracket} (hb : b.closing ∈ closingMarks) {f : Slice → OperandCut}
    (hf : ∀ inner, (f inner).inner? = some inner) :
    Confined whole (f <$> group b) fun cut => ∀ inner ∈ cut.inner?, inner.PartOf whole :=
  Keeps.map_slice ((confined_group hb).imp (fun _ hs => hs) fun _ _ h => ⟨h.1, h.2.1⟩) hf

end Rule

/-- The readers of operands are confined to the slice whose parts they read. -/
theorem operandContract_partOf (whole : Slice) : OperandContract (·.PartOf whole) whole.Blames where
  cut := by
    rintro s ⟨hs, hend⟩
    have hway := Rule.operandWay hend
    generalize Rule.operandCut s = outcome at hway ⊢
    cases hway with
    | call => exact Rule.confined_operandGroup whole (by decide) (fun _ => rfl) _ hs.advance.advance
    | round => exact Rule.confined_operandGroup whole (by decide) (fun _ => rfl) _ hs.advance
    | square => exact Rule.confined_operandGroup whole (by decide) (fun _ => rfl) _ hs.advance
    | refused => exact hs.blames_lookahead "an operand" 0
    | leaf => exact ⟨hs.advance, fun inner hinner => by cases hinner⟩
  comma _ hs _ := hs.advance
  argument _ hs := hs.blames_lookahead _ 0

namespace Rule

variable {whole : Slice}

theorem confined_parameter : Confined whole parameter fun _ => True :=
  (confined_identifier _).bind fun _ _ => (confined_identifier _).bind fun _ _ => preserves_pure True.intro

/-- A statement that is cut out of a part has a part for its body. -/
def BodyPart (whole : Slice) (cut : StatementCut) : Prop := ∀ body ∈ cut.body?, body.PartOf whole

/-- The body of a statement is cut out of a part as a part. -/
theorem confined_body {f : Slice → StatementCut} (hf : ∀ body, (f body).body? = some body) (what : String) :
    Confined whole (f <$> enclosed .curly what) (BodyPart whole) :=
  Keeps.map_slice ((confined_enclosed (by decide) what).imp (fun _ hs => hs) fun _ _ h => ⟨h.1, h.2.1⟩) hf

theorem confined_conditionalCut : Confined whole conditionalCut (BodyPart whole) := by
  refine confined_skip.bind fun _ _ => ?_
  refine (confined_enclosed (by decide) _).bind fun inner hinner => ?_
  refine (preserves_within fun _ _ he => (operandContract_partOf whole).expression_error hinner.1 he).bind fun _ _ => ?_
  refine Keeps.ite (fun _ => keeps_throw fun _ _ => ?_) fun _ => confined_body (fun _ => rfl) _
  exact Or.inl (List.mem_append_left _ hinner.2)

theorem confined_functionCut (type name : String) : Confined whole (functionCut type name) (BodyPart whole) := by
  refine confined_skip.bind fun _ _ => confined_skip.bind fun _ _ => ?_
  refine (confined_enclosed (by decide) _).bind fun inner hinner => ?_
  refine (preserves_within fun e t he => ?_).bind fun _ _ => confined_body (fun _ => rfl) _
  exact Slice.parameterDeclarations_error confined_parameter.rest (fun what => (confined_expect ',' what).rest) hinner.1 he

theorem confined_assigned : Confined whole assigned fun _ => True := by
  refine confined_value.bind fun inner hinner => ?_
  refine Keeps.ite (fun _ => keeps_throw fun _ _ => ?_) fun _ => ?_
  · exact Or.inl (List.mem_append_left _ hinner.2)
  · exact preserves_within fun _ _ he => (operandContract_partOf whole).expression_error hinner.1 he

theorem confined_declaration (type name : String) (token : Token) :
    Confined whole (declaration type name token) (BodyPart whole) := by
  refine confined_skip.bind fun _ _ => confined_skip.bind fun _ _ => ?_
  exact confined_assigned.bind fun _ _ => preserves_pure fun _ hbody => by cases hbody

theorem confined_reassignment (name : String) (token : Token) :
    Confined whole (reassignment name token) (BodyPart whole) := by
  refine confined_skip.bind fun _ _ => ?_
  exact confined_assigned.bind fun _ _ => preserves_pure fun _ hbody => by cases hbody

theorem confined_callStatement (name : String) : Confined whole (callStatement name) (BodyPart whole) := by
  refine confined_skip.bind fun _ _ => confined_skip.bind fun _ _ => ?_
  refine (confined_group (by decide)).bind fun inner hinner => ?_
  refine (preserves_within fun _ _ he => (operandContract_partOf whole).arguments_error hinner.1 he).bind fun _ _ => ?_
  exact (confined_expect _ _).bind fun _ _ => preserves_pure fun _ hbody => by cases hbody

end Rule

/-- Programs are confined to the slice whose parts they read. -/
theorem statementContract_partOf (whole : Slice) : StatementContract (·.PartOf whole) whole.Blames := by
  rintro s ⟨hs, -⟩
  have hway := Rule.statementWay s
  generalize Rule.statementCut s = outcome at hway ⊢
  cases hway with
  | conditional => exact Rule.confined_conditionalCut _ hs
  | function => exact Rule.confined_functionCut _ _ _ hs
  | declaration => exact Rule.confined_declaration _ _ _ _ hs
  | reassignment => exact Rule.confined_reassignment _ _ _ hs
  | call => exact Rule.confined_callStatement _ _ hs
  | refused _ what n => exact hs.blames_lookahead what n

/-- A slice that is not a program is to blame for the error. -/
theorem Slice.blames_of_parse {s : Slice} {e : ParseError} (h : s.parse = .error e) : s.Blames e := by
  obtain ⟨t, hprogram⟩ := program_of_parse_error h
  exact (statementContract_partOf s).program_error (PartOf.refl s) hprogram

/-! ## Token lists and sources -/

/-- What the checks on the way through a slice come to, whatever slice it is: it has its end, a conditional that is cut from
it has its guard, and an assignment that is cut from it has a type exactly if it is the first one of its variable. -/
structure Slice.Unrefused (s : Slice) : Prop where
  ended : ofTokens? s.toList = .ok s
  conditional : ∀ condition inner rest, Rule.statementCut s = .ok (.conditional condition inner) rest →
    ∀ body, Node.conditional? condition body = .ok (.conditional condition body)
  assign : ∀ target value firstTime type rest,
    Rule.statementCut s = .ok (.whole (.assign target value firstTime type)) rest →
      Node.assign? target value firstTime type = .ok (.assign target value firstTime type)

theorem Slice.unrefused (s : Slice) : s.Unrefused where
  ended := by
    simp [ofTokens?, toList]
    rfl
  conditional condition inner rest h body := by
    obtain ⟨front, -, hspells⟩ := Rule.statementCut_eq_ok h
    cases hspells with
    | conditional _ _ _ hne => simp [Node.conditional?, hne]
  assign target value firstTime type rest h := by
    obtain ⟨front, -, hspells⟩ := Rule.statementCut_eq_ok h
    cases hspells with
    | whole hstatement =>
      cases hstatement with
      | declaration => rfl
      | reassignment => rfl

/-- The parse of a new session is that of its tokens. -/
theorem Session.parse_ofTokens? {tokens : List Token} {session : Session} (h : ofTokens? tokens = .ok session) :
    session.parse.1 = parseTokens tokens := by
  unfold ofTokens? at h
  unfold parseTokens
  cases hslice : Slice.ofTokens? tokens with
  | error reason =>
    rw [hslice] at h
    cases h
  | ok slice =>
    rw [hslice] at h
    cases h
    rfl

/-- An ended token list is parsed as nodes, or the parse error is reported at a token of the list or at the end of a slice
that one of its tokens closes. -/
theorem exists_reported {tokens : List Token} (hended : ∃ last ∈ tokens.getLast?, last.isEof = true) :
    (∃ nodes, parseTokens tokens = .ok nodes) ∨
      ∃ e found, parseTokens tokens = .error (.grammatical e) ∧ e.ReportedAt found ∧
        (found ∈ tokens ∨ ∃ c ∈ tokens, c.Closes ∧ found = .eof c.position) := by
  obtain ⟨last, hlast, heof⟩ := hended
  obtain ⟨front, rfl⟩ := List.getLast?_eq_some_iff.mp hlast
  have hend : last = .eof last.position := by
    obtain ⟨value, position⟩ := last
    obtain rfl : value = .eof := (Token.isEof_iff _).mp heof
    rfl
  rw [parseTokens_append_eof front heof]
  cases hresult : Slice.parse ⟨front, last.position⟩ with
  | ok nodes => exact Or.inl ⟨nodes, rfl⟩
  | error e =>
    obtain ⟨found, hreported, hshows⟩ := (Slice.blames_of_parse hresult).exists_reportedAt
    refine Or.inr ⟨e, found, rfl, hreported, ?_⟩
    rw [hend]
    rcases hshows with hfound | ⟨c, hc, hcloses, hfound⟩
    · exact Or.inl hfound
    · exact Or.inr ⟨c, List.mem_append_left _ hc, hcloses, hfound⟩

/-- The error of a source that is scanned has its place in the source, the end included. -/
theorem position_bounds_of_parseSource {source filename : String} {e : ParseError}
    (h : parseSource source filename = .error (.grammatical e)) : 0 ≤ e.position ∧ e.position ≤ source.length := by
  cases hlex : lex source filename with
  | error fault =>
    rw [parseSource_of_error hlex] at h
    cases fault <;> cases h
  | ok tokens =>
    have hparse : parseTokens tokens = .error (.grammatical e) := (parseSource_of_ok (lexSource_of_ok hlex)).symm.trans h
    have hbounds := position_bounds_of_lex hlex
    obtain ⟨pieces, blanks, -, -, rfl⟩ := exists_factors_of_lex hlex
    have hended : ∃ last ∈ (placed 0 pieces ++ [Token.eof source.length]).getLast?, last.isEof = true :=
      ⟨.eof source.length, by simp, rfl⟩
    rcases exists_reported hended with ⟨nodes, hnodes⟩ | ⟨e', found, he', hreported, hfound⟩
    · rw [hparse] at hnodes
      cases hnodes
    · rw [hparse] at he'
      cases he'
      rw [hreported.position]
      rcases hfound with hfound | ⟨c, hc, -, rfl⟩
      · exact hbounds found hfound
      · exact hbounds c hc

/-- An ended token list is parsed as nodes or fails with a parse error that is reported at a token. The token is one of the
list, or the end of a slice that a bracket or a semicolon of the list closes; the error of a source has its place in that
source. No other failure occurs: the checks on the way through a slice are not refused, a token ahead is there, each bracket
that groups are asked for is a bracket, and a new session parses. -/
theorem parseTokens_reported :
    (∀ tokens : List Token, (∃ last ∈ tokens.getLast?, last.isEof = true) →
      (∃ nodes, parseTokens tokens = .ok nodes) ∨
        ∃ e found, parseTokens tokens = .error (.grammatical e) ∧ e.ReportedAt found ∧
          (found ∈ tokens ∨ ∃ c ∈ tokens, c.Closes ∧ found = .eof c.position)) ∧
    (∀ source filename e, parseSource source filename = .error (.grammatical e) →
      0 ≤ e.position ∧ e.position ≤ source.length) ∧
    (∀ s : Slice, s.Unrefused) ∧
    (∀ (tape : Tape) (n : Nat), tape.peek n = .ok (tape.ahead.lookahead n)) ∧
    (∀ b : Bracket, Rule.groupOf b.opening.toString = Rule.group b) ∧
    (∀ tokens session, Session.ofTokens? tokens = .ok session → session.parse.1 = parseTokens tokens) := by
  refine ⟨fun tokens hended => exists_reported hended, fun source filename e h => position_bounds_of_parseSource h,
    Slice.unrefused, Tape.peek_natCast, fun b => ?_, fun tokens session h => Session.parse_ofTokens? h⟩
  funext s
  rw [Rule.groupOf, Bracket.ofOpening?_opening]

/-- The tokens of `x=(;`, a group that the end of a value cuts off. -/
def openValue : List Token :=
  [⟨.identifier "x", 1⟩, ⟨.character '=', 1⟩, ⟨.character '(', 2⟩, ⟨.character ';', 3⟩, .eof 4]

/-- The group is not closed at the end of the value, which is where the semicolon stands. -/
theorem parseTokens_openValue : (∃ last ∈ openValue.getLast?, last.isEof = true) ∧
    parseTokens openValue = .error (.grammatical (.unclosed "(" (.eof 3))) ∧
      ∃ c ∈ openValue, c.Closes ∧ Token.eof 3 = .eof c.position := by
  have hexpr : Slice.expression ⟨[⟨.character '(', 2⟩], 3⟩ = .error (.unclosed "(" (.eof 3)) ⟨[], 3⟩ :=
    Slice.expression_of_cut_error rfl rfl
  have hequals : Token.isMark ⟨.character '=', 1⟩ '=' = true := rfl
  have hsemi : Token.isMark ⟨.character ';', 3⟩ ';' = true := rfl
  have hcut : Rule.statementCut ⟨openValue.dropLast, 4⟩ = .error (.unclosed "(" (.eof 3)) ⟨[], 4⟩ :=
    Rule.statementCut_reassignment_error rfl hequals (by decide) (by decide) hsemi hexpr [] 4
  have hparse : parseTokens openValue = .error (.grammatical (.unclosed "(" (.eof 3))) := by
    have hslice : parseTokens openValue = (Slice.parse ⟨openValue.dropLast, 4⟩).mapError .grammatical := rfl
    rw [hslice, Slice.parse, Slice.program_of_cut_error rfl hcut]
    rfl
  have hended : ∃ last ∈ openValue.getLast?, last.isEof = true := ⟨.eof 4, rfl, rfl⟩
  refine ⟨hended, hparse, ?_⟩
  rcases parseTokens_reported.1 openValue hended with ⟨nodes, hnodes⟩ | ⟨e, found, he, hreported, hfound⟩
  · rw [hparse] at hnodes
    cases hnodes
  · rw [hparse] at he
    cases he
    cases hreported.token
    exact hfound.resolve_left (by decide)

end TinyScript
