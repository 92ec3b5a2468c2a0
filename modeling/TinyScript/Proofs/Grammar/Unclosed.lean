import TinyScript.Proofs.Grammar.Contract
import TinyScript.Proofs.Grammar.Exactness

/-!
# Groups that are left open

What can be parsed has its brackets nested, and a token list with nested brackets never leaves a group open
(`nested_of_parseTokens`).

A value ends at its first semicolon, inside braces or not. The tokens of such a value need not be nested, but an operand never
starts with a brace: `Ajar` tokens are nested as far as operands are cut out of them.
-/

namespace TinyScript

/-- The tokens are nested up to a brace that may be left open, and no semicolon is before it. -/
inductive Ajar : List Token → Prop where
  | nil : Ajar []
  | brace {t : Token} {rest : List Token} : t.isMark '\x7b' = true → Ajar (t :: rest)
  | plain {t : Token} {rest : List Token} : t.StandsAlone → Ajar rest → Ajar (t :: rest)
  | enclosed {b : Bracket} {o c : Token} {inner rest : List Token} : b ≠ .angle → b.Encloses o c →
      Nested false inner → Ajar rest → Ajar (o :: (inner ++ c :: rest))

namespace Nested

variable {semicolons : Bool} {tokens : List Token}

/-- Nested tokens are ajar up to the first one that ends a value. -/
theorem ajar_takeWhile (h : Nested semicolons tokens) : Ajar (tokens.takeWhile (!Rule.endsValue ·)) := by
  induction h with
  | nil => exact .nil
  | plain ht _ ih =>
    rw [List.takeWhile_cons_of_pos (by simp [ht.endsValue])]
    exact .plain ht ih
  | semicolon ht =>
    rw [List.takeWhile_cons_of_neg (by simp [Rule.endsValue, ht])]
    exact .nil
  | @enclosed semicolons b o c inner rest hb hoc hinner _ _ ih =>
    have ho := Rule.endsValue_of_mark hoc.1 (by cases b <;> decide)
    have hc := Rule.endsValue_of_mark hoc.2 (by cases b <;> decide)
    rw [List.takeWhile_cons_of_pos (by simp [ho])]
    -- A value may break off inside braces; other brackets have no semicolon inside and are passed as a whole.
    by_cases hcurly : b = .curly
    · subst hcurly
      exact .brace hoc.1
    · have hfalse : b.allows semicolons = false := by cases b <;> first | exact absurd rfl hcurly | rfl
      have hnone := hinner.endsValue hfalse
      rw [hfalse] at hinner
      rw [List.takeWhile_append_of_pos (by simpa using hnone), List.takeWhile_cons_of_pos (by simp [hc])]
      exact .enclosed hb hoc hinner ih

/-- Nested tokens without semicolons are ajar. -/
theorem ajar (h : Nested false tokens) : Ajar tokens := by
  have hall := h.ajar_takeWhile
  have hself : (tokens ++ []).takeWhile (!Rule.endsValue ·) = tokens ++ [].takeWhile (!Rule.endsValue ·) :=
    List.takeWhile_append_of_pos (by simpa using h.endsValue rfl)
  rw [List.append_nil, List.takeWhile_nil, List.append_nil] at hself
  rwa [hself] at hall

end Nested

namespace Ajar

variable {tokens : List Token}

/-- What follows a token that stands alone is ajar. -/
theorem of_plain {t : Token} (ht : t.StandsAlone) (h : Ajar (t :: tokens)) : Ajar tokens := by
  cases h with
  | brace hbrace => exact absurd ht (Token.not_standsAlone (b := .curly) (by decide) hbrace)
  | plain _ hrest => exact hrest
  | enclosed hb hoc => exact absurd ht (Token.not_standsAlone hb hoc.1)

/-- An opening bracket other than the brace is closed. -/
theorem closed {b : Bracket} {o : Token} (hb : b ≠ .angle) (hcurly : b ≠ .curly) (ho : o.isMark b.opening = true)
    (h : Ajar (o :: tokens)) : ClosedBefore b false Ajar tokens := by
  cases h with
  | brace hbrace =>
    have hopen : o.isMark Bracket.curly.opening = true := hbrace
    exact absurd (Token.bracket_unique ho hopen) hcurly
  | plain halone => exact absurd halone (Token.not_standsAlone hb ho)
  | enclosed _ hoc hinner hrest =>
    obtain rfl := Token.bracket_unique ho hoc.1
    exact ⟨_, _, _, rfl, hoc.2, hinner, hrest⟩

end Ajar

/-! ## How nested tokens fail -/

/-- The error is that a token was not expected, not that a group was left open. -/
def ParseError.IsUnexpected (e : ParseError) : Prop := e.kind = .unexpectedToken

namespace Rule

/-- A group that is closed is cut out. -/
theorem keeps_group {b : Bracket} (hb : b ≠ .angle) (semicolons : Bool) (after : List Token → Prop)
    (err : ParseError → Prop) :
    (group b).Keeps (fun s => ClosedBefore b semicolons after s.tokens)
      (fun inner t => Nested semicolons inner.tokens ∧ after t.tokens) err := by
  rintro ⟨tokens, stop⟩ ⟨inner, c, rest, rfl, hc, hinner, hrest⟩
  rw [(hinner.level hb).group hc]
  exact ⟨hinner, hrest⟩

/-- An operand that is a group is cut out of ajar tokens. -/
theorem keeps_operandGroup {b : Bracket} (hb : b ≠ .angle) {f : Slice → OperandCut}
    (hf : ∀ inner, (f inner).inner? = some inner) :
    (f <$> group b).Keeps (fun s => ClosedBefore b false Ajar s.tokens)
      (fun cut t => Ajar t.tokens ∧ ∀ inner ∈ cut.inner?, Ajar inner.tokens) ParseError.IsUnexpected :=
  Keeps.map_slice ((keeps_group hb false Ajar _).imp (fun _ hs => hs) fun _ _ h => ⟨h.2, h.1.ajar⟩) hf

end Rule

/-- Operands among ajar tokens fail at an unexpected token only. -/
theorem operandContract_ajar : OperandContract (Ajar ·.tokens) ParseError.IsUnexpected where
  cut := by
    rintro s ⟨hs, hend⟩
    have hway := Rule.operandWay hend
    generalize Rule.operandCut s = outcome at hway ⊢
    cases hway with
    | call hname ho =>
      have hrest := hs.of_plain (Token.standsAlone_of_name? hname)
      exact Rule.keeps_operandGroup (by decide) (fun _ => rfl) _ (hrest.closed (by decide) (by decide) (b := .round) ho)
    | round ho =>
      exact Rule.keeps_operandGroup (by decide) (fun _ => rfl) _ (hs.closed (by decide) (by decide) (b := .round) ho)
    | square ho =>
      exact Rule.keeps_operandGroup (by decide) (fun _ => rfl) _ (hs.closed (by decide) (by decide) (b := .square) ho)
    | refused => exact rfl
    | leaf halone => exact ⟨hs.of_plain halone, fun inner hinner => by cases hinner⟩
  comma := by
    rintro ⟨tokens, stop⟩ hs hcomma
    cases tokens with
    | nil => cases hcomma
    | cons t tokens => exact hs.of_plain (Token.standsAlone_of_mark hcomma (by decide))
  argument _ _ := rfl

namespace Rule

/-- From nested tokens the rule leaves nested ones and gives good results, or it fails at an unexpected token. -/
def KeepsNested {α : Type} (r : Rule α) (good : α → Prop) : Prop :=
  Preserves (Nested true ·.tokens) ParseError.IsUnexpected r good

/-- What follows a token that opens a group is nested up to the end of the group and after it. -/
theorem nested_closed {b : Bracket} (hb : b ≠ .angle) {s : Slice} (hs : Nested true s.tokens)
    (ho : s.current.isMark b.opening = true) : ClosedBefore b (b.allows true) (Nested true) s.advance.tokens := by
  obtain ⟨tokens, stop⟩ := s
  cases tokens with
  | nil => cases ho
  | cons o tokens => exact hs.closed hb ho

theorem keepsNested_enclosed {b : Bracket} (hb : b ≠ .angle) (what : String) :
    KeepsNested (enclosed b what) fun inner => Nested (b.allows true) inner.tokens := by
  have hexpect : (expect b.opening what).Keeps (Nested true ·.tokens)
      (fun _ s => ClosedBefore b (b.allows true) (Nested true) s.tokens) ParseError.IsUnexpected :=
    keeps_expectToken (fun s hs ho => nested_closed hb hs ho) fun _ _ => rfl
  exact (hexpect.bind fun _ => keeps_group hb _ _ _).imp (fun _ hs => hs) fun _ _ h => ⟨h.2, h.1⟩

theorem keepsNested_semicolon (what : String) : KeepsNested (expect ';' what) fun _ => True := by
  refine keeps_expectToken (fun s hs ho => ⟨?_, True.intro⟩) fun _ _ => rfl
  obtain ⟨tokens, stop⟩ := s
  cases tokens with
  | nil => exact .nil
  | cons t tokens => exact hs.of_semicolon ho

/-- A statement that is cut out of nested tokens has a nested body. -/
def BodyNested (cut : StatementCut) : Prop := ∀ body ∈ cut.body?, Nested true body.tokens

theorem keepsNested_body {f : Slice → StatementCut} (hf : ∀ body, (f body).body? = some body) (what : String) :
    KeepsNested (f <$> enclosed .curly what) BodyNested :=
  Keeps.map_slice (keepsNested_enclosed (by decide) what) hf

/-- A statement with a nested body is cut off nested tokens, or the error is an unexpected token. -/
def CutNested (outcome : Outcome StatementCut) : Prop :=
  Outcome.Satisfies (fun cut t => Nested true t.tokens ∧ BodyNested cut) ParseError.IsUnexpected outcome

/-- Whatever parameters are, they fail at an unexpected token. -/
theorem isUnexpected_of_parameterDeclarations {s t : Slice} {e : ParseError}
    (h : s.parameterDeclarations = .error e t) : e.IsUnexpected := by
  have hidentifier : ∀ what, (identifier what).Keeps (fun _ => True) (fun _ _ => True) ParseError.IsUnexpected :=
    fun _ => keeps_identifier (fun _ _ _ _ => True.intro) fun _ _ => rfl
  have hparameter : parameter.Keeps (fun _ => True) (fun _ _ => True) ParseError.IsUnexpected :=
    (hidentifier _).bind fun _ => (hidentifier _).bind fun _ => keeps_pure fun _ _ => True.intro
  have hcomma : ∀ what, (expect ',' what).Keeps (fun _ => True) (fun _ _ => True) ParseError.IsUnexpected :=
    fun _ => keeps_expectToken (fun _ _ _ => True.intro) fun _ _ => rfl
  exact Slice.parameterDeclarations_error hparameter hcomma True.intro h

theorem cutNested_conditionalCut {i : Token} (hi : i.name? = some conditionalWord) {tokens : List Token} {stop : Int}
    (hs : Nested true (i :: tokens)) : CutNested (conditionalCut ⟨i :: tokens, stop⟩) := by
  rw [conditionalCut, bind_ok (skip_cons _ _ _)]
  refine (Preserves.bind (keepsNested_enclosed (by decide) _) fun inner hinner => ?_) _
    (hs.of_plain (Token.standsAlone_of_name? hi))
  refine (preserves_within fun _ _ he => operandContract_ajar.expression_error hinner.ajar he).bind fun _ _ => ?_
  exact Keeps.ite (fun _ => keeps_throw fun _ _ => rfl) fun _ => keepsNested_body (fun _ => rfl) _

theorem cutNested_functionCut {u n : Token} {type name : String} (hu : u.name? = some type) (hn : n.name? = some name)
    {tokens : List Token} {stop : Int} (hs : Nested true (u :: n :: tokens)) :
    CutNested (functionCut type name ⟨u :: n :: tokens, stop⟩) := by
  rw [functionCut, bind_ok (skip_cons _ _ _), bind_ok (skip_cons _ _ _)]
  refine (Preserves.bind (keepsNested_enclosed (by decide) _) fun inner hinner => ?_) _
    ((hs.of_plain (Token.standsAlone_of_name? hu)).of_plain (Token.standsAlone_of_name? hn))
  refine (preserves_within fun _ _ he => ?_).bind fun _ _ => keepsNested_body (fun _ => rfl) _
  exact isUnexpected_of_parameterDeclarations he

/-- A value is read before a semicolon at which the tokens are nested. If it breaks off inside braces it is not read. -/
theorem keeps_assigned :
    assigned.Keeps (fun s => Nested true s.tokens.tail) (fun _ t => Nested true t.tokens) ParseError.IsUnexpected := by
  intro s hs
  rw [assigned]
  cases hvalue : value s with
  | error e t =>
    obtain ⟨found, rfl, -, -⟩ := value_eq_error hvalue
    rw [bind_error hvalue]
    exact rfl
  | ok inner t =>
    have hajar : Ajar inner.tokens := by
      rw [tokens_of_value hvalue]
      exact hs.ajar_takeWhile
    obtain ⟨semicolon, hsemi, htokens, -, -⟩ := value_eq_ok hvalue
    rw [bind_ok hvalue]
    split
    next => exact rfl
    next =>
      cases hexpr : inner.expression with
      | error e u =>
        rw [within_error hexpr]
        exact operandContract_ajar.expression_error hajar hexpr
      | ok nodes u =>
        rw [within_ok hexpr]
        have hinner := (Slice.derives_of_expression (unbroken_of_value hvalue) hexpr).nested
        rw [htokens] at hs
        exact (hinner.of_append hs).of_semicolon hsemi

theorem cutNested_declaration {u n equals : Token} {type name : String} (hu : u.name? = some type)
    (hn : n.name? = some name) (heq : equals.isMark '=' = true) {tokens : List Token} {stop : Int}
    (hs : Nested true (u :: n :: equals :: tokens)) :
    CutNested (declaration type name n ⟨u :: n :: equals :: tokens, stop⟩) := by
  have htail := (hs.of_plain (Token.standsAlone_of_name? hu)).of_plain (Token.standsAlone_of_name? hn)
  rw [declaration, bind_ok (skip_cons _ _ _), bind_ok (skip_cons _ _ _)]
  refine (keeps_assigned.bind fun nodes => keeps_pure fun _ ht => ⟨ht, fun _ hbody => by cases hbody⟩) _ ?_
  exact htail.of_plain (Token.standsAlone_of_mark heq (by decide))

theorem cutNested_reassignment {n equals : Token} {name : String} (hn : n.name? = some name)
    (heq : equals.isMark '=' = true) {tokens : List Token} {stop : Int} (hs : Nested true (n :: equals :: tokens)) :
    CutNested (reassignment name n ⟨n :: equals :: tokens, stop⟩) := by
  have htail := hs.of_plain (Token.standsAlone_of_name? hn)
  rw [reassignment, bind_ok (skip_cons _ _ _)]
  refine (keeps_assigned.bind fun nodes => keeps_pure fun _ ht => ⟨ht, fun _ hbody => by cases hbody⟩) _ ?_
  exact htail.of_plain (Token.standsAlone_of_mark heq (by decide))

theorem cutNested_callStatement {f o : Token} {name : String} (hf : f.name? = some name) (ho : o.isMark '(' = true)
    {tokens : List Token} {stop : Int} (hs : Nested true (f :: o :: tokens)) :
    CutNested (callStatement name ⟨f :: o :: tokens, stop⟩) := by
  have hclosed := (hs.of_plain (Token.standsAlone_of_name? hf)).closed (b := .round) (by decide) ho
  have hgroup : (group .round).Keeps (fun s => ClosedBefore .round false (Nested true) s.tokens)
      (fun inner t => Nested true t.tokens ∧ Nested false inner.tokens) ParseError.IsUnexpected :=
    (keeps_group (by decide) _ _ _).imp (fun _ hs => hs) fun _ _ h => ⟨h.2, h.1⟩
  rw [callStatement, bind_ok (skip_cons _ _ _), bind_ok (skip_cons _ _ _)]
  refine (hgroup.bind fun inner => ?_) _ hclosed
  rintro s ⟨hs, hinner⟩
  refine Preserves.bind (preserves_within fun _ _ he => ?_) (fun _ _ => ?_) s hs
  · exact operandContract_ajar.arguments_error hinner.ajar he
  · exact Preserves.bind (keepsNested_semicolon _) fun _ _ => preserves_pure fun _ hbody => by cases hbody

end Rule

/-- Statements among nested tokens fail at an unexpected token only. -/
theorem statementContract_nested : StatementContract (Nested true ·.tokens) ParseError.IsUnexpected := by
  rintro s ⟨hs, -⟩
  have hway := Rule.statementWay s
  generalize Rule.statementCut s = outcome at hway ⊢
  cases hway with
  | conditional hi _ => exact Rule.cutNested_conditionalCut hi hs
  | function hu hn _ => exact Rule.cutNested_functionCut hu hn hs
  | declaration hu hn heq => exact Rule.cutNested_declaration hu hn heq hs
  | reassignment hn heq => exact Rule.cutNested_reassignment hn heq hs
  | call hf _ ho => exact Rule.cutNested_callStatement hf ho hs
  | refused => exact rfl

/-- A token list that is parsed has its brackets nested. One whose brackets are nested is parsed, or it fails at an unexpected
token, and no group is left open, whatever else is wrong with it. -/
theorem nested_of_parseTokens (tokens : List Token) (last : Token) (htokens : ∀ t ∈ tokens, t.isEof = false)
    (hlast : last.isEof = true) :
    (∀ nodes, parseTokens (tokens ++ [last]) = .ok nodes → Nested true tokens) ∧
      (Nested true tokens → ∀ failure, parseTokens (tokens ++ [last]) = .error failure →
        ∃ e, failure = .grammatical e ∧ e.kind = .unexpectedToken) := by
  rw [parseTokens_append_eof tokens hlast]
  constructor
  · intro nodes h
    rw [mapError_eq_ok_iff] at h
    exact ((Slice.parse_eq_ok_iff (s := ⟨tokens, last.position⟩) htokens nodes).mp h).nested
  · intro hnested failure h
    obtain ⟨e, he, rfl⟩ := exists_of_mapError_eq_error h
    obtain ⟨t, hprogram⟩ := Slice.program_of_parse_error he
    exact ⟨e, rfl, statementContract_nested.program_error hnested hprogram⟩

/-- The tokens of `x={b;}`, a block where a value should be. -/
def blockValue : List Token :=
  [⟨.identifier "x", 1⟩, ⟨.character '=', 1⟩, ⟨.character '\x7b', 2⟩, ⟨.identifier "b", 4⟩, ⟨.character ';', 4⟩,
    ⟨.character '\x7d', 5⟩]

/-- The tokens of `f([a]);`, brackets of one kind in brackets of another. -/
def groupCall : List Token :=
  [⟨.identifier "f", 1⟩, ⟨.character '(', 1⟩, ⟨.character '[', 2⟩, ⟨.identifier "a", 4⟩, ⟨.character ']', 4⟩,
    ⟨.character ')', 5⟩, ⟨.character ';', 6⟩]

/-- A call is parsed, and its brackets are nested. The brackets of a block where a value should be are nested, too: the value
breaks off inside the block, and the error is the brace, not a group that is left open. -/
theorem nested_of_parseTokens_blockValue :
    ((∀ t ∈ groupCall, t.isEof = false) ∧ (Token.eof 7).isEof = true ∧
      parseTokens (groupCall ++ [Token.eof 7]) =
        .ok [.invocation "f" [.parameters [.var (.ofToken ⟨.identifier "a", 4⟩)]]] ∧ Nested true groupCall) ∧
    (∀ t ∈ blockValue, t.isEof = false) ∧ (Token.eof 6).isEof = true ∧ Nested true blockValue ∧
      ∃ e, parseTokens (blockValue ++ [Token.eof 6]) = .error (.grammatical e) ∧ e.kind = .unexpectedToken := by
  have hleaf : Derives .operand [⟨.identifier "a", 4⟩] [.var (.ofToken ⟨.identifier "a", 4⟩)] := .leaf ⟨rfl, fun mark _ => rfl⟩
  have hgroup : Derives .operand [⟨.character '[', 2⟩, ⟨.identifier "a", 4⟩, ⟨.character ']', 4⟩]
      [.parameters [.var (.ofToken ⟨.identifier "a", 4⟩)]] := .square ⟨rfl, rfl⟩ (hleaf.oneOperand nofun)
  have hbare : ¬ BareComma [⟨.character '[', 2⟩, ⟨.identifier "a", 4⟩, ⟨.character ']', 4⟩] := by
    rintro ⟨t, ht, -⟩
    cases ht
  have hend : Token.isMark ⟨.character ';', 6⟩ ';' = true := rfl
  have hcall : Derives .statement groupCall [.invocation "f" [.parameters [.var (.ofToken ⟨.identifier "a", 4⟩)]]] :=
    .callStatement rfl (by decide) ⟨rfl, rfl⟩ (.oneArgument (hgroup.oneOperand fun _ => hbare) (by simp)) hend
  have hparsed := hcall.oneStatement.parseTokens_eq (show (Token.eof 7).isEof = true from rfl)
  have hvalue : Nested true [⟨.identifier "b", 4⟩, ⟨.character ';', 4⟩] := .name rfl (.semicolon rfl .nil)
  have hblock : Nested true [⟨.character '\x7b', 2⟩, ⟨.identifier "b", 4⟩, ⟨.character ';', 4⟩, ⟨.character '\x7d', 5⟩] :=
    .inBrackets (b := .curly) (by decide) ⟨rfl, rfl⟩ hvalue
  have hequals : Token.isMark ⟨.character '=', 1⟩ '=' = true := rfl
  have hnested : Nested true blockValue := .name rfl (.mark hequals (by decide) hblock)
  have hexpr : Slice.expression ⟨[⟨.character '\x7b', 2⟩, ⟨.identifier "b", 4⟩], 4⟩ =
      .error (.unexpected "an operand" ⟨.character '\x7b', 2⟩) ⟨[⟨.character '\x7b', 2⟩, ⟨.identifier "b", 4⟩], 4⟩ :=
    Slice.expression_of_cut_error rfl rfl
  have hsemi : Token.isMark ⟨.character ';', 4⟩ ';' = true := rfl
  have hcut : Rule.statementCut ⟨blockValue, 6⟩ = .error (.unexpected "an operand" ⟨.character '\x7b', 2⟩)
      ⟨[⟨.character '\x7d', 5⟩], 6⟩ :=
    Rule.statementCut_reassignment_error rfl hequals (by decide) (by decide) hsemi hexpr [⟨.character '\x7d', 5⟩] 6
  have hparse : parseTokens (blockValue ++ [Token.eof 6]) =
      .error (.grammatical (.unexpected "an operand" ⟨.character '\x7b', 2⟩)) := by
    rw [parseTokens_append_eof blockValue rfl, Slice.parse]
    change ((Slice.program ⟨blockValue, 6⟩).result).mapError Failure.grammatical = _
    rw [Slice.program_of_cut_error rfl hcut]
    rfl
  refine ⟨⟨by decide, rfl, hparsed, (nested_of_parseTokens groupCall (Token.eof 7) (by decide) rfl).1 _ hparsed⟩,
    by decide, rfl, hnested, ?_⟩
  obtain ⟨e, he, hkind⟩ := (nested_of_parseTokens blockValue (Token.eof 6) (by decide) rfl).2 hnested _ hparse
  exact ⟨e, by rw [hparse, he], hkind⟩

end TinyScript
