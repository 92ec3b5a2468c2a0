import TinyScript.Proofs.Grammar.Balance
import TinyScript.Proofs.Grammar.Sequence

/-!
# Bodies are programs

The body of a conditional or of a function is parsed as it would be as a program of its own (`parseTokens_body`). All that
a body needs for that is balanced braces: the tokens between them may be no program, and then the error in the body is the
error of the program that it is not.
-/

namespace TinyScript

/-- The tokens stand before a body, its opening brace included, and `node` is the node that they become with the nodes of the
body. -/
inductive Header : List Token → (node : List Node → Node) → Prop where
  /-- The word of a conditional and a guard that is operands, and not none. -/
  | conditional {i o c o' : Token} {guard : List Token} {condition : List Node} {u : Slice} :
      i.name? = some Rule.conditionalWord → Bracket.round.Encloses o c → Balanced .round guard →
      Slice.expression ⟨guard, c.position⟩ = .ok condition u → condition ≠ [] → o'.isMark '\x7b' = true →
      Header (i :: o :: (guard ++ [c, o'])) (.conditional condition)
  /-- A return type, a name and parameters. -/
  | function {t n o c o' : Token} {declared : List Token} {type name : String} {params : List Node} {u : Slice} :
      t.name? = some type → n.name? = some name → Bracket.round.Encloses o c → (∀ t ∈ declared, t.isEof = false) →
      Slice.parameterDeclarations ⟨declared, c.position⟩ = .ok params u → o'.isMark '\x7b' = true →
      Header (t :: n :: o :: (declared ++ [c, o'])) (.function name type params)

namespace Header

variable {front body rest : List Token} {node : List Node → Node} {c : Token} {stop : Int}

/-- A header has a token, and the first does not end the input. -/
theorem atEnd_append (h : Header front node) (rest : List Token) (stop : Int) :
    Slice.atEnd ⟨front ++ rest, stop⟩ = false := by
  cases h with
  | conditional hi => exact Rule.not_isEof_of_name? hi
  | function ht => exact Rule.not_isEof_of_name? ht

/-- A statement is cut out with the body that is level in braces, and becomes the node with what the body is parsed as. -/
theorem statementCut (h : Header front node) (hbody : Level .curly body) (hc : c.isMark '\x7d' = true) (rest : List Token)
    (stop : Int) :
    ∃ cut, Rule.statementCut ⟨front ++ (body ++ c :: rest), stop⟩ = .ok cut ⟨rest, stop⟩ ∧
      Slice.statementNode cut = (Slice.parse ⟨body, c.position⟩).map node := by
  cases h with
  | @conditional i o c' o' guard condition u hi hoc hguard hcondition hne ho' =>
    have hcut := Rule.statementCut_conditional hi hoc hguard.level hcondition hne ⟨ho', hc⟩ hbody rest stop
    refine ⟨_, by simpa using hcut, ?_⟩
    simp only [Slice.statementNode, Slice.parse]
    cases Slice.program ⟨body, c.position⟩ <;> rfl
  | @function t n o c' o' declared type name params u ht hn hoc heof hparams ho' =>
    have hderives : Derives .parameters declared params :=
      Slice.derives_of_parameterDeclarations (s := ⟨declared, c'.position⟩) heof hparams
    have hdeclared : Level .round declared := hderives.level (by decide)
    have hcut := Rule.statementCut_function ht hn hoc hdeclared hparams ⟨ho', hc⟩ hbody rest stop
    refine ⟨_, by simpa using hcut, ?_⟩
    simp only [Slice.statementNode, Slice.parse]
    cases Slice.program ⟨body, c.position⟩ <;> rfl

/-- Behind a header the body is parsed by itself, and then what follows it. -/
theorem parse_append (h : Header front node) (hbody : Level .curly body) (hc : c.isMark '\x7d' = true) (rest : List Token)
    (stop : Int) :
    Slice.parse ⟨front ++ (body ++ c :: rest), stop⟩ =
      match Slice.parse ⟨body, c.position⟩ with
      | .error e => .error e
      | .ok nodes => (Slice.parse ⟨rest, stop⟩).map (node nodes :: ·) := by
  have hs := h.atEnd_append (body ++ c :: rest) stop
  obtain ⟨cut, hcut, hnode⟩ := h.statementCut hbody hc rest stop
  cases hparse : Slice.parse ⟨body, c.position⟩ with
  | error e =>
    rw [hparse] at hnode
    have hstatement := Rule.statement_of_node_error hcut hnode
    rw [Slice.parse, Slice.program_eq, if_neg (by simp [hs]), Rule.bind_error hstatement]
    rfl
  | ok nodes =>
    rw [hparse] at hnode
    rw [Slice.parse, Slice.program_of_cut_behind hs hcut hnode, Outcome.result_behind]
    rfl

end Header

/-- Between a header and a brace balanced tokens are parsed as they are alone, where the place of the brace is their end.
What is wrong with them is wrong with the whole. Else the whole is the statement with that body and what the tokens behind it
are parsed as, or their failure. -/
theorem parseTokens_body {front : List Token} {node : List Node → Node} (hfront : Header front node) (body back : List Token)
    (c last : Token) (hbody : Balanced .curly body) (hc : c.isMark '\x7d' = true) (hlast : last.isEof = true) :
    parseTokens (front ++ body ++ [c] ++ back ++ [last]) =
      match parseTokens (body ++ [.eof c.position]) with
      | .error failure => .error failure
      | .ok nodes => (parseTokens (back ++ [last])).map (node nodes :: ·) := by
  have hwhole : front ++ body ++ [c] ++ back = front ++ (body ++ c :: back) := by simp
  rw [hwhole, parseTokens_append_eof _ hlast, parseTokens_append_eof back hlast,
    parseTokens_append_eof body (show (Token.eof c.position).isEof = true from rfl),
    hfront.parse_append hbody.level hc]
  have hbrace : (Token.eof c.position).position = c.position := rfl
  rw [hbrace]
  cases Slice.parse ⟨body, c.position⟩ with
  | error e => rfl
  | ok nodes => cases Slice.parse ⟨back, last.position⟩ <;> rfl

/-- The tokens of `if (1) {`. -/
def ifOne : List Token :=
  [⟨.identifier "if", 2⟩, ⟨.character '(', 3⟩, ⟨.integer 1, 5⟩, ⟨.character ')', 5⟩, ⟨.character '\x7b', 7⟩]

/-- The bracket in `if (1) { ) }` is no statement, as it is none alone. -/
theorem parseTokens_body_bracket :
    Header ifOne (.conditional [.var (.ofToken ⟨.integer 1, 5⟩)]) ∧ Balanced .curly [⟨.character ')', 9⟩] ∧
      parseTokens (ifOne ++ [⟨.character ')', 9⟩] ++ [⟨.character '\x7d', 11⟩] ++ [] ++ [.eof 12]) =
        .error (.grammatical (.unexpected "a statement" ⟨.character ')', 9⟩)) := by
  have hleaf : Derives .operand [⟨.integer 1, 5⟩] [.var (.ofToken ⟨.integer 1, 5⟩)] := .leaf ⟨rfl, fun mark _ => rfl⟩
  have hone : Derives (.operands true) [⟨.integer 1, 5⟩] [.var (.ofToken ⟨.integer 1, 5⟩)] := hleaf.oneOperand nofun
  have hguard : Balanced .round [⟨.integer 1, 5⟩] := balanced_of_none (by decide) rfl rfl
  have hheader : Header ifOne (.conditional [.var (.ofToken ⟨.integer 1, 5⟩)]) :=
    .conditional (c := ⟨.character ')', 5⟩) rfl ⟨rfl, rfl⟩ hguard (hone.read 5) (by simp) rfl
  have hbody : Balanced .curly [⟨.character ')', 9⟩] := balanced_of_none (by decide) rfl rfl
  have halone : parseTokens ([⟨.character ')', 9⟩] ++ [.eof 11]) =
      .error (.grammatical (.unexpected "a statement" ⟨.character ')', 9⟩)) := by
    rw [parseTokens_append_eof _ rfl, Slice.parse, Slice.program_of_cut_error rfl rfl]
    rfl
  have hwhole := parseTokens_body hheader _ [] ⟨.character '\x7d', 11⟩ (.eof 12) hbody rfl rfl
  rw [halone] at hwhole
  exact ⟨hheader, hbody, hwhole⟩

end TinyScript
