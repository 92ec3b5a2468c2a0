import TinyScript.Proofs.Grammar.Exactness
import TinyScript.Proofs.Grammar.Step

/-!
# Programs in sequence

A program in front of other tokens is read as if it stood alone, and then the other tokens are read as if they did
(`parseTokens_append`). So a program may be written behind another one: nothing that is read first looks past its own end, and
an error behind it is the error that there would be without it.
-/

namespace TinyScript

/-- An outcome after nodes that have been read before. -/
def Outcome.behind (read : List Node) : Outcome (List Node) → Outcome (List Node)
  | .ok nodes t => .ok (read ++ nodes) t
  | .error e t => .error e t

@[simp] theorem Outcome.behind_nil (o : Outcome (List Node)) : o.behind [] = o := by
  cases o <;> rfl

@[simp] theorem Outcome.behind_behind (first second : List Node) (o : Outcome (List Node)) :
    (o.behind second).behind first = o.behind (first ++ second) := by
  cases o <;> simp [behind]

/-- Nodes that have been read before are given first, and an error stays. -/
theorem Outcome.result_behind (read : List Node) (o : Outcome (List Node)) :
    (o.behind read).result = o.result.map (read ++ ·) := by
  cases o <;> rfl

namespace Slice

/-- A statement that is cut out leaves the statements behind it to be read as they are. -/
theorem program_of_cut_behind {s t : Slice} {cut : StatementCut} {node : Node} (hs : s.atEnd = false)
    (hcut : Rule.statementCut s = .ok cut t) (hnode : statementNode cut = .ok node) :
    program s = Outcome.behind [node] (program t) := by
  rw [program_eq, if_neg (by simp [hs]), Rule.bind_ok (Rule.statement_of_node hcut hnode)]
  refine (Rule.map_apply (node :: ·) program t).trans ?_
  cases program t <;> rfl

/-- A program of the grammar leaves the tokens behind it to be read as they are. -/
theorem program_append {front : List Token} {nodes : List Node} (h : Derives .program front nodes) (back : List Token)
    (stop : Int) : program ⟨front ++ back, stop⟩ = Outcome.behind nodes (program ⟨back, stop⟩) := by
  generalize hsort : Phrase.program = sort at h
  induction h with
  | noStatements => rw [List.nil_append, Outcome.behind_nil]
  | @moreStatements front rest node nodes hstatement _ _ ih =>
    obtain ⟨cut, node', heq, hcut, hnode⟩ := hstatement.read (rest ++ back) stop
    cases heq
    have hs := atEnd_append hstatement.statement_ne_nil hstatement.not_isEof (rest ++ back) stop
    rw [List.append_assoc, program_of_cut_behind hs hcut hnode, ih rfl, Outcome.behind_behind, List.singleton_append]
  | _ => cases hsort

/-- Parsing goes on behind a program as if it began there. -/
theorem parse_append {front : List Token} {nodes : List Node} (h : Derives .program front nodes) (back : List Token)
    (stop : Int) : parse ⟨front ++ back, stop⟩ = (parse ⟨back, stop⟩).map (nodes ++ ·) := by
  rw [parse, program_append h, Outcome.result_behind, parse]

end Slice

/-- A program in front of other tokens adds its nodes to what these are parsed as. Where they are not parsed, they fail behind
the program with the very failure that they have alone. -/
theorem parseTokens_append (front back : List Token) (last last' : Token) (nodes : List Node)
    (hfront : ∀ t ∈ front, t.isEof = false) (hlast : last.isEof = true) (hlast' : last'.isEof = true)
    (h : parseTokens (front ++ [last]) = .ok nodes) :
    parseTokens (front ++ back ++ [last']) = (parseTokens (back ++ [last'])).map (nodes ++ ·) := by
  have hprogram : Derives .program front nodes := derives_of_parseTokens hfront hlast h
  rw [parseTokens_append_eof (front ++ back) hlast', parseTokens_append_eof back hlast',
    Slice.parse_append hprogram back last'.position]
  cases Slice.parse ⟨back, last'.position⟩ <;> rfl

/-- The tokens of `x = 1;`. -/
def assignOne : List Token := [⟨.identifier "x", 1⟩, ⟨.character '=', 3⟩, ⟨.integer 1, 5⟩, ⟨.character ';', 6⟩]

/-- The node of `x = 1;`. -/
def oneAssigned : Node :=
  .assign { name := "x", token := some ⟨.identifier "x", 1⟩, type := none } [.var (.ofToken ⟨.integer 1, 5⟩)] false none

/-- Written twice, `x = 1;` is two assignments, and a bracket that closes nothing is the same error behind it as alone. -/
theorem parseTokens_append_assignOne :
    parseTokens (assignOne ++ assignOne ++ [.eof 9]) = .ok [oneAssigned, oneAssigned] ∧
      parseTokens (assignOne ++ [⟨.character ')', 8⟩] ++ [.eof 9]) =
        .error (.grammatical (.unexpected "a statement" ⟨.character ')', 8⟩)) := by
  have hleaf : Derives .operand [⟨.integer 1, 5⟩] [.var (.ofToken ⟨.integer 1, 5⟩)] := .leaf ⟨rfl, fun mark _ => rfl⟩
  have hequals : (⟨.character '=', 3⟩ : Token).isMark '=' = true := rfl
  have hsemicolon : (⟨.character ';', 6⟩ : Token).isMark ';' = true := rfl
  have hstatement : Derives .statement assignOne [oneAssigned] :=
    .reassignment rfl hequals (hleaf.oneOperand nofun) (by simp) hsemicolon
  have hparse : ∀ stop, parseTokens (assignOne ++ [.eof stop]) = .ok [oneAssigned] := fun stop =>
    hstatement.oneStatement.parseTokens_eq rfl
  have hbracket : parseTokens ([⟨.character ')', 8⟩] ++ [.eof 9]) =
      .error (.grammatical (.unexpected "a statement" ⟨.character ')', 8⟩)) := by
    rw [parseTokens_append_eof _ rfl, Slice.parse, Slice.program_of_cut_error rfl rfl]
    rfl
  have happend := fun back => parseTokens_append assignOne back (.eof 7) (.eof 9) _ (by decide) rfl rfl (hparse 7)
  constructor
  · rw [happend, hparse]
    rfl
  · rw [happend, hbracket]
    rfl

end TinyScript
