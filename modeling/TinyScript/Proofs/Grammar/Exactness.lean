import TinyScript.Frontend
import TinyScript.Proofs.Grammar.Soundness

/-!
# The parser accepts exactly its grammar

`parseTokens_eq_ok_iff`: a token list with its end is parsed as some nodes exactly when the tokens before the end are a program
that stands for these nodes. One direction is `Derives.read`, the other one `Slice.readsProgram_of_program`.
-/

namespace TinyScript

/-- A token list that has its only end of input at its end is read as the slice of the tokens before it. -/
theorem parseTokens_append_eof (tokens : List Token) {last : Token} (hlast : last.isEof = true) :
    parseTokens (tokens ++ [last]) = (Slice.parse ⟨tokens, last.position⟩).mapError Failure.grammatical := by
  have hslice : Slice.ofTokens? (tokens ++ [last]) = .ok ⟨tokens, last.position⟩ := by
    simp [Slice.ofTokens?, hlast]
  rw [parseTokens, hslice]
  rfl

/-- A result that errors are relabelled in is a success exactly when it was one. -/
theorem mapError_eq_ok_iff {ε ε' α : Type} {f : ε → ε'} {r : Except ε α} {a : α} : r.mapError f = .ok a ↔ r = .ok a := by
  cases r with
  | error e =>
    constructor
    · intro h
      cases h
    · intro h
      cases h
  | ok b =>
    constructor
    · intro h
      cases h
      rfl
    · intro h
      cases h
      rfl

/-- A relabelled error is one with another label. -/
theorem exists_of_mapError_eq_error {ε ε' α : Type} {f : ε → ε'} {r : Except ε α} {e' : ε'}
    (h : r.mapError f = .error e') : ∃ e, r = .error e ∧ e' = f e := by
  cases r with
  | error e =>
    cases h
    exact ⟨e, rfl, rfl⟩
  | ok a => cases h

namespace Slice

variable {s : Slice}

theorem program_of_parse {nodes : List Node} (h : s.parse = .ok nodes) : ∃ t, s.program = .ok nodes t := by
  unfold parse at h
  cases hp : s.program with
  | ok a t =>
    rw [hp] at h
    cases h
    exact ⟨t, rfl⟩
  | error e t =>
    rw [hp] at h
    cases h

theorem program_of_parse_error {e : ParseError} (h : s.parse = .error e) : ∃ t, s.program = .error e t := by
  unfold parse at h
  cases hp : s.program with
  | ok a t =>
    rw [hp] at h
    cases h
  | error e' t =>
    rw [hp] at h
    cases h
    exact ⟨t, rfl⟩

/-- A slice that is not broken off is parsed as nodes exactly when its tokens are a program that stands for them. -/
theorem parse_eq_ok_iff (hs : s.Unbroken) (nodes : List Node) : s.parse = .ok nodes ↔ Derives .program s.tokens nodes := by
  constructor
  · intro h
    obtain ⟨t, hp⟩ := program_of_parse h
    exact (readsProgram_of_program hp).derives hs
  · intro h
    have hread : s.program = .ok nodes ⟨[], s.stop⟩ := h.read s.stop
    rw [parse, hread]
    rfl

end Slice

/-- A program of the grammar is parsed as the nodes it stands for. -/
theorem Derives.parseTokens_eq {tokens : List Token} {last : Token} {nodes : List Node}
    (h : Derives .program tokens nodes) (hlast : last.isEof = true) : parseTokens (tokens ++ [last]) = .ok nodes := by
  rw [parseTokens_append_eof tokens hlast, mapError_eq_ok_iff]
  exact (Slice.parse_eq_ok_iff (s := ⟨tokens, last.position⟩) h.not_isEof nodes).mpr h

/-- A token list that is parsed is a program of the grammar that stands for its nodes. -/
theorem derives_of_parseTokens {tokens : List Token} {last : Token} {nodes : List Node}
    (htokens : ∀ t ∈ tokens, t.isEof = false) (hlast : last.isEof = true)
    (h : parseTokens (tokens ++ [last]) = .ok nodes) : Derives .program tokens nodes := by
  rw [parseTokens_append_eof tokens hlast, mapError_eq_ok_iff] at h
  exact (Slice.parse_eq_ok_iff (s := ⟨tokens, last.position⟩) htokens nodes).mp h

/-- The parser accepts exactly the programs of the grammar and gives exactly the nodes they stand for. -/
theorem parseTokens_eq_ok_iff (tokens : List Token) (last : Token) (nodes : List Node)
    (htokens : ∀ t ∈ tokens, t.isEof = false) (hlast : last.isEof = true) :
    parseTokens (tokens ++ [last]) = .ok nodes ↔ Derives .program tokens nodes := by
  rw [parseTokens_append_eof tokens hlast, mapError_eq_ok_iff]
  exact Slice.parse_eq_ok_iff (s := ⟨tokens, last.position⟩) htokens nodes

/-- The tokens of `f((a), b c);`. -/
def nestedCall : List Token :=
  [⟨.identifier "f", 1⟩, ⟨.character '(', 1⟩, ⟨.character '(', 2⟩, ⟨.identifier "a", 4⟩, ⟨.character ')', 4⟩,
    ⟨.character ',', 5⟩, ⟨.identifier "b", 8⟩, ⟨.identifier "c", 10⟩, ⟨.character ')', 10⟩, ⟨.character ';', 11⟩]

/-- A bracketed argument is its only operand, and an argument of two operands is a group. -/
theorem parseTokens_nestedCall :
    (∀ t ∈ nestedCall, t.isEof = false) ∧ (Token.eof 12).isEof = true ∧
      parseTokens (nestedCall ++ [Token.eof 12]) =
        .ok [.invocation "f" [.var (.ofToken ⟨.identifier "a", 4⟩),
          .parameters [.var (.ofToken ⟨.identifier "b", 8⟩), .var (.ofToken ⟨.identifier "c", 10⟩)]]] := by
  have hleaf : ∀ (name : String) (position : Int), Derives .operand [⟨.identifier name, position⟩]
      [.var (.ofToken ⟨.identifier name, position⟩)] := fun name position => .leaf ⟨rfl, fun mark _ => rfl⟩
  have hbare : ∀ {name : String} {position : Int}, ¬ BareComma [⟨.identifier name, position⟩] := by
    rintro name position ⟨t, ht, hc⟩
    cases ht
    cases hc
  have hapart : ∀ {front back : List Token} {t : Token}, t.isMark '(' = false → ¬ Meet front (t :: back) := by
    rintro front back t ht ⟨f, o, rest, -, -, hback, ho⟩
    cases hback
    rw [ht] at ho
    cases ho
  have hlast : ∀ {front : List Token}, ¬ Meet front [] := by
    rintro front ⟨f, o, rest, -, -, hback, -⟩
    cases hback
  have ha : Derives (.operands true) ([⟨.identifier "a", 4⟩] ++ []) _ :=
    .moreOperands (hleaf "a" 4) hlast (fun _ => hbare) .noOperands
  have hround : Derives (.operands false)
      ((⟨.character '(', 2⟩ :: ([⟨.identifier "a", 4⟩] ++ [] ++ [⟨.character ')', 4⟩])) ++ []) _ :=
    .moreOperands (.round ⟨rfl, rfl⟩ ha) hlast (fun _ ⟨t, ht, _⟩ => by cases ht) .noOperands
  have hbc : Derives (.operands false) ([⟨.identifier "b", 8⟩] ++ ([⟨.identifier "c", 10⟩] ++ [])) _ :=
    .moreOperands (hleaf "b" 8) (hapart rfl) (fun _ => hbare)
      (.moreOperands (hleaf "c" 10) hlast (fun _ => hbare) .noOperands)
  have hargs := Derives.moreArguments hround (by simp) (show (⟨.character ',', 5⟩ : Token).isMark ',' = true from rfl)
    (.oneArgument hbc (by simp)) (by simp)
  have hcall := Derives.callStatement (f := ⟨.identifier "f", 1⟩) (o := ⟨.character '(', 1⟩) (c := ⟨.character ')', 10⟩)
    rfl (by decide) ⟨rfl, rfl⟩ hargs (show (⟨.character ';', 11⟩ : Token).isMark ';' = true from rfl)
  refine ⟨by decide, rfl, (parseTokens_eq_ok_iff nestedCall (Token.eof 12) _ (by decide) rfl).mpr ?_⟩
  exact .moreStatements hcall .noStatements

end TinyScript
