import TinyScript.Frontend
import TinyScript.Proofs.Grammar.Step

/-!
# Parsers only go forward

A rule leaves a rest of the slice that it reads, whether it succeeds or fails (`Rule.Forward`). This holds of the rules that
pass a token or cut a group out, is kept in sequences, and so holds of every rule of the grammar, on every slice.

A parser can be asked for each of them, and to look around, in any order and also where what is asked for fails
(`Session.Request`). Since rules go forward, its tape keeps its tokens and is never moved back (`Session.follows_perform`),
and its place is always a token of the list (`Session.stands_performAll`).
-/

namespace TinyScript

/-! ## Rests of slices -/

/-- The slice is what another one comes to when some of its tokens have been passed. -/
structure Slice.RestOf (t s : Slice) : Prop where
  suffix : t.tokens <:+ s.tokens
  stop : t.stop = s.stop

namespace Slice.RestOf

variable {s t u : Slice}

theorem refl (s : Slice) : s.RestOf s := ⟨List.suffix_refl _, rfl⟩

theorem trans (h : u.RestOf t) (h' : t.RestOf s) : u.RestOf s := ⟨h.suffix.trans h'.suffix, h.stop.trans h'.stop⟩

/-- Passing a token leaves a rest, at the end of a slice the slice itself. -/
theorem advance (h : t.RestOf s) : t.advance.RestOf s := ⟨(List.tail_suffix _).trans h.suffix, h.stop⟩

/-- Tokens behind others of a slice are a rest of it. -/
theorem of_append {front back : List Token} (h : front ++ back = s.tokens) : RestOf ⟨back, s.stop⟩ s := ⟨⟨front, h⟩, rfl⟩

end Slice.RestOf

/-! ## Rules -/

namespace Rule

/-- On the slice the rule goes forward: whether it succeeds or fails, it leaves a rest of the slice. -/
def Forward {α : Type} (r : Rule α) (s : Slice) : Prop := Slice.RestOf (Outcome.rest (r s)) s

section Combinations

variable {α β : Type} {r : Rule α} {s : Slice}

/-- A sequence goes forward if its second part does from where the first leaves off. -/
theorem Forward.bind {f : α → Rule β} (h : r.Forward s) (hf : ∀ a t, r s = .ok a t → (f a).Forward t) :
    (r >>= f).Forward s := by
  unfold Forward at h ⊢
  cases hr : r s with
  | ok a t =>
    rw [hr] at h
    rw [bind_ok hr]
    exact (hf a t hr).trans h
  | error e t =>
    rw [hr] at h
    rw [bind_error hr]
    exact h

theorem Forward.map (f : α → β) (h : r.Forward s) : (f <$> r).Forward s := by
  unfold Forward at h ⊢
  rw [map_apply]
  cases hr : r s <;> rwa [hr] at h

theorem Forward.ite {c : Prop} [Decidable c] {r' : Rule α} (h : r.Forward s) (h' : r'.Forward s) :
    (if c then r else r').Forward s := by
  split
  · exact h
  · exact h'

theorem forward_pure (a : α) : (pure a : Rule α).Forward s := .refl s

theorem forward_throw (e : ParseError) : (throw e : Rule α).Forward s := .refl s

/-- A slice of its own that is read leaves the outer one where it is, however the reading ends. -/
theorem forward_within (inner : Slice) : (within inner r).Forward s := by
  unfold Forward within
  cases r inner <;> exact .refl s

theorem forward_skip : skip.Forward s := (Slice.RestOf.refl s).advance

/-- Passing a token and going on goes forward if going on does. -/
theorem forward_skip_bind {f : Unit → Rule β} (h : (f ()).Forward s.advance) : (skip >>= f).Forward s :=
  forward_skip.bind fun _ t ht => by
    cases ht
    exact h

theorem forward_expectToken (test : Token → Bool) (what : String) : (expectToken test what).Forward s := by
  unfold Forward expectToken
  split
  · exact (Slice.RestOf.refl s).advance
  · exact .refl s

theorem forward_expect (mark : Char) (what : String) : (expect mark what).Forward s := forward_expectToken _ what

theorem forward_identifier (what : String) : (identifier what).Forward s := by
  unfold Forward identifier
  split
  · exact (Slice.RestOf.refl s).advance
  · exact .refl s

/-- A group that is not closed is passed up to where the search for its end stopped. -/
theorem forward_group (b : Bracket) : (group b).Forward s := by
  have hrest : Slice.RestOf ⟨(spanGroup b 0 s.tokens).2, s.stop⟩ s := .of_append (spanGroup_append b 0 s.tokens)
  unfold Forward group
  dsimp only
  split
  next c rest hafter =>
    rw [hafter] at hrest
    split
    · exact hrest.advance
    · rwa [hafter]
  next hafter => rwa [hafter] at hrest

/-- A value without a semicolon is passed up to the end of the input. -/
theorem forward_value : value.Forward s := by
  have happend : s.tokens.tail.takeWhile (!endsValue ·) ++ s.tokens.tail.dropWhile (!endsValue ·) = s.advance.tokens :=
    List.takeWhile_append_dropWhile
  have hrest := (Slice.RestOf.of_append happend).trans (Slice.RestOf.refl s).advance
  unfold Forward value
  dsimp only
  split
  next t rest hdrop =>
    rw [hdrop] at hrest
    split
    · exact hrest.advance
    · exact hrest
  next hdrop => rwa [hdrop] at hrest

theorem forward_groupOf (opening : String) : (groupOf opening).Forward s := by
  unfold Forward groupOf
  split
  · exact forward_group _
  · exact .refl s

end Combinations

section Cuts

variable {s : Slice}

theorem forward_parameter : parameter.Forward s :=
  (forward_identifier _).bind fun _ _ _ => (forward_identifier _).bind fun _ _ _ => forward_pure _

theorem forward_enclosed (b : Bracket) (what : String) : (enclosed b what).Forward s :=
  (forward_expect _ _).bind fun _ _ _ => forward_group b

theorem forward_assigned : assigned.Forward s :=
  forward_value.bind fun _ _ _ => .ite (forward_throw _) (forward_within _)

theorem forward_conditionalCut : conditionalCut.Forward s :=
  forward_skip_bind <| (forward_enclosed _ _).bind fun _ _ _ => (forward_within _).bind fun _ _ _ =>
    .ite (forward_throw _) (.map _ (forward_enclosed _ _))

theorem forward_functionCut (returnType name : String) : (functionCut returnType name).Forward s :=
  forward_skip_bind <| forward_skip_bind <| (forward_enclosed _ _).bind fun _ _ _ => (forward_within _).bind fun _ _ _ =>
    .map _ (forward_enclosed _ _)

theorem forward_declaration (type name : String) (token : Token) : (declaration type name token).Forward s :=
  forward_skip_bind <| forward_skip_bind <| forward_assigned.bind fun _ _ _ => forward_pure _

theorem forward_reassignment (name : String) (token : Token) : (reassignment name token).Forward s :=
  forward_skip_bind <| forward_assigned.bind fun _ _ _ => forward_pure _

theorem forward_callStatement (name : String) : (callStatement name).Forward s :=
  forward_skip_bind <| forward_skip_bind <| (forward_group _).bind fun _ _ _ => (forward_within _).bind fun _ _ _ =>
    (forward_expect _ _).bind fun _ _ _ => forward_pure _

/-- Cutting an operand goes forward also at the end of a slice, where it passes the token that is there. -/
theorem forward_operandCut : operandCut.Forward s := by
  -- A group is cut out behind its opening bracket, the arguments of a call behind the name, too.
  have hleaf : leafCut.Forward s := (Slice.RestOf.refl s).advance
  unfold Forward operandCut
  split
  next name _ =>
    split
    · exact (Forward.map _ (forward_group _)).trans (Slice.RestOf.refl s).advance.advance
    · exact hleaf
  next mark _ =>
    split
    · exact (Forward.map _ (forward_group _)).trans (Slice.RestOf.refl s).advance
    · split
      · exact (Forward.map _ (forward_group _)).trans (Slice.RestOf.refl s).advance
      · split
        · exact .refl s
        · exact hleaf
  next => exact hleaf

theorem forward_statementCut : statementCut.Forward s := by
  unfold Forward statementCut
  split
  next => exact .refl s
  next first _ =>
    dsimp only
    split
    · exact forward_conditionalCut
    · split
      next second _ =>
        split
        · exact forward_functionCut _ _
        · split
          · exact forward_declaration _ _ _
          · exact .refl s
      next =>
        split
        · exact forward_reassignment _ _
        · split
          · exact forward_callStatement _
          · exact .refl s

/-- What fails inside an operand fails where the operand has been cut out. -/
theorem forward_operand : operand.Forward s := by
  have hcut := forward_operandCut (s := s)
  unfold Forward at hcut
  unfold Forward operand
  split
  next h => rwa [h] at hcut
  next cut t h =>
    rw [h] at hcut
    split <;> exact hcut

/-- What fails inside the body of a statement fails where the statement has been cut out. -/
theorem forward_statement : statement.Forward s := by
  have hcut := forward_statementCut (s := s)
  unfold Forward at hcut
  unfold Forward statement
  split
  next h => rwa [h] at hcut
  next cut t h =>
    rw [h] at hcut
    split <;> exact hcut

end Cuts

end Rule

/-! ## Readers -/

namespace Slice

open Rule

/-- Induction on the number of tokens ahead. -/
@[elab_as_elim]
theorem shorter_induction {motive : Slice → Prop}
    (h : ∀ s, (∀ t : Slice, t.tokens.length < s.tokens.length → motive t) → motive s) (s : Slice) : motive s := by
  induction hlength : s.tokens.length using Nat.strongRecOn generalizing s with
  | _ length ih =>
    subst hlength
    exact h s fun t ht => ih _ ht t rfl

/-- Operands go forward, each past its first token at least. -/
theorem forward_expression (s : Slice) : Forward expression s := by
  induction s using shorter_induction with
  | h s ih =>
    unfold Forward
    rw [expression_eq]
    split
    next => exact .refl s
    next hend =>
      have hs := Bool.eq_false_iff.mpr hend
      exact forward_operand.bind fun _ t ht => .map _ (ih t (length_lt_of_operand hs ht))

/-- Arguments go forward, and where a comma has none before it they stay there. -/
theorem forward_argumentList (pending : List Node) (s : Slice) : Forward (argumentList pending) s := by
  induction s using shorter_induction generalizing pending with
  | h s ih =>
    unfold Forward
    rw [argumentList_eq]
    split
    next => split <;> exact .refl s
    next hend =>
      have hs := Bool.eq_false_iff.mpr hend
      split
      next hcomma =>
        split
        · exact .refl s
        · exact (Forward.map _ (ih s.advance (s.length_advance_lt hs) [])).trans (RestOf.refl s).advance
      next => exact forward_operand.bind fun _ t ht => ih t (length_lt_of_operand hs ht) _

theorem forward_arguments (s : Slice) : Forward arguments s := by
  unfold Forward arguments
  split
  · exact .refl s
  · exact forward_argumentList [] s

/-- Parameters go forward, each past its type and its name. -/
theorem forward_parameterList (s : Slice) : Forward parameterList s := by
  induction s using shorter_induction with
  | h s ih =>
    unfold Forward
    rw [parameterList_eq]
    refine forward_parameter.bind fun node t ht => ?_
    have hparam : t.tokens.length + 2 ≤ s.tokens.length := shrinks_parameter s node t ht
    unfold Forward afterParameter
    split
    · exact .refl t
    · refine (forward_expect _ _).bind fun _ u hu => .map _ (ih u ?_)
      have hcomma : u.tokens.length + 1 ≤ t.tokens.length := shrinks_expect _ _ t _ u hu
      omega

theorem forward_parameterDeclarations (s : Slice) : Forward parameterDeclarations s := by
  unfold Forward parameterDeclarations
  split
  · exact .refl s
  · exact forward_parameterList s

/-- Statements go forward, each past its first token at least. -/
theorem forward_program (s : Slice) : Forward program s := by
  induction s using shorter_induction with
  | h s ih =>
    unfold Forward
    rw [program_eq]
    split
    · exact .refl s
    · exact forward_statement.bind fun _ t ht => .map _ (ih t (length_lt_of_statement ht))

end Slice

/-! ## Tapes -/

namespace Tape

/-- The tape has the same tokens as another one and stands where that one does or behind it. -/
structure Follows (t' t : Tape) : Prop where
  toList : t'.toList = t.toList
  index : t.index ≤ t'.index

variable {t t' t'' : Tape}

theorem Follows.refl (t : Tape) : t.Follows t := ⟨rfl, Nat.le_refl _⟩

theorem Follows.trans (h : t''.Follows t') (h' : t'.Follows t) : t''.Follows t :=
  ⟨h.toList.trans h'.toList, Nat.le_trans h'.index h.index⟩

/-- A tape that is moved to a rest of its slice has what is gone from the slice behind it. -/
theorem follows_moveTo {rest : Slice} (h : rest.RestOf t.ahead) : (t.moveTo rest).Follows t := by
  obtain ⟨⟨gone, hgone⟩, hstop⟩ := h
  have hmove : t.moveTo rest = { passed := gone.reverse ++ t.passed, ahead := rest } := by
    rw [moveTo, ← hgone, List.length_append, Nat.add_sub_cancel, List.take_left]
  rw [hmove]
  constructor
  · simp only [Tape.toList, ← hgone, hstop, List.reverse_append, List.reverse_reverse, List.append_assoc]
  · rw [index, index, List.length_append]
    exact Nat.le_add_left _ _

end Tape

/-! ## Requests -/

namespace Session

/-- What a parser can be asked for. -/
inductive Request where
  /-- To pass a token -/
  | advance
  /-- To look at the token a number of places ahead -/
  | peek (offset : Int)
  /-- To look at the token before the current one -/
  | previous
  /-- To pass the rest of the group that a text opens and give its tokens -/
  | parameters (opening : String)
  /-- To pass a value and its semicolon and give its tokens -/
  | untilSemicolon
  /-- To pass the rest of the group that a text opens and give a parser of its tokens -/
  | group (opening : String)
  /-- To pass a text, or to fail where it is not ahead -/
  | expect (text what : String)
  /-- To read one statement -/
  | statement
  /-- To read one operand -/
  | operand
  /-- To read operands to the end -/
  | expression
  /-- To read arguments to the end -/
  | arguments
  /-- To read parameters to the end -/
  | parameterDeclarations
  /-- To read a program to the end, which is done once -/
  | parse
deriving DecidableEq, Repr

/-- What a parser answers. -/
inductive Answer where
  | done
  | token (token : Token)
  | tokens (tokens : List Token)
  | node (node : Node)
  | nodes (nodes : List Node)

/-- Applies a rule and answers with its result. -/
def performRule {α : Type} (answer : α → Answer) (r : Rule α) (s : Session) : Except Failure Answer × Session :=
  let step := s.run r
  (step.1.map answer, step.2)

/-- Does what is asked for. The parser is left where it stopped, also if that failed. -/
def perform (s : Session) : Request → Except Failure Answer × Session
  | .advance => s.performRule (fun _ => .done) Rule.skip
  | .peek offset => ((s.peek offset).map .token, s)
  | .previous => (.ok (.token s.tape.previous), s)
  | .parameters opening => s.performRule (fun inner => .tokens inner.tokens) (Rule.groupOf opening)
  | .untilSemicolon => s.performRule (fun inner => .tokens inner.tokens) Rule.value
  | .group opening => s.performRule (fun inner => .tokens inner.toList) (Rule.groupOf opening)
  | .expect text what => s.performRule (fun _ => .done) (Rule.expectText text what)
  | .statement => s.performRule .node Rule.statement
  | .operand => s.performRule .node Rule.operand
  | .expression => s.performRule .nodes Slice.expression
  | .arguments => s.performRule .nodes Slice.arguments
  | .parameterDeclarations => s.performRule .nodes Slice.parameterDeclarations
  | .parse =>
    let step := s.parse
    (step.1.map .nodes, step.2)

/-- The parser after requests one after another, whether they fail or not. -/
def performAll (s : Session) (requests : List Request) : Session :=
  requests.foldl (fun s request => (s.perform request).2) s

/-- Applying a rule that goes forward leaves the tokens and never moves back. -/
theorem follows_run {α : Type} {r : Rule α} {s : Session} (h : r.Forward s.tape.ahead) : (s.run r).2.tape.Follows s.tape :=
  Tape.follows_moveTo h

/-- Whatever a parser is asked for, its tape keeps its tokens and is not moved back, whether that fails or not. -/
theorem follows_perform (s : Session) (request : Request) : (s.perform request).2.tape.Follows s.tape := by
  cases request with
  | peek _ | previous => exact .refl _
  | advance => exact follows_run Rule.forward_skip
  | parameters opening | group opening => exact follows_run (Rule.forward_groupOf opening)
  | untilSemicolon => exact follows_run Rule.forward_value
  | expect text what => exact follows_run (Rule.forward_expectToken _ what)
  | statement => exact follows_run Rule.forward_statement
  | operand => exact follows_run Rule.forward_operand
  | expression => exact follows_run (Slice.forward_expression _)
  | arguments => exact follows_run (Slice.forward_arguments _)
  | parameterDeclarations => exact follows_run (Slice.forward_parameterDeclarations _)
  | parse =>
    -- A second request is refused, and the tape stays where it is.
    change s.parse.2.tape.Follows s.tape
    unfold parse
    split
    · exact .refl _
    · exact follows_run (s := { s with used := true }) (Slice.forward_program _)

/-- Whatever a parser is asked for one after another, its tape keeps its tokens and is not moved back. -/
theorem follows_performAll (s : Session) (requests : List Request) : (s.performAll requests).tape.Follows s.tape := by
  unfold performAll
  induction requests generalizing s with
  | nil => exact .refl _
  | cons request requests ih => exact (ih (s.perform request).2).trans (s.follows_perform request)

/-- The parser stands at a token of a list, and the list is what it reads. -/
structure Stands (tokens : List Token) (s : Session) : Prop where
  toList : s.tape.toList = tokens
  index_lt : s.tape.index < tokens.length
  current : tokens[s.tape.index]? = some s.tape.current

/-- A parser always stands at a token of its list. -/
theorem stands_toList (s : Session) : s.Stands s.tape.toList :=
  have hcurrent := s.tape.toList_getElem?_index
  ⟨rfl, (List.getElem?_eq_some_iff.mp hcurrent).1, hcurrent⟩

/-- A list that ends with the end of the input has a parser, which stands at its first token. -/
theorem exists_start {tokens : List Token} {last : Token} (hlast : tokens.getLast? = some last) (hend : last.isEof = true) :
    ∃ start, ofTokens? tokens = .ok start ∧ start.tape.toList = tokens := by
  have hslice : Slice.ofTokens? tokens = .ok ⟨tokens.dropLast, last.position⟩ := by
    rw [Slice.ofTokens?, hlast]
    exact if_pos hend
  refine ⟨⟨.ofSlice ⟨tokens.dropLast, last.position⟩, false⟩, ?_, Slice.toList_of_ofTokens? hslice⟩
  rw [ofTokens?, hslice]
  rfl

/-- A parser of a list that ends with the end of the input stands at a token of the list, whatever it has been asked for, in
whatever order and with whatever failures. What it is asked for next never moves it back, whether that fails or not, and
looking around leaves it where it is. -/
theorem stands_performAll {tokens : List Token} {last : Token} (hlast : tokens.getLast? = some last)
    (hend : last.isEof = true) :
    ∃ start, ofTokens? tokens = .ok start ∧ ∀ requests,
      let s := start.performAll requests
      s.Stands tokens ∧
        (∀ request, s.tape.index ≤ (s.perform request).2.tape.index) ∧
        (∀ more, s.tape.index ≤ (start.performAll (requests ++ more)).tape.index) ∧
        (∀ offset, (s.perform (.peek offset)).2 = s) ∧ (s.perform .previous).2 = s := by
  obtain ⟨start, hstart, htokens⟩ := exists_start hlast hend
  refine ⟨start, hstart, fun requests => ?_⟩
  intro s
  refine ⟨?_, fun request => (s.follows_perform request).index, fun more => ?_, fun _ => rfl, rfl⟩
  · have hstands := s.stands_toList
    rwa [(start.follows_performAll requests).toList, htokens] at hstands
  · have hall : start.performAll (requests ++ more) = s.performAll more := List.foldl_append
    rw [hall]
    exact (s.follows_performAll more).index

/-- A list with an end of input inside it, where a call is not closed. -/
theorem stands_unclosedCall :
    let tokens : List Token := [⟨.identifier "f", 1⟩, ⟨.character '(', 1⟩, .eof 2, ⟨.character ';', 2⟩, .eof 3]
    tokens.getLast? = some (.eof 3) ∧ (Token.eof 3).isEof = true ∧
      ∃ start, ofTokens? tokens = .ok start ∧ (start.performAll [.statement, .operand, .parse]).Stands tokens := by
  intro tokens
  have hlast : tokens.getLast? = some (Token.eof 3) := rfl
  have hend : (Token.eof 3).isEof = true := rfl
  obtain ⟨start, hstart, hall⟩ := stands_performAll hlast hend
  exact ⟨hlast, hend, start, hstart, (hall [.statement, .operand, .parse]).1⟩

/-- The statement fails at the end of input inside the list. Advancing stays at the last token. -/
example : let tokens : List Token := [⟨.identifier "f", 1⟩, ⟨.character '(', 1⟩, .eof 2, ⟨.character ';', 2⟩]
    let start : Session := ⟨.ofSlice ⟨tokens, 3⟩, false⟩
    (start.performAll [.statement]).tape.index = 2 ∧
      (start.performAll [.statement, .advance, .advance, .advance]).tape.index = 4 := ⟨rfl, rfl⟩

end Session

end TinyScript
