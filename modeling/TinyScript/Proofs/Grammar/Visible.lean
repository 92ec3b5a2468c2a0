import TinyScript.Proofs.Grammar.Exactness
import TinyScript.Proofs.Grammar.Forward

/-!
# What is read ends at the first end of input

Nothing behind the first end of input of a token list matters (`parseTokens_append_of_isEof`).

What a slice shows are its tokens up to the first end of input, which is its end (`Slice.visible`). A rule is nearsighted on a
slice if it comes to the same where it is given only what the slice shows (`Rule.Nearsighted`). A rule that passes a token or
looks further ahead is so where the tokens before do not end the input, and every rule asks for that first. The slices that are
cut out are then the same ones, so what reads them need not be looked at.
-/

namespace TinyScript

/-- A token that ends the input is the one at its place. -/
theorem Token.eq_eof {t : Token} (h : t.isEof = true) : t = .eof t.position := by
  obtain ⟨value, position⟩ := t
  rw [isEof_iff] at h
  rw [eof, ← h]

namespace Slice

/-- What the slice shows: its tokens before the first end of input, which is its end. -/
def visible (s : Slice) : Slice :=
  ⟨s.tokens.takeWhile (!·.isEof), ((s.tokens.dropWhile (!·.isEof)).headD (.eof s.stop)).position⟩

section Visible

variable {s : Slice} {t : Token} {tokens : List Token} {stop : Int}

theorem visible_of_isEof (h : t.isEof = true) : visible ⟨t :: tokens, stop⟩ = ⟨[], t.position⟩ := by
  simp [visible, h]

theorem visible_cons (h : t.isEof = false) :
    visible ⟨t :: tokens, stop⟩ = ⟨t :: (visible ⟨tokens, stop⟩).tokens, (visible ⟨tokens, stop⟩).stop⟩ := by
  simp [visible, h]

/-- Tokens that do not end the input are shown, and what is behind them is as by itself. -/
theorem visible_append {front back : List Token} (h : ∀ t ∈ front, t.isEof = false) :
    visible ⟨front ++ back, stop⟩ = ⟨front ++ (visible ⟨back, stop⟩).tokens, (visible ⟨back, stop⟩).stop⟩ := by
  induction front with
  | nil => rfl
  | cons t front ih =>
    obtain ⟨ht, hfront⟩ := List.forall_mem_cons.mp h
    rw [List.cons_append, visible_cons ht, ih hfront]
    rfl

/-- Nothing behind an end of input is shown. -/
theorem visible_append_of_isEof (h : t.isEof = true) (front back : List Token) :
    visible ⟨front ++ t :: back, stop⟩ = visible ⟨front, t.position⟩ := by
  induction front with
  | nil => exact visible_of_isEof h
  | cons u front ih =>
    cases hu : u.isEof with
    | false => rw [List.cons_append, visible_cons hu, visible_cons hu, ih]
    | true => rw [List.cons_append, visible_of_isEof hu, visible_of_isEof hu]

/-- Behind tokens that do not end the input a slice shows the rest of what it shows. -/
theorem visible_of_append {front back : List Token} (h : ∀ t ∈ front, t.isEof = false) (hs : front ++ back = s.tokens) :
    visible ⟨back, s.stop⟩ = ⟨back.takeWhile (!·.isEof), s.visible.stop⟩ := by
  have hshown : visible ⟨front ++ back, s.stop⟩ = _ := visible_append h
  rw [hs] at hshown
  rw [congrArg Slice.stop hshown]
  rfl

@[simp] theorem current_visible (s : Slice) : s.visible.current = s.current := by
  obtain ⟨tokens, stop⟩ := s
  cases tokens with
  | nil => rfl
  | cons t tokens =>
    cases ht : t.isEof with
    | false => rw [visible_cons ht, current_cons, current_cons]
    | true => rw [visible_of_isEof ht, current_nil, current_cons, ← Token.eq_eof ht]

@[simp] theorem atEnd_visible (s : Slice) : s.visible.atEnd = s.atEnd := by
  rw [atEnd, current_visible, atEnd]

theorem advance_visible (hs : s.atEnd = false) : s.visible.advance = s.advance.visible := by
  obtain ⟨t, tokens, stop, rfl, ht⟩ := exists_cons hs
  rw [visible_cons ht]
  rfl

theorem lookahead_succ (n : Nat) (s : Slice) : s.lookahead (n + 1) = s.advance.lookahead n := by
  rw [lookahead, lookahead, advance, List.drop_tail]

/-- The token behind one that does not end the input is shown. -/
theorem lookahead_visible {n : Nat} (hs : s.atEnd = false) (hn : s.advance.visible.lookahead n = s.advance.lookahead n) :
    s.visible.lookahead (n + 1) = s.lookahead (n + 1) := by
  rw [lookahead_succ, lookahead_succ, advance_visible hs, hn]

end Visible

end Slice

/-- The outcome with what is left as it shows. -/
def Outcome.visible {α : Type} : Outcome α → Outcome α
  | .ok a t => .ok a t.visible
  | .error e t => .error e t.visible

namespace Rule

/-- The rule comes to the same on what the slice shows. -/
def Nearsighted {α : Type} (r : Rule α) (s : Slice) : Prop := r s.visible = Outcome.visible (r s)

section Combinations

variable {α β : Type} {r : Rule α} {s : Slice}

/-- A sequence is nearsighted if the first rule is, and the second where the first leaves off. -/
theorem Nearsighted.bind {f : α → Rule β} (h : r.Nearsighted s) (hf : ∀ a t, r s = .ok a t → (f a).Nearsighted t) :
    (r >>= f).Nearsighted s := by
  unfold Nearsighted at h ⊢
  cases hr : r s with
  | ok a t =>
    rw [hr] at h
    rw [bind_ok hr, bind_ok h]
    exact hf a t hr
  | error e t =>
    rw [hr] at h
    rw [bind_error hr, bind_error h]
    rfl

theorem Nearsighted.map (f : α → β) (h : r.Nearsighted s) : (f <$> r).Nearsighted s := by
  unfold Nearsighted at h ⊢
  rw [map_apply, map_apply, h]
  cases r s <;> rfl

theorem Nearsighted.ite {c : Prop} [Decidable c] {r' : Rule α} (h : r.Nearsighted s) (h' : r'.Nearsighted s) :
    (if c then r else r').Nearsighted s := by
  split
  · exact h
  · exact h'

theorem nearsighted_pure (a : α) : (pure a : Rule α).Nearsighted s := rfl

theorem nearsighted_throw (e : ParseError) : (throw e : Rule α).Nearsighted s := rfl

theorem nearsighted_expected (what : String) : (expected what : Rule α).Nearsighted s := by
  rw [Nearsighted, expected, expected, Slice.current_visible]
  rfl

theorem nearsighted_within (inner : Slice) (r : Rule α) : (within inner r).Nearsighted s := by
  unfold Nearsighted within
  cases r inner <;> rfl

/-- Passing a token that does not end the input and going on is nearsighted if going on is. -/
theorem nearsighted_skip_bind {f : Unit → Rule β} (hs : s.atEnd = false) (h : (f ()).Nearsighted s.advance) :
    (skip >>= f).Nearsighted s := by
  refine Nearsighted.bind ?_ fun _ t ht => ?_
  · change EStateM.Result.ok () s.visible.advance = .ok () s.advance.visible
    rw [Slice.advance_visible hs]
  · cases ht
    exact h

end Combinations

section Cuts

variable {s : Slice}

/-- Passes a mark and gives what its token makes. -/
def passMark {α : Type} (mark : Char) (give : Token → α) (fault : Token → ParseError) : Rule α := fun s =>
  if s.current.isMark mark then .ok (give s.current) s.advance else .error (fault s.current) s

theorem nearsighted_passMark {α : Type} (mark : Char) (give : Token → α) (fault : Token → ParseError) :
    (passMark mark give fault).Nearsighted s := by
  unfold Nearsighted passMark
  rw [Slice.current_visible]
  split
  next hmark =>
    rw [Slice.advance_visible (Token.not_isEof_of_isMark hmark)]
    rfl
  next => rfl

theorem nearsighted_expect (mark : Char) (what : String) : (expect mark what).Nearsighted s :=
  nearsighted_passMark mark (fun _ => ()) (.unexpected what)

/-- A rule that passes a mark in a slice, and the same one in what the slice shows, is nearsighted. -/
theorem Nearsighted.of_passMark {α : Type} {r : Rule α} {mark : Char} {give : Token → α} {fault : Token → ParseError}
    {t : Slice} (h : r s = passMark mark give fault t) (h' : r s.visible = passMark mark give fault t.visible) :
    r.Nearsighted s := by
  rw [Nearsighted, h, h']
  exact nearsighted_passMark mark give fault

/-- The slice of tokens that have been divided off, which ends at the token that closed it. -/
def closedAt (inside : List Token) (closer : Token) : Slice := ⟨inside, closer.position⟩

/-- A group is cut out of what has been divided. -/
theorem group_eq_passMark (b : Bracket) (s : Slice) : (group b s : Outcome Slice) =
    passMark b.closing (closedAt (spanGroup b 0 s.tokens).1) (.unclosed b.opening.toString)
      ⟨(spanGroup b 0 s.tokens).2, s.stop⟩ := by
  unfold group passMark
  cases hafter : (spanGroup b 0 s.tokens).2 <;> simp only [hafter] <;> rfl

/-- A value is cut out of what has been divided. -/
theorem value_eq_passMark (s : Slice) : (value s : Outcome Slice) =
    passMark ';' (closedAt (s.advance.tokens.takeWhile (!endsValue ·))) .missingSemicolon
      ⟨s.advance.tokens.dropWhile (!endsValue ·), s.stop⟩ := by
  unfold value passMark Slice.advance
  cases hafter : s.tokens.tail.dropWhile (!endsValue ·) <;> simp only [hafter] <;> rfl

/-- The end of a group is found among the tokens that are shown. -/
theorem spanGroup_takeWhile (b : Bracket) (depth : Nat) (tokens : List Token) :
    spanGroup b depth (tokens.takeWhile (!·.isEof)) =
      ((spanGroup b depth tokens).1, (spanGroup b depth tokens).2.takeWhile (!·.isEof)) := by
  fun_induction spanGroup b depth tokens <;> simp_all [spanGroup]

/-- The end of a value is found among the tokens that are shown. -/
theorem span_endsValue_takeWhile (tokens : List Token) :
    (tokens.takeWhile (!·.isEof)).takeWhile (!endsValue ·) = tokens.takeWhile (!endsValue ·) ∧
      (tokens.takeWhile (!·.isEof)).dropWhile (!endsValue ·) = (tokens.dropWhile (!endsValue ·)).takeWhile (!·.isEof) := by
  induction tokens with
  | nil => exact ⟨rfl, rfl⟩
  | cons t tokens ih =>
    cases hend : t.isEof with
    | true => simp [endsValue, hend]
    | false => cases hends : endsValue t <;> simp [hend, hends, ih]

theorem nearsighted_group (b : Bracket) : (group b).Nearsighted s := by
  have hspan : spanGroup b 0 s.visible.tokens = _ := spanGroup_takeWhile b 0 s.tokens
  have hback := Slice.visible_of_append (not_isEof_of_mem_spanGroup b 0 s.tokens) (spanGroup_append b 0 s.tokens)
  refine .of_passMark (group_eq_passMark b s) ((group_eq_passMark b s.visible).trans ?_)
  rw [hspan, hback]

theorem nearsighted_value (hs : s.atEnd = false) : value.Nearsighted s := by
  obtain ⟨hinside, hafter⟩ := span_endsValue_takeWhile s.advance.tokens
  have hahead : s.visible.advance.tokens = s.advance.tokens.takeWhile (!·.isEof) :=
    congrArg Slice.tokens (Slice.advance_visible hs)
  have hstop : s.advance.visible.stop = s.visible.stop := (congrArg Slice.stop (Slice.advance_visible hs)).symm
  have hback := Slice.visible_of_append (not_isEof_of_mem_takeWhile s.advance.tokens) List.takeWhile_append_dropWhile
  refine .of_passMark (value_eq_passMark s) ((value_eq_passMark s.visible).trans ?_)
  rw [hahead, hinside, hafter, ← hstop]
  exact congrArg (passMark _ _ _) hback.symm

theorem nearsighted_enclosed (b : Bracket) (what : String) : (enclosed b what).Nearsighted s :=
  (nearsighted_expect _ _).bind fun _ _ _ => nearsighted_group b

theorem nearsighted_assigned (hs : s.atEnd = false) : assigned.Nearsighted s := by
  refine (nearsighted_value hs).bind fun inner _ _ => ?_
  exact .ite (nearsighted_throw _) (nearsighted_within inner _)

theorem nearsighted_conditionalCut (hs : s.atEnd = false) : conditionalCut.Nearsighted s := by
  refine nearsighted_skip_bind hs ((nearsighted_enclosed _ _).bind fun inner _ _ => ?_)
  refine (nearsighted_within inner _).bind fun _ _ _ => ?_
  exact .ite (nearsighted_throw _) ((nearsighted_enclosed _ _).map _)

variable (type name : String) (token : Token)

theorem nearsighted_functionCut (hs : s.atEnd = false) (hs' : s.advance.atEnd = false) :
    (functionCut type name).Nearsighted s := by
  refine nearsighted_skip_bind hs (nearsighted_skip_bind hs' ((nearsighted_enclosed _ _).bind fun inner _ _ => ?_))
  exact (nearsighted_within inner _).bind fun _ _ _ => (nearsighted_enclosed _ _).map _

theorem nearsighted_declaration (hs : s.atEnd = false) (hs' : s.advance.atEnd = false)
    (hs'' : s.advance.advance.atEnd = false) : (declaration type name token).Nearsighted s := by
  refine nearsighted_skip_bind hs (nearsighted_skip_bind hs' ?_)
  exact (nearsighted_assigned hs'').bind fun _ _ _ => nearsighted_pure _

theorem nearsighted_reassignment (hs : s.atEnd = false) (hs' : s.advance.atEnd = false) :
    (reassignment name token).Nearsighted s :=
  nearsighted_skip_bind hs ((nearsighted_assigned hs').bind fun _ _ _ => nearsighted_pure _)

theorem nearsighted_callStatement (hs : s.atEnd = false) (hs' : s.advance.atEnd = false) :
    (callStatement name).Nearsighted s := by
  refine nearsighted_skip_bind hs (nearsighted_skip_bind hs' ((nearsighted_group _).bind fun inner _ _ => ?_))
  exact (nearsighted_within inner _).bind fun _ _ _ => (nearsighted_expect _ _).bind fun _ _ _ => nearsighted_pure _

/-- Which statement it is, is told by tokens of which all before the last do not end the input. -/
theorem nearsighted_statementCut (s : Slice) : statementCut.Nearsighted s := by
  unfold Nearsighted statementCut
  rw [Slice.current_visible]
  split
  next => exact nearsighted_expected _
  next first hfirst =>
    have hs : s.atEnd = false := not_isEof_of_name? hfirst
    have hnext : s.visible.lookahead 1 = s.lookahead 1 := Slice.lookahead_visible hs (Slice.current_visible _)
    have hahead : s.lookahead 1 = s.advance.current := Slice.lookahead_succ 0 s
    rw [hnext]
    dsimp only
    split
    next => exact nearsighted_conditionalCut hs
    next =>
      split
      next second hsecond =>
        have hs' : s.advance.atEnd = false := not_isEof_of_name? (hahead ▸ hsecond)
        have hafter : s.visible.lookahead 2 = s.lookahead 2 :=
          Slice.lookahead_visible hs (Slice.lookahead_visible hs' (Slice.current_visible _))
        rw [hafter]
        split
        next => exact nearsighted_functionCut _ _ hs hs'
        next =>
          split
          next hequals =>
            have hequals : s.advance.advance.current.isMark '=' = true := by
              rwa [Slice.lookahead_succ, Slice.lookahead_succ] at hequals
            exact nearsighted_declaration _ _ _ hs hs' (Token.not_isEof_of_isMark hequals)
          next => rfl
      next =>
        split
        next hequals => exact nearsighted_reassignment _ _ hs (Token.not_isEof_of_isMark (hahead ▸ hequals))
        next =>
          split
          next hopen => exact nearsighted_callStatement _ hs (Token.not_isEof_of_isMark (hahead ▸ hopen))
          next => rfl

/-- A statement is nearsighted, as its body is a slice of its own. -/
theorem nearsighted_statement (s : Slice) : statement.Nearsighted s := by
  have hcut : statementCut s.visible = _ := nearsighted_statementCut s
  unfold Nearsighted statement
  rw [hcut]
  cases statementCut s with
  | error e t => rfl
  | ok cut t =>
    dsimp only [Outcome.visible]
    cases Slice.statementNode cut <;> rfl

end Cuts

end Rule

namespace Slice

/-- Statements are read up to the first end of input. -/
theorem nearsighted_program (s : Slice) : Rule.Nearsighted program s := by
  induction s using shorter_induction with
  | h s ih =>
    unfold Rule.Nearsighted
    rw [program_eq, program_eq, atEnd_visible]
    split
    · rfl
    · exact (Rule.nearsighted_statement s).bind fun _ t ht => .map _ (ih t (Rule.length_lt_of_statement ht))

/-- A slice is parsed as what it shows. -/
theorem parse_visible (s : Slice) : s.visible.parse = s.parse := by
  have hprogram : program s.visible = _ := nearsighted_program s
  rw [parse, hprogram, parse]
  cases program s <;> rfl

end Slice

/-- A token list that goes on behind an end of input, and ends with one again, is parsed as if it ended there: as the same
nodes, or with the same error about the same token. -/
theorem parseTokens_append_of_isEof (tokens rest : List Token) (e : Token) (he : e.isEof = true)
    (hrest : ∀ last ∈ rest.getLast?, last.isEof = true) :
    parseTokens (tokens ++ [e] ++ rest) = parseTokens (tokens ++ [e]) := by
  rcases List.eq_nil_or_concat rest with rfl | ⟨front, last, rfl⟩
  · rw [List.append_nil]
  · rw [List.concat_eq_append] at hrest ⊢
    have hlast : last.isEof = true := hrest last (by simp)
    have hvisible : Slice.visible ⟨tokens ++ [e] ++ front, last.position⟩ = Slice.visible ⟨tokens, e.position⟩ := by
      rw [List.append_assoc, List.singleton_append, Slice.visible_append_of_isEof he]
    rw [← List.append_assoc, parseTokens_append_eof _ hlast, parseTokens_append_eof _ he, ← Slice.parse_visible, hvisible,
      Slice.parse_visible]

/-- The semicolon of `x = 1` is missing where the input ends first, whatever stands behind that. -/
theorem parseTokens_append_of_isEof_semicolon :
    (Token.eof 6).isEof = true ∧ (∀ last ∈ [⟨.character ';', 7⟩, Token.eof 8].getLast?, last.isEof = true) ∧
      parseTokens ([⟨.identifier "x", 1⟩, ⟨.character '=', 3⟩, ⟨.integer 1, 5⟩] ++ [.eof 6] ++ [⟨.character ';', 7⟩, .eof 8]) =
        .error (.grammatical (.missingSemicolon (.eof 6))) := by
  have hrest : ∀ last ∈ [⟨.character ';', 7⟩, Token.eof 8].getLast?, last.isEof = true := by
    intro last hlast
    cases hlast
    rfl
  refine ⟨rfl, hrest, (parseTokens_append_of_isEof _ _ (.eof 6) rfl hrest).trans ?_⟩
  rw [parseTokens_append_eof _ rfl, Slice.parse, Slice.program_of_cut_error rfl rfl]
  rfl

end TinyScript
