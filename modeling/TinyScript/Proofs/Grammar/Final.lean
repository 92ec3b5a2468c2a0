import TinyScript.Proofs.Grammar.Exactness
import TinyScript.Proofs.Grammar.Step

/-!
# Errors that are final

An error at a token that does not end the input is final: whatever is written behind the tokens, they fail with that error
(`parseTokens_final`).

A rule is settled on a slice if more tokens behind the slice change nothing, unless the rule fails there at an end of input
(`Rule.Settled`). Every rule that statements are cut out with is settled, since what it looks at is no end of input or is
what it fails at. Reading a program is not, for it goes on behind the slice, but where it fails it has cut out statements
and comes to one that fails.
-/

namespace TinyScript

/-- The slice with more tokens behind its own, which ends elsewhere. -/
def Slice.extended (s : Slice) (more : List Token) (stop : Int) : Slice := ⟨s.tokens ++ more, stop⟩

/-- The outcome with more tokens behind what is left. -/
def Outcome.extended {α : Type} (more : List Token) (stop : Int) : Outcome α → Outcome α
  | .ok a t => .ok a (t.extended more stop)
  | .error e t => .error e (t.extended more stop)

/-- The outcome is a result, or an error at a token that does not end the input. -/
def Outcome.Decided {α : Type} : Outcome α → Prop
  | .ok _ _ => True
  | .error e _ => e.code = "P001"

/-- An error at an unexpected token is of this code where the token does not end the input. -/
theorem ParseError.code_unexpected_iff {what : String} {found : Token} :
    (ParseError.unexpected what found).code = "P001" ↔ found.isEof = false := by
  cases hend : found.isEof <;> simp [ParseError.code, hend]

namespace Slice

variable {s : Slice} (more : List Token) (stop : Int)

/-- A token ahead that does not end the input is ahead with more tokens, too. -/
theorem lookahead_extended {n : Nat} (h : (s.lookahead n).isEof = false) :
    (s.extended more stop).lookahead n = s.lookahead n := by
  unfold lookahead extended at *
  rw [List.drop_append]
  cases hdrop : s.tokens.drop n with
  | nil =>
    rw [hdrop] at h
    cases h
  | cons t rest => rfl

theorem current_extended (h : s.current.isEof = false) : (s.extended more stop).current = s.current :=
  lookahead_extended more stop h

theorem atEnd_extended (h : s.atEnd = false) : (s.extended more stop).atEnd = false := by
  rw [atEnd, current_extended more stop h]
  exact h

/-- Away from the end passing a token is the same with more tokens. -/
theorem advance_extended (h : s.atEnd = false) : (s.extended more stop).advance = s.advance.extended more stop := by
  obtain ⟨t, tokens, stop', rfl, -⟩ := exists_cons h
  rfl

end Slice

namespace Rule

/-- The rule comes to the same with more tokens behind the slice, unless it fails there at an end of input. -/
def Settled {α : Type} (r : Rule α) (s : Slice) : Prop :=
  Outcome.Decided (r s) → ∀ more stop, r (s.extended more stop) = Outcome.extended more stop (r s)

section Settled

variable {α β : Type} {r : Rule α} {s : Slice}

/-- A sequence is settled if the first rule is, and the second where the first leaves off. -/
theorem Settled.bind {f : α → Rule β} (h : r.Settled s) (hf : ∀ a t, r s = .ok a t → (f a).Settled t) :
    (r >>= f).Settled s := by
  intro hdecided more stop
  cases hr : r s with
  | ok a t =>
    have hmore := h (by rw [hr]; trivial) more stop
    rw [hr] at hmore
    rw [bind_ok hr] at hdecided ⊢
    rw [bind_ok hmore]
    exact hf a t hr hdecided more stop
  | error e t =>
    rw [bind_error hr] at hdecided ⊢
    have hmore := h (by rw [hr]; exact hdecided) more stop
    rw [hr] at hmore
    rw [bind_error hmore]
    rfl

theorem Settled.map (f : α → β) (h : r.Settled s) : (f <$> r).Settled s := by
  intro hdecided more stop
  rw [map_apply] at hdecided ⊢
  rw [map_apply, h (by cases hr : r s <;> rw [hr] at hdecided <;> exact hdecided)]
  cases r s <;> rfl

/-- A choice of rules is a choice of what they come to. -/
theorem ite_run {c : Prop} [Decidable c] (r r' : Rule α) (s : Slice) : (if c then r else r') s = if c then r s else r' s := by
  split <;> rfl

/-- A choice is settled if each way is in its own case. -/
theorem Settled.ite {c : Prop} [Decidable c] {r' : Rule α} (h : c → r.Settled s) (h' : ¬ c → r'.Settled s) :
    (if c then r else r').Settled s := by
  split
  next hc => exact h hc
  next hc => exact h' hc

/-- A rule that comes to the same as a settled one, with more tokens and without, is settled. -/
theorem Settled.congr {r' : Rule α} (heq : r s = r' s) (hmore : ∀ more stop, r (s.extended more stop) = r' (s.extended more stop))
    (h : r'.Settled s) : r.Settled s := by
  intro hdecided more stop
  rw [heq] at hdecided ⊢
  rw [hmore]
  exact h hdecided more stop

theorem settled_pure (a : α) : (pure a : Rule α).Settled s := fun _ _ _ => rfl

theorem settled_throw (e : ParseError) : (throw e : Rule α).Settled s := fun _ _ _ => rfl

/-- A slice that is read by itself is the same whatever follows the outer one. -/
theorem settled_within (inner : Slice) : (within inner r).Settled s := by
  intro _ more stop
  unfold within
  cases r inner <;> rfl

theorem settled_skip (h : s.atEnd = false) : skip.Settled s := by
  intro _ more stop
  change EStateM.Result.ok () (s.extended more stop).advance = .ok () (s.advance.extended more stop)
  rw [Slice.advance_extended more stop h]

/-- Passing a token and going on is settled if going on is. -/
theorem settled_skip_bind {f : Unit → Rule β} {t : Token} {tokens : List Token} {stop : Int} (ht : t.isEof = false)
    (h : (f ()).Settled ⟨tokens, stop⟩) : (skip >>= f).Settled ⟨t :: tokens, stop⟩ := by
  refine Settled.bind (settled_skip (s := ⟨t :: tokens, stop⟩) ht) fun _ u hu => ?_
  cases hu
  exact h

theorem settled_expect (mark : Char) (what : String) : (expect mark what).Settled s := by
  intro hdecided more stop
  have hcurrent : s.current.isEof = false := by
    unfold expect expectToken at hdecided
    split at hdecided
    next hmark => exact Token.not_isEof_of_isMark hmark
    next => exact ParseError.code_unexpected_iff.mp hdecided
  unfold expect expectToken
  rw [Slice.current_extended more stop hcurrent, Slice.advance_extended more stop hcurrent]
  split <;> rfl

/-- Where a group has ended, its tokens are divided off in the same way before more tokens. -/
theorem spanGroup_append_of_ne_nil {b : Bracket} {depth : Nat} {tokens : List Token}
    (h : (spanGroup b depth tokens).2 ≠ []) (more : List Token) :
    spanGroup b depth (tokens ++ more) = ((spanGroup b depth tokens).1, (spanGroup b depth tokens).2 ++ more) := by
  fun_induction spanGroup b depth tokens <;> simp_all [spanGroup]

theorem settled_group (b : Bracket) : (group b).Settled s := by
  intro hdecided more stop
  unfold group at hdecided ⊢
  cases hafter : (spanGroup b 0 s.tokens).2 with
  | nil =>
    simp only [hafter] at hdecided
    exact absurd hdecided (by simp [Outcome.Decided, ParseError.code])
  | cons t rest =>
    have hspan := spanGroup_append_of_ne_nil (by rw [hafter]; exact List.cons_ne_nil t rest) more
    simp only [Slice.extended, hspan, hafter, List.cons_append] at hdecided ⊢
    split
    next => rfl
    next hclosing =>
      rw [if_neg hclosing] at hdecided
      exact absurd hdecided (by simp [Outcome.Decided, ParseError.code])

theorem settled_value : value.Settled s := by
  intro hdecided more stop
  unfold value at hdecided ⊢
  dsimp only at hdecided
  cases hafter : s.tokens.tail.dropWhile (!endsValue ·) with
  | nil =>
    simp only [hafter] at hdecided
    exact absurd hdecided (by simp [Outcome.Decided, ParseError.code])
  | cons t rest =>
    have hne : s.tokens ≠ [] := by
      intro hnil
      rw [hnil] at hafter
      cases hafter
    have hlength : (s.tokens.tail.takeWhile (!endsValue ·)).length ≠ s.tokens.tail.length := by
      have hsplit := congrArg List.length (List.takeWhile_append_dropWhile (p := (!endsValue ·)) (l := s.tokens.tail))
      rw [hafter, List.length_append, List.length_cons] at hsplit
      omega
    simp only [Slice.extended, List.tail_append_of_ne_nil hne, List.takeWhile_append, if_neg hlength, List.dropWhile_append,
      hafter, List.isEmpty_cons, Bool.false_eq_true, if_false, List.cons_append] at hdecided ⊢
    split
    next => rfl
    next hsemicolon =>
      rw [if_neg hsemicolon] at hdecided
      exact absurd hdecided (by simp [Outcome.Decided, ParseError.code])

theorem settled_enclosed (b : Bracket) (what : String) : (enclosed b what).Settled s :=
  (settled_expect _ _).bind fun _ _ _ => settled_group b

theorem settled_assigned : assigned.Settled s := by
  refine settled_value.bind fun inner _ _ => ?_
  exact Settled.ite (fun _ => settled_throw _) fun _ => settled_within inner

end Settled

/-! ## Statements -/

section Cuts

variable {first second : Token} {tokens : List Token} {stop : Int}

theorem settled_conditionalCut (hfirst : first.isEof = false) : conditionalCut.Settled ⟨first :: tokens, stop⟩ := by
  refine settled_skip_bind hfirst ((settled_enclosed _ _).bind fun inner _ _ => ?_)
  refine (settled_within inner).bind fun _ _ _ => ?_
  exact Settled.ite (fun _ => settled_throw _) fun _ => (settled_enclosed _ _).map _

theorem settled_functionCut (hfirst : first.isEof = false) (hsecond : second.isEof = false) (type name : String) :
    (functionCut type name).Settled ⟨first :: second :: tokens, stop⟩ := by
  refine settled_skip_bind hfirst (settled_skip_bind hsecond ((settled_enclosed _ _).bind fun inner _ _ => ?_))
  exact (settled_within inner).bind fun _ _ _ => (settled_enclosed _ _).map _

theorem settled_declaration (hfirst : first.isEof = false) (hsecond : second.isEof = false) (type name : String)
    (token : Token) : (declaration type name token).Settled ⟨first :: second :: tokens, stop⟩ :=
  settled_skip_bind hfirst (settled_skip_bind hsecond (settled_assigned.bind fun _ _ _ => settled_pure _))

theorem settled_reassignment (hfirst : first.isEof = false) (name : String) (token : Token) :
    (reassignment name token).Settled ⟨first :: tokens, stop⟩ :=
  settled_skip_bind hfirst (settled_assigned.bind fun _ _ _ => settled_pure _)

theorem settled_callStatement (hfirst : first.isEof = false) (hsecond : second.isEof = false) (name : String) :
    (callStatement name).Settled ⟨first :: second :: tokens, stop⟩ := by
  refine settled_skip_bind hfirst (settled_skip_bind hsecond ((settled_group _).bind fun inner _ _ => ?_))
  exact (settled_within inner).bind fun _ _ _ => (settled_expect _ _).bind fun _ _ _ => settled_pure _

end Cuts

/-- An end of input is no name. -/
theorem name?_of_isEof {t : Token} (h : t.isEof = true) : t.name? = none :=
  Option.eq_none_iff_forall_ne_some.mpr fun _ hname => by simp [not_isEof_of_name? hname] at h

/-- An end of input is no mark. -/
theorem isMark_of_isEof {t : Token} (h : t.isEof = true) (mark : Char) : t.isMark mark = false :=
  Bool.eq_false_iff.mpr fun hmark => by simp [Token.not_isEof_of_isMark hmark] at h

/-- A failure at an end of input is undecided. -/
theorem not_decided_of_isEof {α : Type} {t : Token} (h : t.isEof = true) (what : String) (s : Slice) :
    ¬ Outcome.Decided (.error (.unexpected what t) s : Outcome α) := fun hcode => by
  simp [ParseError.code_unexpected_iff.mp hcode] at h

section Choices

variable {first second : Token} {tokens : List Token} {stop : Int} {type name : String}

/-- A statement that starts with two names is told by the token behind them, or refused. -/
theorem settled_statementCut_names (hfirst : first.name? = some type) (hsecond : second.name? = some name) :
    statementCut.Settled ⟨first :: second :: tokens, stop⟩ := by
  have ht : first.isEof = false := not_isEof_of_name? hfirst
  have hu : second.isEof = false := not_isEof_of_name? hsecond
  by_cases hend : (Slice.current ⟨tokens, stop⟩).isEof = true
  · intro hdecided
    simp only [statementCut, Slice.current_cons, hfirst, Slice.lookahead_succ_cons, Slice.lookahead_zero, hsecond,
      Token.isMark_of_name? hsecond, isMark_of_isEof hend, Bool.false_eq_true, and_false, if_false] at hdecided
    exact absurd hdecided (not_decided_of_isEof hend _ _)
  · obtain ⟨after, rest, stop', hrest, -⟩ := Slice.exists_cons (Bool.eq_false_iff.mpr hend)
    cases hrest
    have hcut : ∀ rest stop, statementCut ⟨first :: second :: after :: rest, stop⟩ =
        (if after.isMark '(' then functionCut type name
          else if after.isMark '=' then declaration type name second
          else throw (.unexpected "'(' or '='" after)) ⟨first :: second :: after :: rest, stop⟩ := fun rest stop => by
      rw [statementCut_names hfirst hsecond, ite_run, ite_run]
      rfl
    refine Settled.congr (hcut rest stop) (fun more stop' => hcut (rest ++ more) stop') ?_
    exact Settled.ite (fun _ => settled_functionCut ht hu type name) fun _ =>
      Settled.ite (fun _ => settled_declaration ht hu type name second) fun _ => settled_throw _

/-- A statement that starts with a name is told by the token behind it, or refused, unless that is a name, too. -/
theorem settled_statementCut_name (hfirst : first.name? = some name) (hend : second.isEof = false) :
    statementCut.Settled ⟨first :: second :: tokens, stop⟩ := by
  have ht : first.isEof = false := not_isEof_of_name? hfirst
  cases hsecond : second.name? with
  | some name' => exact settled_statementCut_names hfirst hsecond
  | none =>
    have hcut : ∀ tokens stop, statementCut ⟨first :: second :: tokens, stop⟩ =
        (if name = conditionalWord ∧ second.isMark '(' = true then conditionalCut
          else if second.isMark '=' then reassignment name first
          else if second.isMark '(' then callStatement name
          else throw (.unexpected "'=', '(' or an identifier" second)) ⟨first :: second :: tokens, stop⟩ := by
      intro tokens stop
      simp only [statementCut, Slice.current_cons, hfirst, Slice.lookahead_succ_cons, Slice.lookahead_zero, hsecond, ite_run]
      rfl
    refine Settled.congr (hcut tokens stop) (fun more stop' => hcut (tokens ++ more) stop') ?_
    exact Settled.ite (fun _ => settled_conditionalCut ht) fun _ =>
      Settled.ite (fun _ => settled_reassignment ht name first) fun _ =>
        Settled.ite (fun _ => settled_callStatement ht hend name) fun _ => settled_throw _

end Choices

/-- A statement is told by tokens that do not end the input, or refused. -/
theorem settled_statementCut (s : Slice) : statementCut.Settled s := by
  cases hfirst : s.current.name? with
  | none =>
    have hcut : ∀ s : Slice, s.current.name? = none → statementCut s = expected "a statement" s := fun s h => by
      simp only [statementCut, h]
    intro hdecided more stop
    rw [hcut s hfirst] at hdecided ⊢
    have hcurrent := Slice.current_extended more stop (ParseError.code_unexpected_iff.mp hdecided)
    rw [hcut _ (hcurrent ▸ hfirst), expected, hcurrent]
    rfl
  | some name =>
    obtain ⟨first, tokens, stop, rfl, -⟩ := Slice.exists_cons (not_isEof_of_name? hfirst)
    rw [Slice.current_cons] at hfirst
    by_cases hend : (Slice.current ⟨tokens, stop⟩).isEof = true
    · intro hdecided
      simp only [statementCut, Slice.current_cons, hfirst, Slice.lookahead_succ_cons, Slice.lookahead_zero,
        isMark_of_isEof hend, name?_of_isEof hend, Bool.false_eq_true, and_false, if_false] at hdecided
      exact absurd hdecided (not_decided_of_isEof hend _ _)
    · obtain ⟨second, tokens, stop', hrest, hsecond⟩ := Slice.exists_cons (Bool.eq_false_iff.mpr hend)
      cases hrest
      exact settled_statementCut_name hfirst hsecond

/-- Reading a statement is settled, as its body is a slice of its own. -/
theorem settled_statement (s : Slice) : statement.Settled s := by
  intro hdecided more stop
  unfold statement at hdecided ⊢
  cases hcut : statementCut s with
  | error e t =>
    rw [hcut] at hdecided
    have hmore := settled_statementCut s (by rw [hcut]; exact hdecided) more stop
    rw [hmore, hcut]
    rfl
  | ok cut t =>
    have hmore := settled_statementCut s (by rw [hcut]; trivial) more stop
    rw [hmore, hcut]
    dsimp only [Outcome.extended]
    cases Slice.statementNode cut <;> rfl

end Rule

namespace Slice

/-- A program that fails at a token fails so with more tokens behind it. -/
theorem program_extended {s t : Slice} {e : ParseError} (h : program s = .error e t) (hcode : e.code = "P001")
    (more : List Token) (stop : Int) : program (s.extended more stop) = .error e (t.extended more stop) := by
  -- On the tokens ahead, of which a statement passes some.
  induction hlength : s.tokens.length using Nat.strongRecOn generalizing s with
  | _ length ih =>
    subst hlength
    rw [program_eq] at h ⊢
    split at h
    next => cases h
    next hs =>
      have hs : s.atEnd = false := by simpa using hs
      rw [if_neg (by simp [atEnd_extended more stop hs])]
      cases hstatement : Rule.statement s with
      | error e' t' =>
        rw [Rule.bind_error hstatement] at h
        cases h
        have hmore := Rule.settled_statement s (by rw [hstatement]; exact hcode) more stop
        rw [hstatement] at hmore
        exact Rule.bind_error hmore
      | ok node u =>
        have hmore := Rule.settled_statement s (by rw [hstatement]; trivial) more stop
        rw [hstatement] at hmore
        rw [Rule.bind_ok hstatement] at h
        replace h := (Rule.map_apply (node :: ·) program u).symm.trans h
        refine (Rule.bind_ok hmore).trans ((Rule.map_apply (node :: ·) program _).trans ?_)
        cases hrest : program u with
        | ok nodes v =>
          rw [hrest] at h
          cases h
        | error e' t' =>
          rw [hrest] at h
          cases h
          rw [ih _ (Rule.length_lt_of_statement hstatement) hrest rfl]

end Slice

/-- An error at a token that does not end the input stays the same error, about the same token at the same place, whatever
tokens the program goes on with. -/
theorem parseTokens_final (tokens more : List Token) (last last' : Token) (e : ParseError) (hlast : last.isEof = true)
    (hlast' : last'.isEof = true) (hcode : e.code = "P001") (h : parseTokens (tokens ++ [last]) = .error (.grammatical e)) :
    parseTokens (tokens ++ more ++ [last']) = .error (.grammatical e) := by
  rw [parseTokens_append_eof tokens hlast] at h
  rw [parseTokens_append_eof (tokens ++ more) hlast']
  cases hparse : Slice.parse ⟨tokens, last.position⟩ with
  | ok nodes =>
    rw [hparse] at h
    cases h
  | error e' =>
    rw [hparse] at h
    obtain rfl : e' = e := Failure.grammatical.inj (Except.error.inj h)
    obtain ⟨t, hprogram⟩ := Slice.program_of_parse_error hparse
    have hmore := Slice.program_extended hprogram hcode more last'.position
    rw [Slice.extended] at hmore
    rw [Slice.parse, hmore]
    rfl

/-- The error at the bracket of `x )` is there before `= 1 ;`, too. -/
theorem parseTokens_final_bracket :
    parseTokens ([⟨.identifier "x", 1⟩, ⟨.character ')', 2⟩] ++ [.eof 3]) =
        .error (.grammatical (.unexpected "'=', '(' or an identifier" ⟨.character ')', 2⟩)) ∧
      parseTokens ([⟨.identifier "x", 1⟩, ⟨.character ')', 2⟩] ++
          [⟨.character '=', 4⟩, ⟨.integer 1, 7⟩, ⟨.character ';', 7⟩] ++ [.eof 8]) =
        .error (.grammatical (.unexpected "'=', '(' or an identifier" ⟨.character ')', 2⟩)) := by
  have hparse : parseTokens ([⟨.identifier "x", 1⟩, ⟨.character ')', 2⟩] ++ [.eof 3]) =
      .error (.grammatical (.unexpected "'=', '(' or an identifier" ⟨.character ')', 2⟩)) := by
    rw [parseTokens_append_eof _ rfl, Slice.parse, Slice.program_of_cut_error rfl rfl]
    rfl
  exact ⟨hparse, parseTokens_final _ _ _ _ _ rfl rfl rfl hparse⟩

end TinyScript
