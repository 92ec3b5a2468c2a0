import TinyScript.Proofs.Grammar.Exactness
import TinyScript.Tree.Guard

/-!
# Guards that hold

An operand stands for a variable exactly if it is one token in round brackets, however many of them
(`derives_operand_var_iff`): a pair of round brackets around one operand vanishes, and nothing else stands for a variable.
So a guard that is parsed holds exactly if it is an integer literal other than zero, or `true`, in round brackets
(`guardHolds_of_parseTokens`).
-/

namespace TinyScript

/-- The token is a literal that makes a guard hold: `true`, or an integer other than zero. -/
def Token.IsTrueLiteral (t : Token) : Prop := t.value = .boolean true ∨ ∃ n, n ≠ 0 ∧ t.value = .integer n

/-- The tokens are `n` opening round brackets, a token, and `n` closing ones. -/
def Bracketed (n : Nat) (t : Token) (tokens : List Token) : Prop :=
  ∃ opens closes, tokens = opens ++ t :: closes ∧ opens.length = n ∧ closes.length = n ∧
    (∀ o ∈ opens, o.isMark '(' = true) ∧ ∀ c ∈ closes, c.isMark ')' = true

namespace Bracketed

variable {n : Nat} {t : Token} {tokens : List Token}

/-- Without brackets there is the token alone. -/
theorem zero_iff : Bracketed 0 t tokens ↔ tokens = [t] := by
  constructor
  · rintro ⟨opens, closes, rfl, hopens, hcloses, -, -⟩
    rw [List.length_eq_zero_iff.mp hopens, List.length_eq_zero_iff.mp hcloses, List.nil_append]
  · rintro rfl
    exact ⟨[], [], rfl, rfl, rfl, List.forall_mem_nil _, List.forall_mem_nil _⟩

/-- One more pair of brackets is around the others. -/
theorem succ_iff : Bracketed (n + 1) t tokens ↔
    ∃ o c inner, Bracket.round.Encloses o c ∧ Bracketed n t inner ∧ tokens = o :: (inner ++ [c]) := by
  constructor
  · rintro ⟨opens, closes, rfl, hopens, hcloses, hround, hround'⟩
    obtain ⟨o, opens, rfl⟩ := List.exists_cons_of_length_eq_add_one hopens
    obtain ⟨closes, c, rfl⟩ := (List.eq_nil_or_concat closes).resolve_left fun hnil => by simp [hnil] at hcloses
    rw [List.concat_eq_append] at hcloses hround' ⊢
    refine ⟨o, c, opens ++ t :: closes, ⟨hround o List.mem_cons_self, hround' c (by simp)⟩, ?_, by simp⟩
    exact ⟨opens, closes, rfl, by simpa using hopens, by simpa using hcloses,
      fun o ho => hround o (List.mem_cons_of_mem _ ho), fun c hc => hround' c (List.mem_append_left _ hc)⟩
  · rintro ⟨o, c, inner, ⟨ho, hc⟩, ⟨opens, closes, rfl, hopens, hcloses, hround, hround'⟩, rfl⟩
    refine ⟨o :: opens, closes ++ [c], by simp, by simp [hopens], by simp [hcloses], ?_, ?_⟩
    · exact List.forall_mem_cons.mpr ⟨ho, hround⟩
    · exact List.forall_mem_append.mpr ⟨hround', List.forall_mem_singleton.mpr hc⟩

end Bracketed

/-! ## Operands that stand for a variable -/

/-- A group is a variable only if it is that variable alone. -/
theorem Node.grouped_eq_var_iff {nodes : List Node} {v : Var} : grouped nodes = .var v ↔ nodes = [.var v] := by
  unfold grouped
  split
  next node => simp
  next h =>
    constructor
    · intro heq
      cases heq
    · intro heq
      exact absurd heq (h _)

/-- Operands stand for the same nodes however they are derived, for they are read as these. -/
theorem Derives.operands_unique {tokens : List Token} {nodes nodes' : List Node}
    (h : Derives (.operands true) tokens nodes) (h' : Derives (.operands true) tokens nodes') : nodes = nodes' := by
  have hread : Slice.expression ⟨tokens, 0⟩ = .ok nodes ⟨[], 0⟩ := h.read 0
  have hread' : Slice.expression ⟨tokens, 0⟩ = .ok nodes' ⟨[], 0⟩ := h'.read 0
  rw [hread] at hread'
  exact (EStateM.Result.ok.inj hread').1

/-- Operands that stand for one node are one operand. -/
theorem derives_singleton_iff {tokens : List Token} {node : Node} :
    Derives (.operands true) tokens [node] ↔ Derives .operand tokens [node] := by
  constructor
  · intro h
    cases h with
    | moreOperands hoperand _ _ hnone =>
      rw [hnone.tokens_eq_nil, List.append_nil]
      exact hoperand
  · exact fun h => h.oneOperand nofun

/-- An operand that is a variable is a token alone, or it is in round brackets around operands that are that variable. -/
theorem derives_var_iff {tokens : List Token} {v : Var} : Derives .operand tokens [.var v] ↔
    (∃ t, t.StandsAlone ∧ v = .ofToken t ∧ tokens = [t]) ∨
      ∃ o c inner, Bracket.round.Encloses o c ∧ Derives .operand inner [.var v] ∧ tokens = o :: (inner ++ [c]) := by
  constructor
  · intro h
    generalize hnodes : [Node.var v] = nodes at h
    cases h with
    | call | square => cases hnodes
    | @round o c inner nodes hoc hinner =>
      obtain rfl : nodes = [.var v] := Node.grouped_eq_var_iff.mp (List.singleton_inj.mp hnodes).symm
      exact Or.inr ⟨o, c, inner, hoc, derives_singleton_iff.mp hinner, rfl⟩
    | @leaf t ht =>
      cases hnodes
      exact Or.inl ⟨t, ht, rfl, rfl⟩
  · rintro (⟨t, ht, rfl, rfl⟩ | ⟨o, c, inner, hoc, hinner, rfl⟩)
    · exact .leaf ht
    · exact .round hoc (derives_singleton_iff.mpr hinner)

/-- An operand is a variable exactly if it is a token in round brackets. -/
theorem derives_operand_var_iff {tokens : List Token} {v : Var} :
    Derives .operand tokens [.var v] ↔ ∃ n t, t.StandsAlone ∧ v = .ofToken t ∧ Bracketed n t tokens := by
  constructor
  · intro h
    -- On the number of tokens, as a pair of brackets encloses an operand again.
    induction hlength : tokens.length using Nat.strongRecOn generalizing tokens with
    | _ length ih =>
      subst hlength
      rcases derives_var_iff.mp h with ⟨t, ht, hv, rfl⟩ | ⟨o, c, inner, hoc, hinner, rfl⟩
      · exact ⟨0, t, ht, hv, Bracketed.zero_iff.mpr rfl⟩
      · have hless : inner.length < (o :: (inner ++ [c])).length := by
          simp only [List.length_cons, List.length_append]
          omega
        obtain ⟨n, t, ht, hv, hbracketed⟩ := ih _ hless hinner rfl
        exact ⟨n + 1, t, ht, hv, Bracketed.succ_iff.mpr ⟨o, c, inner, hoc, hbracketed, rfl⟩⟩
  · rintro ⟨n, t, ht, hv, h⟩
    induction n generalizing tokens with
    | zero => exact derives_var_iff.mpr (Or.inl ⟨t, ht, hv, Bracketed.zero_iff.mp h⟩)
    | succ n ih =>
      obtain ⟨o, c, inner, hoc, hinner, htokens⟩ := Bracketed.succ_iff.mp h
      exact derives_var_iff.mpr (Or.inr ⟨o, c, inner, hoc, ih hinner, htokens⟩)

/-! ## Guards -/

/-- A literal that makes a guard hold is one to the evaluation of guards, and stands alone. -/
theorem Token.isTrue_value_iff (t : Token) : t.value.isTrue = true ↔ t.IsTrueLiteral := by
  unfold Token.IsTrueLiteral
  cases t.value <;> simp [TokenValue.isTrue]

theorem Token.IsTrueLiteral.standsAlone {t : Token} (h : t.IsTrueLiteral) : t.StandsAlone := by
  rcases h with hvalue | ⟨n, -, hvalue⟩ <;>
    exact ⟨by simp [Token.isEof, hvalue], fun mark _ => by simp [Token.isMark, hvalue]⟩

/-- A guard holds exactly if it is the variable of a literal that makes it hold. -/
theorem guardHolds_iff {condition : List Node} :
    guardHolds condition = true ↔ ∃ v t, condition = [.var v] ∧ v.token = some t ∧ t.IsTrueLiteral := by
  unfold guardHolds
  split
  next v => simp [Option.any_eq_true, Token.isTrue_value_iff]
  next h =>
    constructor
    · intro hfalse
      cases hfalse
    · rintro ⟨v, t, heq, -, -⟩
      exact absurd heq (h v)

/-- Operands hold as a guard exactly if they are a literal that makes a guard hold, in round brackets. -/
theorem Derives.guardHolds_iff_bracketed {guard : List Token} {condition : List Node}
    (h : Derives (.operands true) guard condition) :
    guardHolds condition = true ↔ ∃ n literal, literal.IsTrueLiteral ∧ Bracketed n literal guard := by
  rw [guardHolds_iff]
  constructor
  · rintro ⟨v, t, rfl, ht, htrue⟩
    obtain ⟨n, t', -, rfl, hbracketed⟩ := derives_operand_var_iff.mp (derives_singleton_iff.mp h)
    obtain rfl : t' = t := Option.some.inj ht
    exact ⟨n, t', htrue, hbracketed⟩
  · rintro ⟨n, literal, htrue, hbracketed⟩
    have hvar : Derives (.operands true) guard [.var (.ofToken literal)] :=
      derives_singleton_iff.mpr (derives_operand_var_iff.mpr ⟨n, literal, htrue.standsAlone, rfl, hbracketed⟩)
    exact ⟨.ofToken literal, literal, h.operands_unique hvar, rfl, htrue⟩

/-- A program without tokens has no statements. -/
theorem Derives.eq_nil_of_no_tokens {nodes : List Node} (h : Derives .program [] nodes) : nodes = [] := by
  generalize htokens : ([] : List Token) = tokens at h
  cases h with
  | noStatements => rfl
  | moreStatements hstatement _ => exact absurd (List.append_eq_nil_iff.mp htokens.symm).1 hstatement.statement_ne_nil

/-- The program of one conditional with an empty body has the tokens between its brackets as its guard. -/
theorem derives_conditional_iff {i o c o' c' : Token} {guard : List Token} {condition body : List Node}
    (hi : i.name? = some Rule.conditionalWord) (hoc : Bracket.round.Encloses o c) (hoc' : Bracket.curly.Encloses o' c') :
    Derives .program (i :: o :: (guard ++ [c, o', c'])) [.conditional condition body] ↔
      Derives (.operands true) guard condition ∧ condition ≠ [] ∧ body = [] := by
  constructor
  · intro h
    generalize htokens : i :: o :: (guard ++ [c, o', c']) = tokens at h
    cases h with
    | moreStatements hstatement hnone =>
      cases hnone
      rw [List.append_nil] at htokens
      cases hstatement with
      | @conditional _ _ d p q guard' inner _ _ _ _ hguard hne _ hinner =>
        -- A statement in the body would end with the brace that opens it.
        have hwhole : guard ++ [c, o'] ++ [c'] = guard' ++ d :: p :: inner ++ [q] := by
          simpa using (List.cons.inj (List.cons.inj htokens).2).2
        obtain ⟨hfront, -⟩ := List.append_inj' hwhole rfl
        rcases inner.eq_nil_or_concat with rfl | ⟨front, last, rfl⟩
        · obtain ⟨rfl, -⟩ := List.append_inj' hfront rfl
          exact ⟨hguard, hne, hinner.eq_nil_of_no_tokens⟩
        · have hlast : (guard ++ [c, o']).getLast? = (guard' ++ d :: p :: front.concat last).getLast? := congrArg _ hfront
          obtain rfl : o' = last := by simpa [List.getLast?_append, List.getLast?_cons] using hlast
          have hends := hinner.endsStatement rfl o' (by simp)
          rw [Token.EndsStatement, Token.isMark_eq_false hoc'.1 (by decide), Token.isMark_eq_false hoc'.1 (by decide)] at hends
          simp at hends
  · rintro ⟨hguard, hne, rfl⟩
    have hstatement := Derives.conditional hi hoc hguard hne hoc' .noStatements
    simpa using Derives.moreStatements hstatement .noStatements

/-- A guard that is parsed holds exactly if it is an integer literal other than zero, or `true`, in any number of round
brackets, and no other guard does. Such a guard is parsed, as the variable of its literal alone. -/
theorem guardHolds_of_parseTokens (i o c o' c' last : Token) (guard : List Token)
    (hi : i.name? = some Rule.conditionalWord) (hoc : Bracket.round.Encloses o c) (hoc' : Bracket.curly.Encloses o' c')
    (hguard : ∀ t ∈ guard, t.isEof = false) (hlast : last.isEof = true) :
    (∀ condition body, parseTokens (i :: o :: (guard ++ [c, o', c']) ++ [last]) = .ok [.conditional condition body] →
      (guardHolds condition = true ↔ ∃ n literal, literal.IsTrueLiteral ∧ Bracketed n literal guard)) ∧
    ∀ n literal, literal.IsTrueLiteral → Bracketed n literal guard →
      parseTokens (i :: o :: (guard ++ [c, o', c']) ++ [last]) = .ok [.conditional [.var (.ofToken literal)] []] := by
  have htokens : ∀ t ∈ i :: o :: (guard ++ [c, o', c']), t.isEof = false := by
    have hi' := Rule.not_isEof_of_name? hi
    have ho := Token.not_isEof_of_isMark hoc.1
    have hc := Token.not_isEof_of_isMark hoc.2
    have ho' := Token.not_isEof_of_isMark hoc'.1
    have hc' := Token.not_isEof_of_isMark hoc'.2
    simpa [hi', ho, hc, ho', hc', or_imp, forall_and] using hguard
  constructor
  · intro condition body h
    obtain ⟨hcondition, -, -⟩ := (derives_conditional_iff hi hoc hoc').mp (derives_of_parseTokens htokens hlast h)
    exact hcondition.guardHolds_iff_bracketed
  · intro n literal htrue hbracketed
    have hvar := derives_operand_var_iff.mpr ⟨n, literal, htrue.standsAlone, rfl, hbracketed⟩
    have hprogram := (derives_conditional_iff hi hoc hoc').mpr
      ⟨derives_singleton_iff.mpr hvar, List.cons_ne_nil _ _, rfl⟩
    exact hprogram.parseTokens_eq hlast

/-- The tokens of `((7))`. -/
def nestedSeven : List Token :=
  [⟨.character '(', 4⟩, ⟨.character '(', 5⟩, ⟨.integer 7, 7⟩, ⟨.character ')', 7⟩, ⟨.character ')', 8⟩]

/-- The guard of `if (((7))) { }` holds. -/
theorem guardHolds_nestedSeven :
    Token.name? ⟨.identifier "if", 2⟩ = some Rule.conditionalWord ∧
      Bracket.round.Encloses ⟨.character '(', 3⟩ ⟨.character ')', 9⟩ ∧
      Bracket.curly.Encloses ⟨.character '\x7b', 11⟩ ⟨.character '\x7d', 13⟩ ∧ (∀ t ∈ nestedSeven, t.isEof = false) ∧
      (Token.eof 14).isEof = true ∧ Token.IsTrueLiteral ⟨.integer 7, 7⟩ ∧ Bracketed 2 ⟨.integer 7, 7⟩ nestedSeven ∧
      ∃ condition,
        parseTokens (⟨.identifier "if", 2⟩ :: ⟨.character '(', 3⟩ :: (nestedSeven ++
          [⟨.character ')', 9⟩, ⟨.character '\x7b', 11⟩, ⟨.character '\x7d', 13⟩]) ++ [.eof 14]) =
            .ok [.conditional condition []] ∧ guardHolds condition = true := by
  have htrue : Token.IsTrueLiteral ⟨.integer 7, 7⟩ := Or.inr ⟨7, by decide, rfl⟩
  have hbracketed : Bracketed 2 ⟨.integer 7, 7⟩ nestedSeven :=
    ⟨[⟨.character '(', 4⟩, ⟨.character '(', 5⟩], [⟨.character ')', 7⟩, ⟨.character ')', 8⟩], rfl, rfl, rfl, by decide,
      by decide⟩
  obtain ⟨hholds, hparsed⟩ := guardHolds_of_parseTokens ⟨.identifier "if", 2⟩ ⟨.character '(', 3⟩ ⟨.character ')', 9⟩
    ⟨.character '\x7b', 11⟩ ⟨.character '\x7d', 13⟩ (.eof 14) nestedSeven rfl ⟨rfl, rfl⟩ ⟨rfl, rfl⟩ (by decide) rfl
  have hparse := hparsed 2 _ htrue hbracketed
  exact ⟨rfl, ⟨rfl, rfl⟩, ⟨rfl, rfl⟩, by decide, rfl, htrue, hbracketed, _, hparse,
    (hholds _ _ hparse).mpr ⟨2, _, htrue, hbracketed⟩⟩

end TinyScript
