import TinyScript.Proofs.Grammar.Acceptance

/-!
# What is read is a phrase

A reader that succeeds on tokens without an end of input among them has read a phrase of its sort. First, what a cut has cut
out: `Rule.operandCut_eq_ok` and `Rule.statementCut_eq_ok` give the tokens in front of the rest, bracket by bracket. Then the
readers, along their own recursion.

The arguments of a call are collected operand by operand, so the statement about them has the operands collected so far in it
(`ArgumentsAfter`).
-/

namespace TinyScript

/-- The tokens that a cut operand is made of. -/
inductive OperandCut.Spells : OperandCut → List Token → Prop where
  | call {f o c : Token} {inner : List Token} {name : String} : f.name? = some name → Bracket.round.Encloses o c →
      Spells (.call name ⟨inner, c.position⟩) (f :: o :: (inner ++ [c]))
  | round {o c : Token} {inner : List Token} : Bracket.round.Encloses o c →
      Spells (.round ⟨inner, c.position⟩) (o :: (inner ++ [c]))
  | square {o c : Token} {inner : List Token} : Bracket.square.Encloses o c →
      Spells (.square ⟨inner, c.position⟩) (o :: (inner ++ [c]))
  | leaf {t : Token} : t.StandsAlone → Spells (.leaf t) [t]

/-- No token of a slice ends the input. -/
def Slice.Unbroken (s : Slice) : Prop := ∀ t ∈ s.tokens, t.isEof = false

namespace Slice

/-- A slice that is not broken off is at its end when it has no tokens. -/
theorem Unbroken.atEnd_iff {s : Slice} (h : s.Unbroken) : s.atEnd = true ↔ s.tokens = [] := by
  obtain ⟨tokens, stop⟩ := s
  cases tokens with
  | nil => simp
  | cons t tokens => simpa using h t List.mem_cons_self

theorem Unbroken.of_append {s t : Slice} (h : s.Unbroken) (front : List Token) (hs : s.tokens = front ++ t.tokens) :
    t.Unbroken := by
  intro u hu
  exact h u (by rw [hs]; exact List.mem_append_right _ hu)

theorem Unbroken.tail {t : Token} {tokens : List Token} {stop : Int} (h : Unbroken ⟨t :: tokens, stop⟩) :
    Unbroken ⟨tokens, stop⟩ :=
  (List.forall_mem_cons.mp h).2

/-- Away from its end a slice has a first token, which does not end the input. -/
theorem exists_cons {s : Slice} (h : s.atEnd = false) : ∃ t tokens stop, s = ⟨t :: tokens, stop⟩ ∧ t.isEof = false := by
  obtain ⟨tokens, stop⟩ := s
  cases tokens with
  | nil => cases h
  | cons t tokens => exact ⟨t, tokens, stop, rfl, h⟩

end Slice

namespace Rule

/-- The inversion of a relabelling. -/
theorem map_eq_ok {α β : Type} {r : Rule α} {f : α → β} {s t : Slice} {b : β} (h : (f <$> r) s = .ok b t) :
    ∃ a, r s = .ok a t ∧ b = f a := by
  change EStateM.map f r s = .ok b t at h
  unfold EStateM.map at h
  split at h
  next a u hr =>
    cases h
    exact ⟨a, hr, rfl⟩
  next => cases h

/-- A group ends before the bracket that closed it. -/
theorem group_eq_ok {b : Bracket} {s inner t : Slice} (h : group b s = .ok inner t) :
    ∃ c, c.isMark b.closing = true ∧ s.tokens = inner.tokens ++ c :: t.tokens ∧ inner.stop = c.position ∧
      t.stop = s.stop := by
  have hspan := spanGroup_append b 0 s.tokens
  unfold group at h
  split at h
  next inside after hp =>
    rw [hp] at hspan
    split at h
    next c rest =>
      split at h
      next hc =>
        cases h
        exact ⟨c, hc, hspan.symm, rfl, rfl⟩
      next => cases h
    next => cases h

/-- A value ends before its semicolon, and the token before it is passed whatever it is. -/
theorem value_eq_ok {s inner t : Slice} (h : value s = .ok inner t) :
    ∃ semicolon, semicolon.isMark ';' = true ∧ s.tokens.tail = inner.tokens ++ semicolon :: t.tokens ∧
      inner.stop = semicolon.position ∧ t.stop = s.stop := by
  have hsplit := List.takeWhile_append_dropWhile (p := (!endsValue ·)) (l := s.tokens.tail)
  unfold value at h
  dsimp only at h
  split at h
  next semicolon rest hd =>
    split at h
    next hs =>
      cases h
      rw [hd] at hsplit
      exact ⟨semicolon, hs, hsplit.symm, rfl, rfl⟩
    next => cases h
  next => cases h

/-- A group is cut out with the bracket after it, if the one before it has been passed. -/
theorem group_encloses {b : Bracket} {o : Token} {s inner t : Slice} (ho : o.isMark b.opening = true)
    (h : group b s = .ok inner t) :
    ∃ c, b.Encloses o c ∧ s.tokens = inner.tokens ++ c :: t.tokens ∧ inner = ⟨inner.tokens, c.position⟩ := by
  obtain ⟨c, hc, htokens, hstop, -⟩ := group_eq_ok h
  exact ⟨c, ⟨ho, hc⟩, htokens, by rw [← hstop]⟩

/-- A group that is cut out is not broken off, whatever it is cut from. -/
theorem unbroken_of_group {b : Bracket} {s inner t : Slice} (h : group b s = .ok inner t) : inner.Unbroken := by
  have hinside := not_isEof_of_mem_spanGroup b 0 s.tokens
  unfold group at h
  split at h
  next inside after hp =>
    rw [hp] at hinside
    split at h
    next =>
      split at h
      next =>
        cases h
        exact hinside
      next => cases h
    next => cases h

/-- A value goes up to the first token that ends one. -/
theorem tokens_of_value {s inner t : Slice} (h : value s = .ok inner t) :
    inner.tokens = s.tokens.tail.takeWhile (!endsValue ·) := by
  unfold value at h
  dsimp only at h
  split at h
  next =>
    split at h
    next =>
      cases h
      rfl
    next => cases h
  next => cases h

/-- What is divided off before the end of a value has no end of input in it. -/
theorem not_isEof_of_mem_takeWhile (tokens : List Token) : ∀ t ∈ tokens.takeWhile (!endsValue ·), t.isEof = false := by
  intro t ht
  have hgo := List.all_eq_true.mp List.all_takeWhile t ht
  simp only [endsValue, Bool.not_or, Bool.and_eq_true, Bool.not_eq_true'] at hgo
  exact hgo.2

/-- A value that is cut out is not broken off, whatever it is cut from. -/
theorem unbroken_of_value {s inner t : Slice} (h : value s = .ok inner t) : inner.Unbroken := by
  rw [Slice.Unbroken, tokens_of_value h]
  exact not_isEof_of_mem_takeWhile s.tokens.tail

/-- A mark that has no part of its own in operands stands alone. -/
theorem standsAlone_of_isMark {t : Token} {mark : Char} (h : t.isMark mark = true) (hround : mark ≠ '(')
    (hsquare : mark ≠ '[') (hnon : ¬ nonOperands.contains mark = true) : t.StandsAlone := by
  refine Token.standsAlone_of_mark h fun hmem => ?_
  have hsplit : ∀ m ∈ reservedMarks, m = '(' ∨ m = '[' ∨ nonOperands.contains m = true := by
    simp [reservedMarks, nonOperands]
  rcases hsplit mark hmem with hmark | hmark | hmark
  · exact hround hmark
  · exact hsquare hmark
  · exact hnon hmark

/-- Tokens between two others meet nothing. -/
theorem not_meet_enclosed {a b : Token} {front : List Token} (back : List Token) : ¬ Meet (a :: (front ++ [b])) back := by
  rintro ⟨f, o, rest, hfront, -⟩
  simp at hfront

/-- How an operand is cut from a slice, by the tokens ahead. -/
inductive OperandWay : Slice → Outcome OperandCut → Prop where
  | call {f o : Token} {tokens : List Token} {stop : Int} {name : String} : f.name? = some name → o.isMark '(' = true →
      OperandWay ⟨f :: o :: tokens, stop⟩ ((OperandCut.call name <$> group .round) ⟨tokens, stop⟩)
  | round {o : Token} {tokens : List Token} {stop : Int} : o.isMark '(' = true →
      OperandWay ⟨o :: tokens, stop⟩ ((OperandCut.round <$> group .round) ⟨tokens, stop⟩)
  | square {o : Token} {tokens : List Token} {stop : Int} : o.isMark '[' = true →
      OperandWay ⟨o :: tokens, stop⟩ ((OperandCut.square <$> group .square) ⟨tokens, stop⟩)
  | refused {t : Token} {tokens : List Token} {stop : Int} {mark : Char} : t.isMark mark = true →
      nonOperands.contains mark = true →
      OperandWay ⟨t :: tokens, stop⟩ (.error (.unexpected "an operand" t) ⟨t :: tokens, stop⟩)
  | leaf {t : Token} {tokens : List Token} {stop : Int} : t.StandsAlone → ¬ Meet [t] tokens →
      OperandWay ⟨t :: tokens, stop⟩ (.ok (.leaf t) ⟨tokens, stop⟩)

/-- Away from the end of a slice an operand is cut in one of the ways. -/
theorem operandWay {s : Slice} (hs : s.atEnd = false) : OperandWay s (operandCut s) := by
  obtain ⟨t, tokens, stop, rfl, ht⟩ := Slice.exists_cons hs
  unfold operandCut
  rw [Slice.current_cons]
  split
  next name hv =>
    have hname : t.name? = some name := by simp [Token.name?, hv]
    split
    next ho =>
      cases tokens with
      | nil => cases ho
      | cons o tokens => exact .call hname ho
    next ho =>
      refine .leaf (Token.standsAlone_of_name? hname) ?_
      rintro ⟨f, o, rest, -, -, rfl, hopen⟩
      exact ho hopen
  next mark hv =>
    have hmark : t.isMark mark = true := (t.isMark_iff mark).mpr hv
    split
    next hround => exact .round (hround ▸ hmark)
    next hround =>
      split
      next hsquare => exact .square (hsquare ▸ hmark)
      next hsquare =>
        split
        next hnon => exact .refused hmark hnon
        next hnon =>
          refine .leaf (standsAlone_of_isMark hmark hround hsquare hnon) ?_
          rintro ⟨f, o, rest, hf, hname, -⟩
          cases hf
          rw [Token.isIdentifier, Token.name?_of_isMark hmark] at hname
          cases hname
  next hname hmark =>
    refine .leaf ⟨ht, fun m _ => ?_⟩ ?_
    · exact Bool.eq_false_iff.mpr fun hm => hmark m ((t.isMark_iff m).mp hm)
    · rintro ⟨f, o, rest, hf, hid, -⟩
      cases hf
      obtain ⟨name, hid⟩ := t.isIdentifier_iff.mp hid
      exact hname name (Token.value_of_name? hid)

/-- An operand is cut off the front of a slice, and no name of a call is cut off alone. -/
theorem operandCut_eq_ok {s t : Slice} {cut : OperandCut} (hs : s.atEnd = false) (h : operandCut s = .ok cut t) :
    ∃ front, s.tokens = front ++ t.tokens ∧ cut.Spells front ∧ ¬ Meet front t.tokens := by
  have hway := operandWay hs
  rw [h] at hway
  generalize houtcome : (EStateM.Result.ok cut t : Outcome OperandCut) = outcome at hway
  cases hway with
  | @call f o tokens stop name hname ho =>
    obtain ⟨inner, hg, rfl⟩ := map_eq_ok houtcome.symm
    obtain ⟨c, hoc, htokens, hinner⟩ := group_encloses ho hg
    rw [hinner]
    refine ⟨f :: o :: (inner.tokens ++ [c]), by simpa using htokens, .call hname hoc, ?_⟩
    rw [← List.cons_append]
    exact not_meet_enclosed _
  | @round o tokens stop ho =>
    obtain ⟨inner, hg, rfl⟩ := map_eq_ok houtcome.symm
    obtain ⟨c, hoc, htokens, hinner⟩ := group_encloses ho hg
    rw [hinner]
    exact ⟨o :: (inner.tokens ++ [c]), by simpa using htokens, .round hoc, not_meet_enclosed _⟩
  | @square o tokens stop ho =>
    obtain ⟨inner, hg, rfl⟩ := map_eq_ok houtcome.symm
    obtain ⟨c, hoc, htokens, hinner⟩ := group_encloses ho hg
    rw [hinner]
    exact ⟨o :: (inner.tokens ++ [c]), by simpa using htokens, .square hoc, not_meet_enclosed _⟩
  | refused => cases houtcome
  | @leaf u tokens stop halone hmeet =>
    cases houtcome
    exact ⟨[u], rfl, .leaf halone, hmeet⟩

end Rule

/-! ## Operands -/

/-- Two lists meet wherever the second one goes on. -/
theorem Meet.append {front back : List Token} (h : Meet front back) (rest : List Token) : Meet front (back ++ rest) := by
  obtain ⟨f, o, tail, hfront, hf, hback, ho⟩ := h
  exact ⟨f, o, tail ++ rest, hfront, hf, by rw [hback, List.cons_append], ho⟩

/-- The tokens are the rest of an argument, of which some operands are there already, and further arguments. -/
def ArgumentsAfter (pending : List Node) (tokens : List Token) (nodes : List Node) : Prop :=
  ∃ inner found, Derives (.operands false) inner found ∧ pending ++ found ≠ [] ∧
    ((tokens = inner ∧ nodes = [.grouped (pending ++ found)]) ∨
      ∃ comma back more, tokens = inner ++ comma :: back ∧ comma.isMark ',' = true ∧ Derives .arguments back more ∧
        more ≠ [] ∧ nodes = .grouped (pending ++ found) :: more)

namespace ArgumentsAfter

/-- With no operand there already they are arguments, and not none. -/
theorem derives {tokens : List Token} {nodes : List Node} (h : ArgumentsAfter [] tokens nodes) :
    Derives .arguments tokens nodes ∧ nodes ≠ [] := by
  obtain ⟨inner, found, hops, hne, ⟨rfl, rfl⟩ | ⟨comma, back, more, rfl, hcomma, hback, hmore, rfl⟩⟩ := h
  · exact ⟨.oneArgument hops hne, by simp⟩
  · exact ⟨.moreArguments hops hne hcomma hback hmore, by simp⟩

/-- An operand that is no comma may come before the rest of an argument. -/
theorem cons {pending : List Node} {front rest : List Token} {node : Node} {nodes : List Node}
    (hop : Derives .operand front [node]) (hmeet : ¬ Meet front rest) (hcomma : ¬ BareComma front)
    (h : ArgumentsAfter (pending ++ [node]) rest nodes) : ArgumentsAfter pending (front ++ rest) nodes := by
  obtain ⟨inner, found, hops, hne, hrest⟩ := h
  have happend : pending ++ [node] ++ found = pending ++ node :: found := by simp
  rw [happend] at hne hrest
  have hmeet' : ¬ Meet front inner := by
    intro hm
    rcases hrest with ⟨rfl, -⟩ | ⟨comma, back, more, rfl, -⟩
    · exact hmeet hm
    · exact hmeet (hm.append _)
  refine ⟨front ++ inner, node :: found, .moreOperands hop hmeet' (fun _ => hcomma) hops, hne, ?_⟩
  rcases hrest with ⟨rfl, hnodes⟩ | ⟨comma, back, more, rfl, hrest⟩
  · exact Or.inl ⟨rfl, hnodes⟩
  · exact Or.inr ⟨comma, back, more, by simp, hrest⟩

end ArgumentsAfter

namespace Slice

/-- The tokens inside brackets are fewer than those with the brackets, and not broken off if those are not. -/
theorem unbroken_inner {n : Nat} {a b : Token} {front : List Token} {stop : Int}
    (h : ∀ t ∈ a :: (front ++ [b]), t.isEof = false) (hlen : (a :: (front ++ [b])).length ≤ n) :
    Unbroken ⟨front, stop⟩ ∧ front.length < n := by
  constructor
  · intro t ht
    exact h t (by simp [ht])
  · simp only [List.length_cons, List.length_append] at hlen
    omega

/-- Whatever the readers of operands read on slices of fewer than `n` tokens is a phrase. -/
structure ReadsBelow (n : Nat) : Prop where
  expression : ∀ {s t : Slice} {nodes : List Node}, s.tokens.length < n → s.Unbroken → s.expression = .ok nodes t →
    Derives (.operands true) s.tokens nodes
  arguments : ∀ {s t : Slice} {nodes : List Node}, s.tokens.length < n → s.Unbroken → s.arguments = .ok nodes t →
    Derives .arguments s.tokens nodes
  argumentList : ∀ {pending : List Node} {s t : Slice} {nodes : List Node}, s.tokens.length < n → s.Unbroken →
    argumentList pending s = .ok nodes t → ArgumentsAfter pending s.tokens nodes

namespace ReadsBelow

variable {n : Nat}

/-- The node of a cut operand is what its tokens stand for. -/
theorem operandNode (ih : ReadsBelow n) {cut : OperandCut} {front : List Token} {node : Node} (hcut : cut.Spells front)
    (hlen : front.length ≤ n) (heof : ∀ t ∈ front, t.isEof = false) (h : operandNode cut = .ok node) :
    Derives .operand front [node] := by
  cases hcut with
  | @call f o c inner name hf hoc =>
    obtain ⟨hin, hlt⟩ := unbroken_inner (List.forall_mem_cons.mp heof).2 (Nat.le_of_succ_le hlen)
    rw [Slice.operandNode] at h
    split at h
    next nodes u hargs =>
      cases h
      exact .call hf hoc (ih.arguments hlt hin hargs)
    next => cases h
  | @round o c inner hoc =>
    obtain ⟨hin, hlt⟩ := unbroken_inner heof hlen
    rw [Slice.operandNode] at h
    split at h
    next nodes u hexpr =>
      cases h
      exact .round hoc (ih.expression hlt hin hexpr)
    next => cases h
  | @square o c inner hoc =>
    obtain ⟨hin, hlt⟩ := unbroken_inner heof hlen
    rw [Slice.operandNode] at h
    split at h
    next nodes u hexpr =>
      cases h
      exact .square hoc (ih.expression hlt hin hexpr)
    next => cases h
  | leaf ht =>
    rw [Slice.operandNode] at h
    cases h
    exact .leaf ht

/-- An operand that is cut off and read is one, and it leaves fewer tokens. -/
theorem operand (ih : ReadsBelow n) {s t : Slice} {cut : OperandCut} {node : Node} (hlen : s.tokens.length < n + 1)
    (hs : s.Unbroken) (hend : s.atEnd = false) (hcut : Rule.operandCut s = .ok cut t)
    (hnode : Slice.operandNode cut = .ok node) :
    ∃ front, s.tokens = front ++ t.tokens ∧ Derives .operand front [node] ∧ ¬ Meet front t.tokens ∧
      t.tokens.length < n ∧ t.Unbroken := by
  have hshrink := Rule.shrinks_operandCut hcut hend
  obtain ⟨front, htokens, hspells, hmeet⟩ := Rule.operandCut_eq_ok hend hcut
  have hfront : ∀ t ∈ front, t.isEof = false := fun t ht => hs t (by rw [htokens]; simp [ht])
  have hlength : front.length ≤ n := by
    have := congrArg List.length htokens
    rw [List.length_append] at this
    omega
  exact ⟨front, htokens, ih.operandNode hspells hlength hfront hnode, hmeet, by omega, hs.of_append _ htokens⟩

theorem expression_step (ih : ReadsBelow n) {s t : Slice} {nodes : List Node} (hlen : s.tokens.length < n + 1)
    (hs : s.Unbroken) (h : s.expression = .ok nodes t) : Derives (.operands true) s.tokens nodes := by
  rw [Slice.expression] at h
  split at h
  next hend =>
    cases h
    rw [hs.atEnd_iff.mp hend]
    exact .noOperands
  next hend =>
    split at h
    next => cases h
    next cut u hcut =>
      split at h
      next => cases h
      next node hnode =>
        split at h
        next more v hmore =>
          cases h
          obtain ⟨front, htokens, hop, hmeet, hlt, hu⟩ := ih.operand hlen hs (by simpa using hend) hcut hnode
          rw [htokens]
          exact .moreOperands hop hmeet (by simp) (ih.expression hlt hu hmore)
        next => cases h

theorem argumentList_step (ih : ReadsBelow n) {pending : List Node} {s t : Slice} {nodes : List Node}
    (hlen : s.tokens.length < n + 1) (hs : s.Unbroken) (h : Slice.argumentList pending s = .ok nodes t) :
    ArgumentsAfter pending s.tokens nodes := by
  rw [Slice.argumentList] at h
  split at h
  next hend =>
    split at h
    next => cases h
    next hne =>
      cases h
      exact ⟨[], [], .noOperands, by simpa using hne, Or.inl ⟨hs.atEnd_iff.mp hend, by simp⟩⟩
  next hend =>
    have hend : s.atEnd = false := by simpa using hend
    split at h
    next hcomma =>
      split at h
      next => cases h
      next hne =>
        split at h
        next more u hmore =>
          cases h
          obtain ⟨comma, back, stop, rfl, -⟩ := exists_cons hend
          have hback : Unbroken ⟨back, stop⟩ := hs.tail
          have hlt : back.length < n := by simpa using hlen
          obtain ⟨hargs, hsome⟩ := (ih.argumentList hlt hback hmore).derives
          exact ⟨[], [], .noOperands, by simpa using hne,
            Or.inr ⟨comma, back, more, rfl, hcomma, hargs, hsome, by simp⟩⟩
        next => cases h
    next hcomma =>
      split at h
      next => cases h
      next cut u hcut =>
        split at h
        next => cases h
        next node hnode =>
          obtain ⟨front, htokens, hop, hmeet, hlt, hu⟩ := ih.operand hlen hs hend hcut hnode
          have hbare : ¬ BareComma front := by
            rintro ⟨comma, rfl, hc⟩
            obtain ⟨f, tokens, stop, rfl, -⟩ := exists_cons hend
            cases htokens
            exact hcomma hc
          rw [htokens]
          exact .cons hop hmeet hbare (ih.argumentList hlt hu h)

theorem arguments_step (ih : ReadsBelow n) {s t : Slice} {nodes : List Node} (hlen : s.tokens.length < n + 1)
    (hs : s.Unbroken) (h : s.arguments = .ok nodes t) : Derives .arguments s.tokens nodes := by
  rw [Slice.arguments] at h
  split at h
  next hend =>
    cases h
    rw [hs.atEnd_iff.mp hend]
    exact .noArguments
  next => exact (ih.argumentList_step hlen hs h).derives.1

end ReadsBelow

/-- Whatever the readers of operands read is a phrase. By induction on the number of tokens: what is inside an operand and what
comes after it are both shorter than the slice. -/
theorem readsBelow (n : Nat) : ReadsBelow n := by
  induction n with
  | zero => exact ⟨fun h => absurd h (by omega), fun h => absurd h (by omega), fun h => absurd h (by omega)⟩
  | succ n ih => exact ⟨ih.expression_step, ih.arguments_step, ih.argumentList_step⟩

/-- Operands that are read to the end of a slice are operands. -/
theorem derives_of_expression {s t : Slice} {nodes : List Node} (hs : s.Unbroken) (h : s.expression = .ok nodes t) :
    Derives (.operands true) s.tokens nodes :=
  (readsBelow _).expression (Nat.lt_succ_self _) hs h

/-- Arguments that are read to the end of a slice are arguments. -/
theorem derives_of_arguments {s t : Slice} {nodes : List Node} (hs : s.Unbroken) (h : s.arguments = .ok nodes t) :
    Derives .arguments s.tokens nodes :=
  (readsBelow _).arguments (Nat.lt_succ_self _) hs h

end Slice

/-! ## Statements -/

/-- The tokens that a cut statement is made of. What has been read already is a phrase, what has not is a run of tokens
without an end of input. -/
inductive StatementCut.Spells : StatementCut → List Token → Prop where
  | whole {front : List Token} {node : Node} : Derives .statement front [node] → Spells (.whole node) front
  | conditional {i o c o' c' : Token} {guard inner : List Token} {condition : List Node} :
      i.name? = some Rule.conditionalWord → Bracket.round.Encloses o c → Derives (.operands true) guard condition →
      condition ≠ [] → Bracket.curly.Encloses o' c' → Slice.Unbroken ⟨inner, c'.position⟩ →
      Spells (.conditional condition ⟨inner, c'.position⟩) (i :: o :: (guard ++ c :: o' :: (inner ++ [c'])))
  | function {t n o c o' c' : Token} {declared inner : List Token} {type name : String} {params : List Node} :
      t.name? = some type → n.name? = some name → Bracket.round.Encloses o c → Derives .parameters declared params →
      Bracket.curly.Encloses o' c' → Slice.Unbroken ⟨inner, c'.position⟩ →
      Spells (.function name type params ⟨inner, c'.position⟩)
        (t :: n :: o :: (declared ++ c :: o' :: (inner ++ [c'])))

namespace Rule

theorem expect_eq_ok {mark : Char} {what : String} {s t : Slice} {a : Unit} (h : expect mark what s = .ok a t) :
    ∃ m, m.isMark mark = true ∧ s.tokens = m :: t.tokens ∧ t.stop = s.stop := by
  unfold expect expectToken at h
  split at h
  next hm =>
    cases h
    obtain ⟨m, tokens, stop, rfl, -⟩ := Slice.exists_cons (Token.not_isEof_of_isMark hm)
    exact ⟨m, hm, rfl, rfl⟩
  next => cases h

theorem identifier_eq_ok {what name : String} {token : Token} {s t : Slice}
    (h : identifier what s = .ok (token, name) t) :
    token.name? = some name ∧ s.tokens = token :: t.tokens ∧ t.stop = s.stop := by
  unfold identifier at h
  split at h
  next name' hn =>
    cases h
    obtain ⟨m, tokens, stop, rfl, -⟩ := Slice.exists_cons (not_isEof_of_name? hn)
    exact ⟨hn, rfl, rfl⟩
  next => cases h

theorem skip_eq_ok {s t : Slice} {a : Unit} (h : skip s = .ok a t) : t = s.advance := by
  cases h
  rfl

theorem within_eq_ok {α : Type} {r : Rule α} {inner s t : Slice} {a : α} (h : within inner r s = .ok a t) :
    t = s ∧ ∃ u, r inner = .ok a u := by
  unfold within at h
  split at h
  next u hr =>
    cases h
    exact ⟨rfl, u, hr⟩
  next => cases h

/-- A group is cut out with both its brackets. -/
theorem enclosed_eq_ok {b : Bracket} {what : String} {s inner t : Slice} (h : enclosed b what s = .ok inner t) :
    ∃ o c, b.Encloses o c ∧ s.tokens = o :: (inner.tokens ++ c :: t.tokens) ∧ inner = ⟨inner.tokens, c.position⟩ ∧
      inner.Unbroken := by
  obtain ⟨_, u, hexpect, hgroup⟩ := bind_eq_ok h
  obtain ⟨o, ho, hs, -⟩ := expect_eq_ok hexpect
  obtain ⟨c, hoc, hu, hinner⟩ := group_encloses ho hgroup
  exact ⟨o, c, hoc, by rw [hs, hu], hinner, unbroken_of_group hgroup⟩

/-- A parameter is read from its two names. -/
theorem parameter_eq_ok {s t : Slice} {node : Node} (h : parameter s = .ok node t) :
    ∃ type name u n, u.name? = some type ∧ n.name? = some name ∧ s.tokens = u :: n :: t.tokens ∧
      node = .var { name, token := some n, type := some type } := by
  obtain ⟨⟨u, type⟩, s', hu, h⟩ := bind_eq_ok h
  obtain ⟨⟨n, name⟩, s'', hn, h⟩ := bind_eq_ok h
  obtain ⟨htype, hs, -⟩ := identifier_eq_ok hu
  obtain ⟨hname, hs', -⟩ := identifier_eq_ok hn
  cases h
  exact ⟨type, name, u, n, htype, hname, by rw [hs, hs'], rfl⟩

end Rule

namespace Slice

/-- Parameters that are read to the end of a slice are parameters, and not none. -/
theorem derives_of_parameterList {s t : Slice} {nodes : List Node} (hs : s.Unbroken) (h : parameterList s = .ok nodes t) :
    Derives .parameters s.tokens nodes ∧ nodes ≠ [] := by
  fun_induction parameterList s generalizing nodes t with
  | case1 => cases h
  | case2 s node u hparam hend =>
    cases h
    obtain ⟨type, name, v, n, hv, hn, htokens, rfl⟩ := Rule.parameter_eq_ok hparam
    have hu : u.Unbroken := hs.of_append [v, n] htokens
    rw [htokens, hu.atEnd_iff.mp hend]
    exact ⟨.oneParameter hv hn, by simp⟩
  | case3 => cases h
  | case4 s node u hparam _ _ v hcomma more w hmore ih =>
    cases h
    obtain ⟨type, name, x, n, hx, hn, htokens, rfl⟩ := Rule.parameter_eq_ok hparam
    obtain ⟨comma, hc, hcommas, -⟩ := Rule.expect_eq_ok hcomma
    rw [hcommas] at htokens
    obtain ⟨hback, hsome⟩ := ih (hs.of_append [x, n, comma] htokens) hmore
    rw [htokens]
    exact ⟨.moreParameters hx hn hc hback hsome, by simp⟩
  | case5 => cases h

/-- Parameters that are read to the end of a slice are parameters. -/
theorem derives_of_parameterDeclarations {s t : Slice} {nodes : List Node} (hs : s.Unbroken)
    (h : parameterDeclarations s = .ok nodes t) : Derives .parameters s.tokens nodes := by
  rw [parameterDeclarations] at h
  split at h
  next hend =>
    cases h
    rw [hs.atEnd_iff.mp hend]
    exact .noParameters
  next => exact (derives_of_parameterList hs h).1

end Slice

namespace Rule

/-- The value of an assignment is operands, and not none, between one token and a semicolon. -/
theorem assigned_eq_ok {equals : Token} {tokens : List Token} {stop : Int} {t : Slice} {nodes : List Node}
    (h : assigned ⟨equals :: tokens, stop⟩ = .ok nodes t) :
    ∃ inner semicolon, tokens = inner ++ semicolon :: t.tokens ∧ Derives (.operands true) inner nodes ∧ nodes ≠ [] ∧
      semicolon.isMark ';' = true := by
  obtain ⟨inner, u, hvalue, h⟩ := bind_eq_ok h
  obtain ⟨semicolon, hsemi, htokens, -, -⟩ := value_eq_ok hvalue
  rw [List.tail_cons] at htokens
  split at h
  next => cases h
  next hne =>
    obtain ⟨hrest, v, hexpr⟩ := within_eq_ok h
    subst hrest
    have hops := Slice.derives_of_expression (unbroken_of_value hvalue) hexpr
    refine ⟨inner.tokens, semicolon, htokens, hops, ?_, hsemi⟩
    rintro rfl
    exact hne (by rw [List.isEmpty_iff]; exact hops.tokens_eq_nil)

theorem conditionalCut_eq_ok {i : Token} {tokens : List Token} {stop : Int} {t : Slice} {cut : StatementCut}
    (hi : i.name? = some conditionalWord) (h : conditionalCut ⟨i :: tokens, stop⟩ = .ok cut t) :
    ∃ front, i :: tokens = front ++ t.tokens ∧ cut.Spells front := by
  obtain ⟨_, u, hskip, h₁⟩ := bind_eq_ok h
  cases skip_eq_ok hskip
  obtain ⟨guard, v, hguard, h₂⟩ := bind_eq_ok h₁
  obtain ⟨o, c, hoc, htokens, -, hinner⟩ := enclosed_eq_ok hguard
  change tokens = o :: (guard.tokens ++ c :: v.tokens) at htokens
  obtain ⟨condition, w, hcondition, h₃⟩ := bind_eq_ok h₂
  obtain ⟨hw, _, hexpr⟩ := within_eq_ok hcondition
  subst hw
  split at h₃
  next => cases h₃
  next hne =>
    obtain ⟨body, hbody, rfl⟩ := map_eq_ok h₃
    obtain ⟨o', c', hoc', hrest, hslice, hin⟩ := enclosed_eq_ok hbody
    rw [hslice]
    refine ⟨_, ?_, .conditional hi hoc (Slice.derives_of_expression hinner hexpr) (by simpa using hne) hoc' hin⟩
    rw [htokens, hrest]
    simp

theorem functionCut_eq_ok {u n : Token} {tokens : List Token} {stop : Int} {t : Slice} {type name : String}
    {cut : StatementCut} (hu : u.name? = some type) (hn : n.name? = some name)
    (h : functionCut type name ⟨u :: n :: tokens, stop⟩ = .ok cut t) :
    ∃ front, u :: n :: tokens = front ++ t.tokens ∧ cut.Spells front := by
  obtain ⟨_, s₁, hskip, h₁⟩ := bind_eq_ok h
  cases skip_eq_ok hskip
  obtain ⟨_, s₂, hskip', h₂⟩ := bind_eq_ok h₁
  cases skip_eq_ok hskip'
  obtain ⟨declared, v, hdeclared, h₃⟩ := bind_eq_ok h₂
  obtain ⟨o, c, hoc, htokens, -, hinner⟩ := enclosed_eq_ok hdeclared
  change tokens = o :: (declared.tokens ++ c :: v.tokens) at htokens
  obtain ⟨params, w, hwithin, h₄⟩ := bind_eq_ok h₃
  obtain ⟨hw, _, hparams⟩ := within_eq_ok hwithin
  subst hw
  obtain ⟨body, hbody, rfl⟩ := map_eq_ok h₄
  obtain ⟨o', c', hoc', hrest, hslice, hin⟩ := enclosed_eq_ok hbody
  rw [hslice]
  refine ⟨_, ?_, .function hu hn hoc (Slice.derives_of_parameterDeclarations hinner hparams) hoc' hin⟩
  rw [htokens, hrest]
  simp

theorem declaration_eq_ok {u n equals : Token} {tokens : List Token} {stop : Int} {t : Slice} {type name : String}
    {cut : StatementCut} (hu : u.name? = some type) (hn : n.name? = some name) (heq : equals.isMark '=' = true)
    (h : declaration type name n ⟨u :: n :: equals :: tokens, stop⟩ = .ok cut t) :
    ∃ front, u :: n :: equals :: tokens = front ++ t.tokens ∧ cut.Spells front := by
  obtain ⟨_, s₁, hskip, h₁⟩ := bind_eq_ok h
  cases skip_eq_ok hskip
  obtain ⟨_, s₂, hskip', h₂⟩ := bind_eq_ok h₁
  cases skip_eq_ok hskip'
  obtain ⟨nodes, v, hassigned, h₃⟩ := bind_eq_ok h₂
  obtain ⟨inner, semicolon, htokens, hops, hne, hsemi⟩ := assigned_eq_ok hassigned
  cases h₃
  refine ⟨_, ?_, .whole (.declaration hu hn heq hops hne hsemi)⟩
  rw [htokens]
  simp

theorem reassignment_eq_ok {n equals : Token} {tokens : List Token} {stop : Int} {t : Slice} {name : String}
    {cut : StatementCut} (hn : n.name? = some name) (heq : equals.isMark '=' = true)
    (h : reassignment name n ⟨n :: equals :: tokens, stop⟩ = .ok cut t) :
    ∃ front, n :: equals :: tokens = front ++ t.tokens ∧ cut.Spells front := by
  obtain ⟨_, s₁, hskip, h₁⟩ := bind_eq_ok h
  cases skip_eq_ok hskip
  obtain ⟨nodes, v, hassigned, h₂⟩ := bind_eq_ok h₁
  obtain ⟨inner, semicolon, htokens, hops, hne, hsemi⟩ := assigned_eq_ok hassigned
  cases h₂
  refine ⟨_, ?_, .whole (.reassignment hn heq hops hne hsemi)⟩
  rw [htokens]
  simp

theorem callStatement_eq_ok {f o : Token} {tokens : List Token} {stop : Int} {t : Slice} {name : String}
    {cut : StatementCut} (hf : f.name? = some name) (hne : name ≠ conditionalWord) (ho : o.isMark '(' = true)
    (h : callStatement name ⟨f :: o :: tokens, stop⟩ = .ok cut t) :
    ∃ front, f :: o :: tokens = front ++ t.tokens ∧ cut.Spells front := by
  obtain ⟨_, s₁, hskip, h₁⟩ := bind_eq_ok h
  cases skip_eq_ok hskip
  obtain ⟨_, s₂, hskip', h₂⟩ := bind_eq_ok h₁
  cases skip_eq_ok hskip'
  obtain ⟨inner, v, hinner, h₃⟩ := bind_eq_ok h₂
  obtain ⟨c, hoc, htokens, -⟩ := group_encloses ho hinner
  change tokens = inner.tokens ++ c :: v.tokens at htokens
  obtain ⟨nodes, w, hwithin, h₄⟩ := bind_eq_ok h₃
  obtain ⟨hw, _, hargs⟩ := within_eq_ok hwithin
  subst hw
  obtain ⟨_, x, hexpect, h₅⟩ := bind_eq_ok h₄
  obtain ⟨semicolon, hsemi, hrest, -⟩ := expect_eq_ok hexpect
  cases h₅
  refine ⟨_, ?_, .whole (.callStatement hf hne hoc (Slice.derives_of_arguments (unbroken_of_group hinner) hargs) hsemi)⟩
  rw [htokens, hrest]
  simp

/-- How a statement is cut from a slice, by the tokens ahead. -/
inductive StatementWay : Slice → Outcome StatementCut → Prop where
  | conditional {i o : Token} {tokens : List Token} {stop : Int} : i.name? = some conditionalWord → o.isMark '(' = true →
      StatementWay ⟨i :: o :: tokens, stop⟩ (conditionalCut ⟨i :: o :: tokens, stop⟩)
  | function {u n o : Token} {tokens : List Token} {stop : Int} {type name : String} : u.name? = some type →
      n.name? = some name → o.isMark '(' = true →
      StatementWay ⟨u :: n :: o :: tokens, stop⟩ (functionCut type name ⟨u :: n :: o :: tokens, stop⟩)
  | declaration {u n equals : Token} {tokens : List Token} {stop : Int} {type name : String} : u.name? = some type →
      n.name? = some name → equals.isMark '=' = true →
      StatementWay ⟨u :: n :: equals :: tokens, stop⟩ (declaration type name n ⟨u :: n :: equals :: tokens, stop⟩)
  | reassignment {n equals : Token} {tokens : List Token} {stop : Int} {name : String} : n.name? = some name →
      equals.isMark '=' = true →
      StatementWay ⟨n :: equals :: tokens, stop⟩ (reassignment name n ⟨n :: equals :: tokens, stop⟩)
  | call {f o : Token} {tokens : List Token} {stop : Int} {name : String} : f.name? = some name →
      name ≠ conditionalWord → o.isMark '(' = true →
      StatementWay ⟨f :: o :: tokens, stop⟩ (callStatement name ⟨f :: o :: tokens, stop⟩)
  | refused (s : Slice) (what : String) (n : Nat) : StatementWay s (.error (.unexpected what (s.lookahead n)) s)

/-- A statement is cut in one of the ways. -/
theorem statementWay (s : Slice) : StatementWay s (statementCut s) := by
  obtain ⟨tokens, stop⟩ := s
  unfold statementCut
  split
  next => exact .refused _ "a statement" 0
  next first hfirst =>
    cases tokens with
    | nil => cases hfirst
    | cons first' tokens =>
      dsimp only
      split
      next hif =>
        cases tokens with
        | nil => cases hif.2
        | cons o tokens => exact .conditional (hif.1 ▸ hfirst) hif.2
      next hif =>
        split
        next second hsecond =>
          cases tokens with
          | nil => cases hsecond
          | cons second' tokens =>
            split
            next ho =>
              cases tokens with
              | nil => cases ho
              | cons o tokens => exact .function hfirst hsecond ho
            next =>
              split
              next heq =>
                cases tokens with
                | nil => cases heq
                | cons equals tokens => exact .declaration hfirst hsecond heq
              next => exact .refused _ _ 2
        next =>
          split
          next heq =>
            cases tokens with
            | nil => cases heq
            | cons equals tokens => exact .reassignment hfirst heq
          next =>
            split
            next ho =>
              cases tokens with
              | nil => cases ho
              | cons o tokens => exact .call hfirst (fun hname => hif ⟨hname, ho⟩) ho
            next => exact .refused _ _ 1

/-- A statement is cut off the front of a slice. -/
theorem statementCut_eq_ok {s t : Slice} {cut : StatementCut} (h : statementCut s = .ok cut t) :
    ∃ front, s.tokens = front ++ t.tokens ∧ cut.Spells front := by
  have hway := statementWay s
  rw [h] at hway
  generalize houtcome : (EStateM.Result.ok cut t : Outcome StatementCut) = outcome at hway
  cases hway with
  | conditional hi _ => exact conditionalCut_eq_ok hi houtcome.symm
  | function hu hn _ => exact functionCut_eq_ok hu hn houtcome.symm
  | declaration hu hn hequals => exact declaration_eq_ok hu hn hequals houtcome.symm
  | reassignment hn hequals => exact reassignment_eq_ok hn hequals houtcome.symm
  | call hf hne ho => exact callStatement_eq_ok hf hne ho houtcome.symm
  | refused => cases houtcome

end Rule

namespace Slice

/-- The statements that are read to the end of a slice are a program, which goes up to the first end of input. -/
def ReadsProgram (s : Slice) (nodes : List Node) : Prop :=
  ∃ front rest, s.tokens = front ++ rest ∧ (∀ t ∈ rest.head?, t.isEof = true) ∧ Derives .program front nodes

/-- A program that is read in a slice that is not broken off is all of its tokens. -/
theorem ReadsProgram.derives {s : Slice} {nodes : List Node} (h : s.ReadsProgram nodes) (hs : s.Unbroken) :
    Derives .program s.tokens nodes := by
  obtain ⟨front, rest, htokens, hrest, hprogram⟩ := h
  cases rest with
  | nil => rwa [htokens, List.append_nil]
  | cons t rest =>
    have hnot : t.isEof = false := hs t (by rw [htokens]; simp)
    have hend : t.isEof = true := hrest t rfl
    rw [hnot] at hend
    cases hend

/-- The node of a cut statement is what its tokens stand for, if bodies of fewer than `n` tokens are read as programs. -/
theorem derives_of_statementNode {n : Nat} {cut : StatementCut} {front : List Token} {node : Node}
    (ih : ∀ {s t : Slice} {nodes : List Node}, s.tokens.length < n → s.program = .ok nodes t → s.ReadsProgram nodes)
    (hcut : cut.Spells front) (hsize : cut.size < n) (h : statementNode cut = .ok node) :
    Derives .statement front [node] := by
  cases hcut with
  | whole hstmt =>
    rw [statementNode] at h
    cases h
    exact hstmt
  | conditional hi hoc hguard hne hoc' hin =>
    rw [statementNode] at h
    split at h
    next body _ hbody =>
      cases h
      exact .conditional hi hoc hguard hne hoc' ((ih hsize hbody).derives hin)
    next => cases h
  | function hx hy hoc hparams hoc' hin =>
    rw [statementNode] at h
    split at h
    next body _ hbody =>
      cases h
      exact .function hx hy hoc hparams hoc' ((ih hsize hbody).derives hin)
    next => cases h

/-- The statements that are read to the end of a slice are a program. By induction on the number of tokens: a body and the
statements after it are both shorter than the slice. -/
theorem readsProgram (n : Nat) : ∀ {s t : Slice} {nodes : List Node}, s.tokens.length < n → s.program = .ok nodes t →
    s.ReadsProgram nodes := by
  induction n with
  | zero => exact fun h => absurd h (by omega)
  | succ n ih =>
    intro s t nodes hlen h
    rw [program] at h
    split at h
    next hend =>
      cases h
      refine ⟨[], s.tokens, rfl, fun x hx => ?_, .noStatements⟩
      obtain ⟨tokens, hcons⟩ := List.head?_eq_some_iff.mp hx
      have hcurrent : s.current = x := by rw [current, lookahead, List.drop_zero, hcons, List.headD_cons]
      rw [← hcurrent]
      exact hend
    next =>
      split at h
      next => cases h
      next cut u hcut =>
        split at h
        next => cases h
        next node hnode =>
          split at h
          next more v hmore =>
            cases h
            have hshrink : u.tokens.length + (cut.size + 1) ≤ s.tokens.length := Rule.shrinks_statementCut s cut u hcut
            obtain ⟨front, htokens, hspells⟩ := Rule.statementCut_eq_ok hcut
            have hstatement := derives_of_statementNode ih hspells (by omega) hnode
            obtain ⟨back, rest, hback, hrest, hprogram⟩ := ih (by omega) hmore
            exact ⟨front ++ back, rest, by rw [htokens, hback, List.append_assoc], hrest, .moreStatements hstatement hprogram⟩
          next => cases h

/-- Statements that are read to the end of a slice are a program. -/
theorem readsProgram_of_program {s t : Slice} {nodes : List Node} (h : s.program = .ok nodes t) : s.ReadsProgram nodes :=
  readsProgram _ (Nat.lt_succ_self _) h

end Slice

end TinyScript
