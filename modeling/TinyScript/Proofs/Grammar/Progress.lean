import TinyScript.Proofs.Grammar.Matching
import TinyScript.Proofs.Grammar.Trace
import TinyScript.Proofs.Tree.Words

/-!
# Parsers make progress

Where a parser does not stand at an end of input and reads a statement or an operand, it passes tokens, and no end of input
among them; a statement it passes up to its semicolon or its last bracket. Whatever comes of it, each slice that is cut out on
the way is narrower than what its reader has ahead, so reading ends, and no node holds an end of input
(`Session.progress`).
-/

namespace TinyScript

/-! ## What rules pass -/

/-- Some tokens are passed on the way from a slice to its rest, and none of them ends the input. -/
structure Slice.Passes (s : Slice) (passed : List Token) (t : Slice) : Prop where
  tokens : s.tokens = passed ++ t.tokens
  ne_nil : passed ≠ []
  not_isEof : ∀ u ∈ passed, u.isEof = false

namespace Rule

variable {s t : Slice}

/-- A token before those that are passed is passed with them. -/
theorem passes_cons {u : Token} {tokens passed : List Token} {stop : Int} (hu : u.isEof = false)
    (h : Slice.Passes ⟨tokens, stop⟩ passed t) : Slice.Passes ⟨u :: tokens, stop⟩ (u :: passed) t :=
  ⟨congrArg (u :: ·) h.tokens, List.cons_ne_nil u passed, List.forall_mem_cons.mpr ⟨hu, h.not_isEof⟩⟩

theorem exists_passes_of_group {b : Bracket} {inner : Slice} (h : group b s = .ok inner t) : ∃ passed, s.Passes passed t := by
  obtain ⟨closer, hcloser, htokens, -, -⟩ := group_eq_ok h
  refine ⟨inner.tokens ++ [closer], by rw [htokens, List.append_assoc, List.singleton_append], by simp, fun u hu => ?_⟩
  rcases List.mem_append.mp hu with hu | hu
  · exact unbroken_of_group h u hu
  · rw [List.mem_singleton.mp hu]
    exact Token.not_isEof_of_isMark hcloser

theorem exists_passes_of_operandCut {cut : OperandCut} (hs : s.atEnd = false) (h : operandCut s = .ok cut t) :
    ∃ passed, s.Passes passed t := by
  have hway := operandWay hs
  rw [h] at hway
  generalize houtcome : (EStateM.Result.ok cut t : Outcome OperandCut) = outcome at hway
  cases hway with
  | call hname hopen =>
    obtain ⟨inner, hgroup, -⟩ := map_eq_ok houtcome.symm
    obtain ⟨passed, hpassed⟩ := exists_passes_of_group hgroup
    exact ⟨_, passes_cons (not_isEof_of_name? hname) (passes_cons (Token.not_isEof_of_isMark hopen) hpassed)⟩
  | round hopen | square hopen =>
    obtain ⟨inner, hgroup, -⟩ := map_eq_ok houtcome.symm
    obtain ⟨passed, hpassed⟩ := exists_passes_of_group hgroup
    exact ⟨_, passes_cons (Token.not_isEof_of_isMark hopen) hpassed⟩
  | refused => cases houtcome
  | @leaf u tokens stop halone hmeet =>
    cases houtcome
    exact ⟨[u], rfl, by simp, by simpa using halone.1⟩

/-- An operand is passed before the next end of input. -/
theorem exists_passes_of_operand {node : Node} (hs : s.atEnd = false) (h : operand s = .ok node t) :
    ∃ passed, s.Passes passed t := by
  unfold operand at h
  split at h
  next => cases h
  next cut u hcut =>
    split at h
    next => cases h
    next =>
      cases h
      exact exists_passes_of_operandCut hs hcut

/-- A statement is passed before the next end of input, up to what ends it. -/
theorem exists_passes_of_statement {node : Node} (h : statement s = .ok node t) :
    ∃ passed, s.Passes passed t ∧ ∀ u ∈ passed.getLast?, u.EndsStatement := by
  unfold statement at h
  split at h
  next => cases h
  next cut u hcut =>
    split at h
    next => cases h
    next hnode =>
      cases h
      obtain ⟨passed, htokens, hspells⟩ := statementCut_eq_ok hcut
      have hstatement := Slice.derives_of_statementNode (fun _ => Slice.readsProgram_of_program) hspells
        (Nat.lt_succ_self cut.size) hnode
      exact ⟨passed, ⟨htokens, hstatement.statement_ne_nil, hstatement.not_isEof⟩, hstatement.endsStatement rfl⟩

end Rule

/-- No node of a program that is parsed holds an end of input. -/
theorem not_isEof_of_heldTokens {tokens : List Token} {nodes : List Node} (h : parseTokens tokens = .ok nodes) :
    ∀ t ∈ Node.heldTokens nodes, t.isEof = false := by
  unfold parseTokens at h
  cases hslice : Slice.ofTokens? tokens with
  | error e =>
    rw [hslice] at h
    cases h
  | ok slice =>
    rw [hslice] at h
    obtain ⟨t, hprogram⟩ := Slice.program_of_parse (mapError_eq_ok_iff.mp h)
    obtain ⟨front, rest, -, -, hderives⟩ := Slice.readsProgram_of_program hprogram
    exact fun t ht => hderives.not_isEof t (hderives.heldTokens_sublist.subset ht)

namespace Session

/-- The parser has gone on from one state to another and passed some tokens, none of which ends the input. -/
structure Passes (s : Session) (passed : List Token) (s' : Session) : Prop where
  toList : s'.tape.toList = s.tape.toList
  ahead : passed <+: s.tape.toList.drop s.tape.index
  index : s'.tape.index = s.tape.index + passed.length
  index_lt : s.tape.index < s'.tape.index
  not_isEof : ∀ t ∈ passed, t.isEof = false

/-- A request that a rule answers is a success where the rule succeeds, and the tape is moved to what that leaves. -/
theorem performRule_eq_ok {α : Type} {answer : α → Answer} {r : Rule α} {s s' : Session} {a : Answer}
    (h : s.performRule answer r = (.ok a, s')) :
    ∃ b t, r s.tape.ahead = .ok b t ∧ s' = { s with tape := s.tape.moveTo t } := by
  unfold performRule run Tape.run at h
  cases hr : r s.tape.ahead with
  | ok b t =>
    rw [hr] at h
    exact ⟨b, t, rfl, (congrArg Prod.snd h).symm⟩
  | error e t =>
    rw [hr] at h
    cases congrArg Prod.fst h

theorem performRule_of_ok {α : Type} {answer : α → Answer} {r : Rule α} {s : Session} {b : α} {t : Slice}
    (h : r s.tape.ahead = .ok b t) : s.performRule answer r = (.ok (answer b), { s with tape := s.tape.moveTo t }) := by
  simp only [performRule, run, Tape.run, h]
  rfl

/-- Where tokens are passed in the slice ahead, the parser passes them. -/
theorem passes_moveTo {s : Session} {passed : List Token} {t : Slice} (h : s.tape.ahead.Passes passed t)
    (hrest : t.RestOf s.tape.ahead) : s.Passes passed { s with tape := s.tape.moveTo t } := by
  have hindex : (s.tape.moveTo t).index = s.tape.index + passed.length := Tape.index_moveTo h.tokens t.stop
  have hpos : 0 < passed.length := List.length_pos_iff.mpr h.ne_nil
  refine ⟨(Tape.follows_moveTo hrest).toList, ?_, hindex, ?_, h.not_isEof⟩
  · rw [Tape.drop_index, Slice.toList, h.tokens, List.append_assoc]
    exact List.prefix_append _ _
  · rw [hindex]
    omega

/-- Away from the ends of input a parser passes tokens where it succeeds in reading a statement or an operand, and no end of
input among them; a statement ends with the last of them. With as much fuel as there are tokens ahead, both are read to their
end, and whether they fail or not, every slice that is cut out, however deep, has fewer tokens that do not end the input than
its reader has ahead. So programs, operands and arguments are read to their end in every slice, and no variable of a program
that is parsed holds an end of input. -/
theorem progress :
    (∀ s : Session, s.tape.current.isEof = false →
      (∀ answer s', s.perform .statement = (.ok answer, s') →
        ∃ passed, s.Passes passed s' ∧ ∀ t ∈ passed.getLast?, t.EndsStatement) ∧
      (∀ answer s', s.perform .operand = (.ok answer, s') → ∃ passed, s.Passes passed s') ∧
      ∀ fuel, s.tape.ahead.tokens.length ≤ fuel →
        (Traced.statement fuel).Traces Rule.statement s.tape.ahead ∧
          (Traced.operand fuel).Traces Rule.operand s.tape.ahead) ∧
    (∀ (s : Slice) (fuel : Nat), s.tokens.length < fuel →
      (Traced.program fuel).Traces Slice.program s ∧ (Traced.expression fuel).Traces Slice.expression s ∧
        (Traced.arguments fuel).Traces Slice.arguments s) ∧
    ∀ tokens nodes, parseTokens tokens = .ok nodes →
      ∀ v, .var v ∈ Node.preorderAll nodes → ∀ t ∈ v.token, t.isEof = false := by
  refine ⟨fun s hs => ⟨fun answer s' h => ?_, fun answer s' h => ?_, fun fuel hfuel => ?_⟩, fun s fuel hfuel => ?_, ?_⟩
  · obtain ⟨node, t, hstatement, rfl⟩ := performRule_eq_ok h
    obtain ⟨passed, hpassed, hlast⟩ := Rule.exists_passes_of_statement hstatement
    have hrest := Rule.forward_statement (s := s.tape.ahead)
    rw [Rule.Forward, hstatement] at hrest
    exact ⟨passed, passes_moveTo hpassed hrest, hlast⟩
  · obtain ⟨node, t, hoperand, rfl⟩ := performRule_eq_ok h
    obtain ⟨passed, hpassed⟩ := Rule.exists_passes_of_operand hs hoperand
    have hrest := Rule.forward_operand (s := s.tape.ahead)
    rw [Rule.Forward, hoperand] at hrest
    exact ⟨passed, passes_moveTo hpassed hrest⟩
  · exact ⟨Traced.traces_statement hfuel, (Traced.tracesBelow fuel).operand hfuel hs⟩
  · exact ⟨Traced.traces_program fuel s hfuel, (Traced.tracesBelow fuel).expression s hfuel,
      (Traced.tracesBelow fuel).arguments hfuel⟩
  · intro tokens nodes h v hv t ht
    exact not_isEof_of_heldTokens h t (List.mem_filterMap.mpr ⟨.var v, hv, ht⟩)

/-- The tokens of `if(a){x=[b];}`. -/
def guardedValue : List Token :=
  [⟨.identifier "if", 2⟩, ⟨.character '(', 2⟩, ⟨.identifier "a", 4⟩, ⟨.character ')', 4⟩, ⟨.character '\x7b', 5⟩,
    ⟨.identifier "x", 7⟩, ⟨.character '=', 7⟩, ⟨.character '[', 8⟩, ⟨.identifier "b", 10⟩, ⟨.character ']', 10⟩,
    ⟨.character ';', 11⟩, ⟨.character '\x7d', 12⟩]

/-- What is cut out of `if(a){x=[b];}`: the guard and the body, then the value out of the body, and out of the value what is in
brackets. -/
def guardedOpenings : List Opening :=
  [⟨⟨guardedValue.drop 2, 13⟩, ⟨[⟨.identifier "a", 4⟩], 4⟩⟩,
    ⟨⟨guardedValue.drop 5, 13⟩, ⟨(guardedValue.drop 5).take 6, 12⟩⟩,
    ⟨⟨(guardedValue.drop 6).take 5, 12⟩, ⟨(guardedValue.drop 7).take 3, 11⟩⟩,
    ⟨⟨(guardedValue.drop 8).take 2, 11⟩, ⟨[⟨.identifier "b", 10⟩], 10⟩⟩]

/-- What is cut out of `f((a), b c);`: the arguments, and out of these what is in brackets. -/
def nestedOpenings : List Opening :=
  [⟨⟨nestedCall.drop 2, 12⟩, ⟨(nestedCall.drop 2).take 6, 10⟩⟩,
    ⟨⟨(nestedCall.drop 3).take 5, 10⟩, ⟨[⟨.identifier "a", 4⟩], 4⟩⟩]

/-- A parser of `f((a), b c);` passes all of it as a statement, and all but the semicolon as an operand. It cuts out the same
slices both times, and a parser of `if(a){x=[b];}` cuts out four, down to the brackets in the value in the body. -/
theorem progress_nestedCall :
    let node : Node := .invocation "f" [.var (.ofToken ⟨.identifier "a", 4⟩),
      .parameters [.var (.ofToken ⟨.identifier "b", 8⟩), .var (.ofToken ⟨.identifier "c", 10⟩)]]
    let s : Session := ⟨.ofSlice ⟨nestedCall, 12⟩, false⟩
    let s' : Session := { s with tape := s.tape.moveTo ⟨[], 12⟩ }
    let s'' : Session := { s with tape := s.tape.moveTo ⟨[⟨.character ';', 11⟩], 12⟩ }
    let guarded : Node := .conditional [.var (.ofToken ⟨.identifier "a", 4⟩)]
      [.assign { name := "x", token := some ⟨.identifier "x", 7⟩, type := none }
        [.parameters [.var (.ofToken ⟨.identifier "b", 10⟩)]] false none]
    s.tape.current.isEof = false ∧ s.perform .statement = (.ok (.node node), s') ∧
      s.perform .operand = (.ok (.node node), s'') ∧ parseTokens (nestedCall ++ [.eof 12]) = .ok [node] ∧
      (∃ passed, s.Passes passed s' ∧ ∀ t ∈ passed.getLast?, t.EndsStatement) ∧ (∃ passed, s.Passes passed s'') ∧
      (∀ v, .var v ∈ Node.preorderAll [node] → ∀ t ∈ v.token, t.isEof = false) ∧
      Traced.statement 10 s.tape.ahead = some (.ok node ⟨[], 12⟩, nestedOpenings) ∧
      Traced.operand 10 s.tape.ahead = some (.ok node ⟨[⟨.character ';', 11⟩], 12⟩, nestedOpenings) ∧
      (∀ o ∈ nestedOpenings, o.Narrows) ∧
      Traced.statement 12 ⟨guardedValue, 13⟩ = some (.ok guarded ⟨[], 13⟩, guardedOpenings) ∧
      ∀ o ∈ guardedOpenings, o.Narrows := by
  intro node s s' s'' guarded
  obtain ⟨hsessions, hreaders, hheld⟩ := progress
  obtain ⟨hstatement, hoperand, htraces⟩ := hsessions s rfl
  obtain ⟨htrace, htrace'⟩ := htraces 10 (by decide)
  have hopenings : Traced.statement 10 s.tape.ahead = some (.ok node ⟨[], 12⟩, nestedOpenings) := rfl
  have hopenings' : Traced.operand 10 s.tape.ahead = some (.ok node ⟨[⟨.character ';', 11⟩], 12⟩, nestedOpenings) := rfl
  have hs' : s.perform .statement = (.ok (.node node), s') := performRule_of_ok (htrace.apply_eq hopenings)
  have hs'' : s.perform .operand = (.ok (.node node), s'') := performRule_of_ok (htrace'.apply_eq hopenings')
  have hprogram : Slice.program ⟨nestedCall, 12⟩ = .ok [node] ⟨[], 12⟩ :=
    (hreaders ⟨nestedCall, 12⟩ 11 (by decide)).1.apply_eq rfl
  have hparse : parseTokens (nestedCall ++ [.eof 12]) = .ok [node] := by
    rw [parseTokens_append_eof nestedCall rfl, Slice.parse, Token.eof, hprogram]
    rfl
  have hguarded : Traced.statement 12 ⟨guardedValue, 13⟩ = some (.ok guarded ⟨[], 13⟩, guardedOpenings) := rfl
  have hguardedTrace := ((hsessions ⟨.ofSlice ⟨guardedValue, 13⟩, false⟩ rfl).2.2 12 (by decide)).1
  exact ⟨rfl, hs', hs'', hparse, hstatement _ _ hs', hoperand _ _ hs'', hheld _ _ hparse, hopenings, hopenings',
    htrace.narrows hopenings, hguarded, hguardedTrace.narrows hguarded⟩

end Session

end TinyScript
