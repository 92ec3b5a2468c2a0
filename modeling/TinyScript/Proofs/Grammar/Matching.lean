import TinyScript.Proofs.Grammar.Balance
import TinyScript.Proofs.Grammar.Contract
import TinyScript.Proofs.Grammar.Forward

/-!
# Matching brackets

Where a group has been opened, the bracket that closes it is the one behind a balanced run (`Bracket.Matches`). What looks for
the end of a group stops at that bracket and nowhere else (`Rule.group_of_matches`), and where there is none it goes on to the
first end of input (`Rule.group_of_not_matches`).

A parser that is asked for a group does the same at every place of its list (`Session.parameters_matching`).
-/

namespace TinyScript

/-- The tokens are a balanced run, then a bracket that closes a group of the pair, and then the rest. -/
structure Bracket.Matches (b : Bracket) (tokens run : List Token) (closer : Token) (rest : List Token) : Prop where
  balanced : Balanced b run
  isMark : closer.isMark b.closing = true
  eq_append : tokens = run ++ closer :: rest

/-- There is one run at most. -/
theorem Bracket.Matches.unique {b : Bracket} {tokens run run' rest rest' : List Token} {closer closer' : Token}
    (h : b.Matches tokens run closer rest) (h' : b.Matches tokens run' closer' rest') : run' = run :=
  (h'.balanced.level.group_unique h.balanced.level h'.isMark h.isMark (h'.eq_append.symm.trans h.eq_append)).1

namespace Rule

/-! ## What is divided off -/

/-- Of what is divided off at some depth, no prefix closes more than is open. -/
theorem closings_le_of_spanGroup (b : Bracket) (depth : Nat) (tokens front : List Token)
    (h : front <+: (spanGroup b depth tokens).1) : b.closings front ≤ depth + b.openings front := by
  fun_induction spanGroup b depth tokens generalizing front with
  | case1 | case2 | case3 =>
    obtain rfl := List.prefix_nil.mp h
    exact Nat.zero_le _
  | case4 t rest heof hclosing depth inside after hspan ih =>
    -- The token closes one of the groups that are open here.
    cases front with
    | nil => exact Nat.zero_le _
    | cons t' front =>
      obtain ⟨rfl, hfront⟩ := List.cons_prefix_cons.mp h
      have hopening : t'.isMark b.opening = false := Token.isMark_eq_false hclosing (b.opening_ne_closing b).symm
      have hle := ih front (by rwa [hspan])
      simp only [Bracket.closings_cons, Bracket.openings_cons, hclosing, hopening, if_true, Bool.false_eq_true, if_false]
      omega
  | case5 depth t rest heof hclosing inside after hspan ih =>
    cases front with
    | nil => exact Nat.zero_le _
    | cons t' front =>
      obtain ⟨rfl, hfront⟩ := List.cons_prefix_cons.mp h
      have hle := ih front (by rwa [hspan])
      simp only [Bracket.closings_cons, Bracket.openings_cons, if_neg hclosing]
      split at hle
      next hopening => rw [if_pos hopening]; omega
      next hopening => rw [if_neg hopening]; omega

/-- What is divided off before a closing bracket closes all that is open. -/
theorem closings_eq_of_spanGroup (b : Bracket) (depth : Nat) (tokens : List Token) {closer : Token} {rest : List Token}
    (h : (spanGroup b depth tokens).2 = closer :: rest) (hcloser : closer.isMark b.closing = true) :
    b.closings (spanGroup b depth tokens).1 = depth + b.openings (spanGroup b depth tokens).1 := by
  fun_induction spanGroup b depth tokens with
  | case1 => cases h
  | case2 depth t tokens heof =>
    cases h
    rw [Token.not_isEof_of_isMark hcloser] at heof
    cases heof
  | case3 => rfl
  | case4 t tokens heof hclosing depth inside after hspan ih =>
    have hopening : t.isMark b.opening = false := Token.isMark_eq_false hclosing (b.opening_ne_closing b).symm
    rw [hspan] at ih
    have hall := ih h
    simp only [Bracket.closings_cons, Bracket.openings_cons, hclosing, hopening, if_true, Bool.false_eq_true, if_false]
    dsimp only at hall
    omega
  | case5 depth t tokens heof hclosing inside after hspan ih =>
    rw [hspan] at ih
    have hall := ih h
    simp only [Bracket.closings_cons, Bracket.openings_cons, if_neg hclosing]
    dsimp only at hall
    split at hall
    next hopening => rw [if_pos hopening]; omega
    next hopening => rw [if_neg hopening]; omega

/-- What is divided off before a closing bracket is the run that the bracket matches. -/
theorem matches_of_spanGroup {b : Bracket} {tokens rest : List Token} {closer : Token}
    (h : (spanGroup b 0 tokens).2 = closer :: rest) (hcloser : closer.isMark b.closing = true) :
    b.Matches tokens (spanGroup b 0 tokens).1 closer rest where
  balanced :=
    { not_isEof := not_isEof_of_mem_spanGroup b 0 tokens
      closings_le := fun front hfront => by simpa using closings_le_of_spanGroup b 0 tokens front hfront
      closings_eq := by simpa using closings_eq_of_spanGroup b 0 tokens h hcloser }
  isMark := hcloser
  eq_append := by rw [← h, spanGroup_append]

/-! ## Groups -/

/-- Where a bracket matches, the run before it is cut out, and the rule goes on behind it. -/
theorem group_of_matches {b : Bracket} {s : Slice} {run rest : List Token} {closer : Token}
    (h : b.Matches s.tokens run closer rest) : group b s = .ok ⟨run, closer.position⟩ ⟨rest, s.stop⟩ := by
  obtain ⟨tokens, stop⟩ := s
  obtain ⟨hbalanced, hcloser, rfl⟩ := h
  exact hbalanced.level.group hcloser stop

/-- Where no bracket matches, the rule fails at the first end of input and stays there. -/
theorem group_of_not_matches {b : Bracket} {s : Slice} (h : ∀ run closer rest, ¬ b.Matches s.tokens run closer rest) :
    ∃ front found back rest, s.toList = front ++ found :: back ∧ (∀ t ∈ front, t.isEof = false) ∧ found.isEof = true ∧
      s.tokens = front ++ rest ∧ group b s = .error (.unclosed b.opening.toString found) ⟨rest, s.stop⟩ := by
  have hspan := spanGroup_append b 0 s.tokens
  have hinside := not_isEof_of_mem_spanGroup b 0 s.tokens
  have hstops := spanGroup_stops b 0 s.tokens
  cases hafter : (spanGroup b 0 s.tokens).2 with
  | nil =>
    rw [hafter, List.append_nil] at hspan
    refine ⟨s.tokens, .eof s.stop, [], [], rfl, by rwa [hspan] at hinside, rfl, by simp, ?_⟩
    simp only [group, hafter]
  | cons found rest =>
    have hclosing : ¬ found.isMark b.closing = true := fun hclosing => h _ _ _ (matches_of_spanGroup hafter hclosing)
    rw [hafter] at hspan hstops
    have heof : found.isEof = true := (hstops found rfl).resolve_right hclosing
    refine ⟨(spanGroup b 0 s.tokens).1, found, rest ++ [.eof s.stop], found :: rest, ?_, hinside, heof, hspan.symm, ?_⟩
    · rw [Slice.toList, ← hspan, List.append_assoc, List.cons_append]
      simp only [hspan]
    · simp only [group, hafter, if_neg hclosing]

end Rule

/-! ## Parsers -/

namespace Bracket

variable {b : Bracket} {s : Slice} {run rest : List Token} {closer : Token}

/-- A bracket that matches among tokens also matches where their end is with them. -/
theorem Matches.toList (h : b.Matches s.tokens run closer rest) : b.Matches s.toList run closer (rest ++ [.eof s.stop]) :=
  ⟨h.balanced, h.isMark, by rw [Slice.toList, h.eq_append, List.append_assoc, List.cons_append]⟩

/-- The end of tokens is no bracket, so the bracket that matches is before it. -/
theorem Matches.of_toList (h : b.Matches s.toList run closer rest) : ∃ more, b.Matches s.tokens run closer more := by
  obtain ⟨hbalanced, hcloser, heq⟩ := h
  unfold Slice.toList at heq
  rcases rest.eq_nil_or_concat with rfl | ⟨more, last, rfl⟩
  · obtain ⟨-, hlast⟩ := List.append_inj' heq rfl
    rw [← List.head_eq_of_cons_eq hlast] at hcloser
    cases hcloser
  · rw [List.concat_eq_append, ← List.cons_append, ← List.append_assoc] at heq
    exact ⟨more, hbalanced, hcloser, (List.append_inj' heq rfl).1⟩

/-- A text that opens no group is the opening character of no pair. -/
theorem ofOpening?_eq_none {opening : String} (h : ∀ b : Bracket, opening ≠ b.opening.toString) :
    ofOpening? opening = none := by
  refine List.find?_eq_none.mpr fun b _ => ?_
  simpa using fun heq => h b heq.symm

end Bracket

namespace Tape

/-- The tokens of a tape from its place on are those ahead. -/
theorem drop_index (t : Tape) : t.toList.drop t.index = t.ahead.toList := by
  rw [toList, index, List.append_assoc, ← List.length_reverse, List.drop_left]
  rfl

/-- A tape is moved by as many places as tokens are gone from its slice. -/
theorem index_moveTo {t : Tape} {front rest : List Token} (h : t.ahead.tokens = front ++ rest) (stop : Int) :
    (t.moveTo ⟨rest, stop⟩).index = t.index + front.length := by
  have hgone : (t.moveTo ⟨rest, stop⟩).passed = front.reverse ++ t.passed := by
    simp only [moveTo, h, List.length_append, Nat.add_sub_cancel, List.take_left]
  rw [index, hgone, List.length_append, List.length_reverse, Nat.add_comm]
  rfl

end Tape

namespace Session

/-- The parser stands at a place of a list, and the list is what it reads. -/
structure At (tokens : List Token) (place : Nat) (s : Session) : Prop where
  toList : s.tape.toList = tokens
  index : s.tape.index = place

variable {tokens : List Token} {place : Nat} {s : Session}

/-- A parser that is asked for a group gives the tokens that are cut out. -/
theorem perform_parameters_of_ok {opening : String} {inner rest : Slice}
    (h : Rule.groupOf opening s.tape.ahead = .ok inner rest) :
    s.perform (.parameters opening) = (.ok (.tokens inner.tokens), { s with tape := s.tape.moveTo rest }) := by
  simp only [perform, performRule, run, Tape.run, h]
  rfl

/-- A parser that is asked for a group fails where that is not cut out. -/
theorem perform_parameters_of_error {opening : String} {e : ParseError} {rest : Slice}
    (h : Rule.groupOf opening s.tape.ahead = .error e rest) :
    s.perform (.parameters opening) = (.error (.grammatical e), { s with tape := s.tape.moveTo rest }) := by
  simp only [perform, performRule, run, Tape.run, h]
  rfl

/-- A parser stands at the first token of its list at first. -/
theorem at_zero_of_ofTokens? {start : Session} (h : ofTokens? tokens = .ok start) : start.At tokens 0 := by
  unfold ofTokens? at h
  cases hslice : Slice.ofTokens? tokens with
  | error e =>
    rw [hslice] at h
    cases h
  | ok slice =>
    rw [hslice] at h
    cases h
    exact ⟨Slice.toList_of_ofTokens? hslice, rfl⟩

/-- From the place of a parser on, its list is what is ahead of it. -/
theorem At.drop_eq (h : s.At tokens place) : tokens.drop place = s.tape.ahead.toList := by
  rw [← h.toList, ← h.index, s.tape.drop_index]

/-- A parser is asked for something and stands behind the tokens that are gone. -/
theorem At.after (h : s.At tokens place) (request : Request) {front rest : List Token}
    (hahead : s.tape.ahead.tokens = front ++ rest) {stop : Int}
    (hmove : (s.perform request).2.tape = s.tape.moveTo ⟨rest, stop⟩) :
    (s.perform request).2.At tokens (place + front.length) where
  toList := (s.follows_perform request).toList.trans h.toList
  index := by rw [hmove, Tape.index_moveTo hahead, h.index]

/-- Advancing before the last token goes on to the next. -/
theorem At.advance (h : s.At tokens place) (hplace : place + 1 < tokens.length) :
    (s.perform .advance).2.At tokens (place + 1) := by
  cases hahead : s.tape.ahead.tokens with
  | nil =>
    have hlength := congrArg List.length h.drop_eq
    rw [Slice.toList, hahead, List.length_drop, List.nil_append, List.length_singleton] at hlength
    omega
  | cons t rest =>
    have hgone : s.tape.ahead.tokens = [t] ++ rest := hahead
    have hrest : s.tape.ahead.advance = ⟨rest, s.tape.ahead.stop⟩ := by rw [Slice.advance, hahead, List.tail_cons]
    have hmove : (s.perform .advance).2.tape = s.tape.moveTo ⟨rest, s.tape.ahead.stop⟩ := by
      rw [← hrest]
      rfl
    exact h.after .advance hgone hmove

/-- A parser comes to every place of its list. -/
theorem at_performAll_advance (h : s.At tokens 0) (hplace : place < tokens.length) :
    (s.performAll (List.replicate place .advance)).At tokens place := by
  induction place with
  | zero => exact h
  | succ place ih =>
    rw [List.replicate_succ', performAll, List.foldl_append]
    exact (ih (by omega)).advance hplace

/-- Where a bracket matches, a parser that is asked for a group gives the run before it and stands behind it. -/
theorem At.parameters_of_matches (h : s.At tokens place) {b : Bracket} {run rest : List Token} {closer : Token}
    (hmatches : b.Matches (tokens.drop place) run closer rest) :
    ∃ s', s.perform (.parameters b.opening.toString) = (.ok (.tokens run), s') ∧ s'.At tokens (place + run.length + 1) := by
  rw [h.drop_eq] at hmatches
  obtain ⟨more, hahead⟩ := hmatches.of_toList
  have hgroup : Rule.groupOf b.opening.toString s.tape.ahead = .ok ⟨run, closer.position⟩ ⟨more, s.tape.ahead.stop⟩ := by
    rw [Rule.groupOf, b.ofOpening?_opening]
    exact Rule.group_of_matches hahead
  have hperform := perform_parameters_of_ok hgroup
  refine ⟨_, hperform, ?_⟩
  have hgone : s.tape.ahead.tokens = (run ++ [closer]) ++ more := by
    rw [hahead.eq_append, List.append_assoc, List.singleton_append]
  have hat := h.after (.parameters b.opening.toString) hgone (congrArg (·.2.tape) hperform)
  rwa [hperform, List.length_append, List.length_singleton, ← Nat.add_assoc] at hat

/-- Where no bracket matches, a parser that is asked for a group fails at the first end of input and stands there. -/
theorem At.parameters_of_not_matches (h : s.At tokens place) {b : Bracket}
    (hnone : ∀ run closer rest, ¬ b.Matches (tokens.drop place) run closer rest) :
    ∃ front found back s', tokens.drop place = front ++ found :: back ∧ (∀ t ∈ front, t.isEof = false) ∧
      found.isEof = true ∧
      s.perform (.parameters b.opening.toString) = (.error (.grammatical (.unclosed b.opening.toString found)), s') ∧
      s'.At tokens (place + front.length) := by
  rw [h.drop_eq] at hnone ⊢
  obtain ⟨front, found, back, rest, hlist, hfront, hfound, hahead, hfails⟩ :=
    Rule.group_of_not_matches fun run closer rest hmatches => hnone run closer _ hmatches.toList
  have hgroup : Rule.groupOf b.opening.toString s.tape.ahead =
      .error (.unclosed b.opening.toString found) ⟨rest, s.tape.ahead.stop⟩ := by
    rw [Rule.groupOf, b.ofOpening?_opening]
    exact hfails
  have hperform := perform_parameters_of_error hgroup
  refine ⟨front, found, back, _, hlist, hfront, hfound, hperform, ?_⟩
  have hat := h.after (.parameters b.opening.toString) hahead (congrArg (·.2.tape) hperform)
  rwa [hperform] at hat

/-- A parser that is asked for a group of what opens none fails at the current token and stays where it is. -/
theorem At.parameters_unrecognized (h : s.At tokens place) (hplace : place < tokens.length) {opening : String}
    (hopening : ∀ b : Bracket, opening ≠ b.opening.toString) :
    s.perform (.parameters opening) = (.error (.grammatical (.unrecognized opening tokens[place].position)), s) := by
  have hcurrent : tokens[place] = s.tape.ahead.current := by
    have hsome := s.tape.toList_getElem?_index
    rw [h.toList, h.index] at hsome
    exact (List.getElem?_eq_some_iff.mp hsome).2
  have hgroup : Rule.groupOf opening s.tape.ahead =
      .error (.unrecognized opening s.tape.ahead.current.position) s.tape.ahead := by
    rw [Rule.groupOf, Bracket.ofOpening?_eq_none hopening]
  have hstay : s.tape.moveTo s.tape.ahead = s.tape := by simp [Tape.moveTo]
  rw [perform_parameters_of_error hgroup, hcurrent, hstay]

/-- A parser of a list that ends with the end of the input comes to every place of it, and what it does where it is asked for
a group depends on what is there. If the tokens are a balanced run before a bracket of the pair that closes a group, there is
only one such run, and the parser gives it and stands behind the bracket. If they are not, it fails at the first end of input
and stands there. If no bracket opens what it is asked for, it fails at the current token and stays where it is. -/
theorem parameters_matching {last : Token} (hlast : tokens.getLast? = some last) (hend : last.isEof = true)
    (hplace : place < tokens.length) :
    (∃ start, ofTokens? tokens = .ok start ∧ (start.performAll (List.replicate place .advance)).At tokens place) ∧
      ∀ s : Session, s.At tokens place →
        (∀ (b : Bracket) (run : List Token) (closer : Token) (rest : List Token),
          b.Matches (tokens.drop place) run closer rest →
            (∀ run' closer' rest', b.Matches (tokens.drop place) run' closer' rest' → run' = run) ∧
              ∃ s', s.perform (.parameters b.opening.toString) = (.ok (.tokens run), s') ∧
                s'.At tokens (place + run.length + 1)) ∧
        (∀ b : Bracket, (∀ run closer rest, ¬ b.Matches (tokens.drop place) run closer rest) →
          ∃ front found back s', tokens.drop place = front ++ found :: back ∧ (∀ t ∈ front, t.isEof = false) ∧
            found.isEof = true ∧
            s.perform (.parameters b.opening.toString) =
              (.error (.grammatical (.unclosed b.opening.toString found)), s') ∧
            s'.At tokens (place + front.length)) ∧
        ∀ opening, (∀ b : Bracket, opening ≠ b.opening.toString) →
          s.perform (.parameters opening) = (.error (.grammatical (.unrecognized opening tokens[place].position)), s) := by
  obtain ⟨start, hstart, -⟩ := exists_start hlast hend
  have hstart' := at_performAll_advance (at_zero_of_ofTokens? hstart) hplace
  refine ⟨⟨start, hstart, hstart'⟩, fun s hs => ⟨fun b run closer rest hmatches => ?_, ?_, ?_⟩⟩
  · exact ⟨fun run' closer' rest' hmatches' => hmatches.unique hmatches', hs.parameters_of_matches hmatches⟩
  · exact fun b hnone => hs.parameters_of_not_matches hnone
  · exact fun opening hopening => hs.parameters_unrecognized hplace hopening

/-- The tokens of `([(x))`. -/
def crossed : List Token :=
  [⟨.character '(', 0⟩, ⟨.character '[', 1⟩, ⟨.character '(', 2⟩, ⟨.identifier "x", 4⟩, ⟨.character ')', 4⟩,
    ⟨.character ')', 5⟩, .eof 6]

/-- Behind the first bracket of `([(x))` there is a round group, in which a square one is open. -/
theorem parameters_matching_crossed :
    crossed.getLast? = some (.eof 6) ∧ (Token.eof 6).isEof = true ∧ 1 < crossed.length ∧
      ∃ s : Session, s.At crossed 1 ∧
        Bracket.round.Matches (crossed.drop 1) ((crossed.drop 1).take 4) ⟨.character ')', 5⟩ [.eof 6] ∧
        (∃ s', s.perform (.parameters "(") = (.ok (.tokens ((crossed.drop 1).take 4)), s') ∧ s'.At crossed 6) ∧
        (∀ b : Bracket, "if" ≠ b.opening.toString) ∧
        s.perform (.parameters "if") = (.error (.grammatical (.unrecognized "if" 1)), s) := by
  have hcounts : ∀ n < 5, Bracket.round.closings (((crossed.drop 1).take 4).take n) ≤
      Bracket.round.openings (((crossed.drop 1).take 4).take n) := by decide
  have hbalanced : Balanced .round ((crossed.drop 1).take 4) := by
    refine ⟨by decide, fun front hfront => ?_, by decide⟩
    rw [List.prefix_iff_eq_take.mp hfront]
    exact hcounts _ (Nat.lt_succ_of_le hfront.length_le)
  have hmatches : Bracket.round.Matches (crossed.drop 1) ((crossed.drop 1).take 4) ⟨.character ')', 5⟩ [.eof 6] :=
    ⟨hbalanced, rfl, rfl⟩
  have hopening : ∀ b : Bracket, "if" ≠ b.opening.toString := by
    intro b
    cases b <;> decide
  have hlast : crossed.getLast? = some (.eof 6) := rfl
  have hplace : 1 < crossed.length := by decide
  obtain ⟨⟨start, -, hstart⟩, hall⟩ := parameters_matching hlast rfl hplace
  obtain ⟨hmatching, -, hnone⟩ := hall _ hstart
  exact ⟨hlast, rfl, hplace, _, hstart, hmatches, (hmatching _ _ _ _ hmatches).2, hopening, hnone _ hopening⟩

end Session

end TinyScript
