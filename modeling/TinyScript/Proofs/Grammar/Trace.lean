import TinyScript.Proofs.Grammar.Exactness
import TinyScript.Proofs.Grammar.Forward

/-!
# Readers with a trace

A statement or an operand is read with readers of the slices that it is cut into, and these cut out slices again. A `Traced`
reader notes every slice that is cut out on the way, however deep, and what its reader had ahead then. It has fuel for a number
of calls inside one another instead of a measure that decreases, and may run out of it.

With more fuel than there are tokens ahead no reader runs out, each comes to what the rule or reader that it traces comes to,
and every slice that is noted has fewer tokens that do not end the input than its reader had ahead (`Traced.Traces`). This is
kept by rules in sequence, and for readers it is an induction on the fuel: what is left is shorter than the slice, and so is
what is cut out.
-/

namespace TinyScript

/-- The number of tokens of a slice that do not end the input. -/
def Slice.count (s : Slice) : Nat := s.tokens.countP (!·.isEof)

/-- A slice that is cut out to be read by itself, and what the reader that cuts it out has ahead. -/
structure Opening where
  ahead : Slice
  inner : Slice

namespace Opening

/-- The slice has fewer tokens that do not end the input than its reader has ahead. -/
def Narrows (o : Opening) : Prop := o.inner.count < o.ahead.count

variable {ahead : Slice} {inner : Slice} {front rest : List Token} {closer : Token}

/-- A slice is narrower if the mark that closes it is ahead, too. -/
theorem narrows_of_append (h : ahead.tokens = front ++ inner.tokens ++ closer :: rest) (hcloser : closer.isEof = false) :
    Narrows ⟨ahead, inner⟩ := by
  change inner.count < ahead.count
  rw [Slice.count, Slice.count, h, List.countP_append, List.countP_append, List.countP_cons_of_pos (by simp [hcloser])]
  omega

theorem narrows_of_group {b : Bracket} {t : Slice} (h : Rule.group b ahead = .ok inner t) : Narrows ⟨ahead, inner⟩ := by
  obtain ⟨closer, hcloser, htokens, -, -⟩ := Rule.group_eq_ok h
  have hahead : ahead.tokens = [] ++ inner.tokens ++ closer :: t.tokens := htokens
  exact narrows_of_append hahead (Token.not_isEof_of_isMark hcloser)

theorem narrows_of_value {t : Slice} (h : Rule.value ahead = .ok inner t) : Narrows ⟨ahead, inner⟩ := by
  obtain ⟨semicolon, hsemicolon, htail, -, -⟩ := Rule.value_eq_ok h
  have hahead : ahead.tokens = ahead.tokens.take 1 ++ inner.tokens ++ semicolon :: t.tokens := by
    rw [List.append_assoc, ← htail, ← List.drop_one, List.take_append_drop]
  exact narrows_of_append hahead (Token.not_isEof_of_isMark hsemicolon)

end Opening

/-- A reader with fuel: an outcome and the slices that have been cut out, in this order, unless the fuel has run out. -/
def Traced (α : Type) : Type := Slice → Option (Outcome α × List Opening)

namespace Traced

section Combinations

variable {α β : Type}

/-- Goes on with what a reader gives and leaves. -/
def andThen (x : Traced α) (f : α → Traced β) : Traced β := fun s =>
  match x s with
  | none => none
  | some (.error e t, trace) => some (.error e t, trace)
  | some (.ok a t, trace) => (f a t).map fun (outcome, more) => (outcome, trace ++ more)

instance : Monad Traced where
  pure a := fun s => some (.ok a s, [])
  bind := andThen

/-- There is no fuel to go on. -/
def outOfFuel : Traced α := fun _ => none

/-- Applies a rule, which cuts out nothing. -/
def ofRule (r : Rule α) : Traced α := fun s => some (r s, [])

/-- Gives what is ahead. -/
def here : Traced Slice := fun s => some (.ok s s, [])

/-- Notes that a slice has been cut out. -/
def note (o : Opening) : Traced Unit := fun s => some (.ok () s, [o])

/-- Reads a whole slice of its own. The outer slice stays where it is. -/
def within (inner : Slice) (x : Traced α) : Traced α := fun s =>
  (x inner).map fun
    | (.ok a _, trace) => (.ok a s, trace)
    | (.error e _, trace) => (.error e s, trace)

end Combinations

/-! ## The readers -/

/-- Cuts out a group, as `Rule.group` does. -/
def group (b : Bracket) : Traced Slice := do
  let ahead ← here
  let inner ← ofRule (Rule.group b)
  note ⟨ahead, inner⟩
  return inner

/-- Cuts out an operand, as `Rule.operandCut` does. -/
def operandCut : Traced OperandCut := do
  let s ← here
  match s.current.value with
  | .identifier name =>
    if (s.lookahead 1).isMark '(' then do
      ofRule Rule.skip
      ofRule Rule.skip
      .call name <$> group .round
    else ofRule Rule.leafCut
  | .character mark =>
    if mark = '(' then do
      ofRule Rule.skip
      .round <$> group .round
    else if mark = '[' then do
      ofRule Rule.skip
      .square <$> group .square
    else if Rule.nonOperands.contains mark then ofRule (Rule.expected "an operand")
    else ofRule Rule.leafCut
  | _ => ofRule Rule.leafCut

/-- Reads one operand with readers of what is inside it. -/
def operandWith (readOperands readArguments : Traced (List Node)) : Traced Node := do
  match ← operandCut with
  | .leaf token => return .var (.ofToken token)
  | .call name inner => .invocation name <$> within inner readArguments
  | .round inner => .grouped <$> within inner readOperands
  | .square inner => .parameters <$> within inner readOperands

/-- Reads arguments, possibly none, with a reader of one or more. -/
def argumentsWith (readList : Traced (List Node)) : Traced (List Node) := do
  if (← here).atEnd then return [] else readList

mutual

/-- Reads operands up to the end of the slice. -/
def expression : Nat → Traced (List Node)
  | 0 => outOfFuel
  | fuel + 1 => do
    if (← here).atEnd then return []
    else do
      let node ← operandWith (expression fuel) (argumentsWith (argumentList fuel []))
      (node :: ·) <$> expression fuel

/-- Reads one argument or more, of which the first has some operands already. -/
def argumentList : Nat → List Node → Traced (List Node)
  | 0, _ => outOfFuel
  | fuel + 1, pending => do
    let s ← here
    if s.atEnd then
      if pending.isEmpty then ofRule (Rule.expected "an argument") else return [.grouped pending]
    else if s.current.isMark ',' then
      if pending.isEmpty then ofRule (Rule.expected "an argument")
      else do
        ofRule Rule.skip
        (.grouped pending :: ·) <$> argumentList fuel []
    else do
      let node ← operandWith (expression fuel) (argumentsWith (argumentList fuel []))
      argumentList fuel (pending ++ [node])

end

/-- Reads the arguments of a call, possibly none. -/
def arguments (fuel : Nat) : Traced (List Node) := argumentsWith (argumentList fuel [])

/-- Reads one operand. -/
def operand (fuel : Nat) : Traced Node := operandWith (expression fuel) (arguments fuel)

/-- Passes a bracket and cuts out the group that it opens. -/
def enclosed (b : Bracket) (what : String) : Traced Slice := do
  ofRule (Rule.expect b.opening what)
  group b

/-- Reads the value of an assignment. It is only cut out to be read if it is not empty. -/
def assigned (fuel : Nat) : Traced (List Node) := do
  let ahead ← here
  let inner ← ofRule Rule.value
  if inner.tokens.isEmpty then ofRule (throw (.unexpected "a value" (inner.closer ';')))
  else do
    note ⟨ahead, inner⟩
    within inner (expression fuel)

/-- Cuts out a conditional. -/
def conditionalCut (fuel : Nat) : Traced StatementCut := do
  ofRule Rule.skip
  let inner ← enclosed .round "'('"
  let condition ← within inner (expression fuel)
  if condition.isEmpty then ofRule (throw (.unexpected "a condition" (inner.closer ')')))
  else .conditional condition <$> enclosed .curly "'\x7b'"

/-- Cuts out a function. Reading its parameters cuts out nothing. -/
def functionCut (returnType name : String) : Traced StatementCut := do
  ofRule Rule.skip
  ofRule Rule.skip
  let inner ← enclosed .round "'('"
  let params ← within inner (ofRule Slice.parameterDeclarations)
  .function name returnType params <$> enclosed .curly "'\x7b'"

/-- Reads a declaration. -/
def declaration (fuel : Nat) (type name : String) (token : Token) : Traced StatementCut := do
  ofRule Rule.skip
  ofRule Rule.skip
  let nodes ← assigned fuel
  return .whole (.assign { name, token := some token, type := none } nodes true (some type))

/-- Reads an assignment to a variable that has been declared. -/
def reassignment (fuel : Nat) (name : String) (token : Token) : Traced StatementCut := do
  ofRule Rule.skip
  let nodes ← assigned fuel
  return .whole (.assign { name, token := some token, type := none } nodes false none)

/-- Reads a call and its semicolon. -/
def callStatement (fuel : Nat) (name : String) : Traced StatementCut := do
  ofRule Rule.skip
  ofRule Rule.skip
  let inner ← group .round
  let nodes ← within inner (arguments fuel)
  ofRule (Rule.expect ';' "';'")
  return .whole (.invocation name nodes)

/-- Cuts out a statement, as `Rule.statementCut` does. -/
def statementCut (fuel : Nat) : Traced StatementCut := do
  let s ← here
  match s.current.name? with
  | none => ofRule (Rule.expected "a statement")
  | some first =>
    let next := s.lookahead 1
    if first = Rule.conditionalWord ∧ next.isMark '(' = true then conditionalCut fuel
    else
      match next.name? with
      | some second =>
        let after := s.lookahead 2
        if after.isMark '(' then functionCut first second
        else if after.isMark '=' then declaration fuel first second next
        else ofRule (throw (.unexpected "'(' or '='" after))
      | none =>
        if next.isMark '=' then reassignment fuel first s.current
        else if next.isMark '(' then callStatement fuel first
        else ofRule (throw (.unexpected "'=', '(' or an identifier" next))

/-- Reads one statement with a reader of its body. -/
def statementWith (fuel : Nat) (readBody : Traced (List Node)) : Traced Node := do
  match ← statementCut fuel with
  | .whole node => return node
  | .conditional condition body => .conditional condition <$> within body readBody
  | .function name returnType params body => .function name returnType params <$> within body readBody

/-- Reads statements up to the end of the slice. -/
def program : Nat → Traced (List Node)
  | 0 => outOfFuel
  | fuel + 1 => do
    if (← here).atEnd then return []
    else do
      let node ← statementWith fuel (program fuel)
      (node :: ·) <$> program fuel

/-- Reads one statement. -/
def statement (fuel : Nat) : Traced Node := statementWith fuel (program fuel)

/-! ## What they trace -/

/-- On the slice the reader has enough fuel and comes to what a rule comes to, and every slice that is cut out is narrower than
what its reader has ahead. -/
def Traces {α : Type} (x : Traced α) (r : Rule α) (s : Slice) : Prop :=
  ∃ trace, x s = some (r s, trace) ∧ ∀ o ∈ trace, o.Narrows

section Traces

variable {α β : Type} {x : Traced α} {r : Rule α} {s : Slice}

theorem traces_ofRule (r : Rule α) (s : Slice) : (ofRule r).Traces r s := ⟨[], rfl, fun _ ho => by cases ho⟩

theorem traces_pure (a : α) (s : Slice) : (pure a : Traced α).Traces (pure a) s := traces_ofRule (pure a) s

/-- Which rule is traced depends on what it comes to. -/
theorem Traces.congr {r' : Rule α} (hr : r' s = r s) (h : x.Traces r s) : x.Traces r' s := by
  rw [Traces, hr]
  exact h

/-- What a rule comes to is found by reading with fuel. -/
theorem Traces.apply_eq {outcome : Outcome α} {trace : List Opening} (h : x.Traces r s) (hx : x s = some (outcome, trace)) :
    r s = outcome := by
  obtain ⟨trace', hr, -⟩ := h
  rw [hr] at hx
  cases hx
  rfl

/-- The slices that a run is found to cut out are narrower than what their readers have ahead. -/
theorem Traces.narrows {outcome : Outcome α} {trace : List Opening} (h : x.Traces r s) (hx : x s = some (outcome, trace)) :
    ∀ o ∈ trace, o.Narrows := by
  obtain ⟨trace', hr, hnarrow⟩ := h
  rw [hr] at hx
  cases hx
  exact hnarrow

/-- Readers in sequence trace rules in sequence if the first one does, and the second one where that leaves off. -/
theorem Traces.bind {f : α → Traced β} {g : α → Rule β} (h : x.Traces r s)
    (hf : ∀ a t, r s = .ok a t → (f a).Traces (g a) t) : (x >>= f).Traces (r >>= g) s := by
  obtain ⟨trace, hx, htrace⟩ := h
  have hbind : (x >>= f) s = andThen x f s := rfl
  unfold Traces
  rw [hbind, andThen, hx]
  cases hr : r s with
  | error e t => exact ⟨trace, by rw [Rule.bind_error hr], htrace⟩
  | ok a t =>
    obtain ⟨more, hmore, hnarrows⟩ := hf a t hr
    refine ⟨trace ++ more, ?_, fun o ho => (List.mem_append.mp ho).elim (htrace o) (hnarrows o)⟩
    rw [Rule.bind_ok hr]
    simp only [hmore, Option.map_some]

theorem Traces.map (f : α → β) (h : x.Traces r s) : (f <$> x).Traces (f <$> r) s := by
  rw [map_eq_pure_bind f r]
  exact h.bind fun a t _ => traces_pure (f a) t

theorem Traces.ite {c : Prop} [Decidable c] {x' : Traced α} {r' : Rule α} (h : c → x.Traces r s) (h' : ¬ c → x'.Traces r' s) :
    (if c then x else x').Traces (if c then r else r') s := by
  split
  next hc => exact h hc
  next hc => exact h' hc

theorem Traces.within {inner : Slice} (h : x.Traces r inner) (s : Slice) : (within inner x).Traces (Rule.within inner r) s := by
  obtain ⟨trace, hx, htrace⟩ := h
  refine ⟨trace, ?_, htrace⟩
  unfold Traced.within Rule.within
  rw [hx]
  cases r inner <;> rfl

/-- Looking at what is ahead changes nothing. -/
theorem Traces.here_bind {f : Slice → Traced α} (h : (f s).Traces r s) : (here >>= f).Traces r s := by
  obtain ⟨trace, hf, htrace⟩ := h
  refine ⟨trace, ?_, htrace⟩
  have hbind : (here >>= f) s = (f s s).map fun (outcome, more) => (outcome, [] ++ more) := rfl
  rw [hbind, hf]
  rfl

/-- What is noted in between is to be narrower. -/
theorem Traces.note_bind {o : Opening} (ho : o.Narrows) (h : x.Traces r s) : (note o >>= fun _ => x).Traces r s := by
  obtain ⟨trace, hx, htrace⟩ := h
  refine ⟨o :: trace, ?_, List.forall_mem_cons.mpr ⟨ho, htrace⟩⟩
  have hbind : (note o >>= fun _ => x) s = (x s).map fun (outcome, more) => (outcome, [o] ++ more) := rfl
  rw [hbind, hx]
  rfl

/-- Passing a token and going on traces what going on does. -/
theorem Traces.skip_bind {g : Unit → Rule α} (h : x.Traces (g ()) s.advance) :
    (ofRule Rule.skip >>= fun _ => x).Traces (Rule.skip >>= g) s := by
  refine (traces_ofRule Rule.skip s).bind fun _ t ht => ?_
  cases ht
  exact h

theorem traces_group (b : Bracket) (s : Slice) : (group b).Traces (Rule.group b) s := by
  rw [← bind_pure (Rule.group b)]
  refine .here_bind ((traces_ofRule _ s).bind fun inner t h => ?_)
  exact .note_bind (Opening.narrows_of_group h) (traces_pure inner t)

theorem traces_operandCut (s : Slice) : operandCut.Traces Rule.operandCut s := by
  have hleaf := traces_ofRule Rule.leafCut s
  refine .here_bind ?_
  unfold Traces Rule.operandCut
  cases s.current.value with
  | identifier name =>
    have hcall : Traces _ (do Rule.skip; Rule.skip; OperandCut.call name <$> Rule.group .round) s :=
      .skip_bind (.skip_bind ((traces_group .round s.advance.advance).map (OperandCut.call name)))
    dsimp only
    split
    next => exact hcall
    next => exact hleaf
  | character mark =>
    have hround : Traces _ (do Rule.skip; OperandCut.round <$> Rule.group .round) s :=
      .skip_bind ((traces_group .round s.advance).map OperandCut.round)
    have hsquare : Traces _ (do Rule.skip; OperandCut.square <$> Rule.group .square) s :=
      .skip_bind ((traces_group .square s.advance).map OperandCut.square)
    dsimp only
    split
    next => exact hround
    next =>
      split
      next => exact hsquare
      next =>
        split
        next => exact traces_ofRule (Rule.expected "an operand") s
        next => exact hleaf
  | string _ | char _ | integer _ | float _ | boolean _ | eof => exact hleaf

end Traces

end Traced

/-! ## Operands -/

namespace Rule

/-- What comes after an operand has been cut out. -/
def operandRest : OperandCut → Rule Node
  | .leaf token => pure (.var (.ofToken token))
  | .call name inner => .invocation name <$> within inner Slice.arguments
  | .round inner => .grouped <$> within inner Slice.expression
  | .square inner => .parameters <$> within inner Slice.expression

/-- An operand is cut out and its inside is read. -/
theorem operand_eq (s : Slice) : operand s = (operandCut >>= operandRest) s := by
  cases hcut : operandCut s with
  | error e t => rw [operand_of_cut_error hcut, bind_error hcut]
  | ok cut t =>
    rw [bind_ok hcut]
    unfold operand
    rw [hcut]
    cases cut with
    | leaf token => simp only [Slice.operandNode]; rfl
    | call name inner =>
      simp only [Slice.operandNode, operandRest, map_apply, within]
      cases Slice.arguments inner <;> rfl
    | round inner =>
      simp only [Slice.operandNode, operandRest, map_apply, within]
      cases Slice.expression inner <;> rfl
    | square inner =>
      simp only [Slice.operandNode, operandRest, map_apply, within]
      cases Slice.expression inner <;> rfl

end Rule

namespace Traced

/-- Readers with this fuel trace what reads operands in slices of fewer tokens. -/
structure TracesBelow (fuel : Nat) : Prop where
  expression : ∀ s : Slice, s.tokens.length < fuel → (expression fuel).Traces Slice.expression s
  argumentList : ∀ (pending : List Node) (s : Slice), s.tokens.length < fuel →
    (argumentList fuel pending).Traces (Slice.argumentList pending) s

namespace TracesBelow

variable {fuel : Nat} {s : Slice}

theorem arguments (ih : TracesBelow fuel) (hlen : s.tokens.length < fuel) : (arguments fuel).Traces Slice.arguments s := by
  refine .here_bind ?_
  unfold Traces Slice.arguments
  split
  next => exact traces_pure [] s
  next => exact ih.argumentList [] s hlen

theorem operand (ih : TracesBelow fuel) (hlen : s.tokens.length ≤ fuel) (hs : s.atEnd = false) :
    (operand fuel).Traces Rule.operand s := by
  refine .congr (Rule.operand_eq s) ((traces_operandCut s).bind fun cut t hcut => ?_)
  have hshrinks := Rule.shrinks_operandCut hcut hs
  have hsize : cut.size < fuel := by omega
  cases cut with
  | leaf token => exact traces_pure _ t
  | call name inner => exact ((ih.arguments hsize).within t).map _
  | round inner => exact ((ih.expression inner hsize).within t).map _
  | square inner => exact ((ih.expression inner hsize).within t).map _

theorem expression_step (ih : TracesBelow fuel) (hlen : s.tokens.length < fuel + 1) :
    (Traced.expression (fuel + 1)).Traces Slice.expression s := by
  rw [Traced.expression]
  refine .here_bind ?_
  unfold Traces
  rw [Slice.expression_eq]
  split
  next => exact traces_pure [] s
  next hend =>
    have hs := Bool.eq_false_iff.mpr hend
    refine (ih.operand (by omega) hs).bind fun node t ht => ?_
    have hlt := Rule.length_lt_of_operand hs ht
    exact (ih.expression t (by omega)).map _

theorem argumentList_step (ih : TracesBelow fuel) (pending : List Node) (hlen : s.tokens.length < fuel + 1) :
    (Traced.argumentList (fuel + 1) pending).Traces (Slice.argumentList pending) s := by
  rw [Traced.argumentList]
  refine .here_bind ?_
  unfold Traces
  rw [Slice.argumentList_eq]
  split
  next =>
    split
    next => exact traces_ofRule (Rule.expected "an argument") s
    next => exact traces_pure _ s
  next hend =>
    have hs := Bool.eq_false_iff.mpr hend
    split
    next =>
      split
      next => exact traces_ofRule (Rule.expected "an argument") s
      next =>
        have hlt := s.length_advance_lt hs
        have hmore : Traces _ (do Rule.skip; (Node.grouped pending :: ·) <$> Slice.argumentList []) s :=
          .skip_bind ((ih.argumentList [] s.advance (by omega)).map _)
        exact hmore
    next =>
      refine (ih.operand (by omega) hs).bind fun node t ht => ?_
      have hlt := Rule.length_lt_of_operand hs ht
      exact ih.argumentList _ t (by omega)

end TracesBelow

/-- With fuel for every token ahead, and one more, no reader of operands runs out. -/
theorem tracesBelow (fuel : Nat) : TracesBelow fuel := by
  induction fuel with
  | zero => exact ⟨fun s hlen => absurd hlen (Nat.not_lt_zero _), fun _ s hlen => absurd hlen (Nat.not_lt_zero _)⟩
  | succ fuel ih => exact ⟨fun s hlen => ih.expression_step hlen, fun pending s hlen => ih.argumentList_step pending hlen⟩

end Traced

/-! ## Statements -/

namespace Rule

/-- What comes after a statement has been cut out. -/
def statementRest : StatementCut → Rule Node
  | .whole node => pure node
  | .conditional condition body => .conditional condition <$> within body Slice.program
  | .function name returnType params body => .function name returnType params <$> within body Slice.program

/-- A statement is cut out and its body is read. -/
theorem statement_eq (s : Slice) : statement s = (statementCut >>= statementRest) s := by
  cases hcut : statementCut s with
  | error e t => rw [statement_of_cut_error hcut, bind_error hcut]
  | ok cut t =>
    rw [bind_ok hcut]
    unfold statement
    rw [hcut]
    cases cut with
    | whole node => simp only [Slice.statementNode]; rfl
    | conditional condition body =>
      simp only [Slice.statementNode, statementRest, map_apply, within]
      cases Slice.program body <;> rfl
    | function name returnType params body =>
      simp only [Slice.statementNode, statementRest, map_apply, within]
      cases Slice.program body <;> rfl

end Rule

namespace Traced

section Statements

variable {fuel : Nat} {s : Slice}

theorem traces_enclosed (b : Bracket) (what : String) (s : Slice) : (enclosed b what).Traces (Rule.enclosed b what) s :=
  (traces_ofRule _ s).bind fun _ t _ => traces_group b t

theorem traces_assigned (hlen : s.tokens.length ≤ fuel) : (assigned fuel).Traces Rule.assigned s := by
  refine .here_bind ((traces_ofRule _ s).bind fun inner t h => ?_)
  have hshrinks : t.tokens.length + (inner.tokens.length + 1) ≤ s.tokens.length := Rule.shrinks_value s inner t h
  refine .ite (fun _ => traces_ofRule _ t) fun _ => .note_bind (Opening.narrows_of_value h) ?_
  exact ((tracesBelow fuel).expression inner (by omega)).within t

theorem traces_conditionalCut (hlen : s.tokens.length ≤ fuel) : (conditionalCut fuel).Traces Rule.conditionalCut s := by
  have hskip := s.length_advance_le
  refine .skip_bind ((traces_enclosed _ _ _).bind fun inner t h => ?_)
  have hshrinks : t.tokens.length + (inner.tokens.length + 1) ≤ s.advance.tokens.length :=
    Rule.shrinks_enclosed _ _ _ inner t h
  refine (((tracesBelow fuel).expression inner (by omega)).within t).bind fun condition u _ => ?_
  exact .ite (fun _ => traces_ofRule _ u) fun _ => (traces_enclosed _ _ u).map _

theorem traces_functionCut (returnType name : String) (s : Slice) :
    (functionCut returnType name).Traces (Rule.functionCut returnType name) s := by
  refine .skip_bind (.skip_bind ((traces_enclosed _ _ _).bind fun inner t _ => ?_))
  exact ((traces_ofRule _ inner).within t).bind fun _ u _ => (traces_enclosed _ _ u).map _

theorem traces_declaration (hlen : s.tokens.length ≤ fuel) (type name : String) (token : Token) :
    (declaration fuel type name token).Traces (Rule.declaration type name token) s := by
  have hskip := s.length_advance_le
  have hskip' := s.advance.length_advance_le
  exact .skip_bind (.skip_bind ((traces_assigned (by omega)).bind fun _ t _ => traces_pure _ t))

theorem traces_reassignment (hlen : s.tokens.length ≤ fuel) (name : String) (token : Token) :
    (reassignment fuel name token).Traces (Rule.reassignment name token) s := by
  have hskip := s.length_advance_le
  exact .skip_bind ((traces_assigned (by omega)).bind fun _ t _ => traces_pure _ t)

theorem traces_callStatement (hlen : s.tokens.length ≤ fuel) (name : String) :
    (callStatement fuel name).Traces (Rule.callStatement name) s := by
  have hskip := s.length_advance_le
  have hskip' := s.advance.length_advance_le
  refine .skip_bind (.skip_bind ((traces_group _ _).bind fun inner t h => ?_))
  have hshrinks : t.tokens.length + (inner.tokens.length + 1) ≤ s.advance.advance.tokens.length :=
    Rule.shrinks_group _ _ inner t h
  refine (((tracesBelow fuel).arguments (by omega)).within t).bind fun _ u _ => ?_
  exact (traces_ofRule _ u).bind fun _ v _ => traces_pure _ v

theorem traces_statementCut (hlen : s.tokens.length ≤ fuel) : (statementCut fuel).Traces Rule.statementCut s := by
  refine .here_bind ?_
  unfold Traces Rule.statementCut
  cases s.current.name? with
  | none => exact traces_ofRule (Rule.expected "a statement") s
  | some first =>
    dsimp only
    split
    next => exact traces_conditionalCut hlen
    next =>
      cases (s.lookahead 1).name? with
      | some second =>
        dsimp only
        split
        next => exact traces_functionCut first second s
        next =>
          split
          next => exact traces_declaration hlen first second _
          next => exact traces_ofRule (throw _) s
      | none =>
        dsimp only
        split
        next => exact traces_reassignment hlen first _
        next =>
          split
          next => exact traces_callStatement hlen first
          next => exact traces_ofRule (throw _) s

/-- A statement is traced if programs shorter than it are, as its body is one. -/
theorem traces_statementWith {readBody : Traced (List Node)} (hlen : s.tokens.length ≤ fuel)
    (hbody : ∀ t : Slice, t.tokens.length < s.tokens.length → readBody.Traces Slice.program t) :
    (statementWith fuel readBody).Traces Rule.statement s := by
  refine .congr (Rule.statement_eq s) ((traces_statementCut hlen).bind fun cut t hcut => ?_)
  have hshrinks : t.tokens.length + (cut.size + 1) ≤ s.tokens.length := Rule.shrinks_statementCut s cut t hcut
  have hsize : cut.size < s.tokens.length := by omega
  cases cut with
  | whole node => exact traces_pure node t
  | conditional condition body => exact ((hbody body hsize).within t).map _
  | function name returnType params body => exact ((hbody body hsize).within t).map _

/-- With fuel for every token ahead, and one more, reading a program does not run out. -/
theorem traces_program (fuel : Nat) : ∀ s : Slice, s.tokens.length < fuel → (program fuel).Traces Slice.program s := by
  induction fuel with
  | zero => exact fun s hlen => absurd hlen (Nat.not_lt_zero _)
  | succ fuel ih =>
    intro s hlen
    rw [program]
    refine .here_bind ?_
    unfold Traces
    rw [Slice.program_eq]
    split
    next => exact traces_pure [] s
    next =>
      have hbody : ∀ t : Slice, t.tokens.length < s.tokens.length → (program fuel).Traces Slice.program t :=
        fun t ht => ih t (by omega)
      refine (traces_statementWith (by omega) hbody).bind fun node t ht => ?_
      have hlt := Rule.length_lt_of_statement ht
      exact (ih t (by omega)).map _

theorem traces_statement (hlen : s.tokens.length ≤ fuel) : (statement fuel).Traces Rule.statement s :=
  traces_statementWith hlen fun t ht => traces_program fuel t (by omega)

end Statements

end Traced

end TinyScript
