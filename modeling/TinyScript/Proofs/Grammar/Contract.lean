import TinyScript.Proofs.Grammar.Soundness

/-!
# Contracts of rules

A contract says what a rule comes to on the slices that satisfy a condition, whether it succeeds or fails (`Rule.Keeps`). The
contracts of a sequence, of a choice and of a slice read by itself follow from those of the parts.

Readers of lists fail only where a cut fails, deep inside an operand or a body perhaps. So a property of slices that cuts
hand on, and one of errors that all cuts have, carry over to whole readings: `OperandContract.expression_error` and its
companions for operands, `StatementContract.program_error` for programs.
-/

namespace TinyScript

/-- An outcome with a result and a rest that satisfy `post`, or with an error that satisfies `err`. -/
def Outcome.Satisfies {α : Type} (post : α → Slice → Prop) (err : ParseError → Prop) : Outcome α → Prop
  | .ok a t => post a t
  | .error e _ => err e

namespace Rule

/-- From the slices that satisfy `pre` the rule has outcomes that satisfy `post` and `err`. -/
def Keeps {α : Type} (pre : Slice → Prop) (r : Rule α) (post : α → Slice → Prop) (err : ParseError → Prop) : Prop :=
  ∀ s, pre s → Outcome.Satisfies post err (r s)

section Keeps

variable {α β : Type} {pre : Slice → Prop} {post mid : α → Slice → Prop} {last : β → Slice → Prop}
  {err : ParseError → Prop} {r : Rule α}

/-- What a rule gives and leaves. -/
theorem Keeps.of_ok (h : r.Keeps pre post err) {s t : Slice} {a : α} (hs : pre s) (hr : r s = .ok a t) : post a t := by
  have hsat := h s hs
  rwa [hr] at hsat

/-- How a rule fails. -/
theorem Keeps.of_error (h : r.Keeps pre post err) {s t : Slice} {e : ParseError} (hs : pre s)
    (hr : r s = .error e t) : err e := by
  have hsat := h s hs
  rwa [hr] at hsat

/-- A contract holds with a stronger condition and a weaker promise. -/
theorem Keeps.imp {pre' : Slice → Prop} {post' : α → Slice → Prop} (h : r.Keeps pre post err)
    (hpre : ∀ s, pre' s → pre s) (hpost : ∀ a t, post a t → post' a t) : r.Keeps pre' post' err := by
  intro s hs
  have hsat := h s (hpre s hs)
  cases hr : r s with
  | ok a t =>
    rw [hr] at hsat
    exact hpost a t hsat
  | error e t =>
    rw [hr] at hsat
    exact hsat

/-- A sequence keeps a contract if its second part does from where the first part leaves it. -/
theorem Keeps.bind {f : α → Rule β} (hr : r.Keeps pre mid err) (hf : ∀ a, (f a).Keeps (mid a) last err) :
    (r >>= f).Keeps pre last err := by
  intro s hs
  have hsat := hr s hs
  change Outcome.Satisfies last err (EStateM.bind r f s)
  unfold EStateM.bind
  cases hrs : r s with
  | ok a t =>
    rw [hrs] at hsat
    exact hf a t hsat
  | error e t =>
    rw [hrs] at hsat
    exact hsat

/-- A relabelled result satisfies what is promised of its label. -/
theorem Keeps.map {f : α → β} (h : r.Keeps pre (fun a => last (f a)) err) : (f <$> r).Keeps pre last err := by
  intro s hs
  have hsat := h s hs
  change Outcome.Satisfies last err (EStateM.map f r s)
  unfold EStateM.map
  cases hrs : r s with
  | ok a t =>
    rw [hrs] at hsat
    exact hsat
  | error e t =>
    rw [hrs] at hsat
    exact hsat

/-- A choice keeps a contract if each way does in its own case. -/
theorem Keeps.ite {c : Prop} [Decidable c] {r' : Rule α} (h : c → r.Keeps pre post err)
    (h' : ¬ c → r'.Keeps pre post err) : (if c then r else r').Keeps pre post err := by
  split
  next hc => exact h hc
  next hc => exact h' hc

theorem keeps_pure {a : α} (h : ∀ s, pre s → post a s) : (pure a : Rule α).Keeps pre post err := h

theorem keeps_throw {e : ParseError} (h : ∀ s, pre s → err e) : (throw e : Rule α).Keeps pre post err := h

theorem keeps_skip {post : Unit → Slice → Prop} (h : ∀ s, pre s → post () s.advance) : skip.Keeps pre post err := h

theorem keeps_expectToken {test : Token → Bool} {what : String} {post : Unit → Slice → Prop}
    (h : ∀ s, pre s → test s.current = true → post () s.advance) (h' : ∀ s, pre s → err (.unexpected what s.current)) :
    (expectToken test what).Keeps pre post err := by
  intro s hs
  unfold expectToken
  split
  next htest => exact h s hs htest
  next => exact h' s hs

theorem keeps_identifier {what : String} {post : Token × String → Slice → Prop}
    (h : ∀ s name, pre s → s.current.name? = some name → post (s.current, name) s.advance)
    (h' : ∀ s, pre s → err (.unexpected what s.current)) : (identifier what).Keeps pre post err := by
  intro s hs
  unfold identifier
  split
  next name hname => exact h s name hs hname
  next => exact h' s hs

/-- A slice that is read by itself leaves the outer one where it is. -/
theorem keeps_within {inner : Slice} (h : ∀ s a u, pre s → r inner = .ok a u → post a s)
    (h' : ∀ e u, r inner = .error e u → err e) : (within inner r).Keeps pre post err := by
  intro s hs
  unfold within
  split
  next a u hr => exact h s a u hs hr
  next e u hr => exact h' e u hr

/-- A result made of a slice is a slice with the same property. -/
theorem Keeps.map_slice {γ : Type} {inv : Slice → Prop} {cut : Rule Slice} {f : Slice → γ} {slice? : γ → Option Slice}
    (h : cut.Keeps pre (fun inner t => inv t ∧ inv inner) err) (hf : ∀ inner, slice? (f inner) = some inner) :
    (f <$> cut).Keeps pre (fun a t => inv t ∧ ∀ inner ∈ slice? a, inv inner) err := by
  refine Keeps.map (h.imp (fun _ hs => hs) ?_)
  rintro inner t ⟨ht, hinner⟩
  refine ⟨ht, fun inner' hinner' => ?_⟩
  obtain rfl : inner = inner' := by simpa [hf] using hinner'
  exact hinner

end Keeps

section Preserves

variable {α β : Type} {inv : Slice → Prop} {err : ParseError → Prop} {good : α → Prop} {r : Rule α}

/-- From the slices with a property the rule leaves such slices and gives good results, or it fails with an error of a
certain kind. -/
def Preserves (inv : Slice → Prop) (err : ParseError → Prop) (r : Rule α) (good : α → Prop) : Prop :=
  r.Keeps inv (fun a t => inv t ∧ good a) err

/-- What such a rule leaves has the property. -/
theorem Preserves.rest (h : Preserves inv err r good) : r.Keeps inv (fun _ t => inv t) err :=
  h.imp (fun _ hs => hs) fun _ _ ht => ht.1

theorem Preserves.bind {last : β → Prop} {f : α → Rule β} (hr : Preserves inv err r good)
    (hf : ∀ a, good a → Preserves inv err (f a) last) : Preserves inv err (r >>= f) last :=
  Keeps.bind hr fun a s hs => hf a hs.2 s hs.1

theorem preserves_pure {a : α} (h : good a) : Preserves inv err (pure a) good :=
  keeps_pure fun _ hs => ⟨hs, h⟩

/-- A slice that is read by itself is read or fails with an error of that kind. -/
theorem preserves_within {inner : Slice} (h : ∀ e u, r inner = .error e u → err e) :
    Preserves inv err (within inner r) fun _ => True :=
  keeps_within (fun _ _ _ hs _ => ⟨hs, True.intro⟩) h

end Preserves

/-! ## Groups and values that do not end -/

/-- What is divided off goes on at least to the bracket that closes the group, or to an end of input. -/
theorem spanGroup_stops (b : Bracket) (depth : Nat) (tokens : List Token) :
    ∀ t ∈ (spanGroup b depth tokens).2.head?, t.isEof = true ∨ t.isMark b.closing = true := by
  fun_induction spanGroup b depth tokens <;> simp_all

/-- A group that does not close is told by the end of the input. -/
theorem group_eq_error {b : Bracket} {s t : Slice} {e : ParseError} (h : group b s = .error e t) :
    ∃ found, e = .unclosed b.opening.toString found ∧ found ∈ s.toList ∧ found.isEof = true := by
  have hspan := spanGroup_append b 0 s.tokens
  have hstops := spanGroup_stops b 0 s.tokens
  unfold group at h
  split at h
  next inside after hp =>
    rw [hp] at hspan hstops
    split at h
    next found rest =>
      split at h
      next => cases h
      next hclosing =>
        cases h
        have hmem : found ∈ s.tokens := by rw [← hspan]; simp
        exact ⟨found, rfl, List.mem_append_left _ hmem, (hstops found rfl).resolve_right hclosing⟩
    next =>
      cases h
      exact ⟨_, rfl, by simp [Slice.toList], rfl⟩

/-- A value that does not end is told by the end of the input. -/
theorem value_eq_error {s t : Slice} {e : ParseError} (h : value s = .error e t) :
    ∃ found, e = .missingSemicolon found ∧ found ∈ s.toList ∧ found.isEof = true := by
  have hsplit := List.takeWhile_append_dropWhile (p := (!endsValue ·)) (l := s.tokens.tail)
  unfold value at h
  dsimp only at h
  split at h
  next found rest hd =>
    split at h
    next => cases h
    next hsemi =>
      cases h
      have hmem : found ∈ s.tokens := List.mem_of_mem_tail (by rw [← hsplit, hd]; simp)
      have hne : s.tokens.tail.dropWhile (!endsValue ·) ≠ [] := by rw [hd]; simp
      have hends : endsValue found = true := by
        have hhead := List.head_dropWhile_not (!endsValue ·) hne
        simpa [hd] using hhead
      rw [endsValue, Bool.eq_false_iff.mpr hsemi, Bool.false_or] at hends
      exact ⟨found, rfl, List.mem_append_left _ hmem, hends⟩
  next =>
    cases h
    exact ⟨_, rfl, by simp [Slice.toList], rfl⟩

end Rule

/-! ## Readings of operands -/

/-- The slice inside a cut operand. -/
def OperandCut.inner? : OperandCut → Option Slice
  | call _ inner | round inner | square inner => some inner
  | leaf _ => none

/-- From slices with a property, cutting an operand and passing a comma lead to such slices again, and whatever fails there
fails with an error of a certain kind. -/
structure OperandContract (pre : Slice → Prop) (err : ParseError → Prop) : Prop where
  cut : Rule.operandCut.Keeps (fun s => pre s ∧ s.atEnd = false) (fun cut t => pre t ∧ ∀ inner ∈ cut.inner?, pre inner) err
  comma : ∀ s, pre s → s.current.isMark ',' = true → pre s.advance
  argument : ∀ s, pre s → err (.unexpected "an argument" s.current)

namespace OperandContract

variable {pre : Slice → Prop} {err : ParseError → Prop}

/-- On slices of fewer than `n` tokens the readers of operands fail with such errors only. -/
structure FailsBelow (pre : Slice → Prop) (err : ParseError → Prop) (n : Nat) : Prop where
  expression : ∀ {s t : Slice} {e : ParseError}, s.tokens.length < n → pre s → s.expression = .error e t → err e
  arguments : ∀ {s t : Slice} {e : ParseError}, s.tokens.length < n → pre s → s.arguments = .error e t → err e
  argumentList : ∀ {pending : List Node} {s t : Slice} {e : ParseError}, s.tokens.length < n → pre s →
    Slice.argumentList pending s = .error e t → err e

namespace FailsBelow

variable {n : Nat}

theorem operandNode (ih : FailsBelow pre err n) {cut : OperandCut} {e : ParseError}
    (hcut : ∀ inner ∈ cut.inner?, pre inner) (hsize : cut.size < n) (h : Slice.operandNode cut = .error e) : err e := by
  cases cut with
  | call name inner =>
    rw [Slice.operandNode] at h
    split at h
    next => cases h
    next e' t hargs =>
      cases h
      exact ih.arguments hsize (hcut inner rfl) hargs
  | round inner | square inner =>
    rw [Slice.operandNode] at h
    split at h
    next => cases h
    next e' t hexpr =>
      cases h
      exact ih.expression hsize (hcut inner rfl) hexpr
  | leaf token =>
    rw [Slice.operandNode] at h
    cases h

theorem expression_step (hc : OperandContract pre err) (ih : FailsBelow pre err n) {s t : Slice} {e : ParseError}
    (hlen : s.tokens.length < n + 1) (hs : pre s) (h : s.expression = .error e t) : err e := by
  rw [Slice.expression] at h
  split at h
  next => cases h
  next hend =>
    have hend : s.atEnd = false := by simpa using hend
    split at h
    next e' u hcut =>
      cases h
      exact hc.cut.of_error ⟨hs, hend⟩ hcut
    next cut u hcut =>
      have hshrink := Rule.shrinks_operandCut hcut hend
      obtain ⟨hu, hinner⟩ := hc.cut.of_ok ⟨hs, hend⟩ hcut
      split at h
      next e' hnode =>
        cases h
        exact ih.operandNode hinner (by omega) hnode
      next node hnode =>
        split at h
        next => cases h
        next e' v hmore =>
          cases h
          exact ih.expression (by omega) hu hmore

theorem argumentList_step (hc : OperandContract pre err) (ih : FailsBelow pre err n) {pending : List Node} {s t : Slice}
    {e : ParseError} (hlen : s.tokens.length < n + 1) (hs : pre s) (h : Slice.argumentList pending s = .error e t) :
    err e := by
  rw [Slice.argumentList] at h
  split at h
  next hend =>
    split at h
    next =>
      cases h
      exact hc.argument s hs
    next => cases h
  next hend =>
    have hend : s.atEnd = false := by simpa using hend
    split at h
    next hcomma =>
      split at h
      next =>
        cases h
        exact hc.argument s hs
      next =>
        have hshrink := s.length_advance_lt hend
        split at h
        next => cases h
        next e' u hmore =>
          cases h
          exact ih.argumentList (by omega) (hc.comma s hs hcomma) hmore
    next hcomma =>
      split at h
      next e' u hcut =>
        cases h
        exact hc.cut.of_error ⟨hs, hend⟩ hcut
      next cut u hcut =>
        have hshrink := Rule.shrinks_operandCut hcut hend
        obtain ⟨hu, hinner⟩ := hc.cut.of_ok ⟨hs, hend⟩ hcut
        split at h
        next e' hnode =>
          cases h
          exact ih.operandNode hinner (by omega) hnode
        next node hnode => exact ih.argumentList (by omega) hu h

theorem arguments_step (hc : OperandContract pre err) (ih : FailsBelow pre err n) {s t : Slice} {e : ParseError}
    (hlen : s.tokens.length < n + 1) (hs : pre s) (h : s.arguments = .error e t) : err e := by
  rw [Slice.arguments] at h
  split at h
  next => cases h
  next => exact ih.argumentList_step hc hlen hs h

end FailsBelow

/-- By induction on the number of tokens: what is inside an operand and what comes after it are both shorter than the slice. -/
theorem failsBelow (hc : OperandContract pre err) (n : Nat) : FailsBelow pre err n := by
  induction n with
  | zero => exact ⟨fun h => absurd h (by omega), fun h => absurd h (by omega), fun h => absurd h (by omega)⟩
  | succ n ih =>
    exact ⟨FailsBelow.expression_step hc ih, FailsBelow.arguments_step hc ih, FailsBelow.argumentList_step hc ih⟩

/-- Operands are read to the end of such a slice or fail with such an error. -/
theorem expression_error (hc : OperandContract pre err) {s t : Slice} {e : ParseError} (hs : pre s)
    (h : s.expression = .error e t) : err e :=
  (hc.failsBelow _).expression (Nat.lt_succ_self _) hs h

/-- Arguments are read to the end of such a slice or fail with such an error. -/
theorem arguments_error (hc : OperandContract pre err) {s t : Slice} {e : ParseError} (hs : pre s)
    (h : s.arguments = .error e t) : err e :=
  (hc.failsBelow _).arguments (Nat.lt_succ_self _) hs h

end OperandContract

/-! ## Readings of parameters -/

section Parameters

variable {pre : Slice → Prop} {err : ParseError → Prop}

/-- A list of parameters fails where one of them does, or where the comma after it does. -/
theorem Slice.parameterList_error (hparam : Rule.parameter.Keeps pre (fun _ t => pre t) err)
    (hcomma : ∀ what, (Rule.expect ',' what).Keeps pre (fun _ t => pre t) err) {s t : Slice} {e : ParseError} (hs : pre s)
    (h : s.parameterList = .error e t) : err e := by
  fun_induction Slice.parameterList s generalizing e t with
  | case1 s e' u hfirst =>
    cases h
    exact hparam.of_error hs hfirst
  | case2 => cases h
  | case3 s node u hfirst hend e' v hafter =>
    cases h
    exact (hcomma _).of_error (hparam.of_ok hs hfirst) hafter
  | case4 => cases h
  | case5 s node u hfirst hend _ v hafter e' w hmore ih =>
    cases h
    exact ih ((hcomma _).of_ok (hparam.of_ok hs hfirst) hafter) hmore

/-- Parameters are read to the end of a slice or fail as a list of them does. -/
theorem Slice.parameterDeclarations_error (hparam : Rule.parameter.Keeps pre (fun _ t => pre t) err)
    (hcomma : ∀ what, (Rule.expect ',' what).Keeps pre (fun _ t => pre t) err) {s t : Slice} {e : ParseError} (hs : pre s)
    (h : s.parameterDeclarations = .error e t) : err e := by
  rw [Slice.parameterDeclarations] at h
  split at h
  next => cases h
  next => exact Slice.parameterList_error hparam hcomma hs h

end Parameters

/-! ## Readings of programs -/

/-- From slices with a property, cutting a statement leads to such slices again or fails with an error of a certain kind. -/
def StatementContract (pre : Slice → Prop) (err : ParseError → Prop) : Prop :=
  Rule.statementCut.Keeps (fun s => pre s ∧ s.atEnd = false) (fun cut t => pre t ∧ ∀ body ∈ cut.body?, pre body) err

namespace StatementContract

variable {pre : Slice → Prop} {err : ParseError → Prop}

/-- The body of a cut statement fails with such an error if shorter programs do. -/
theorem statementNode_error {n : Nat} {cut : StatementCut} {e : ParseError}
    (ih : ∀ {s t : Slice} {e : ParseError}, s.tokens.length < n → pre s → s.program = .error e t → err e)
    (hcut : ∀ body ∈ cut.body?, pre body) (hsize : cut.size < n) (h : Slice.statementNode cut = .error e) : err e := by
  cases cut with
  | whole node =>
    rw [Slice.statementNode] at h
    cases h
  | conditional condition body | function name returnType params body =>
    rw [Slice.statementNode] at h
    split at h
    next => cases h
    next e' t hbody =>
      cases h
      exact ih hsize (hcut body rfl) hbody

/-- By induction on the number of tokens: a body and the statements after it are both shorter than the slice. -/
theorem fails_below (hc : StatementContract pre err) (n : Nat) : ∀ {s t : Slice} {e : ParseError},
    s.tokens.length < n → pre s → s.program = .error e t → err e := by
  induction n with
  | zero => exact fun h => absurd h (by omega)
  | succ n ih =>
    intro s t e hlen hs h
    rw [Slice.program] at h
    split at h
    next => cases h
    next hend =>
      have hend : s.atEnd = false := by simpa using hend
      split at h
      next e' u hcut =>
        cases h
        exact Rule.Keeps.of_error hc ⟨hs, hend⟩ hcut
      next cut u hcut =>
        have hshrink : u.tokens.length + (cut.size + 1) ≤ s.tokens.length := Rule.shrinks_statementCut s cut u hcut
        obtain ⟨hu, hbody⟩ := Rule.Keeps.of_ok hc ⟨hs, hend⟩ hcut
        split at h
        next e' hnode =>
          cases h
          exact statementNode_error ih hbody (by omega) hnode
        next node hnode =>
          split at h
          next => cases h
          next e' v hmore =>
            cases h
            exact ih (by omega) hu hmore

/-- Statements are read to the end of such a slice or fail with such an error. -/
theorem program_error (hc : StatementContract pre err) {s t : Slice} {e : ParseError} (hs : pre s)
    (h : s.program = .error e t) : err e :=
  hc.fails_below _ (Nat.lt_succ_self _) hs h

end StatementContract

end TinyScript
