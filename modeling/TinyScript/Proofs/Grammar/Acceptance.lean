import TinyScript.Proofs.Grammar.Nesting

/-!
# Phrases are read

Every phrase of the grammar is read, and what is read is what the phrase stands for (`Derives.read`). `Phrase.Read` says for
each sort what that means: an operand and a statement are cut out of a longer slice and leave the rest of it, a list of
either is read to the end of its slice, and operands without commas are collected up to a comma.

Cutting never looks past the phrase, for phrases are level in every pair of brackets and have no semicolon where a value is
searched for one.
-/

namespace TinyScript

/-- What it means that the tokens of a phrase of a sort are read as the nodes. -/
def Phrase.Read (tokens : List Token) (nodes : List Node) : Phrase → Prop
  | .operand => ∀ rest stop, ¬ Meet tokens rest → ∃ cut node, nodes = [node] ∧
      Rule.operandCut ⟨tokens ++ rest, stop⟩ = .ok cut ⟨rest, stop⟩ ∧ Slice.operandNode cut = .ok node
  | .operands true => ∀ stop, Slice.expression ⟨tokens, stop⟩ = .ok nodes ⟨[], stop⟩
  | .operands false => ∀ pending rest stop, (∀ t ∈ rest.head?, t.isMark ',' = true) →
      Slice.argumentList pending ⟨tokens ++ rest, stop⟩ = Slice.argumentList (pending ++ nodes) ⟨rest, stop⟩
  | .arguments => ∀ stop, Slice.arguments ⟨tokens, stop⟩ = .ok nodes ⟨[], stop⟩
  | .parameters => ∀ stop, Slice.parameterDeclarations ⟨tokens, stop⟩ = .ok nodes ⟨[], stop⟩
  | .statement => ∀ rest stop, ∃ cut node, nodes = [node] ∧
      Rule.statementCut ⟨tokens ++ rest, stop⟩ = .ok cut ⟨rest, stop⟩ ∧ Slice.statementNode cut = .ok node
  | .program => ∀ stop, Slice.program ⟨tokens, stop⟩ = .ok nodes ⟨[], stop⟩

namespace Slice

/-- A slice with tokens is at its end if the first of them ends the input. -/
@[simp] theorem atEnd_cons (t : Token) (tokens : List Token) (stop : Int) : atEnd ⟨t :: tokens, stop⟩ = t.isEof := rfl

/-- A slice without tokens is at its end. -/
@[simp] theorem atEnd_nil (stop : Int) : atEnd ⟨[], stop⟩ = true := rfl

@[simp] theorem advance_cons (t : Token) (tokens : List Token) (stop : Int) :
    advance ⟨t :: tokens, stop⟩ = ⟨tokens, stop⟩ := rfl

@[simp] theorem lookahead_zero (s : Slice) : s.lookahead 0 = s.current := rfl

@[simp] theorem lookahead_succ_cons (n : Nat) (t : Token) (tokens : List Token) (stop : Int) :
    lookahead (n + 1) ⟨t :: tokens, stop⟩ = lookahead n ⟨tokens, stop⟩ := rfl

/-- Operands in front of a slice keep it from its end. -/
theorem atEnd_append {tokens : List Token} (h : tokens ≠ []) (heof : ∀ t ∈ tokens, t.isEof = false) (rest : List Token)
    (stop : Int) : atEnd ⟨tokens ++ rest, stop⟩ = false := by
  cases tokens with
  | nil => exact absurd rfl h
  | cons t tokens => exact heof t List.mem_cons_self

end Slice

namespace Token

/-- The name of a token is its value. -/
theorem value_of_name? {t : Token} {name : String} (h : t.name? = some name) : t.value = .identifier name := by
  obtain ⟨value, position⟩ := t
  cases value <;> simp_all [name?]

end Token

namespace Rule

/-- A sequence goes on with what its first part gives and leaves. -/
theorem bind_ok {α β : Type} {r : Rule α} {f : α → Rule β} {s t : Slice} {a : α} (h : r s = .ok a t) :
    (r >>= f) s = f a t := by
  change EStateM.bind r f s = f a t
  rw [EStateM.bind, h]

/-- A sequence fails where its first part does. -/
theorem bind_error {α β : Type} {r : Rule α} {f : α → Rule β} {s t : Slice} {e : ParseError} (h : r s = .error e t) :
    (r >>= f) s = .error e t := by
  change EStateM.bind r f s = .error e t
  rw [EStateM.bind, h]

/-- Relabelling changes the result alone. -/
theorem map_ok {α β : Type} {r : Rule α} {f : α → β} {s t : Slice} {a : α} (h : r s = .ok a t) :
    (f <$> r) s = .ok (f a) t := by
  change EStateM.map f r s = .ok (f a) t
  rw [EStateM.map, h]

theorem within_ok {α : Type} {r : Rule α} {inner s t : Slice} {a : α} (h : r inner = .ok a t) :
    within inner r s = .ok a s := by
  rw [within, h]

theorem within_error {α : Type} {r : Rule α} {inner s t : Slice} {e : ParseError} (h : r inner = .error e t) :
    within inner r s = .error e s := by
  rw [within, h]

/-- A name before a round bracket is cut out as a call. -/
theorem operandCut_call {f o c : Token} {inner rest : List Token} {name : String} (hf : f.name? = some name)
    (hoc : Bracket.round.Encloses o c) (hl : Level .round inner) (stop : Int) :
    operandCut ⟨f :: o :: (inner ++ c :: rest), stop⟩ = .ok (.call name ⟨inner, c.position⟩) ⟨rest, stop⟩ := by
  have ho : o.isMark '(' = true := hoc.1
  simp only [operandCut, Slice.current_cons, Token.value_of_name? hf, Slice.lookahead_succ_cons, Slice.lookahead_zero,
    ho, if_true, Slice.advance_cons]
  exact map_ok (hl.group hoc.2 stop)

/-- Round brackets are cut out as a group. -/
theorem operandCut_round {o c : Token} {inner rest : List Token} (hoc : Bracket.round.Encloses o c)
    (hl : Level .round inner) (stop : Int) :
    operandCut ⟨o :: (inner ++ c :: rest), stop⟩ = .ok (.round ⟨inner, c.position⟩) ⟨rest, stop⟩ := by
  have ho : o.value = .character '(' := (o.isMark_iff _).mp hoc.1
  simp only [operandCut, Slice.current_cons, ho, if_true, Slice.advance_cons]
  exact map_ok (hl.group hoc.2 stop)

/-- Square brackets are cut out as a group. -/
theorem operandCut_square {o c : Token} {inner rest : List Token} (hoc : Bracket.square.Encloses o c)
    (hl : Level .square inner) (stop : Int) :
    operandCut ⟨o :: (inner ++ c :: rest), stop⟩ = .ok (.square ⟨inner, c.position⟩) ⟨rest, stop⟩ := by
  have ho : o.value = .character '[' := (o.isMark_iff _).mp hoc.1
  simp only [operandCut, Slice.current_cons, ho, if_true, Slice.advance_cons, if_neg (show '[' ≠ '(' by decide)]
  exact map_ok (hl.group hoc.2 stop)

/-- Any other token is cut out by itself, unless it is the name of a call. -/
theorem operandCut_leaf {t : Token} {rest : List Token} (ht : t.StandsAlone) (hrest : ¬ Meet [t] rest) (stop : Int) :
    operandCut ⟨t :: rest, stop⟩ = .ok (.leaf t) ⟨rest, stop⟩ := by
  unfold operandCut
  rw [Slice.current_cons]
  split
  next name hv =>
    have hnext : (Slice.lookahead 1 ⟨t :: rest, stop⟩).isMark '(' = false := by
      cases rest with
      | nil => rfl
      | cons o rest =>
        refine Bool.eq_false_iff.mpr fun ho => hrest ⟨t, o, rest, rfl, ?_, rfl, ho⟩
        simp [Token.isIdentifier, Token.name?, hv]
    rw [hnext]
    rfl
  next mark hv =>
    have hmark : ∀ m ∈ reservedMarks, mark ≠ m := by
      intro m hm he
      have := ht.2 m hm
      simp [Token.isMark, hv, he] at this
    have hnon : nonOperands.contains mark = false := by
      refine Bool.eq_false_iff.mpr fun hmem => ?_
      have hsub : ∀ m ∈ nonOperands, m ∈ reservedMarks := by simp [nonOperands, reservedMarks]
      exact hmark mark (hsub mark (List.contains_iff_mem.mp hmem)) rfl
    rw [if_neg (hmark _ (by decide)), if_neg (hmark _ (by decide)), hnon]
    rfl
  next => rfl

theorem skip_cons (t : Token) (rest : List Token) (stop : Int) : skip ⟨t :: rest, stop⟩ = .ok () ⟨rest, stop⟩ := rfl

theorem expect_cons {t : Token} {mark : Char} (h : t.isMark mark = true) (what : String) (rest : List Token) (stop : Int) :
    expect mark what ⟨t :: rest, stop⟩ = .ok () ⟨rest, stop⟩ := by
  simp [expect, expectToken, h]

theorem identifier_cons {t : Token} {name : String} (h : t.name? = some name) (what : String) (rest : List Token)
    (stop : Int) : identifier what ⟨t :: rest, stop⟩ = .ok (t, name) ⟨rest, stop⟩ := by
  simp [identifier, h]

/-- A parameter is read from its two names. -/
theorem parameter_cons {t n : Token} {type name : String} (ht : t.name? = some type) (hn : n.name? = some name)
    (rest : List Token) (stop : Int) :
    parameter ⟨t :: n :: rest, stop⟩ = .ok (.var { name, token := some n, type := some type }) ⟨rest, stop⟩ := by
  rw [parameter, bind_ok (identifier_cons ht _ _ _)]
  exact bind_ok (identifier_cons hn _ _ _)

/-- A group with both its brackets is cut out. -/
theorem enclosed_cons {b : Bracket} {o c : Token} {inner rest : List Token} (hoc : b.Encloses o c) (hl : Level b inner)
    (what : String) (stop : Int) :
    enclosed b what ⟨o :: (inner ++ c :: rest), stop⟩ = .ok ⟨inner, c.position⟩ ⟨rest, stop⟩ := by
  rw [enclosed, bind_ok (expect_cons hoc.1 _ _ _), hl.group hoc.2]

/-- The tokens up to a semicolon are cut out if none before it ends a value. -/
theorem value_cons {equals semicolon : Token} {inner rest : List Token} (hin : ∀ t ∈ inner, endsValue t = false)
    (hs : semicolon.isMark ';' = true) (stop : Int) :
    value ⟨equals :: (inner ++ semicolon :: rest), stop⟩ = .ok ⟨inner, semicolon.position⟩ ⟨rest, stop⟩ := by
  have hgo : ∀ t ∈ inner, (!endsValue t) = true := by
    intro t ht
    simp [hin t ht]
  have hstop : endsValue semicolon = true := by simp [endsValue, hs]
  simp only [value, List.tail_cons, List.takeWhile_append_of_pos hgo, List.dropWhile_append_of_pos hgo]
  simp [hstop, hs]

/-- The value of an assignment is read if it is an expression. -/
theorem assigned_cons {equals semicolon : Token} {inner rest : List Token} {nodes : List Node} {u : Slice}
    (hin : ∀ t ∈ inner, endsValue t = false) (hne : inner ≠ []) (hs : semicolon.isMark ';' = true)
    (he : Slice.expression ⟨inner, semicolon.position⟩ = .ok nodes u) (stop : Int) :
    assigned ⟨equals :: (inner ++ semicolon :: rest), stop⟩ = .ok nodes ⟨rest, stop⟩ := by
  rw [assigned, bind_ok (value_cons hin hs stop), if_neg (by simpa using hne)]
  exact within_ok he

/-- A conditional is cut out. -/
theorem statementCut_conditional {i o c o' c' : Token} {guard inner : List Token} {condition : List Node} {u : Slice}
    (hi : i.name? = some conditionalWord) (hoc : Bracket.round.Encloses o c) (hg : Level .round guard)
    (he : Slice.expression ⟨guard, c.position⟩ = .ok condition u) (hne : condition ≠ [])
    (hoc' : Bracket.curly.Encloses o' c') (hl : Level .curly inner) (rest : List Token) (stop : Int) :
    statementCut ⟨i :: o :: (guard ++ c :: o' :: (inner ++ c' :: rest)), stop⟩ =
      .ok (.conditional condition ⟨inner, c'.position⟩) ⟨rest, stop⟩ := by
  have ho : o.isMark '(' = true := hoc.1
  simp only [statementCut, Slice.current_cons, hi, Slice.lookahead_succ_cons, Slice.lookahead_zero, ho, and_self, if_true]
  rw [conditionalCut, bind_ok (skip_cons _ _ _), bind_ok (enclosed_cons hoc hg _ _), bind_ok (within_ok he),
    if_neg (by simpa using hne)]
  exact map_ok (enclosed_cons hoc' hl _ _)

/-- The second of two names says that no conditional starts. -/
theorem statementCut_names {t n after : Token} {rest : List Token} {type name : String} (ht : t.name? = some type)
    (hn : n.name? = some name) (stop : Int) :
    statementCut ⟨t :: n :: after :: rest, stop⟩ =
      if after.isMark '(' then functionCut type name ⟨t :: n :: after :: rest, stop⟩
      else if after.isMark '=' then declaration type name n ⟨t :: n :: after :: rest, stop⟩
      else .error (.unexpected "'(' or '='" after) ⟨t :: n :: after :: rest, stop⟩ := by
  simp only [statementCut, Slice.current_cons, ht, Slice.lookahead_succ_cons, Slice.lookahead_zero,
    Token.isMark_of_name? hn, hn, Bool.false_eq_true, and_false, if_false]
  rfl

/-- A function is cut out. -/
theorem statementCut_function {t n o c o' c' : Token} {declared inner : List Token} {type name : String}
    {params : List Node} {u : Slice} (ht : t.name? = some type) (hn : n.name? = some name)
    (hoc : Bracket.round.Encloses o c) (hd : Level .round declared)
    (hp : Slice.parameterDeclarations ⟨declared, c.position⟩ = .ok params u) (hoc' : Bracket.curly.Encloses o' c')
    (hl : Level .curly inner) (rest : List Token) (stop : Int) :
    statementCut ⟨t :: n :: o :: (declared ++ c :: o' :: (inner ++ c' :: rest)), stop⟩ =
      .ok (.function name type params ⟨inner, c'.position⟩) ⟨rest, stop⟩ := by
  have ho : o.isMark '(' = true := hoc.1
  rw [statementCut_names ht hn, if_pos ho, functionCut, bind_ok (skip_cons _ _ _), bind_ok (skip_cons _ _ _),
    bind_ok (enclosed_cons hoc hd _ _), bind_ok (within_ok hp)]
  exact map_ok (enclosed_cons hoc' hl _ _)

/-- A declaration is read. -/
theorem statementCut_declaration {t n equals semicolon : Token} {inner : List Token} {type name : String}
    {nodes : List Node} {u : Slice} (ht : t.name? = some type) (hn : n.name? = some name)
    (heq : equals.isMark '=' = true) (hin : ∀ t ∈ inner, endsValue t = false) (hne : inner ≠ [])
    (hs : semicolon.isMark ';' = true) (he : Slice.expression ⟨inner, semicolon.position⟩ = .ok nodes u) (rest : List Token)
    (stop : Int) :
    statementCut ⟨t :: n :: equals :: (inner ++ semicolon :: rest), stop⟩ =
      .ok (.whole (.assign { name, token := some n, type := none } nodes true (some type))) ⟨rest, stop⟩ := by
  rw [statementCut_names ht hn, if_neg (by simp [Token.isMark_eq_false heq]), if_pos heq, declaration,
    bind_ok (skip_cons _ _ _), bind_ok (skip_cons _ _ _), bind_ok (assigned_cons hin hne hs he stop)]
  rfl

/-- An assignment is read. -/
theorem statementCut_reassignment {n equals semicolon : Token} {inner : List Token} {name : String}
    {nodes : List Node} {u : Slice} (hn : n.name? = some name) (heq : equals.isMark '=' = true)
    (hin : ∀ t ∈ inner, endsValue t = false) (hne : inner ≠ []) (hs : semicolon.isMark ';' = true)
    (he : Slice.expression ⟨inner, semicolon.position⟩ = .ok nodes u) (rest : List Token) (stop : Int) :
    statementCut ⟨n :: equals :: (inner ++ semicolon :: rest), stop⟩ =
      .ok (.whole (.assign { name, token := some n, type := none } nodes false none)) ⟨rest, stop⟩ := by
  have ho : equals.isMark '(' = false := Token.isMark_eq_false heq (by decide)
  simp only [statementCut, Slice.current_cons, hn, Slice.lookahead_succ_cons, Slice.lookahead_zero, ho, heq,
    Token.name?_of_isMark heq, Bool.false_eq_true, and_false, if_false, if_true]
  rw [reassignment, bind_ok (skip_cons _ _ _), bind_ok (assigned_cons hin hne hs he stop)]
  rfl

/-- An assignment fails as its value does. -/
theorem statementCut_reassignment_error {n equals semicolon : Token} {inner : List Token} {name : String} {e : ParseError}
    {u : Slice} (hn : n.name? = some name) (heq : equals.isMark '=' = true) (hin : ∀ t ∈ inner, endsValue t = false)
    (hne : inner ≠ []) (hs : semicolon.isMark ';' = true)
    (he : Slice.expression ⟨inner, semicolon.position⟩ = .error e u) (rest : List Token) (stop : Int) :
    statementCut ⟨n :: equals :: (inner ++ semicolon :: rest), stop⟩ = .error e ⟨rest, stop⟩ := by
  have ho : equals.isMark '(' = false := Token.isMark_eq_false heq (by decide)
  have hassigned : assigned ⟨equals :: (inner ++ semicolon :: rest), stop⟩ = .error e ⟨rest, stop⟩ := by
    rw [assigned, bind_ok (value_cons hin hs stop), if_neg (by simpa using hne)]
    exact within_error he
  simp only [statementCut, Slice.current_cons, hn, Slice.lookahead_succ_cons, Slice.lookahead_zero, ho, heq,
    Token.name?_of_isMark heq, Bool.false_eq_true, and_false, if_false, if_true]
  rw [reassignment, bind_ok (skip_cons _ _ _)]
  exact bind_error hassigned

/-- A call with its semicolon is read. -/
theorem statementCut_call {f o c semicolon : Token} {inner : List Token} {name : String} {nodes : List Node}
    {u : Slice} (hf : f.name? = some name) (hne : name ≠ conditionalWord) (hoc : Bracket.round.Encloses o c)
    (hl : Level .round inner) (ha : Slice.arguments ⟨inner, c.position⟩ = .ok nodes u)
    (hs : semicolon.isMark ';' = true) (rest : List Token) (stop : Int) :
    statementCut ⟨f :: o :: (inner ++ c :: semicolon :: rest), stop⟩ =
      .ok (.whole (.invocation name nodes)) ⟨rest, stop⟩ := by
  have ho : o.isMark '(' = true := hoc.1
  have heq : o.isMark '=' = false := Token.isMark_eq_false ho (by decide)
  simp only [statementCut, Slice.current_cons, hf, Slice.lookahead_succ_cons, Slice.lookahead_zero, ho, heq, hne,
    Token.name?_of_isMark ho, Bool.false_eq_true, false_and, if_false, if_true]
  rw [callStatement, bind_ok (skip_cons _ _ _), bind_ok (skip_cons _ _ _), bind_ok (hl.group hoc.2 _),
    bind_ok (within_ok ha), bind_ok (expect_cons hs _ _ _)]
  rfl

end Rule

/-! ## Readers of lists -/

namespace Slice

/-- Reading operands goes on after one that is cut out. -/
theorem expression_of_cut {s t u : Slice} {cut : OperandCut} {node : Node} {nodes : List Node} (hs : s.atEnd = false)
    (hcut : Rule.operandCut s = .ok cut t) (hnode : operandNode cut = .ok node) (h : expression t = .ok nodes u) :
    expression s = .ok (node :: nodes) u := by
  rw [expression, dif_neg (by simp [hs])]
  split
  next hc => rw [hcut] at hc; cases hc
  next hc =>
    rw [hcut] at hc
    cases hc
    simp only [hnode, h]

/-- Reading operands ends where one cannot be cut out. -/
theorem expression_of_cut_error {s t : Slice} {e : ParseError} (hs : s.atEnd = false)
    (hcut : Rule.operandCut s = .error e t) : expression s = .error e t := by
  rw [expression, dif_neg (by simp [hs])]
  split
  next hc =>
    rw [hcut] at hc
    cases hc
    rfl
  next hc => rw [hcut] at hc; cases hc

/-- An operand that is no comma is added to the argument. -/
theorem argumentList_of_cut {s t : Slice} {cut : OperandCut} {node : Node} (pending : List Node) (hs : s.atEnd = false)
    (hcomma : s.current.isMark ',' = false) (hcut : Rule.operandCut s = .ok cut t) (hnode : operandNode cut = .ok node) :
    argumentList pending s = argumentList (pending ++ [node]) t := by
  rw [argumentList, dif_neg (by simp [hs]), dif_neg (by simp [hcomma])]
  split
  next hc => rw [hcut] at hc; cases hc
  next hc =>
    rw [hcut] at hc
    cases hc
    simp only [hnode]

/-- The end of the slice ends the last argument. -/
theorem argumentList_of_atEnd {s : Slice} {pending : List Node} (hs : s.atEnd = true) (hne : pending ≠ []) :
    argumentList pending s = .ok [.grouped pending] s := by
  rw [argumentList, dif_pos hs, if_neg (by simpa using hne)]

/-- A comma ends an argument. -/
theorem argumentList_of_comma {comma : Token} {back : List Token} {stop : Int} {u : Slice} {pending more : List Node}
    (hcomma : comma.isMark ',' = true) (hne : pending ≠ []) (h : argumentList [] ⟨back, stop⟩ = .ok more u) :
    argumentList pending ⟨comma :: back, stop⟩ = .ok (.grouped pending :: more) u := by
  have hcurrent : (current ⟨comma :: back, stop⟩).isMark ',' = true := hcomma
  rw [argumentList, dif_neg (by simp [Token.not_isEof_of_isMark hcomma]), dif_pos hcurrent, if_neg (by simpa using hne),
    advance_cons, h]

/-- Arguments that are not missing are a list of arguments. -/
theorem argumentList_of_arguments {s u : Slice} {more : List Node} (h : arguments s = .ok more u) (hne : more ≠ []) :
    argumentList [] s = .ok more u := by
  rw [arguments] at h
  split at h
  · cases h
    exact absurd rfl hne
  · exact h

/-- Parameters that are not missing are a list of parameters. -/
theorem parameterList_of_declarations {s u : Slice} {more : List Node} (h : parameterDeclarations s = .ok more u)
    (hne : more ≠ []) : parameterList s = .ok more u := by
  rw [parameterDeclarations] at h
  split at h
  · cases h
    exact absurd rfl hne
  · exact h

/-- A parameter at the end of the slice is the last one. -/
theorem parameterList_single {s t : Slice} {node : Node} (h : Rule.parameter s = .ok node t) (ht : t.atEnd = true) :
    parameterList s = .ok [node] t := by
  rw [parameterList]
  split
  next hc => rw [h] at hc; cases hc
  next hc =>
    rw [h] at hc
    cases hc
    rw [if_pos ht]

/-- A parameter before a comma is followed by others. -/
theorem parameterList_of_comma {s u : Slice} {node : Node} {more : List Node} {comma : Token} {back : List Token}
    {stop : Int} (h : Rule.parameter s = .ok node ⟨comma :: back, stop⟩) (hcomma : comma.isMark ',' = true)
    (hback : parameterList ⟨back, stop⟩ = .ok more u) : parameterList s = .ok (node :: more) u := by
  have hexpect := Rule.expect_cons hcomma "',' or ')'" back stop
  rw [parameterList]
  split
  next hc => rw [h] at hc; cases hc
  next hc =>
    rw [h] at hc
    cases hc
    rw [if_neg (by simp [Token.not_isEof_of_isMark hcomma])]
    split
    next he => rw [hexpect] at he; cases he
    next he =>
      rw [hexpect] at he
      cases he
      rw [hback]

/-- Reading statements goes on after one that is cut out. -/
theorem program_of_cut {s t u : Slice} {cut : StatementCut} {node : Node} {nodes : List Node} (hs : s.atEnd = false)
    (hcut : Rule.statementCut s = .ok cut t) (hnode : statementNode cut = .ok node) (h : program t = .ok nodes u) :
    program s = .ok (node :: nodes) u := by
  rw [program, if_neg (by simp [hs])]
  split
  next hc => rw [hcut] at hc; cases hc
  next hc =>
    rw [hcut] at hc
    cases hc
    simp only [hnode, h]

/-- Reading statements ends where one cannot be cut out. -/
theorem program_of_cut_error {s t : Slice} {e : ParseError} (hs : s.atEnd = false)
    (hcut : Rule.statementCut s = .error e t) : program s = .error e t := by
  rw [program, if_neg (by simp [hs])]
  split
  next hc =>
    rw [hcut] at hc
    cases hc
    rfl
  next hc => rw [hcut] at hc; cases hc

end Slice

/-! ## Every phrase -/

/-- An operand in front of further ones is read before them. -/
theorem Phrase.Read.moreOperands {commas : Bool} {front back : List Token} {node : Node} {nodes : List Node}
    (hop : Derives .operand front [node]) (hmeet : ¬ Meet front back) (hcomma : commas = false → ¬ BareComma front)
    (hfront : Phrase.Read front [node] .operand) (hback : Phrase.Read back nodes (.operands commas)) :
    Phrase.Read (front ++ back) (node :: nodes) (.operands commas) := by
  have hend := Slice.atEnd_append hop.operand_ne_nil hop.not_isEof
  cases commas with
  | true =>
    intro stop
    obtain ⟨cut, node', heq, hcut, hnode⟩ := hfront back stop hmeet
    cases heq
    exact Slice.expression_of_cut (hend back stop) hcut hnode (hback stop)
  | false =>
    intro pending rest stop hrest
    -- A comma after the operands opens no bracket, so the last of them is no call with what follows.
    have hmeet' : ¬ Meet front (back ++ rest) := by
      rintro ⟨f, o, tail, rfl, hf, htail, ho⟩
      cases back with
      | nil =>
        have hc : o.isMark ',' = true := hrest o (by simp_all)
        rw [Token.isMark_eq_false hc (by decide)] at ho
        cases ho
      | cons b back =>
        rw [List.cons_append, List.cons.injEq] at htail
        exact hmeet ⟨f, b, back, rfl, hf, rfl, by rw [htail.1]; exact ho⟩
    obtain ⟨cut, node', heq, hcut, hnode⟩ := hfront (back ++ rest) stop hmeet'
    cases heq
    have hfirst : (Slice.current ⟨front ++ (back ++ rest), stop⟩).isMark ',' = false := by
      cases front with
      | nil => exact absurd rfl hop.operand_ne_nil
      | cons t front => exact Bool.eq_false_iff.mpr fun ht => hcomma rfl (hop.bareComma ht)
    rw [List.append_assoc, Slice.argumentList_of_cut pending (hend _ stop) hfirst hcut hnode, hback _ rest stop hrest,
      List.append_assoc, List.singleton_append]

/-- Every phrase is read as the nodes it stands for. -/
theorem Derives.read {phrase : Phrase} {tokens : List Token} {nodes : List Node} (h : Derives phrase tokens nodes) :
    phrase.Read tokens nodes := by
  induction h with
  | call hf hoc hargs ih =>
    intro rest stop _
    simp only [List.cons_append, List.append_assoc, List.nil_append]
    exact ⟨_, _, rfl, Rule.operandCut_call hf hoc (hargs.level (by decide)) stop, by simp only [Slice.operandNode, ih _]⟩
  | round hoc hin ih =>
    intro rest stop _
    simp only [List.cons_append, List.append_assoc, List.nil_append]
    exact ⟨_, _, rfl, Rule.operandCut_round hoc (hin.level (by decide)) stop, by simp only [Slice.operandNode, ih _]⟩
  | square hoc hin ih =>
    intro rest stop _
    simp only [List.cons_append, List.append_assoc, List.nil_append]
    exact ⟨_, _, rfl, Rule.operandCut_square hoc (hin.level (by decide)) stop, by simp only [Slice.operandNode, ih _]⟩
  | leaf ht =>
    intro rest stop hmeet
    exact ⟨_, _, rfl, Rule.operandCut_leaf ht hmeet stop, by simp only [Slice.operandNode]⟩
  | @noOperands commas =>
    cases commas with
    | true => intro stop; simp [Slice.expression]
    | false => intro pending rest stop _; simp
  | moreOperands hop hmeet hcomma _ ih ih' => exact Phrase.Read.moreOperands hop hmeet hcomma ih ih'
  | noArguments => intro stop; simp [Slice.arguments]
  | oneArgument hops hne ih =>
    intro stop
    have hread := ih [] [] stop (by simp)
    rw [List.append_nil, List.nil_append, Slice.argumentList_of_atEnd (Slice.atEnd_nil stop) hne] at hread
    have hend := Slice.atEnd_append (hops.operands_ne_nil hne) hops.not_isEof [] stop
    rw [List.append_nil] at hend
    rw [Slice.arguments, if_neg (by simp [hend]), hread]
  | @moreArguments inner back comma nodes more hops hne hcomma _ hmore ih ih' =>
    intro stop
    have hback := Slice.argumentList_of_arguments (ih' stop) hmore
    have hread := ih [] (comma :: back) stop (by simpa using hcomma)
    rw [List.nil_append, Slice.argumentList_of_comma hcomma hne hback] at hread
    have hend := Slice.atEnd_append (hops.operands_ne_nil hne) hops.not_isEof (comma :: back) stop
    rw [Slice.arguments, if_neg (by simp [hend]), hread]
  | noParameters => intro stop; simp [Slice.parameterDeclarations]
  | oneParameter ht hn =>
    intro stop
    rw [Slice.parameterDeclarations, if_neg (by simp [Rule.not_isEof_of_name? ht])]
    exact Slice.parameterList_single (Rule.parameter_cons ht hn [] stop) rfl
  | moreParameters ht hn hcomma _ hmore ih =>
    intro stop
    rw [Slice.parameterDeclarations, if_neg (by simp [Rule.not_isEof_of_name? ht])]
    exact Slice.parameterList_of_comma (Rule.parameter_cons ht hn _ stop) hcomma
      (Slice.parameterList_of_declarations (ih stop) hmore)
  | conditional hi hoc hguard hne hoc' hbody ih ih' =>
    intro rest stop
    simp only [List.cons_append, List.append_assoc, List.nil_append]
    have hcut := Rule.statementCut_conditional hi hoc (hguard.level (by decide)) (ih _) hne hoc'
      (hbody.level (by decide)) rest stop
    exact ⟨_, _, rfl, hcut, by simp only [Slice.statementNode, ih' _]⟩
  | function ht hn hoc hparams hoc' hbody ih ih' =>
    intro rest stop
    simp only [List.cons_append, List.append_assoc, List.nil_append]
    have hcut := Rule.statementCut_function ht hn hoc (hparams.level (by decide)) (ih _) hoc'
      (hbody.level (by decide)) rest stop
    exact ⟨_, _, rfl, hcut, by simp only [Slice.statementNode, ih' _]⟩
  | declaration ht hn heq hvalue hne hs ih =>
    intro rest stop
    simp only [List.cons_append, List.append_assoc, List.nil_append]
    have hcut := Rule.statementCut_declaration ht hn heq (hvalue.endsValue rfl) (hvalue.operands_ne_nil hne) hs
      (ih _) rest stop
    exact ⟨_, _, rfl, hcut, by simp only [Slice.statementNode]⟩
  | reassignment hn heq hvalue hne hs ih =>
    intro rest stop
    simp only [List.cons_append, List.append_assoc, List.nil_append]
    have hcut := Rule.statementCut_reassignment hn heq (hvalue.endsValue rfl) (hvalue.operands_ne_nil hne) hs
      (ih _) rest stop
    exact ⟨_, _, rfl, hcut, by simp only [Slice.statementNode]⟩
  | callStatement hf hne hoc hargs hs ih =>
    intro rest stop
    simp only [List.cons_append, List.append_assoc, List.nil_append]
    have hcut := Rule.statementCut_call hf hne hoc (hargs.level (by decide)) (ih _) hs rest stop
    exact ⟨_, _, rfl, hcut, by simp only [Slice.statementNode]⟩
  | noStatements => intro stop; simp [Slice.program]
  | moreStatements hstmt _ ih ih' =>
    intro stop
    obtain ⟨cut, node', heq, hcut, hnode⟩ := ih _ stop
    cases heq
    exact Slice.program_of_cut (Slice.atEnd_append hstmt.statement_ne_nil hstmt.not_isEof _ stop) hcut hnode (ih' stop)

end TinyScript
