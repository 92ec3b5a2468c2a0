import TinyScript.Grammar.Tape

/-!
# Phrases of the grammar

The grammar of programs as such, apart from how they are read: `Derives phrase tokens nodes` says that the tokens are a phrase
of a sort and that it stands for the nodes. An operand and a statement stand for one node each.

Two things are not left to choice. A name directly before a round bracket is the name of a call (`Meet` says where that would
be overlooked), and a comma between the arguments of a call is never an operand (the sort `operands false`).

Tokens are `Level` in a pair of brackets if what looks for the end of a group passes over them.
-/

namespace TinyScript

/-- The sorts of phrases. -/
inductive Phrase where
  /-- One operand. -/
  | operand
  /-- Operands in sequence, with bare commas among them or without. -/
  | operands (commas : Bool)
  /-- The arguments of a call. -/
  | arguments
  /-- The parameters of a function. -/
  | parameters
  /-- One statement. -/
  | statement
  /-- Statements in sequence. -/
  | program
deriving DecidableEq

/-- Two tokens are the brackets of a pair. -/
def Bracket.Encloses (b : Bracket) (first last : Token) : Prop :=
  first.isMark b.opening = true ∧ last.isMark b.closing = true

/-- The marks that no operand is by itself. -/
def reservedMarks : List Char := ['(', ')', '[', ']', '\x7b', '\x7d', ';']

/-- The token may be an operand by itself. -/
def Token.StandsAlone (t : Token) : Prop := t.isEof = false ∧ ∀ mark ∈ reservedMarks, t.isMark mark = false

/-- The token is one that statements end with. -/
def Token.EndsStatement (t : Token) : Prop := t.isMark ';' = true ∨ t.isMark '\x7d' = true

/-- The first of two token lists is a name and the second opens a round bracket. -/
def Meet (front back : List Token) : Prop :=
  ∃ f o rest, front = [f] ∧ f.isIdentifier = true ∧ back = o :: rest ∧ o.isMark '(' = true

/-- The tokens are a comma and nothing else. -/
def BareComma (tokens : List Token) : Prop := ∃ t, tokens = [t] ∧ t.isMark ',' = true

/-- The tokens are a phrase of a sort, which stands for the nodes. -/
inductive Derives : Phrase → List Token → List Node → Prop where
  /-- `name ( arguments )` -/
  | call {f o c : Token} {inner : List Token} {name : String} {nodes : List Node} :
      f.name? = some name → Bracket.round.Encloses o c → Derives .arguments inner nodes →
      Derives .operand (f :: o :: (inner ++ [c])) [.invocation name nodes]
  /-- `( operands )`, which is its only operand if it has just one -/
  | round {o c : Token} {inner : List Token} {nodes : List Node} :
      Bracket.round.Encloses o c → Derives (.operands true) inner nodes →
      Derives .operand (o :: (inner ++ [c])) [.grouped nodes]
  /-- `[ operands ]`, which is always a group -/
  | square {o c : Token} {inner : List Token} {nodes : List Node} :
      Bracket.square.Encloses o c → Derives (.operands true) inner nodes →
      Derives .operand (o :: (inner ++ [c])) [.parameters nodes]
  /-- Any other token -/
  | leaf {t : Token} : t.StandsAlone → Derives .operand [t] [.var (.ofToken t)]
  /-- No operands -/
  | noOperands {commas : Bool} : Derives (.operands commas) [] []
  /-- An operand and further ones -/
  | moreOperands {commas : Bool} {front back : List Token} {node : Node} {nodes : List Node} :
      Derives .operand front [node] → ¬ Meet front back → (commas = false → ¬ BareComma front) →
      Derives (.operands commas) back nodes → Derives (.operands commas) (front ++ back) (node :: nodes)
  /-- No arguments -/
  | noArguments : Derives .arguments [] []
  /-- One argument, of one operand or more -/
  | oneArgument {inner : List Token} {nodes : List Node} :
      Derives (.operands false) inner nodes → nodes ≠ [] → Derives .arguments inner [.grouped nodes]
  /-- An argument and further ones after a comma -/
  | moreArguments {inner back : List Token} {comma : Token} {nodes more : List Node} :
      Derives (.operands false) inner nodes → nodes ≠ [] → comma.isMark ',' = true →
      Derives .arguments back more → more ≠ [] →
      Derives .arguments (inner ++ comma :: back) (.grouped nodes :: more)
  /-- No parameters -/
  | noParameters : Derives .parameters [] []
  /-- `type name` -/
  | oneParameter {t n : Token} {type name : String} :
      t.name? = some type → n.name? = some name →
      Derives .parameters [t, n] [.var { name, token := some n, type := some type }]
  /-- `type name , parameters` -/
  | moreParameters {t n comma : Token} {back : List Token} {type name : String} {more : List Node} :
      t.name? = some type → n.name? = some name → comma.isMark ',' = true →
      Derives .parameters back more → more ≠ [] →
      Derives .parameters (t :: n :: comma :: back) (.var { name, token := some n, type := some type } :: more)
  /-- `if ( operands ) { program }` -/
  | conditional {i o c o' c' : Token} {guard inner : List Token} {condition body : List Node} :
      i.name? = some Rule.conditionalWord → Bracket.round.Encloses o c → Derives (.operands true) guard condition →
      condition ≠ [] → Bracket.curly.Encloses o' c' → Derives .program inner body →
      Derives .statement (i :: o :: (guard ++ c :: o' :: (inner ++ [c']))) [.conditional condition body]
  /-- `type name ( parameters ) { program }` -/
  | function {t n o c o' c' : Token} {declared inner : List Token} {type name : String} {params body : List Node} :
      t.name? = some type → n.name? = some name → Bracket.round.Encloses o c → Derives .parameters declared params →
      Bracket.curly.Encloses o' c' → Derives .program inner body →
      Derives .statement (t :: n :: o :: (declared ++ c :: o' :: (inner ++ [c']))) [.function name type params body]
  /-- `type name = operands ;` -/
  | declaration {t n equals semicolon : Token} {inner : List Token} {type name : String} {value : List Node} :
      t.name? = some type → n.name? = some name → equals.isMark '=' = true → Derives (.operands true) inner value →
      value ≠ [] → semicolon.isMark ';' = true →
      Derives .statement (t :: n :: equals :: (inner ++ [semicolon]))
        [.assign { name, token := some n, type := none } value true (some type)]
  /-- `name = operands ;` -/
  | reassignment {n equals semicolon : Token} {inner : List Token} {name : String} {value : List Node} :
      n.name? = some name → equals.isMark '=' = true → Derives (.operands true) inner value → value ≠ [] →
      semicolon.isMark ';' = true →
      Derives .statement (n :: equals :: (inner ++ [semicolon]))
        [.assign { name, token := some n, type := none } value false none]
  /-- `name ( arguments ) ;` with a name that starts no conditional -/
  | callStatement {f o c semicolon : Token} {inner : List Token} {name : String} {nodes : List Node} :
      f.name? = some name → name ≠ Rule.conditionalWord → Bracket.round.Encloses o c →
      Derives .arguments inner nodes → semicolon.isMark ';' = true →
      Derives .statement (f :: o :: (inner ++ [c, semicolon])) [.invocation name nodes]
  /-- No statements -/
  | noStatements : Derives .program [] []
  /-- A statement and further ones -/
  | moreStatements {front back : List Token} {node : Node} {nodes : List Node} :
      Derives .statement front [node] → Derives .program back nodes → Derives .program (front ++ back) (node :: nodes)

/-- No name meets a round bracket where nothing follows it. -/
theorem not_meet_nil (front : List Token) : ¬ Meet front [] := by
  rintro ⟨f, o, rest, -, -, hback, -⟩
  cases hback

/-- One operand is operands. -/
theorem Derives.oneOperand {commas : Bool} {tokens : List Token} {node : Node} (h : Derives .operand tokens [node])
    (hcomma : commas = false → ¬ BareComma tokens) : Derives (.operands commas) tokens [node] := by
  have hall : Derives (.operands commas) (tokens ++ []) [node] := .moreOperands h (not_meet_nil _) hcomma .noOperands
  rwa [List.append_nil] at hall

/-- One statement is a program. -/
theorem Derives.oneStatement {tokens : List Token} {node : Node} (h : Derives .statement tokens [node]) :
    Derives .program tokens [node] := by
  have hall : Derives .program (tokens ++ []) [node] := .moreStatements h .noStatements
  rwa [List.append_nil] at hall

namespace Token

/-- A token is one mark at most. -/
theorem isMark_eq_false {t : Token} {mark mark' : Char} (h : t.isMark mark = true) (hne : mark ≠ mark') :
    t.isMark mark' = false := by
  rw [isMark_iff] at h
  simp [isMark, h, hne]

/-- A name is no mark. -/
theorem isMark_of_name? {t : Token} {name : String} (h : t.name? = some name) (mark : Char) : t.isMark mark = false := by
  obtain ⟨value, position⟩ := t
  cases value <;> simp_all [name?, isMark]

/-- A mark is no name. -/
theorem name?_of_isMark {t : Token} {mark : Char} (h : t.isMark mark = true) : t.name? = none := by
  rw [isMark_iff] at h
  simp [name?, h]

/-- A token that holds a name is an identifier. -/
theorem isIdentifier_iff (t : Token) : t.isIdentifier = true ↔ ∃ name, t.name? = some name := by
  unfold isIdentifier
  cases t.name? <;> simp

end Token

/-! ## Levels -/

/-- The tokens are level in a pair of brackets: what looks for the end of a group passes them and is as deep as before. -/
def Level (b : Bracket) (tokens : List Token) : Prop :=
  ∀ depth rest, Rule.spanGroup b depth (tokens ++ rest) =
    (tokens ++ (Rule.spanGroup b depth rest).1, (Rule.spanGroup b depth rest).2)

namespace Level

variable {b : Bracket}

theorem nil : Level b [] := by
  intro depth rest
  rfl

theorem append {front back : List Token} (h : Level b front) (h' : Level b back) : Level b (front ++ back) := by
  intro depth rest
  rw [List.append_assoc, h, h', List.append_assoc]

/-- A token that is neither bracket of a pair is level in it. -/
theorem single {t : Token} (heof : t.isEof = false) (ho : t.isMark b.opening = false) (hc : t.isMark b.closing = false) :
    Level b [t] := by
  intro depth rest
  simp [Rule.spanGroup, heof, ho, hc]

theorem name {t : Token} {name : String} (h : t.name? = some name) : Level b [t] :=
  single (Rule.not_isEof_of_name? h) (Token.isMark_of_name? h _) (Token.isMark_of_name? h _)

theorem mark {t : Token} {mark : Char} (h : t.isMark mark = true) (ho : mark ≠ b.opening) (hc : mark ≠ b.closing) :
    Level b [t] :=
  single (Token.not_isEof_of_isMark h) (Token.isMark_eq_false h ho) (Token.isMark_eq_false h hc)

/-- Level tokens stay level between brackets, of the same pair or of another one. -/
theorem enclosed {b' : Bracket} {o c : Token} {inner : List Token} (hoc : b'.Encloses o c) (h : Level b inner) :
    Level b (o :: (inner ++ [c])) := by
  by_cases hb : b' = b
  · subst hb
    obtain ⟨ho, hc⟩ := hoc
    have hoc : o.isMark b'.closing = false := Token.isMark_eq_false ho (b'.opening_ne_closing b')
    intro depth rest
    have hinner := h (depth + 1) (c :: rest)
    simp only [Rule.spanGroup, Token.not_isEof_of_isMark hc, hc, if_true, Bool.false_eq_true, if_false] at hinner
    rw [List.cons_append, List.append_assoc, List.singleton_append]
    simp [Rule.spanGroup, Token.not_isEof_of_isMark ho, ho, hoc, hinner]
  · have hne : b'.opening ≠ b.opening ∧ b'.closing ≠ b.closing := by
      cases b <;> cases b' <;> first | exact absurd rfl hb | decide
    have ho : Level b [o] := mark hoc.1 hne.1 (b'.opening_ne_closing b)
    have hc : Level b [c] := mark hoc.2 (Ne.symm (b.opening_ne_closing b')) hne.2
    exact ho.append (h.append hc)

/-- A bracket closes the group of the level tokens before it. -/
theorem group {inner rest : List Token} {c : Token} (h : Level b inner) (hc : c.isMark b.closing = true) (stop : Int) :
    Rule.group b ⟨inner ++ c :: rest, stop⟩ = .ok ⟨inner, c.position⟩ ⟨rest, stop⟩ := by
  have hspan : Rule.spanGroup b 0 (inner ++ c :: rest) = (inner, c :: rest) := by
    rw [h]
    simp [Rule.spanGroup, Token.not_isEof_of_isMark hc, hc]
  simp only [Rule.group, hspan, hc, if_true]

/-- A group of level tokens ends at one place only. -/
theorem group_unique {inner inner' rest rest' : List Token} {c c' : Token} (h : Level b inner)
    (h' : Level b inner') (hc : c.isMark b.closing = true) (hc' : c'.isMark b.closing = true)
    (heq : inner ++ c :: rest = inner' ++ c' :: rest') : inner = inner' ∧ rest = rest' := by
  have hgroup : Rule.group b ⟨inner ++ c :: rest, 0⟩ = .ok ⟨inner, c.position⟩ ⟨rest, 0⟩ := h.group hc 0
  rw [heq, h'.group hc' 0] at hgroup
  simp only [EStateM.Result.ok.injEq, Slice.mk.injEq] at hgroup
  exact ⟨hgroup.1.1.symm, hgroup.2.1.symm⟩

end Level

/-- What is divided off before the end of a group has no end of input in it. -/
theorem Rule.not_isEof_of_mem_spanGroup (b : Bracket) (depth : Nat) (tokens : List Token) :
    ∀ t ∈ (Rule.spanGroup b depth tokens).1, t.isEof = false := by
  fun_induction Rule.spanGroup b depth tokens <;> simp_all

/-- Level tokens have no end of input among them. -/
theorem Level.not_isEof {b : Bracket} {tokens : List Token} (h : Level b tokens) : ∀ t ∈ tokens, t.isEof = false := by
  have hspan := h 0 []
  simp only [List.append_nil, Rule.spanGroup] at hspan
  intro t ht
  exact Rule.not_isEof_of_mem_spanGroup b 0 tokens t (by rw [hspan]; exact ht)

/-- The sorts of phrases that stand inside a statement. -/
def Phrase.isInner : Phrase → Bool
  | operand | operands _ | arguments | parameters => true
  | statement | program => false

namespace Derives

/-- An operand that starts with a comma is that comma. -/
theorem bareComma {t : Token} {tokens : List Token} {nodes : List Node} (h : Derives .operand (t :: tokens) nodes)
    (ht : t.isMark ',' = true) : BareComma (t :: tokens) := by
  cases h with
  | call hf => rw [Token.name?_of_isMark ht] at hf; cases hf
  | round hoc => rw [Token.isMark_eq_false hoc.1 (by decide)] at ht; cases ht
  | square hoc => rw [Token.isMark_eq_false hoc.1 (by decide)] at ht; cases ht
  | leaf => exact ⟨t, rfl, ht⟩

/-- An operand has a token. -/
theorem operand_ne_nil {tokens : List Token} {nodes : List Node} (h : Derives .operand tokens nodes) : tokens ≠ [] := by
  cases h <;> simp

/-- Operands that stand for a node have a token. -/
theorem operands_ne_nil {commas : Bool} {tokens : List Token} {nodes : List Node}
    (h : Derives (.operands commas) tokens nodes) (hne : nodes ≠ []) : tokens ≠ [] := by
  cases h with
  | noOperands => exact absurd rfl hne
  | moreOperands hop => simp [hop.operand_ne_nil]

/-- Operands that stand for no node have no token. -/
theorem tokens_eq_nil {commas : Bool} {tokens : List Token} (h : Derives (.operands commas) tokens []) : tokens = [] := by
  cases h
  rfl

/-- A statement has a token. -/
theorem statement_ne_nil {tokens : List Token} {nodes : List Node} (h : Derives .statement tokens nodes) :
    tokens ≠ [] := by
  cases h <;> simp

/-- A statement, and so a program, ends with a semicolon or a brace. -/
theorem endsStatement {phrase : Phrase} {tokens : List Token} {nodes : List Node} (h : Derives phrase tokens nodes)
    (hphrase : phrase.isInner = false) : ∀ t ∈ tokens.getLast?, t.EndsStatement := by
  induction h with
  | call | round | square | leaf | noOperands | moreOperands | noArguments | oneArgument | moreArguments | noParameters
  | oneParameter | moreParameters => cases hphrase
  | conditional _ _ _ _ hoc' | function _ _ _ _ hoc' =>
    have hends : Token.EndsStatement _ := Or.inr hoc'.2
    simpa [List.getLast?_append, List.getLast?_cons] using hends
  | declaration _ _ _ _ _ hsemi | reassignment _ _ _ _ hsemi | callStatement _ _ _ _ hsemi =>
    have hends : Token.EndsStatement _ := Or.inl hsemi
    simpa [List.getLast?_append, List.getLast?_cons] using hends
  | noStatements => simp
  | @moreStatements front back _ _ _ _ ih ih' =>
    intro t ht
    rw [List.getLast?_append, Option.mem_def, Option.or_eq_some_iff] at ht
    rcases ht with hback | ⟨-, hfront⟩
    · exact ih' rfl t hback
    · exact ih rfl t hfront

end Derives

end TinyScript
