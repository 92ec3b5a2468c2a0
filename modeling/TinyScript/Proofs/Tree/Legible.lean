import TinyScript.Proofs.Grammar.Exactness
import TinyScript.Proofs.Scan.Tokenization
import TinyScript.Tree.Outline

/-!
# The trees of sources

What the tree of a source is made of. A value is scanned if some text has a lexeme with it (`Scanned`), and a tree is legible
if its names are words, its operands are scanned tokens and its parameters have a type and a name (`Node.Legible`). The tree
of every source is legible (`legibleAll_of_parseSource`).

`Node.erased` is a tree without the places of its tokens.
-/

namespace TinyScript

/-! ## Places -/

/-- A variable without the place of its token. -/
def Var.erased (v : Var) : Var := { v with token := v.token.map fun t => { t with position := 0 } }

namespace Node

mutual

/-- A tree without the places of its tokens. -/
def erased : Node → Node
  | .var v => .var v.erased
  | .parameters items => .parameters (erasedAll items)
  | .conditional condition body => .conditional (erasedAll condition) (erasedAll body)
  | .invocation name arguments => .invocation name (erasedAll arguments)
  | .assign target value firstTime type => .assign target.erased (erasedAll value) firstTime type
  | .function name returnType params body => .function name returnType (erasedAll params) (erasedAll body)

/-- Trees without the places of their tokens. -/
def erasedAll : List Node → List Node
  | [] => []
  | node :: rest => erased node :: erasedAll rest

end

end Node

/-! ## Scanned values -/

/-- The value is that of a lexeme. -/
def Scanned (value : TokenValue) : Prop := ∃ run rest, Lexeme run rest value

/-- The text is a word. -/
def IsWord (name : String) : Prop := ∀ c ∈ name.toList, Reading.isWordPart c = true

/-- A scanned name is a word. -/
theorem Scanned.isWord {name : String} (h : Scanned (.identifier name)) : IsWord name := by
  obtain ⟨run, rest, hlexeme⟩ := h
  generalize hvalue : TokenValue.identifier name = value at hlexeme
  cases hlexeme with
  | identifier _ hrun _ =>
    obtain rfl := TokenValue.identifier.inj hvalue
    intro c hc
    rw [String.toList_ofList] at hc
    exact hrun.1 c hc
  | integer _ _ _ | float _ _ _ | boolean _ | string _ _ | character _ _ _ _ => cases hvalue

/-- The name of a scanned token is a word. -/
theorem isWord_of_name? {t : Token} {name : String} (hname : t.name? = some name) (h : Scanned t.value) : IsWord name := by
  rw [Token.value_of_name? hname] at h
  exact h.isWord

/-- No scanned value ends the input. -/
theorem Scanned.not_eof {value : TokenValue} (h : Scanned value) : value ≠ .eof := by
  rintro rfl
  obtain ⟨run, rest, hlexeme⟩ := h
  cases hlexeme

/-- The tokens of pieces are scanned. -/
theorem Factors.scanned {pieces : List Piece} {text rest : List Char} (h : Factors pieces text rest) (offset : Int) :
    ∀ t ∈ placed offset pieces, Scanned t.value := by
  induction h generalizing offset with
  | nil => intro t ht; cases ht
  | cons _ hlexeme _ ih =>
    intro t ht
    rcases List.mem_cons.mp ht with rfl | ht
    · exact ⟨_, _, hlexeme⟩
    · exact ih _ t ht

/-! ## Legible trees -/

/-- The node is a parameter of a function, with a type and a name. -/
def Declared (node : Node) : Prop :=
  ∃ t name type, t.value = .identifier name ∧ IsWord name ∧ IsWord type ∧
    node = .var { name, token := some t, type := some type }

/-- The variable is one that a statement assigns to. -/
def Assigned (v : Var) : Prop :=
  ∃ t name, t.value = .identifier name ∧ IsWord name ∧ v = { name, token := some t, type := none }

/-- A statement assigns to the variable that a scanned name makes. -/
theorem assigned_of_name? {t : Token} {name : String} (hname : t.name? = some name) (h : Scanned t.value) :
    Assigned { name, token := some t, type := none } :=
  ⟨t, name, Token.value_of_name? hname, isWord_of_name? hname h, rfl⟩

namespace Node

mutual

/-- The names of a tree are words, its operands are scanned tokens, its parameters are declared, and its first assignments are
those with a type. -/
def Legible : Node → Prop
  | .var v => ∃ t, Scanned t.value ∧ v = .ofToken t
  | .parameters items => LegibleAll items
  | .conditional condition body => LegibleAll condition ∧ LegibleAll body
  | .invocation name arguments => IsWord name ∧ LegibleAll arguments
  | .assign target value firstTime type =>
    Assigned target ∧ LegibleAll value ∧ firstTime = type.isSome ∧ ∀ word ∈ type, IsWord word
  | .function name returnType params body =>
    IsWord name ∧ IsWord returnType ∧ (∀ node ∈ params, Declared node) ∧ LegibleAll body

/-- All trees are legible. -/
def LegibleAll : List Node → Prop
  | [] => True
  | node :: rest => Legible node ∧ LegibleAll rest

end

/-- A group of legible operands is legible. -/
theorem Legible.grouped {nodes : List Node} (h : LegibleAll nodes) : Legible (grouped nodes) := by
  unfold Node.grouped
  split
  · exact h.1
  · exact h

end Node

/-- What the nodes of a phrase are made of: parameters are declared, everything else is legible. -/
def Phrase.Made : Phrase → List Node → Prop
  | parameters, nodes => ∀ node ∈ nodes, Declared node
  | _, nodes => Node.LegibleAll nodes

/-- The nodes of a phrase of scanned tokens are legible. -/
theorem Derives.made {phrase : Phrase} {tokens : List Token} {nodes : List Node} (h : Derives phrase tokens nodes)
    (hscanned : ∀ t ∈ tokens, Scanned t.value) : phrase.Made nodes := by
  induction h with
  | @call f o c inner name nodes hname _ _ ih =>
    have harguments := ih fun t ht => hscanned t (by simp [ht])
    exact ⟨⟨isWord_of_name? hname (hscanned f (by simp)), harguments⟩, trivial⟩
  | @round o c inner nodes _ _ ih =>
    have hitems := ih fun t ht => hscanned t (by simp [ht])
    exact ⟨Node.Legible.grouped hitems, trivial⟩
  | @square o c inner nodes _ _ ih =>
    have hitems := ih fun t ht => hscanned t (by simp [ht])
    exact ⟨hitems, trivial⟩
  | @leaf t _ => exact ⟨⟨t, hscanned t (by simp), rfl⟩, trivial⟩
  | noOperands => trivial
  | @moreOperands _ front back node nodes _ _ _ _ ihFront ihBack =>
    have hfirst := ihFront fun t ht => hscanned t (by simp [ht])
    have hrest := ihBack fun t ht => hscanned t (by simp [ht])
    exact ⟨hfirst.1, hrest⟩
  | noArguments => trivial
  | @oneArgument inner nodes _ _ ih => exact ⟨Node.Legible.grouped (ih hscanned), trivial⟩
  | @moreArguments inner back comma nodes more _ _ _ _ _ ihFirst ihMore =>
    have hfirst := ihFirst fun t ht => hscanned t (by simp [ht])
    have hmore := ihMore fun t ht => hscanned t (by simp [ht])
    exact ⟨Node.Legible.grouped hfirst, hmore⟩
  | noParameters => exact fun node hnode => by cases hnode
  | @oneParameter t n type name htype hname =>
    intro node hnode
    obtain rfl := List.mem_singleton.mp hnode
    exact ⟨n, name, type, Token.value_of_name? hname, isWord_of_name? hname (hscanned n (by simp)),
      isWord_of_name? htype (hscanned t (by simp)), rfl⟩
  | @moreParameters t n comma back type name more htype hname _ _ _ ih =>
    have hmore := ih fun t ht => hscanned t (by simp [ht])
    intro node hnode
    rcases List.mem_cons.mp hnode with rfl | hnode
    · exact ⟨n, name, type, Token.value_of_name? hname, isWord_of_name? hname (hscanned n (by simp)),
        isWord_of_name? htype (hscanned t (by simp)), rfl⟩
    · exact hmore node hnode
  | @conditional i o c o' c' guard inner condition body _ _ _ _ _ _ ihGuard ihBody =>
    have hguard := ihGuard fun t ht => hscanned t (by simp [ht])
    have hbody := ihBody fun t ht => hscanned t (by simp [ht])
    exact ⟨⟨hguard, hbody⟩, trivial⟩
  | @function t n o c o' c' declared inner type name params body htype hname _ _ _ _ ihParams ihBody =>
    have hparams := ihParams fun t ht => hscanned t (by simp [ht])
    have hbody := ihBody fun t ht => hscanned t (by simp [ht])
    exact ⟨⟨isWord_of_name? hname (hscanned n (by simp)), isWord_of_name? htype (hscanned t (by simp)), hparams, hbody⟩,
      trivial⟩
  | @declaration t n equals semicolon inner type name value htype hname _ _ _ _ ih =>
    have hvalue := ih fun t ht => hscanned t (by simp [ht])
    have hassigned := assigned_of_name? hname (hscanned n (by simp))
    refine ⟨⟨hassigned, hvalue, rfl, fun word hword => ?_⟩, trivial⟩
    obtain rfl : type = word := by simpa using hword
    exact isWord_of_name? htype (hscanned t (by simp))
  | @reassignment n equals semicolon inner name value hname _ _ _ _ ih =>
    have hvalue := ih fun t ht => hscanned t (by simp [ht])
    have hassigned := assigned_of_name? hname (hscanned n (by simp))
    exact ⟨⟨hassigned, hvalue, rfl, fun word hword => by cases hword⟩, trivial⟩
  | @callStatement f o c semicolon inner name nodes hname _ _ _ _ ih =>
    have harguments := ih fun t ht => hscanned t (by simp [ht])
    exact ⟨⟨isWord_of_name? hname (hscanned f (by simp)), harguments⟩, trivial⟩
  | noStatements => trivial
  | @moreStatements front back node nodes _ _ ihFront ihBack =>
    have hfirst := ihFront fun t ht => hscanned t (by simp [ht])
    have hrest := ihBack fun t ht => hscanned t (by simp [ht])
    exact ⟨hfirst.1, hrest⟩

/-- A source is parsed into the tree that the tokens before its end stand for. -/
theorem parseSource_eq_ok_iff {source filename : String} {tokens : List Token} {position : Int} {nodes : List Node}
    (hlex : lex source filename = .ok (tokens ++ [.eof position])) (hunbroken : Slice.Unbroken ⟨tokens, position⟩) :
    parseSource source filename = .ok nodes ↔ Derives .program tokens nodes := by
  rw [parseSource_of_ok (lexSource_of_ok hlex), parseTokens_append_eof _ rfl, mapError_eq_ok_iff]
  exact Slice.parse_eq_ok_iff hunbroken nodes

/-- A source that is parsed has scanned tokens, and they are a program that stands for its tree. -/
theorem exists_derives_of_parseSource {source filename : String} {nodes : List Node}
    (h : parseSource source filename = .ok nodes) :
    ∃ tokens, (∀ t ∈ tokens, Scanned t.value) ∧ Derives .program tokens nodes := by
  cases hlex : lex source filename with
  | error fault =>
    rw [parseSource_of_error hlex] at h
    cases h
  | ok tokens =>
    obtain ⟨pieces, blanks, hpieces, _, rfl⟩ := exists_factors_of_lex hlex
    have hscanned := hpieces.scanned 0
    have hunbroken : Slice.Unbroken ⟨placed 0 pieces, (Token.eof source.length).position⟩ := by
      intro t ht
      have hne := (hscanned t ht).not_eof
      simpa [Token.isEof] using hne
    exact ⟨placed 0 pieces, hscanned, (parseSource_eq_ok_iff hlex hunbroken).mp h⟩

/-- The tree of a source is legible. -/
theorem legibleAll_of_parseSource {source filename : String} {nodes : List Node}
    (h : parseSource source filename = .ok nodes) : Node.LegibleAll nodes := by
  obtain ⟨tokens, hscanned, hderives⟩ := exists_derives_of_parseSource h
  exact hderives.made hscanned

end TinyScript
