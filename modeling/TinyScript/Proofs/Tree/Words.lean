import TinyScript.Proofs.Grammar.Exactness

/-!
# The words of a tree

A tree has the words of the tokens that it was parsed from, all of them and in their order. `Node.words` is what a tree says in
source order and `Token.words` what tokens other than punctuation do; the two agree on every phrase (`Derives.words`). The
tokens that a tree holds are tokens of the input in their order, each once (`Derives.heldTokens_sublist`).
-/

namespace TinyScript

/-- What tokens say, without punctuation. -/
def Token.words (tokens : List Token) : List String := (tokens.filter (!·.isCharacter)).map Token.lexeme

namespace Node

/-- What a parameter says: its type and its name. -/
def parameterWords : Node → List String
  | .var v => v.type.toList ++ [v.name]
  | _ => []

mutual

/-- What a tree says in source order. -/
def words : Node → List String
  | .var v => Token.words v.token.toList
  | .parameters items => wordsAll items
  | .conditional condition body => Rule.conditionalWord :: (wordsAll condition ++ wordsAll body)
  | .invocation name arguments => name :: wordsAll arguments
  | .assign target value _ type => type.toList ++ target.name :: wordsAll value
  | .function name returnType params body => returnType :: name :: (params.flatMap parameterWords ++ wordsAll body)

/-- What trees say one after another. -/
def wordsAll : List Node → List String
  | [] => []
  | node :: rest => words node ++ wordsAll rest

end

/-- The token that a node holds. -/
def token? : Node → Option Token
  | .var v => v.token
  | _ => none

/-- The tokens that trees hold, in preorder. -/
def heldTokens (nodes : List Node) : List Token := (preorderAll nodes).filterMap token?

end Node

/-! ## What tokens say -/

namespace Token

@[simp] theorem words_nil : words [] = [] := rfl

@[simp] theorem words_append (front back : List Token) : words (front ++ back) = words front ++ words back := by
  simp [words]

/-- A name says itself. -/
theorem words_name {t : Token} {name : String} (h : t.name? = some name) (rest : List Token) :
    words (t :: rest) = name :: words rest := by
  have hvalue := value_of_name? h
  have hplain : t.isCharacter = false := by simp [isCharacter, mark?, hvalue]
  have hlexeme : t.lexeme = name := by simp [lexeme, TokenValue.lexeme, hvalue]
  simp [words, hplain, hlexeme]

/-- Punctuation says nothing. -/
theorem words_mark {t : Token} {mark : Char} (h : t.isMark mark = true) (rest : List Token) :
    words (t :: rest) = words rest := by
  have hvalue := (t.isMark_iff mark).mp h
  have hmark : t.isCharacter = true := by simp [isCharacter, mark?, hvalue]
  simp [words, hmark]

/-- Brackets say what is between them. -/
theorem words_enclosed {b : Bracket} {o c : Token} (h : b.Encloses o c) (inner rest : List Token) :
    words (o :: (inner ++ c :: rest)) = words inner ++ words rest := by
  rw [words_mark h.1, words_append, words_mark h.2]

end Token

namespace Node

@[simp] theorem wordsAll_nil : wordsAll [] = [] := by
  rw [wordsAll]

@[simp] theorem wordsAll_cons (node : Node) (rest : List Node) : wordsAll (node :: rest) = words node ++ wordsAll rest := by
  rw [wordsAll]

/-- A group says what its operands do. -/
@[simp] theorem words_grouped (nodes : List Node) : words (grouped nodes) = wordsAll nodes := by
  unfold grouped
  split
  next node => simp
  next => rw [words]

@[simp] theorem heldTokens_nil : heldTokens [] = [] := by
  simp [heldTokens, preorderAll]

/-- The tokens of trees are those of the first and of the rest. -/
theorem heldTokens_cons (node : Node) (rest : List Node) :
    heldTokens (node :: rest) = heldTokens [node] ++ heldTokens rest := by
  simp [heldTokens, preorderAll]

/-- A node that holds no token has those of its children. -/
theorem heldTokens_singleton {node : Node} (h : node.token? = none) : heldTokens [node] = heldTokens node.children := by
  simp [heldTokens, preorderAll, preorder_eq_cons, h]

theorem heldTokens_append (front back : List Node) : heldTokens (front ++ back) = heldTokens front ++ heldTokens back := by
  simp [heldTokens, preorderAll_eq_flatMap]

theorem heldTokens_var (v : Var) : heldTokens [.var v] = v.token.toList := by
  cases htoken : v.token <;> simp [heldTokens, preorderAll, preorder, token?, htoken]

/-- A group holds the tokens of its operands. -/
theorem heldTokens_grouped (nodes : List Node) : heldTokens [grouped nodes] = heldTokens nodes := by
  unfold grouped
  split
  next => rfl
  next => exact heldTokens_singleton rfl

end Node

/-! ## Phrases -/

/-- What the nodes of a phrase of a sort say. -/
def Phrase.words : Phrase → List Node → List String
  | parameters, nodes => nodes.flatMap Node.parameterWords
  | _, nodes => Node.wordsAll nodes

/-- The nodes of a phrase say what its tokens do. -/
theorem Derives.words {phrase : Phrase} {tokens : List Token} {nodes : List Node} (h : Derives phrase tokens nodes) :
    phrase.words nodes = Token.words tokens := by
  induction h with
  | @call f o c inner name nodes hf hoc _ ih =>
    rw [Token.words_name hf, Token.words_enclosed hoc, ← ih]
    simp [Phrase.words, Node.words]
  | round hoc _ ih =>
    rw [Token.words_enclosed hoc, ← ih]
    simp [Phrase.words]
  | square hoc _ ih =>
    rw [Token.words_enclosed hoc, ← ih]
    simp [Phrase.words, Node.words]
  | leaf => simp [Phrase.words, Node.words, Var.ofToken]
  | noOperands | noArguments | noParameters | noStatements => simp [Phrase.words]
  | moreOperands _ _ _ _ ih ih' =>
    rw [Token.words_append, ← ih, ← ih']
    simp [Phrase.words]
  | oneArgument _ _ ih =>
    rw [← ih]
    simp [Phrase.words]
  | moreArguments _ _ hcomma _ _ ih ih' =>
    rw [Token.words_append, Token.words_mark hcomma, ← ih, ← ih']
    simp [Phrase.words]
  | oneParameter ht hn =>
    rw [Token.words_name ht, Token.words_name hn]
    simp [Phrase.words, Node.parameterWords]
  | moreParameters ht hn hcomma _ _ ih =>
    rw [Token.words_name ht, Token.words_name hn, Token.words_mark hcomma, ← ih]
    simp [Phrase.words, Node.parameterWords]
  | conditional hi hoc _ _ hoc' _ ih ih' =>
    rw [Token.words_name hi, Token.words_enclosed hoc, Token.words_enclosed hoc', ← ih, ← ih']
    simp [Phrase.words, Node.words]
  | function ht hn hoc _ hoc' _ ih ih' =>
    rw [Token.words_name ht, Token.words_name hn, Token.words_enclosed hoc, Token.words_enclosed hoc', ← ih, ← ih']
    simp [Phrase.words, Node.words]
  | declaration ht hn heq _ _ hsemi ih =>
    rw [Token.words_name ht, Token.words_name hn, Token.words_mark heq, Token.words_append, Token.words_mark hsemi, ← ih]
    simp [Phrase.words, Node.words]
  | reassignment hn heq _ _ hsemi ih =>
    rw [Token.words_name hn, Token.words_mark heq, Token.words_append, Token.words_mark hsemi, ← ih]
    simp [Phrase.words, Node.words]
  | callStatement hf _ hoc _ hsemi ih =>
    rw [Token.words_name hf, Token.words_enclosed hoc, Token.words_mark hsemi, ← ih]
    simp [Phrase.words, Node.words]
  | moreStatements _ _ ih ih' =>
    rw [Token.words_append, ← ih, ← ih']
    simp [Phrase.words]

/-- What is held between two tokens is held with them. -/
theorem sublist_between {held inner : List Token} (h : held.Sublist inner) (first last : Token) :
    held.Sublist (first :: (inner ++ [last])) :=
  (h.trans (List.sublist_append_left _ _)).cons first

/-- What is held between two tokens and after them is held with them. -/
theorem sublist_around {held held' inner rest : List Token} (h : held.Sublist inner) (h' : held'.Sublist rest)
    (first last : Token) : (held ++ held').Sublist (first :: (inner ++ last :: rest)) :=
  (h.append (h'.cons last)).cons first

/-- The tokens that the nodes of a phrase hold are among its tokens, in order. -/
theorem Derives.heldTokens_sublist {phrase : Phrase} {tokens : List Token} {nodes : List Node}
    (h : Derives phrase tokens nodes) : (Node.heldTokens nodes).Sublist tokens := by
  induction h with
  | @call f o c inner name nodes _ _ _ ih =>
    rw [Node.heldTokens_singleton rfl, Node.children]
    exact (sublist_between ih o c).cons f
  | @round o c inner nodes _ _ ih =>
    rw [Node.heldTokens_grouped]
    exact sublist_between ih o c
  | @square o c inner nodes _ _ ih =>
    rw [Node.heldTokens_singleton rfl, Node.children]
    exact sublist_between ih o c
  | @leaf t _ =>
    rw [Node.heldTokens_var]
    exact List.Sublist.refl _
  | noOperands | noArguments | noParameters | noStatements => simp
  | moreOperands _ _ _ _ ih ih' =>
    rw [Node.heldTokens_cons]
    exact ih.append ih'
  | oneArgument _ _ ih =>
    rw [Node.heldTokens_grouped]
    exact ih
  | @moreArguments inner back comma nodes more _ _ _ _ _ ih ih' =>
    rw [Node.heldTokens_cons, Node.heldTokens_grouped]
    exact ih.append (ih'.cons comma)
  | @oneParameter t n _ _ _ _ =>
    rw [Node.heldTokens_var]
    exact (List.Sublist.refl _).cons t
  | @moreParameters t n comma back type name more _ _ _ _ _ ih =>
    rw [Node.heldTokens_cons, Node.heldTokens_var]
    exact ((ih.cons comma).cons_cons n).cons t
  | @conditional i o c o' c' guard inner condition body _ _ _ _ _ _ ih ih' =>
    rw [Node.heldTokens_singleton rfl, Node.children, Node.heldTokens_append]
    exact (sublist_around ih (sublist_between ih' o' c') o c).cons i
  | @function t n o c o' c' declared inner type name params body _ _ _ _ _ _ ih ih' =>
    rw [Node.heldTokens_singleton rfl, Node.children, Node.heldTokens_cons, Node.heldTokens_singleton rfl, Node.children]
    exact ((sublist_around ih (sublist_between ih' o' c') o c).cons n).cons t
  | @declaration t n equals semicolon inner type name value _ _ _ _ _ _ ih =>
    rw [Node.heldTokens_singleton rfl, Node.children, Node.heldTokens_cons, Node.heldTokens_var]
    exact ((sublist_between ih equals semicolon).cons_cons n).cons t
  | @reassignment n equals semicolon inner name value _ _ _ _ _ ih =>
    rw [Node.heldTokens_singleton rfl, Node.children, Node.heldTokens_cons, Node.heldTokens_var]
    exact (sublist_between ih equals semicolon).cons_cons n
  | @callStatement f o c semicolon inner name nodes _ _ _ _ _ ih =>
    have hall := (sublist_around ih (List.nil_sublist [semicolon]) o c).cons f
    rw [List.append_nil] at hall
    rw [Node.heldTokens_singleton rfl, Node.children]
    exact hall
  | moreStatements _ _ ih ih' =>
    rw [Node.heldTokens_cons]
    exact ih.append ih'

/-- A token list that is parsed loses no word, and its nodes say no other: what they say in source order is what the tokens do.
The tokens that the nodes hold, in preorder, are tokens of the list in their order, each at most once. -/
theorem words_of_parseTokens (tokens : List Token) (last : Token) (nodes : List Node)
    (htokens : ∀ t ∈ tokens, t.isEof = false) (hlast : last.isEof = true)
    (h : parseTokens (tokens ++ [last]) = .ok nodes) :
    Node.wordsAll nodes = (tokens.filter (!·.isCharacter)).map Token.lexeme ∧ (Node.heldTokens nodes).Sublist tokens := by
  rw [parseTokens_append_eof tokens hlast, mapError_eq_ok_iff] at h
  have hprogram := (Slice.parse_eq_ok_iff (s := ⟨tokens, last.position⟩) htokens nodes).mp h
  exact ⟨hprogram.words, hprogram.heldTokens_sublist⟩

/-- The tokens of `int x = (y);`. -/
def groupedValue : List Token :=
  [⟨.identifier "int", 3⟩, ⟨.identifier "x", 5⟩, ⟨.character '=', 6⟩, ⟨.character '(', 8⟩, ⟨.identifier "y", 10⟩,
    ⟨.character ')', 10⟩, ⟨.character ';', 11⟩]

/-- The type is said but held by no node, and the brackets are neither. -/
theorem words_of_parseTokens_groupedValue :
    (∀ t ∈ groupedValue, t.isEof = false) ∧ (Token.eof 12).isEof = true ∧ ∃ nodes,
      parseTokens (groupedValue ++ [Token.eof 12]) = .ok nodes ∧ Node.wordsAll nodes = ["int", "x", "y"] ∧
        Node.heldTokens nodes = [⟨.identifier "x", 5⟩, ⟨.identifier "y", 10⟩] ∧
          (Node.heldTokens nodes).Sublist groupedValue := by
  have hy : Derives .operand [⟨.identifier "y", 10⟩] [.var (.ofToken ⟨.identifier "y", 10⟩)] :=
    .leaf ⟨rfl, fun mark _ => rfl⟩
  have hround : Derives .operand [⟨.character '(', 8⟩, ⟨.identifier "y", 10⟩, ⟨.character ')', 10⟩]
      [.var (.ofToken ⟨.identifier "y", 10⟩)] := .round ⟨rfl, rfl⟩ (hy.oneOperand nofun)
  have hequals : Token.isMark ⟨.character '=', 6⟩ '=' = true := rfl
  have hsemi : Token.isMark ⟨.character ';', 11⟩ ';' = true := rfl
  have hdeclaration : Derives .statement groupedValue
      [.assign { name := "x", token := some ⟨.identifier "x", 5⟩, type := none }
        [.var (.ofToken ⟨.identifier "y", 10⟩)] true (some "int")] :=
    .declaration rfl rfl hequals (hround.oneOperand nofun) (by simp) hsemi
  have hlast : (Token.eof 12).isEof = true := rfl
  have hparse := hdeclaration.oneStatement.parseTokens_eq hlast
  have hwords := words_of_parseTokens groupedValue (Token.eof 12) _ (by decide) rfl hparse
  exact ⟨by decide, rfl, _, hparse, by rw [hwords.1]; decide, by decide, hwords.2⟩

end TinyScript
