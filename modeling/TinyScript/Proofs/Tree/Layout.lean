import TinyScript.Proofs.Grammar.Respelling
import TinyScript.Proofs.Tree.Legible

/-!
# Trees and the layout of their sources

The tree of a source is made of the kinds, the names and the payloads of its tokens and of nothing else. Spelt in another way
they make the tree in that spelling, and a failure stays where it is (`parseTokens_respelled`). So the spacing and the line
breaks of a source are lost in its tree: two sources with the same values in order come to the same, places aside.
-/

namespace TinyScript

/-- The spelling without places. -/
def Respelling.unplaced : Respelling where
  position := fun _ => 0
  name := id
  string := id
  char := id
  integer := id
  float := id
  boolean := id
  name_eq_iff := fun _ => Iff.rfl

namespace Respelling

@[simp] theorem name_unplaced : unplaced.name = id := rfl

/-- Without places a value is what it was. -/
@[simp] theorem value_unplaced (v : TokenValue) : unplaced.value v = v := by
  cases v <;> rfl

@[simp] theorem token_unplaced (t : Token) : unplaced.token t = { t with position := 0 } := by
  rw [token, value_unplaced]
  rfl

@[simp] theorem declared_unplaced (v : Var) : unplaced.declared v = v.erased := by
  have htoken : unplaced.token = fun t => { t with position := 0 } := funext token_unplaced
  simp [declared, Var.erased, htoken]

/-- The parameters of a tree without places. -/
theorem nodes_unplaced_of_declared {params : List Node} (h : ∀ node ∈ params, Declared node) :
    unplaced.nodes params = Node.erasedAll params := by
  induction params with
  | nil => rfl
  | cons first rest ih =>
    obtain ⟨t, name, type, _, _, _, rfl⟩ := h first List.mem_cons_self
    have hrest := ih fun node hnode => h node (List.mem_cons_of_mem _ hnode)
    simp only [nodes, node, var, Node.erasedAll, Node.erased, declared_unplaced, hrest]

mutual

/-- A legible tree without places. -/
theorem node_unplaced : ∀ {tree : Node}, tree.Legible → unplaced.node tree = tree.erased
  | .var v, h => by
    obtain ⟨t, _, rfl⟩ := h
    simp [node, Node.erased, var, Var.ofToken, Var.erased, Token.lexeme]
  | .parameters items, h => by
    simp only [node, Node.erased, nodes_unplaced h]
  | .conditional condition body, h => by
    simp only [node, Node.erased, nodes_unplaced h.1, nodes_unplaced h.2]
  | .invocation name arguments, h => by
    simp only [node, Node.erased, name_unplaced, id_eq, nodes_unplaced h.2]
  | .assign target value firstTime type, h => by
    simp only [node, Node.erased, declared_unplaced, name_unplaced, Option.map_id, id_eq, nodes_unplaced h.2.1]
  | .function name returnType params body, h => by
    simp only [node, Node.erased, name_unplaced, id_eq, nodes_unplaced_of_declared h.2.2.1, nodes_unplaced h.2.2.2]

/-- Legible trees without places. -/
theorem nodes_unplaced : ∀ {trees : List Node}, Node.LegibleAll trees → unplaced.nodes trees = Node.erasedAll trees
  | [], _ => by simp only [nodes, Node.erasedAll]
  | first :: rest, h => by simp only [nodes, Node.erasedAll, node_unplaced h.1, nodes_unplaced h.2]

end

/-- Two token lists with the same values in order are the same without places. -/
theorem map_unplaced_eq {tokens tokens' : List Token} (h : tokens.map (·.value) = tokens'.map (·.value)) :
    tokens.map unplaced.token = tokens'.map unplaced.token := by
  have hvalues : ∀ ts : List Token, ts.map unplaced.token = (ts.map (·.value)).map fun v => ⟨v, 0⟩ := fun ts => by
    simp [List.map_map, Function.comp_def]
  rw [hvalues, hvalues, h]

end Respelling

/-- Where a source is scanned, what it comes to in a spelling is what its tokens in that spelling come to. -/
theorem parseSource_respelled {source filename : String} {tokens : List Token} (hlex : lexSource source filename = .ok tokens)
    (r : Respelling) :
    ((parseSource source filename).map r.nodes).mapError r.failure = parseTokens (tokens.map r.token) := by
  rw [Respelling.parseTokens_map, parseSource_of_ok hlex]

/-- What a source comes to without places is what its tokens without places come to. -/
theorem parseSource_unplaced {source filename : String} {tokens : List Token}
    (hlex : lexSource source filename = .ok tokens) :
    ((parseSource source filename).map Node.erasedAll).mapError Respelling.unplaced.failure =
      parseTokens (tokens.map Respelling.unplaced.token) := by
  rw [← parseSource_respelled hlex]
  cases hnodes : parseSource source filename with
  | error failure => rfl
  | ok nodes =>
    have herased := Respelling.nodes_unplaced (legibleAll_of_parseSource hnodes)
    exact congrArg Except.ok herased.symm

/-- Tokens in another spelling are parsed as the nodes in that spelling, or fail with the failure in that spelling: it is of
the same kind, with the same code, about the same token at the same place, in the spelling. So two sources whose tokens have
the same values come to the same without places. -/
theorem parseTokens_respelled :
    (∀ (r : Respelling) (tokens : List Token),
      parseTokens (tokens.map r.token) = ((parseTokens tokens).map r.nodes).mapError r.failure) ∧
    (∀ (r : Respelling) (e : ParseError), (r.error e).kind = e.kind ∧ (r.error e).code = e.code ∧
      (r.error e).token? = e.token?.map r.token ∧ (r.error e).position = r.position e.position) ∧
    ∀ (source source' filename filename' : String) (tokens tokens' : List Token),
      lexSource source filename = .ok tokens → lexSource source' filename' = .ok tokens' →
      tokens.map (·.value) = tokens'.map (·.value) →
      ((parseSource source filename).map Node.erasedAll).mapError Respelling.unplaced.failure =
        ((parseSource source' filename').map Node.erasedAll).mapError Respelling.unplaced.failure := by
  refine ⟨fun r tokens => r.parseTokens_map tokens, fun r e => r.reported_error e, ?_⟩
  intro source source' filename filename' tokens tokens' hlex hlex' hvalues
  rw [parseSource_unplaced hlex, parseSource_unplaced hlex', Respelling.map_unplaced_eq hvalues]

/-- A spelling with other names, payloads and places: names end with an underscore, but for the word of a conditional. -/
def Respelling.underscored : Respelling where
  position := fun place => 2 * place
  name := fun x => if x = Rule.conditionalWord then x else x ++ "_"
  string := fun text => text ++ "_"
  char := fun _ => '_'
  integer := fun n => n + 1
  float := fun _ => .nan
  boolean := fun b => !b
  name_eq_iff := fun x => by
    refine ⟨fun h => Decidable.byContradiction fun hne => ?_, fun h => by rw [if_pos h, h]⟩
    rw [if_neg hne] at h
    have hlast := congrArg (·.toList.getLast?) h
    simp [Rule.conditionalWord] at hlast

/-- A declaration on one line and on two is the same without places. With names that end with an underscore it declares another
variable by another type, and what fails to be a statement fails at the same token in that spelling. -/
theorem parseTokens_respelled_declaration :
    let tight : List Token := [⟨.identifier "int", 3⟩, ⟨.identifier "x", 5⟩, ⟨.character '=', 5⟩, ⟨.integer 1, 7⟩,
      ⟨.character ';', 7⟩]
    let spread : List Token := [⟨.identifier "int", 3⟩, ⟨.identifier "x", 5⟩, ⟨.character '=', 8⟩, ⟨.integer 1, 12⟩,
      ⟨.character ';', 13⟩]
    let declared (name type : String) (place : Int) (value : Token) : Node :=
      .assign { name, token := some ⟨.identifier name, place⟩, type := none } [.var (.ofToken value)] true (some type)
    let bare : List Token := [⟨.identifier "x", 1⟩, ⟨.integer 1, 3⟩]
    lexSource "int x=1;" "f" = .ok (tight ++ [.eof 8]) ∧ lexSource "int x\n  = 01 ;" "g" = .ok (spread ++ [.eof 14]) ∧
      ((parseSource "int x=1;" "f").map Node.erasedAll).mapError Respelling.unplaced.failure =
        .ok [declared "x" "int" 0 ⟨.integer 1, 0⟩] ∧
      ((parseSource "int x\n  = 01 ;" "g").map Node.erasedAll).mapError Respelling.unplaced.failure =
        .ok [declared "x" "int" 0 ⟨.integer 1, 0⟩] ∧
      parseTokens (tight ++ [.eof 8]) = .ok [declared "x" "int" 5 ⟨.integer 1, 7⟩] ∧
      parseTokens ((tight ++ [Token.eof 8]).map Respelling.underscored.token) =
        .ok [declared "x_" "int_" 10 ⟨.integer 2, 14⟩] ∧
      parseTokens (bare ++ [.eof 3]) =
        .error (.grammatical (.unexpected "'=', '(' or an identifier" ⟨.integer 1, 3⟩)) ∧
      parseTokens ((bare ++ [Token.eof 3]).map Respelling.underscored.token) =
        .error (.grammatical (.unexpected "'=', '(' or an identifier" ⟨.integer 2, 6⟩)) := by
  intro tight spread declared bare
  obtain ⟨hrespelled, -, hlayout⟩ := parseTokens_respelled
  have htight : lexSource "int x=1;" "f" = .ok (tight ++ [.eof 8]) := by with_unfolding_all rfl
  have hspread : lexSource "int x\n  = 01 ;" "g" = .ok (spread ++ [.eof 14]) := by with_unfolding_all rfl
  have hleaf : Derives .operand [⟨.integer 1, 7⟩] [.var (.ofToken ⟨.integer 1, 7⟩)] := .leaf ⟨rfl, fun mark _ => rfl⟩
  have hequals : Token.isMark ⟨.character '=', 5⟩ '=' = true := rfl
  have hsemi : Token.isMark ⟨.character ';', 7⟩ ';' = true := rfl
  have hstatement : Derives .statement tight [declared "x" "int" 5 ⟨.integer 1, 7⟩] :=
    .declaration rfl rfl hequals (hleaf.oneOperand nofun) (by simp) hsemi
  have hlast : (Token.eof 8).isEof = true := rfl
  have hparse : parseTokens (tight ++ [.eof 8]) = .ok [declared "x" "int" 5 ⟨.integer 1, 7⟩] :=
    hstatement.oneStatement.parseTokens_eq hlast
  have hbare : parseTokens (bare ++ [.eof 3]) =
      .error (.grammatical (.unexpected "'=', '(' or an identifier" ⟨.integer 1, 3⟩)) := by
    rw [parseTokens_append_eof _ rfl, Slice.parse, Slice.program_of_cut_error rfl rfl]
    rfl
  have herased : ((parseSource "int x=1;" "f").map Node.erasedAll).mapError Respelling.unplaced.failure =
      .ok [declared "x" "int" 0 ⟨.integer 1, 0⟩] := by
    rw [parseSource_of_ok htight, hparse]
    rfl
  refine ⟨htight, hspread, herased, ?_, hparse, ?_, hbare, ?_⟩
  · rw [← hlayout _ _ _ _ _ _ htight hspread rfl, herased]
  · rw [hrespelled, hparse]
    rfl
  · rw [hrespelled, hbare]
    rfl

end TinyScript
