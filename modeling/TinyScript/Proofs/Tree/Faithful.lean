import TinyScript.Proofs.Tree.Shown

/-!
# An outline tells its tree

The outline of a legible tree tells everything of the tree but the places of its tokens: two sources with one outline have
one tree, these places aside (`erasedAll_eq_of_outlineText_eq`).

An outline is read from the left. The first word of a line is the kind of its node (`Node.kind_eq_of_heading`), the rest of
the line what the node holds besides other nodes, and the nodes below it are the lines that are further indented
(`Node.pages_inj`). A node is told by its page if that holds in front of everything that is not further indented
(`Node.Told`), which every legible node is (`Node.Legible.told`).
-/

namespace TinyScript

namespace Node

/-! ## Pages -/

/-- The blanks that a line at a level starts with. -/
def indent (depth : Nat) : List Char := List.replicate (2 * depth) ' '

/-- Lines one after the other, each of them ended. -/
def spread (lines : List String) : List Char := lines.flatMap fun text => text.toList ++ ['\n']

/-- The ended lines of a node. -/
def page (depth : Nat) (node : Node) : List Char := spread (outline depth node)

/-- The ended lines of nodes. -/
def pages (depth : Nat) (nodes : List Node) : List Char := spread (outlineAll depth nodes)

/-- The first line of a node. -/
def heading : Node → String
  | .var v => v.label
  | .parameters _ => "Parameters"
  | .conditional _ _ => "Conditional"
  | .invocation name _ => "Invocation " ++ name
  | .assign target _ firstTime type => assignLabel target firstTime type
  | .function name returnType _ _ => "Function " ++ returnType ++ " " ++ name

/-- A line that names a role, and the nodes in it. -/
def role (depth : Nat) (name : String) (nodes : List Node) : List Char :=
  indent depth ++ (name.toList ++ '\n' :: pages (depth + 1) nodes)

/-- The lines of a node below its first. -/
def inner (depth : Nat) : Node → List Char
  | .var _ => []
  | .parameters items => pages (depth + 1) items
  | .conditional condition body => role (depth + 1) "condition:" condition ++ role (depth + 1) "body:" body
  | .invocation _ arguments => pages (depth + 1) arguments
  | .assign _ value _ _ => pages (depth + 1) value
  | .function _ _ params body => role (depth + 1) "Parameters" params ++ role (depth + 1) "body:" body

/-- The text ends or goes on with a line that is less indented. -/
def Ends (depth : Nat) (rest : List Char) : Prop := rest = [] ∨ ∀ more, rest ≠ indent depth ++ more

@[simp] theorem spread_nil : spread [] = [] := rfl

@[simp] theorem spread_cons (text : String) (lines : List String) :
    spread (text :: lines) = text.toList ++ '\n' :: spread lines := by
  simp [spread]

@[simp] theorem spread_append (front back : List String) : spread (front ++ back) = spread front ++ spread back := by
  simp [spread]

@[simp] theorem toList_line (depth : Nat) (text : String) : (line depth text).toList = indent depth ++ text.toList := by
  simp [line, indent]

/-- The pages of nodes are theirs in order. -/
theorem pages_cons (depth : Nat) (node : Node) (nodes : List Node) :
    pages depth (node :: nodes) = page depth node ++ pages depth nodes := by
  unfold pages page
  rw [outlineAll, spread_append]

/-- A page is the first line and the lines below it. -/
theorem page_eq (depth : Nat) (node : Node) :
    page depth node = indent depth ++ (node.heading.toList ++ '\n' :: node.inner depth) := by
  cases node <;> simp [page, outline, heading, inner, role, pages]

/-- The blanks and line ends between words are no parts of words. -/
theorem isWordPart_gap : Reading.isWordPart ' ' = false ∧ Reading.isWordPart '\n' = false := by decide

/-- The line of a variable starts with the keyword. -/
theorem exists_label (v : Var) : ∃ tail, v.label.toList = "Var".toList ++ tail := by
  unfold Var.label
  split
  next type _ => exact ⟨' ' :: (type ++ " " ++ v.name).toList, by simp⟩
  next token _ _ =>
    split
    · exact ⟨' ' :: (token.kind.word ++ " " ++ token.lexeme).toList, by simp⟩
    · exact ⟨' ' :: v.name.toList, by simp⟩
  next => exact ⟨' ' :: v.name.toList, by simp⟩

/-- The first line of a node starts with its kind. -/
theorem exists_heading (node : Node) : ∃ tail, node.heading.toList = node.kind.name.toList ++ tail := by
  cases node with
  | var v => exact exists_label v
  | parameters _ => exact ⟨[], (List.append_nil _).symm⟩
  | conditional _ _ => exact ⟨[], (List.append_nil _).symm⟩
  | invocation name _ => exact ⟨' ' :: name.toList, by simp [heading, kind, NodeKind.name]⟩
  | assign target _ firstTime type =>
    cases firstTime with
    | false => exact ⟨' ' :: target.name.toList, by simp [heading, assignLabel, kind, NodeKind.name]⟩
    | true =>
      exact ⟨' ' :: (type.getD "None" ++ " " ++ target.name ++ " (declaration)").toList,
        by simp [heading, assignLabel, kind, NodeKind.name]⟩
  | function name returnType _ _ =>
    exact ⟨' ' :: (returnType ++ " " ++ name).toList, by simp [heading, kind, NodeKind.name]⟩

/-- The name of a kind of node starts with a letter. -/
theorem exists_letter (kind : NodeKind) :
    ∃ letter tail, kind.name.toList = letter :: tail ∧ Reading.isWordPart letter = true := by
  cases kind
  case conditional => exact ⟨'C', _, rfl, by decide⟩
  case invocation => exact ⟨'I', _, rfl, by decide⟩
  case assign => exact ⟨'A', _, rfl, by decide⟩
  case var => exact ⟨'V', _, rfl, by decide⟩
  case parameters => exact ⟨'P', _, rfl, by decide⟩
  case function => exact ⟨'F', _, rfl, by decide⟩

/-- Nodes whose first lines start alike are of one kind. -/
theorem kind_eq_of_heading {node node' : Node} {rest rest' : List Char}
    (h : node.heading.toList ++ rest = node'.heading.toList ++ rest') : node.kind = node'.kind := by
  have hletter : ∀ kind kind' : NodeKind, kind.name.toList.head? = kind'.name.toList.head? → kind = kind' := by
    intro kind kind'
    cases kind <;> cases kind' <;> decide
  obtain ⟨tail, htail⟩ := node.exists_heading
  obtain ⟨tail', htail'⟩ := node'.exists_heading
  obtain ⟨letter, more, hname, _⟩ := exists_letter node.kind
  obtain ⟨letter', more', hname', _⟩ := exists_letter node'.kind
  apply hletter
  rw [htail, htail', hname, hname'] at h
  rw [hname, hname', List.head?_cons, List.head?_cons, (List.cons.inj h).1]

/-! ## Where nodes end -/

/-- A further level is two blanks more. -/
theorem indent_succ (depth : Nat) : indent (depth + 1) = indent depth ++ [' ', ' '] :=
  List.replicate_append_replicate.symm

/-- A text that ends at a level ends at the levels below it. -/
theorem Ends.succ {depth : Nat} {rest : List Char} (h : Ends depth rest) : Ends (depth + 1) rest := by
  rcases h with rfl | h
  · exact Or.inl rfl
  · refine Or.inr fun more heq => h (' ' :: ' ' :: more) ?_
    rw [heq, indent_succ, List.append_assoc]
    rfl

/-- A line at a level ends the level below it. -/
theorem ends_of_line {depth : Nat} {letter : Char} {more : List Char} (h : Reading.isWordPart letter = true) :
    Ends (depth + 1) (indent depth ++ letter :: more) := by
  refine Or.inr fun after heq => ?_
  rw [indent_succ, List.append_assoc] at heq
  rw [(List.cons.inj (List.append_cancel_left heq)).1, isWordPart_gap.1] at h
  cases h

/-- A page starts with a line at its level. -/
theorem exists_line (depth : Nat) (node : Node) (rest : List Char) :
    ∃ letter more, page depth node ++ rest = indent depth ++ letter :: more ∧ Reading.isWordPart letter = true := by
  obtain ⟨tail, htail⟩ := node.exists_heading
  obtain ⟨letter, more, hname, hletter⟩ := exists_letter node.kind
  refine ⟨letter, more ++ (tail ++ '\n' :: (node.inner depth ++ rest)), ?_, hletter⟩
  rw [page_eq, htail, hname]
  simp only [List.append_assoc, List.cons_append]

/-- Pages end the level below them. -/
theorem ends_pages {depth : Nat} (nodes : List Node) {rest : List Char} (h : Ends depth rest) :
    Ends (depth + 1) (pages depth nodes ++ rest) := by
  cases nodes with
  | nil => exact h.succ
  | cons node nodes =>
    obtain ⟨letter, more, hline, hletter⟩ := exists_line depth node (pages depth nodes ++ rest)
    rw [pages_cons, List.append_assoc, hline]
    exact ends_of_line hletter

/-- The pages of no nodes are told from those of some by where they end. -/
theorem not_ends_page {depth : Nat} (node : Node) (rest : List Char) : ¬ Ends depth (page depth node ++ rest) := by
  obtain ⟨letter, more, hline, hletter⟩ := exists_line depth node rest
  rw [hline]
  rintro (hnil | hends)
  · simp at hnil
  · exact hends _ rfl

/-! ## Nodes told by their pages -/

/-- Among the nodes of a sort a node is told by its page, its places aside. -/
def Told (sort : Node → Prop) (node : Node) : Prop :=
  ∀ depth node' rest rest', sort node' → Ends (depth + 1) rest → Ends (depth + 1) rest' →
    page depth node ++ rest = page depth node' ++ rest' → node.erased = node'.erased ∧ rest = rest'

/-- Nodes that are told by their pages are told by them in sequence. -/
theorem pages_inj {sort : Node → Prop} {nodes nodes' : List Node} {depth : Nat} {rest rest' : List Char}
    (hnodes : ∀ node ∈ nodes, Told sort node) (hnodes' : ∀ node ∈ nodes', sort node)
    (hrest : Ends depth rest) (hrest' : Ends depth rest')
    (heq : pages depth nodes ++ rest = pages depth nodes' ++ rest') : erasedAll nodes = erasedAll nodes' ∧ rest = rest' := by
  induction nodes generalizing nodes' with
  | nil =>
    cases nodes' with
    | nil => exact ⟨rfl, heq⟩
    | cons node' nodes' =>
      rw [pages_cons, List.append_assoc] at heq
      have hrestEq : rest = page depth node' ++ (pages depth nodes' ++ rest') := heq
      rw [hrestEq] at hrest
      exact absurd hrest (not_ends_page _ _)
  | cons node nodes ih =>
    cases nodes' with
    | nil =>
      rw [pages_cons, List.append_assoc] at heq
      have hrestEq : page depth node ++ (pages depth nodes ++ rest) = rest' := heq
      rw [← hrestEq] at hrest'
      exact absurd hrest' (not_ends_page _ _)
    | cons node' nodes' =>
      rw [pages_cons, pages_cons, List.append_assoc, List.append_assoc] at heq
      obtain ⟨hfirst, hmore⟩ := hnodes node List.mem_cons_self depth node' _ _ (hnodes' node' List.mem_cons_self)
        (ends_pages nodes hrest) (ends_pages nodes' hrest') heq
      obtain ⟨hall, hend⟩ := ih (fun n hn => hnodes n (List.mem_cons_of_mem _ hn))
        (fun n hn => hnodes' n (List.mem_cons_of_mem _ hn)) hmore
      rw [erasedAll, erasedAll, hfirst, hall]
      exact ⟨rfl, hend⟩

/-- Nodes in a role are told if they are told in sequence. -/
theorem role_inj {sort : Node → Prop} {nodes nodes' : List Node} {depth : Nat} {name : String} {rest rest' : List Char}
    (hnodes : ∀ node ∈ nodes, Told sort node) (hnodes' : ∀ node ∈ nodes', sort node)
    (hrest : Ends (depth + 1) rest) (hrest' : Ends (depth + 1) rest')
    (heq : role depth name nodes ++ rest = role depth name nodes' ++ rest') :
    erasedAll nodes = erasedAll nodes' ∧ rest = rest' := by
  unfold role at heq
  simp only [List.append_assoc, List.cons_append] at heq
  have hpages := (List.cons.inj (List.append_cancel_left (List.append_cancel_left heq))).2
  exact pages_inj hnodes hnodes' hrest hrest' hpages

/-- The line that names a body ends the level below it. -/
theorem ends_body (depth : Nat) (nodes : List Node) (rest : List Char) :
    Ends (depth + 1) (role depth "body:" nodes ++ rest) := by
  have hname : "body:".toList = 'b' :: "ody:".toList := rfl
  unfold role
  rw [hname, List.append_assoc]
  exact ends_of_line (by decide)

/-- Nodes of one page start with one line, and the lines below it are the same. -/
theorem heading_of_page {depth : Nat} {node node' : Node} {rest rest' : List Char}
    (h : page depth node ++ rest = page depth node' ++ rest') :
    node.heading.toList ++ '\n' :: (node.inner depth ++ rest) =
      node'.heading.toList ++ '\n' :: (node'.inner depth ++ rest') := by
  simp only [page_eq, List.append_assoc, List.cons_append] at h
  exact List.append_cancel_left h

/-- All trees are legible exactly when each is. -/
theorem legibleAll_iff {nodes : List Node} : LegibleAll nodes ↔ ∀ node ∈ nodes, Legible node := by
  induction nodes with
  | nil => simp [LegibleAll]
  | cons node nodes ih => simp [LegibleAll, ih]

/-- Two words that end their lines at one place are the same. -/
theorem word_line_inj {name name' : String} {rest rest' : List Char} (h : IsWord name) (h' : IsWord name')
    (heq : name.toList ++ '\n' :: rest = name'.toList ++ '\n' :: rest') : name = name' ∧ rest = rest' := by
  obtain ⟨hsame, _, hrest⟩ := word_append_inj h h' isWordPart_gap.2 isWordPart_gap.2 heq
  exact ⟨String.toList_inj.mp hsame, hrest⟩

/-- Two words before a blank that end at one place are the same. -/
theorem word_blank_inj {name name' : String} {rest rest' : List Char} (h : IsWord name) (h' : IsWord name')
    (heq : name.toList ++ ' ' :: rest = name'.toList ++ ' ' :: rest') : name = name' ∧ rest = rest' := by
  obtain ⟨hsame, _, hrest⟩ := word_append_inj h h' isWordPart_gap.1 isWordPart_gap.1 heq
  exact ⟨String.toList_inj.mp hsame, hrest⟩

/-- A parameter is told among parameters. -/
theorem told_declared {node : Node} (h : Declared node) : Told Declared node := by
  intro depth node' rest rest' h' _ _ heq
  obtain ⟨t, name, type, ht, hname, htype, rfl⟩ := h
  obtain ⟨t', name', type', ht', hname', htype', rfl⟩ := h'
  have hline := heading_of_page heq
  have hlabel : ∀ (t : Token) (name type : String) (rest : List Char),
      (heading (.var { name, token := some t, type := some type })).toList ++ '\n' :: rest =
        "Var ".toList ++ (type.toList ++ ' ' :: (name.toList ++ '\n' :: rest)) := by
    intro t name type rest
    simp [heading, Var.label]
  rw [hlabel, hlabel] at hline
  obtain ⟨rfl, hline⟩ := word_blank_inj htype htype' (List.append_cancel_left hline)
  obtain ⟨rfl, hrest⟩ := word_line_inj hname hname' hline
  refine ⟨?_, hrest⟩
  simp only [erased, Var.erased, Option.map_some, ht, ht']

/-- An operand is told among legible trees. -/
theorem told_var {v : Var} (h : Legible (.var v)) : Told Legible (.var v) := by
  intro depth node' rest rest' h' _ _ heq
  have hline := heading_of_page heq
  have hkind := kind_eq_of_heading hline
  cases node' with
  | var v' =>
    obtain ⟨t, ht, rfl⟩ := h
    obtain ⟨t', ht', rfl⟩ := h'
    simp only [heading, label_ofToken, List.append_assoc] at hline
    obtain ⟨hvalue, hrest⟩ := ht.eq_of_shown ht' (List.append_cancel_left hline)
    refine ⟨?_, hrest⟩
    simp only [erased, Var.erased, Var.ofToken, Option.map_some, Token.lexeme, hvalue]
  | _ => cases hkind

/-- A group of nodes that are told is told. -/
theorem told_parameters {items : List Node} (h : ∀ node ∈ items, Told Legible node) : Told Legible (.parameters items) := by
  intro depth node' rest rest' h' hrest hrest' heq
  have hline := heading_of_page heq
  have hkind := kind_eq_of_heading hline
  cases node' with
  | parameters items' =>
    have hpages := (List.cons.inj (List.append_cancel_left hline)).2
    obtain ⟨hitems, hend⟩ := pages_inj h (legibleAll_iff.mp h') hrest hrest' hpages
    exact ⟨by rw [erased, erased, hitems], hend⟩
  | _ => cases hkind

/-- A conditional whose parts are told is told. -/
theorem told_conditional {condition body : List Node} (hcondition : ∀ node ∈ condition, Told Legible node)
    (hbody : ∀ node ∈ body, Told Legible node) : Told Legible (.conditional condition body) := by
  intro depth node' rest rest' h' hrest hrest' heq
  have hline := heading_of_page heq
  have hkind := kind_eq_of_heading hline
  cases node' with
  | conditional condition' body' =>
    have hroles := (List.cons.inj (List.append_cancel_left hline)).2
    simp only [inner, List.append_assoc] at hroles
    obtain ⟨hcond, hlast⟩ := role_inj hcondition (legibleAll_iff.mp h'.1) (ends_body _ _ _) (ends_body _ _ _) hroles
    obtain ⟨hbod, hend⟩ := role_inj hbody (legibleAll_iff.mp h'.2) hrest.succ hrest'.succ hlast
    exact ⟨by rw [erased, erased, hcond, hbod], hend⟩
  | _ => cases hkind

/-- A call of nodes that are told is told. -/
theorem told_invocation {name : String} {arguments : List Node} (hname : IsWord name)
    (h : ∀ node ∈ arguments, Told Legible node) : Told Legible (.invocation name arguments) := by
  intro depth node' rest rest' h' hrest hrest' heq
  have hline := heading_of_page heq
  have hkind := kind_eq_of_heading hline
  cases node' with
  | invocation name' arguments' =>
    simp only [heading, String.toList_append, List.append_assoc] at hline
    obtain ⟨rfl, hpages⟩ := word_line_inj hname h'.1 (List.append_cancel_left hline)
    obtain ⟨harguments, hend⟩ := pages_inj h (legibleAll_iff.mp h'.2) hrest hrest' hpages
    exact ⟨by rw [erased, erased, harguments], hend⟩
  | _ => cases hkind

/-- A variable that is assigned to is told by its name. -/
theorem erased_assigned {v v' : Var} (h : Assigned v) (h' : Assigned v') (hname : v.name = v'.name) :
    v.erased = v'.erased := by
  obtain ⟨t, name, ht, _, rfl⟩ := h
  obtain ⟨t', name', ht', _, rfl⟩ := h'
  obtain rfl : name = name' := hname
  simp only [Var.erased, Option.map_some, ht, ht']

/-- The line of an assignment that declares its variable. -/
theorem assignLabel_some (target : Var) (type : String) : assignLabel target (some type).isSome (some type) =
    "Assign " ++ type ++ " " ++ target.name ++ " (declaration)" := rfl

/-- The line of an assignment to a variable that has been declared. -/
theorem assignLabel_none (target : Var) : assignLabel target (none : Option String).isSome none = "Assign " ++ target.name := rfl

/-- The first lines of two assignments tell what they assign to, if the first ones are those with a type. -/
theorem assignLabel_inj {target target' : Var} {type type' : Option String} {rest rest' : List Char}
    (h : Assigned target) (h' : Assigned target') (htype : ∀ word ∈ type, IsWord word) (htype' : ∀ word ∈ type', IsWord word)
    (heq : (assignLabel target type.isSome type).toList ++ '\n' :: rest =
      (assignLabel target' type'.isSome type').toList ++ '\n' :: rest') :
    target.name = target'.name ∧ type = type' ∧ rest = rest' := by
  have hword : ∀ {v : Var}, Assigned v → IsWord v.name := by
    rintro v ⟨t, name, _, hname, rfl⟩
    exact hname
  cases type with
  | none =>
    cases type' with
    | none =>
      simp only [assignLabel_none, String.toList_append, List.append_assoc] at heq
      obtain ⟨hname, hrest⟩ := word_line_inj (hword h) (hword h') (List.append_cancel_left heq)
      exact ⟨hname, rfl, hrest⟩
    | some type' =>
      simp only [assignLabel_some, assignLabel_none, String.toList_append, List.append_assoc] at heq
      obtain ⟨_, hgap, _⟩ := word_append_inj (hword h) (htype' type' rfl) isWordPart_gap.2 isWordPart_gap.1
        (List.append_cancel_left heq)
      exact absurd hgap (by decide)
  | some type =>
    cases type' with
    | none =>
      simp only [assignLabel_some, assignLabel_none, String.toList_append, List.append_assoc] at heq
      obtain ⟨_, hgap, _⟩ := word_append_inj (htype type rfl) (hword h') isWordPart_gap.1 isWordPart_gap.2
        (List.append_cancel_left heq)
      exact absurd hgap (by decide)
    | some type' =>
      simp only [assignLabel_some, String.toList_append, List.append_assoc] at heq
      obtain ⟨rfl, htarget⟩ := word_blank_inj (htype type rfl) (htype' type' rfl) (List.append_cancel_left heq)
      obtain ⟨hname, hend⟩ := word_blank_inj (hword h) (hword h') htarget
      exact ⟨hname, rfl, (List.cons.inj (List.append_cancel_left hend)).2⟩

/-- An assignment of nodes that are told is told. -/
theorem told_assign {target : Var} {value : List Node} {firstTime : Bool} {type : Option String} (htarget : Assigned target)
    (hvalue : ∀ node ∈ value, Told Legible node) (hfirst : firstTime = type.isSome) (htype : ∀ word ∈ type, IsWord word) :
    Told Legible (.assign target value firstTime type) := by
  subst hfirst
  intro depth node' rest rest' h' hrest hrest' heq
  have hline := heading_of_page heq
  have hkind := kind_eq_of_heading hline
  cases node' with
  | assign target' value' firstTime' type' =>
    obtain ⟨htarget', hvalue', rfl, htype'⟩ := h'
    obtain ⟨hname, rfl, hpages⟩ := assignLabel_inj htarget htarget' htype htype' hline
    obtain ⟨hvalues, hend⟩ := pages_inj hvalue (legibleAll_iff.mp hvalue') hrest hrest' hpages
    exact ⟨by rw [erased, erased, hvalues, erased_assigned htarget htarget' hname], hend⟩
  | _ => cases hkind

/-- A function whose body is told is told. -/
theorem told_function {name returnType : String} {params body : List Node} (hname : IsWord name)
    (hreturn : IsWord returnType) (hparams : ∀ node ∈ params, Declared node) (hbody : ∀ node ∈ body, Told Legible node) :
    Told Legible (.function name returnType params body) := by
  intro depth node' rest rest' h' hrest hrest' heq
  have hline := heading_of_page heq
  have hkind := kind_eq_of_heading hline
  cases node' with
  | function name' returnType' params' body' =>
    obtain ⟨hname', hreturn', hparams', hbody'⟩ := h'
    simp only [heading, String.toList_append, List.append_assoc] at hline
    obtain ⟨rfl, hline⟩ := word_blank_inj hreturn hreturn' (List.append_cancel_left hline)
    obtain ⟨rfl, hroles⟩ := word_line_inj hname hname' hline
    simp only [inner, List.append_assoc] at hroles
    obtain ⟨hps, hlast⟩ := role_inj (fun node hnode => told_declared (hparams node hnode)) hparams' (ends_body _ _ _)
      (ends_body _ _ _) hroles
    obtain ⟨hbod, hend⟩ := role_inj hbody (legibleAll_iff.mp hbody') hrest.succ hrest'.succ hlast
    exact ⟨by rw [erased, erased, hps, hbod], hend⟩
  | _ => cases hkind

mutual

/-- Every legible tree is told. -/
theorem Legible.told : ∀ {node : Node}, Legible node → Told Legible node
  | .var _, h => told_var h
  | .parameters _, h => told_parameters (LegibleAll.told h)
  | .conditional _ _, h => told_conditional (LegibleAll.told h.1) (LegibleAll.told h.2)
  | .invocation _ _, h => told_invocation h.1 (LegibleAll.told h.2)
  | .assign _ _ _ _, h => told_assign h.1 (LegibleAll.told h.2.1) h.2.2.1 h.2.2.2
  | .function _ _ _ _, h => told_function h.1 h.2.1 h.2.2.1 (LegibleAll.told h.2.2.2)

/-- All legible trees are told. -/
theorem LegibleAll.told : ∀ {nodes : List Node}, LegibleAll nodes → ∀ node ∈ nodes, Told Legible node
  | [], _ => List.forall_mem_nil _
  | _ :: _, h => List.forall_mem_cons.mpr ⟨Legible.told h.1, LegibleAll.told h.2⟩

end

/-! ## Outlines -/

/-- The lines of an outline, each of them ended, are its text and the end of the last line. -/
theorem spread_eq {lines : List String} (h : lines ≠ []) : spread lines = ("\n".intercalate lines).toList ++ ['\n'] := by
  induction lines with
  | nil => exact absurd rfl h
  | cons text lines ih =>
    rw [spread_cons]
    cases lines with
    | nil => simp
    | cons next lines =>
      rw [ih (List.cons_ne_nil _ _), String.intercalate_cons_cons]
      simp

/-- The pages of a program that has nodes are its outline and the end of the last line. -/
theorem pages_eq_outlineText {nodes : List Node} (h : nodes ≠ []) :
    pages 0 nodes = (outlineText nodes).toList ++ ['\n'] := by
  apply spread_eq
  cases nodes with
  | nil => exact absurd rfl h
  | cons node nodes => cases node <;> simp [outlineAll, outline]

/-- Only a program without nodes has an empty outline. -/
theorem outlineText_ne_empty {nodes : List Node} (h : nodes ≠ []) : outlineText nodes ≠ "" := by
  intro hempty
  have hpages := pages_eq_outlineText h
  cases nodes with
  | nil => exact h rfl
  | cons node nodes =>
    obtain ⟨letter, more, hline, hletter⟩ := exists_line 0 node (pages 0 nodes)
    rw [pages_cons, hline, hempty] at hpages
    rw [(List.cons.inj hpages).1, isWordPart_gap.2] at hletter
    cases hletter

/-- Programs of one outline have the same pages. -/
theorem pages_eq_of_outlineText {nodes nodes' : List Node} (h : outlineText nodes = outlineText nodes') :
    pages 0 nodes = pages 0 nodes' := by
  have hnone : outlineText [] = "" := String.intercalate_nil
  by_cases hnodes : nodes = []
  · by_cases hnodes' : nodes' = []
    · rw [hnodes, hnodes']
    · rw [hnodes, hnone] at h
      exact absurd h.symm (outlineText_ne_empty hnodes')
  · by_cases hnodes' : nodes' = []
    · rw [hnodes', hnone] at h
      exact absurd h (outlineText_ne_empty hnodes)
    · rw [pages_eq_outlineText hnodes, pages_eq_outlineText hnodes', h]

end Node

/-- Two sources of one outline have one tree, the places of its tokens aside. -/
theorem erasedAll_eq_of_outlineText_eq {source source' filename filename' : String} {nodes nodes' : List Node}
    (h : parseSource source filename = .ok nodes) (h' : parseSource source' filename' = .ok nodes')
    (houtline : outlineText nodes = outlineText nodes') : Node.erasedAll nodes = Node.erasedAll nodes' := by
  have hlegible := legibleAll_of_parseSource h
  have hlegible' := legibleAll_of_parseSource h'
  have hpages : Node.pages 0 nodes ++ [] = Node.pages 0 nodes' ++ [] := by
    rw [Node.pages_eq_of_outlineText houtline]
  exact (Node.pages_inj (Node.LegibleAll.told hlegible) (Node.legibleAll_iff.mp hlegible') (Or.inl rfl) (Or.inl rfl) hpages).1

/-- The tree of a call whose string goes on like a line of an outline, its string at a place. -/
def deceptiveCall (position : Int) : List Node :=
  [.invocation "f" [.var (.ofToken ⟨.string "\n  Var b", position⟩)]]

/-- Two spacings of one call have one outline. -/
theorem erasedAll_deceptiveCall :
    parseSource "f(\"\n  Var b\");" "<string>" = .ok (deceptiveCall 11) ∧
      parseSource "f( \"\n  Var b\" );" "<string>" = .ok (deceptiveCall 12) ∧
      outlineText (deceptiveCall 11) = outlineText (deceptiveCall 12) ∧
      Node.erasedAll (deceptiveCall 11) = Node.erasedAll (deceptiveCall 12) := by
  have hparse : ∀ {source : String} {position closing semicolon final : Int},
      lex source "<string>" = .ok ([⟨.identifier "f", 1⟩, ⟨.character '(', 1⟩, ⟨.string "\n  Var b", position⟩,
        ⟨.character ')', closing⟩, ⟨.character ';', semicolon⟩] ++ [.eof final]) →
      parseSource source "<string>" = .ok (deceptiveCall position) := by
    intro source position closing semicolon final hlex
    have hunbroken : Slice.Unbroken ⟨[⟨.identifier "f", 1⟩, ⟨.character '(', 1⟩, ⟨.string "\n  Var b", position⟩,
        ⟨.character ')', closing⟩, ⟨.character ';', semicolon⟩], final⟩ := by
      simp [Slice.Unbroken, Token.isEof]
    have hleaf : Derives .operand [⟨.string "\n  Var b", position⟩] [.var (.ofToken ⟨.string "\n  Var b", position⟩)] :=
      .leaf ⟨rfl, fun mark _ => rfl⟩
    have hapart : ¬ Meet [⟨.string "\n  Var b", position⟩] [] := by
      rintro ⟨f, o, rest, _, _, hback, _⟩
      cases hback
    have hbare : ¬ BareComma [⟨.string "\n  Var b", position⟩] := by
      rintro ⟨t, ht, hcomma⟩
      cases ht
      cases hcomma
    have harguments := Derives.oneArgument (.moreOperands hleaf hapart (fun _ => hbare) .noOperands) (by simp)
    have hcall := Derives.callStatement (f := ⟨.identifier "f", 1⟩) (o := ⟨.character '(', 1⟩)
      (c := ⟨.character ')', closing⟩) rfl (by decide) ⟨rfl, rfl⟩ harguments
      (show (⟨.character ';', semicolon⟩ : Token).isMark ';' = true from rfl)
    exact (parseSource_eq_ok_iff hlex hunbroken).mpr (.moreStatements hcall .noStatements)
  -- The gap stands on both sides of the string.
  have hfactors : ∀ {gap : List Char}, AllBlank gap →
      Factors [⟨[], ['f'], .identifier "f"⟩, ⟨[], ['('], .character '('⟩,
        ⟨gap, '"' :: ("\n  Var b".toList ++ ['"']), .string (String.ofList "\n  Var b".toList)⟩, ⟨gap, [')'], .character ')'⟩,
        ⟨[], [';'], .character ';'⟩] ('f' :: '(' :: (gap ++ ('"' :: ("\n  Var b".toList ++ ['"']) ++ (gap ++ [')', ';'])))) [] := by
    intro gap hgap
    have hnone : AllBlank [] := by decide
    have hname : ∀ {rest : List Char}, Lexeme ['f'] ('(' :: rest) (.identifier "f") := by
      intro rest
      refine .identifier ⟨'f', rfl, rfl⟩ ⟨List.all_eq_true.mp rfl, fun c hc => ?_⟩ (by decide)
      cases hc
      rfl
    have hstring : ∀ {rest : List Char},
        Lexeme ('"' :: ("\n  Var b".toList ++ ['"'])) rest (.string (String.ofList "\n  Var b".toList)) := by
      intro rest
      refine .string (fun front back heq => ?_) (by decide)
      have hmem : '"' ∈ "\n  Var b".toList := heq ▸ List.mem_append_right front List.mem_cons_self
      exact absurd hmem (by decide)
    have hmark : ∀ {mark : Char} {rest : List Char}, mark ∈ ['(', ')', ';'] → Lexeme [mark] rest (.character mark) := by
      intro mark rest hmem
      simp only [List.mem_cons, List.not_mem_nil, or_false] at hmem
      rcases hmem with rfl | rfl | rfl <;> exact .character rfl rfl rfl (by decide)
    exact .cons hnone hname (.cons hnone (hmark (by simp)) (.cons hgap hstring (.cons hgap (hmark (by simp))
      (.cons hnone (hmark (by simp)) .nil))))
  have hlexClose : lex "f(\"\n  Var b\");" "<string>" = .ok _ :=
    lex_of_factors (hfactors (show AllBlank [] by decide)) (show AllBlank [] by decide)
      (withinDigitLimit_of_length_le (by decide)) "<string>"
  have hlexSpaced : lex "f( \"\n  Var b\" );" "<string>" = .ok _ :=
    lex_of_factors (hfactors (show AllBlank [' '] by decide)) (show AllBlank [] by decide)
      (withinDigitLimit_of_length_le (by decide)) "<string>"
  have hclose : parseSource "f(\"\n  Var b\");" "<string>" = .ok (deceptiveCall 11) := hparse hlexClose
  have hspaced : parseSource "f( \"\n  Var b\" );" "<string>" = .ok (deceptiveCall 12) := hparse hlexSpaced
  have houtline : outlineText (deceptiveCall 11) = outlineText (deceptiveCall 12) := rfl
  exact ⟨hclose, hspaced, houtline, erasedAll_eq_of_outlineText_eq hclose hspaced houtline⟩

end TinyScript
