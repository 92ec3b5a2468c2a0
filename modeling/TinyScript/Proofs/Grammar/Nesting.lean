import TinyScript.Proofs.Grammar.Phrase

/-!
# Nested brackets

Every phrase has its brackets nested in each other, and the semicolons in it belong to statements (`Derives.nested`). `Nested`
is about all pairs of brackets together, while a search for the end of a group counts one pair only: nested tokens are level
in each pair (`Nested.level`), so that the search passes over phrases (`Derives.level`), and what ends a value is not inside
one (`Derives.endsValue`).

Brackets are nested in one way: what follows nested tokens in nested ones is nested (`Nested.of_append`).
-/

namespace TinyScript

/-- Whether a semicolon may stand inside the brackets, if it may outside. -/
def Bracket.allows (semicolons : Bool) : Bracket → Bool
  | curly => semicolons
  | _ => false

/-- The round, square and curly brackets among the tokens are nested in each other. No semicolon is anywhere inside round or
square brackets; `semicolons` says whether one may be elsewhere. -/
inductive Nested : Bool → List Token → Prop where
  | nil {semicolons : Bool} : Nested semicolons []
  | plain {semicolons : Bool} {t : Token} {rest : List Token} : t.StandsAlone → Nested semicolons rest →
      Nested semicolons (t :: rest)
  | semicolon {t : Token} {rest : List Token} : t.isMark ';' = true → Nested true rest → Nested true (t :: rest)
  | enclosed {semicolons : Bool} {b : Bracket} {o c : Token} {inner rest : List Token} : b ≠ .angle → b.Encloses o c →
      Nested (b.allows semicolons) inner → Nested semicolons rest → Nested semicolons (o :: (inner ++ c :: rest))

namespace Token

/-- A bracket that programs group with does not stand alone. -/
theorem not_standsAlone {t : Token} {b : Bracket} (hb : b ≠ .angle) (ht : t.isMark b.opening = true) : ¬ t.StandsAlone := by
  intro halone
  have hmem : b.opening ∈ reservedMarks := by cases b <;> first | exact absurd rfl hb | decide
  rw [halone.2 _ hmem] at ht
  cases ht

/-- A token that stands alone is no bracket. -/
theorem StandsAlone.level {t : Token} (h : t.StandsAlone) {b : Bracket} (hb : b ≠ .angle) : Level b [t] := by
  refine Level.single h.1 (h.2 _ ?_) (h.2 _ ?_) <;> cases b <;> first | exact absurd rfl hb | decide

theorem StandsAlone.endsValue {t : Token} (h : t.StandsAlone) : Rule.endsValue t = false := by
  simp [Rule.endsValue, h.1, h.2 ';' (by decide)]

/-- A name stands alone. -/
theorem standsAlone_of_name? {t : Token} {name : String} (h : t.name? = some name) : t.StandsAlone :=
  ⟨Rule.not_isEof_of_name? h, fun mark _ => isMark_of_name? h mark⟩

/-- A mark that is not reserved stands alone. -/
theorem standsAlone_of_mark {t : Token} {mark : Char} (h : t.isMark mark = true) (hmark : mark ∉ reservedMarks) :
    t.StandsAlone := by
  refine ⟨not_isEof_of_isMark h, fun m hm => isMark_eq_false h ?_⟩
  rintro rfl
  exact hmark hm

/-- A token opens one pair of brackets at most. -/
theorem bracket_unique {t : Token} {b b' : Bracket} (h : t.isMark b.opening = true) (h' : t.isMark b'.opening = true) :
    b = b' := by
  by_cases hne : b.opening = b'.opening
  · revert hne
    cases b <;> cases b' <;> decide
  · rw [isMark_eq_false h hne] at h'
    cases h'

end Token

namespace Rule

/-- A mark other than the semicolon does not end a value. -/
theorem endsValue_of_mark {t : Token} {mark : Char} (h : t.isMark mark = true) (hne : mark ≠ ';') : endsValue t = false := by
  simp [endsValue, Token.isMark_eq_false h hne, Token.not_isEof_of_isMark h]

end Rule

/-! ## Nested tokens -/

/-- The tokens are inside brackets up to the one that closes them, and what follows it has a property. -/
def ClosedBefore (b : Bracket) (semicolons : Bool) (after : List Token → Prop) (tokens : List Token) : Prop :=
  ∃ inner c rest, tokens = inner ++ c :: rest ∧ c.isMark b.closing = true ∧ Nested semicolons inner ∧ after rest

namespace Nested

variable {semicolons : Bool} {tokens front rest : List Token}

/-- Nested tokens are level in each pair of brackets. -/
theorem level (h : Nested semicolons tokens) {b : Bracket} (hb : b ≠ .angle) : Level b tokens := by
  induction h with
  | nil => exact Level.nil
  | plain ht _ ih => exact (ht.level hb).append ih
  | semicolon ht _ ih =>
    refine (Level.mark ht ?_ ?_).append ih <;> cases b <;> first | exact absurd rfl hb | decide
  | enclosed _ hoc _ _ ih ih' => simpa using (ih.enclosed hoc).append ih'

theorem append (h : Nested semicolons front) (h' : Nested semicolons rest) : Nested semicolons (front ++ rest) := by
  induction h with
  | nil => exact h'
  | plain ht _ ih => exact .plain ht (ih h')
  | semicolon ht _ ih => exact .semicolon ht (ih h')
  | enclosed hb hoc hinner _ _ ih =>
    rw [List.cons_append, List.append_assoc, List.cons_append]
    exact .enclosed hb hoc hinner (ih h')

theorem name {t : Token} {name : String} (ht : t.name? = some name) (h : Nested semicolons tokens) :
    Nested semicolons (t :: tokens) :=
  .plain (Token.standsAlone_of_name? ht) h

theorem mark {t : Token} {mark : Char} (ht : t.isMark mark = true) (hmark : mark ∉ reservedMarks)
    (h : Nested semicolons tokens) : Nested semicolons (t :: tokens) :=
  .plain (Token.standsAlone_of_mark ht hmark) h

/-- Nested tokens in brackets are nested. -/
theorem inBrackets {b : Bracket} {o c : Token} (hb : b ≠ .angle) (hoc : b.Encloses o c)
    (h : Nested (b.allows semicolons) tokens) : Nested semicolons (o :: (tokens ++ [c])) :=
  .enclosed hb hoc h .nil

/-- Where no semicolon is, one may be. -/
theorem relax (h : Nested semicolons tokens) : Nested true tokens := by
  induction h with
  | nil => exact .nil
  | plain ht _ ih => exact .plain ht ih
  | semicolon ht _ ih => exact .semicolon ht ih
  | @enclosed semicolons b o c inner rest hb hoc hinner _ ih ih' =>
    refine .enclosed hb hoc ?_ ih'
    cases b with
    | curly => exact ih
    | round | square | angle => exact hinner

/-- An opening bracket among nested tokens is closed. -/
theorem closed {b : Bracket} {o : Token} (hb : b ≠ .angle) (ho : o.isMark b.opening = true)
    (h : Nested semicolons (o :: tokens)) : ClosedBefore b (b.allows semicolons) (Nested semicolons) tokens := by
  cases h with
  | plain halone => exact absurd halone (Token.not_standsAlone hb ho)
  | semicolon hsemi =>
    rw [Token.isMark_eq_false ho (by cases b <;> decide)] at hsemi
    cases hsemi
  | enclosed _ hoc hinner hrest =>
    obtain rfl := Token.bracket_unique ho hoc.1
    exact ⟨_, _, _, rfl, hoc.2, hinner, hrest⟩

/-- What follows a token that stands alone is nested if both are. -/
theorem of_plain {t : Token} (ht : t.StandsAlone) (h : Nested semicolons (t :: tokens)) : Nested semicolons tokens := by
  cases h with
  | plain _ hrest => exact hrest
  | semicolon _ hrest => exact hrest
  | enclosed hb hoc => exact absurd ht (Token.not_standsAlone hb hoc.1)

theorem of_semicolon {t : Token} (ht : t.isMark ';' = true) (h : Nested semicolons (t :: tokens)) :
    Nested semicolons tokens := by
  cases h with
  | plain _ hrest => exact hrest
  | semicolon _ hrest => exact hrest
  | @enclosed _ b _ _ _ _ _ hoc =>
    have ho := hoc.1
    rw [Token.isMark_eq_false ht (by cases b <;> decide)] at ho
    cases ho

/-- What follows nested tokens is nested if both are. -/
theorem of_append {semicolons' : Bool} (h : Nested semicolons' front) (hall : Nested semicolons (front ++ rest)) :
    Nested semicolons rest := by
  induction h with
  | nil => exact hall
  | plain ht _ ih => exact ih (hall.of_plain ht)
  | semicolon ht _ ih => exact ih (hall.of_semicolon ht)
  | @enclosed _ b o c inner back hb hoc hinner _ _ ih =>
    -- The bracket is closed at the same token for both, as groups of level tokens end at one place.
    have hall : Nested semicolons (o :: (inner ++ c :: (back ++ rest))) := by simpa using hall
    obtain ⟨inner', c', rest', heq, hc', hinner', hrest'⟩ := hall.closed hb hoc.1
    obtain ⟨-, rfl⟩ := Level.group_unique (hinner.level hb) (hinner'.level hb) hoc.2 hc' heq
    exact ih hrest'

/-- No token among nested ones without semicolons ends a value. -/
theorem endsValue (h : Nested semicolons tokens) (hnone : semicolons = false) :
    ∀ t ∈ tokens, Rule.endsValue t = false := by
  have hopen : ∀ b : Bracket, b.opening ≠ ';' ∧ b.closing ≠ ';' := by intro b; cases b <;> decide
  induction h with
  | nil => exact List.forall_mem_nil _
  | plain ht _ ih => exact List.forall_mem_cons.mpr ⟨ht.endsValue, ih hnone⟩
  | semicolon => cases hnone
  | @enclosed _ b o c inner rest _ hoc _ _ ih ih' =>
    subst hnone
    have hinner := ih (by cases b <;> rfl)
    have ho := Rule.endsValue_of_mark hoc.1 (hopen b).1
    have hc := Rule.endsValue_of_mark hoc.2 (hopen b).2
    exact List.forall_mem_cons.mpr ⟨ho, List.forall_mem_append.mpr ⟨hinner, List.forall_mem_cons.mpr ⟨hc, ih' rfl⟩⟩⟩

end Nested

/-- Every phrase is nested, and the semicolons in it belong to statements. -/
theorem Derives.nested {phrase : Phrase} {tokens : List Token} {nodes : List Node} (h : Derives phrase tokens nodes) :
    Nested (!phrase.isInner) tokens := by
  have hround : Bracket.round ≠ .angle := by decide
  have hcurly : Bracket.curly ≠ .angle := by decide
  have hcomma : ',' ∉ reservedMarks := by decide
  have hequals : '=' ∉ reservedMarks := by decide
  induction h with
  | call hf hoc _ ih => exact .name hf (.inBrackets hround hoc ih)
  | round hoc _ ih => exact .inBrackets hround hoc ih
  | square hoc _ ih => exact .inBrackets (by decide) hoc ih
  | leaf ht => exact .plain ht .nil
  | noOperands | noArguments | noParameters | noStatements => exact .nil
  | moreOperands _ _ _ _ ih ih' => exact ih.append ih'
  | oneArgument _ _ ih => exact ih
  | moreArguments _ _ hc _ _ ih ih' => exact ih.append (.mark hc hcomma ih')
  | oneParameter ht hn => exact .name ht (.name hn .nil)
  | moreParameters ht hn hc _ _ ih => exact .name ht (.name hn (.mark hc hcomma ih))
  | conditional hi hoc _ _ hoc' _ ih ih' =>
    exact .name hi (.enclosed hround hoc ih (.inBrackets hcurly hoc' ih'))
  | function ht hn hoc _ hoc' _ ih ih' =>
    exact .name ht (.name hn (.enclosed hround hoc ih (.inBrackets hcurly hoc' ih')))
  | declaration ht hn heq _ _ hsemi ih =>
    have hvalue := ih.relax.append (.semicolon hsemi .nil)
    exact .name ht (.name hn (.mark heq hequals hvalue))
  | reassignment hn heq _ _ hsemi ih =>
    have hvalue := ih.relax.append (.semicolon hsemi .nil)
    exact .name hn (.mark heq hequals hvalue)
  | callStatement hf _ hoc _ hsemi ih => exact .name hf (.enclosed hround hoc ih (.semicolon hsemi .nil))
  | moreStatements _ _ ih ih' => exact ih.append ih'

namespace Derives

variable {phrase : Phrase} {tokens : List Token} {nodes : List Node}

/-- A phrase is level in each pair of brackets. -/
theorem level (h : Derives phrase tokens nodes) {b : Bracket} (hb : b ≠ .angle) : Level b tokens :=
  h.nested.level hb

/-- No token of a phrase inside a statement ends the value of that statement. -/
theorem endsValue (h : Derives phrase tokens nodes) (hin : phrase.isInner = true) :
    ∀ t ∈ tokens, Rule.endsValue t = false :=
  h.nested.endsValue (by rw [hin]; rfl)

/-- No token of a phrase ends the input. -/
theorem not_isEof (h : Derives phrase tokens nodes) : ∀ t ∈ tokens, t.isEof = false :=
  (h.level (b := .round) (by decide)).not_isEof

end Derives

end TinyScript
