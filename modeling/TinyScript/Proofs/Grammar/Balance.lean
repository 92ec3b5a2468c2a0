import TinyScript.Proofs.Grammar.Phrase

/-!
# Balanced brackets

Tokens are balanced in a pair of brackets if none of them closes a group that none before it opened, and every group that is
opened is closed (`Balanced`). That is a matter of how many brackets of that pair there are, and not of what is between them:
other brackets may be open there, or close nothing.

What looks for the end of a group counts in the same way, so it passes balanced tokens (`Balanced.level`).
-/

namespace TinyScript

namespace Bracket

/-- How many of the tokens open a group of the pair. -/
def openings (b : Bracket) (tokens : List Token) : Nat := tokens.countP (·.isMark b.opening)

/-- How many of the tokens close a group of the pair. -/
def closings (b : Bracket) (tokens : List Token) : Nat := tokens.countP (·.isMark b.closing)

@[simp] theorem openings_nil (b : Bracket) : b.openings [] = 0 := rfl

@[simp] theorem closings_nil (b : Bracket) : b.closings [] = 0 := rfl

@[simp] theorem openings_cons (b : Bracket) (t : Token) (tokens : List Token) :
    b.openings (t :: tokens) = b.openings tokens + if t.isMark b.opening then 1 else 0 :=
  List.countP_cons

@[simp] theorem closings_cons (b : Bracket) (t : Token) (tokens : List Token) :
    b.closings (t :: tokens) = b.closings tokens + if t.isMark b.closing then 1 else 0 :=
  List.countP_cons

end Bracket

/-- The tokens do not end the input, every prefix of them closes no more groups of the pair than it opens, and all of them
together close as many. -/
structure Balanced (b : Bracket) (tokens : List Token) : Prop where
  not_isEof : ∀ t ∈ tokens, t.isEof = false
  closings_le : ∀ front, front <+: tokens → b.closings front ≤ b.openings front
  closings_eq : b.closings tokens = b.openings tokens

/-- At some depth, what looks for the end of a group passes tokens that close no more than is open, and goes on at the depth
to which they bring it. -/
theorem Rule.spanGroup_append_of_le {b : Bracket} {depth : Nat} {tokens : List Token}
    (heof : ∀ t ∈ tokens, t.isEof = false)
    (hle : ∀ front, front <+: tokens → b.closings front ≤ depth + b.openings front) (rest : List Token) :
    spanGroup b depth (tokens ++ rest) =
      (tokens ++ (spanGroup b (depth + b.openings tokens - b.closings tokens) rest).1,
        (spanGroup b (depth + b.openings tokens - b.closings tokens) rest).2) := by
  induction tokens generalizing depth with
  | nil => rfl
  | cons t tokens ih =>
    obtain ⟨ht, heof⟩ := List.forall_mem_cons.mp heof
    have hlater : ∀ front, front <+: tokens → b.closings (t :: front) ≤ depth + b.openings (t :: front) :=
      fun front hfront => hle _ (List.cons_prefix_cons.mpr ⟨rfl, hfront⟩)
    simp only [Bracket.closings_cons, Bracket.openings_cons] at hlater ⊢
    by_cases hclosing : t.isMark b.closing = true
    · -- The group that the token closes is one of those open here, as the prefix that is this token alone says.
      have hopening : t.isMark b.opening = false := Token.isMark_eq_false hclosing (b.opening_ne_closing b).symm
      simp only [hclosing, hopening, if_true, Bool.false_eq_true, if_false] at hlater ⊢
      obtain _ | depth := depth
      · exact absurd (hlater [] List.nil_prefix) (by simp)
      have hdepth : depth + 1 + (b.openings tokens + 0) - (b.closings tokens + 1) =
          depth + b.openings tokens - b.closings tokens := by omega
      have hopen : ∀ front, front <+: tokens → b.closings front ≤ depth + b.openings front := fun front hfront => by
        have := hlater front hfront
        omega
      simp only [List.cons_append, spanGroup, ht, hclosing, Bool.false_eq_true, if_true, if_false, hdepth, ih heof hopen]
    · simp only [if_neg hclosing] at hlater ⊢
      have hopen : ∀ front, front <+: tokens →
          b.closings front ≤ (if t.isMark b.opening then depth + 1 else depth) + b.openings front := fun front hfront => by
        have := hlater front hfront
        split at this <;> split <;> omega
      have hdepth : (if t.isMark b.opening then depth + 1 else depth) + b.openings tokens - b.closings tokens =
          depth + (b.openings tokens + if t.isMark b.opening then 1 else 0) - (b.closings tokens + 0) := by
        split <;> omega
      simp only [List.cons_append, spanGroup, ht, if_neg hclosing, Bool.false_eq_true, if_false, ih heof hopen, hdepth]

/-- Balanced tokens are level, whatever they are besides. -/
theorem Balanced.level {b : Bracket} {tokens : List Token} (h : Balanced b tokens) : Level b tokens := by
  intro depth rest
  have hopen : ∀ front, front <+: tokens → b.closings front ≤ depth + b.openings front :=
    fun front hfront => Nat.le_trans (h.closings_le front hfront) (Nat.le_add_left _ _)
  have hspan := Rule.spanGroup_append_of_le h.not_isEof hopen rest
  rwa [h.closings_eq, Nat.add_sub_cancel] at hspan

/-- Tokens without brackets of the pair are balanced in it. -/
theorem balanced_of_none {b : Bracket} {tokens : List Token} (heof : ∀ t ∈ tokens, t.isEof = false)
    (hopen : b.openings tokens = 0) (hclose : b.closings tokens = 0) : Balanced b tokens where
  not_isEof := heof
  closings_le front hfront := by
    have hle : b.closings front ≤ b.closings tokens := hfront.sublist.countP_le
    omega
  closings_eq := hclose.trans hopen.symm

end TinyScript
