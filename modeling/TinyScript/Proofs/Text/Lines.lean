import TinyScript.Text.Plain

/-!
# Lines and terminal sequences

A text of lines, a line feed behind each, splits into the lines if none has a line feed of its own, and so tells them
(`ended_injective`). Leaving terminal sequences out of a text leaves the other characters in their order
(`withoutStyle_sublist`), and all of them before the first escape.
-/

namespace TinyScript.Text

/-! ## Terminal sequences -/

/-- What follows a terminal sequence ends the text that the sequence starts. -/
theorem sublist_of_afterStyle? {text after : List Char} (h : afterStyle? text = some after) : after.Sublist text := by
  unfold afterStyle? at h
  split at h
  next rest =>
    split at h
    next c rest' hrest =>
      split at h
      · cases h
        have hsublist := List.dropWhile_sublist isStyleParameter (l := rest)
        rw [hrest] at hsublist
        exact ((List.sublist_cons_self c _).trans hsublist).trans
          ((List.sublist_cons_self _ _).trans (List.sublist_cons_self _ _))
      · cases h
    next => cases h
  next => cases h

/-- Nothing but terminal sequences is left out. -/
theorem withoutStyle_sublist (text : List Char) : (withoutStyle text).Sublist text := by
  fun_induction withoutStyle text with
  | case1 => exact .slnil
  | case2 c rest after hafter ih => exact ih.trans (sublist_of_afterStyle? hafter)
  | case3 c rest hnone ih => exact ih.cons_cons c

/-- A terminal sequence starts with an escape. -/
theorem withoutStyle_cons {c : Char} (h : c ≠ '\x1b') (rest : List Char) :
    withoutStyle (c :: rest) = c :: withoutStyle rest := by
  have hnone : afterStyle? (c :: rest) = none := by
    unfold afterStyle?
    split
    next heq => exact absurd (List.cons.inj heq).1 h
    next => rfl
  rw [withoutStyle]
  split
  next hafter =>
    rw [hnone] at hafter
    cases hafter
  next => rfl

/-- Characters before the first escape are kept. -/
theorem withoutStyle_append {front : List Char} (h : '\x1b' ∉ front) (rest : List Char) :
    withoutStyle (front ++ rest) = front ++ withoutStyle rest := by
  induction front with
  | nil => rfl
  | cons c front ih =>
    have hc : c ≠ '\x1b' := fun heq => h (heq ▸ List.mem_cons_self)
    rw [List.cons_append, withoutStyle_cons hc, ih fun hmem => h (List.mem_cons_of_mem c hmem), List.cons_append]

/-- A text without an escape is kept. -/
theorem withoutStyle_eq_self {text : List Char} (h : '\x1b' ∉ text) : withoutStyle text = text := by
  have hkept := withoutStyle_append h []
  rwa [withoutStyle, List.append_nil] at hkept

/-- A single character is kept, for no terminal sequence is that short. -/
theorem withoutStyle_singleton (c : Char) : withoutStyle [c] = [c] := by
  rw [withoutStyle, withoutStyle]
  split
  next after hafter =>
    exfalso
    unfold afterStyle? at hafter
    split at hafter
    next rest heq => cases heq
    next => cases hafter
  next => rfl

/-! ## Lines -/

/-- Lines as a text, a line feed behind each. -/
def ended (lines : List String) : List Char := lines.flatMap fun line => line.toList ++ ['\n']

/-- Where no line has a line feed of its own, the text splits into the lines. -/
theorem splitOn_ended {lines : List String} (h : ∀ line ∈ lines, '\n' ∉ line.toList) :
    (ended lines).splitOn '\n' = lines.map String.toList ++ [[]] := by
  induction lines with
  | nil => rfl
  | cons line lines ih =>
    obtain ⟨hline, hlines⟩ := List.forall_mem_cons.mp h
    have hnone : ∀ c ∈ line.toList, (c == '\n') = false := by
      intro c hc
      exact beq_eq_false_iff_ne.mpr fun heq => hline (heq ▸ hc)
    have hsplit := ih hlines
    unfold List.splitOn at hsplit ⊢
    rw [ended, List.flatMap_cons, List.append_assoc, List.singleton_append,
      List.splitOnP_append_cons_of_forall_mem hnone '\n' (beq_self_eq_true '\n')]
    exact congrArg (line.toList :: ·) hsplit

/-- Lines without line feeds of their own are told by their text. -/
theorem ended_injective {lines lines' : List String} (h : ∀ line ∈ lines, '\n' ∉ line.toList)
    (h' : ∀ line ∈ lines', '\n' ∉ line.toList) (heq : ended lines = ended lines') : lines = lines' := by
  have hsplit := splitOn_ended h
  rw [heq, splitOn_ended h'] at hsplit
  have hlines := List.append_cancel_right hsplit
  exact ((List.map_inj_right fun _ _ => String.toList_inj.mp).mp hlines).symm

end TinyScript.Text
