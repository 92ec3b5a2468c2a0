/-!
# Similar texts

How alike two texts are: the share of their characters that lies in common blocks, found by taking the longest common block
and going on at both sides of it. `closeMatches` picks the few texts that are alike enough to be what was meant.
-/

namespace TinyScript.Text

/-- The length of the block that two texts both start with. -/
def commonStart : List Char → List Char → Nat
  | a :: as, b :: bs => if a = b then commonStart as bs + 1 else 0
  | _, _ => 0

/-- A block that two texts have in common: its place in each, and its length. -/
structure Block where
  left : Nat
  right : Nat
  length : Nat
deriving DecidableEq, Repr

/-- The longer of two blocks, the first if they are equally long. -/
def Block.longer (x y : Block) : Block := if x.length < y.length then y else x

/-- The longest common block, of several the one that starts first in the first text, and then in the second. -/
def longestBlock (as bs : List Char) : Block :=
  (List.range as.length).foldl (fun best i =>
    (List.range bs.length).foldl (fun best j => best.longer ⟨i, j, commonStart (as.drop i) (bs.drop j)⟩) best) ⟨0, 0, 0⟩

/-- The number of characters of the first text in common blocks. -/
def matchedLength (as bs : List Char) : Nat :=
  let block := longestBlock as bs
  if _hlength : block.length = 0 then 0
  else if _hleft : block.left < as.length then
    matchedLength (as.take block.left) (bs.take block.right) + block.length +
      matchedLength (as.drop (block.left + block.length)) (bs.drop (block.right + block.length))
  else 0
termination_by as.length
decreasing_by
  all_goals
    have hlength : (longestBlock as bs).length ≠ 0 := _hlength
    have hleft : (longestBlock as bs).left < as.length := _hleft
    simp only [List.length_take, List.length_drop]
    omega

/-- How alike two texts are: twice the characters in common blocks over all characters, from zero to one. -/
structure Likeness where
  common : Nat
  total : Nat

/-- The likeness of two texts. -/
def likeness (as bs : List Char) : Likeness := ⟨2 * matchedLength as bs, as.length + bs.length⟩

namespace Likeness

/-- Alike enough: at least three fifths. -/
def isClose (l : Likeness) : Bool := l.total * 3 ≤ l.common * 5

/-- More alike than another pair. -/
def isAbove (l m : Likeness) : Bool := m.common * l.total < l.common * m.total

end Likeness

/-- The texts among some that are alike enough to a word: at most three, the closest first. Of equally close ones the greater
comes first. -/
def closeMatches (word : String) (choices : List String) : List String :=
  let scored := choices.map fun choice => (choice, likeness choice.toList word.toList)
  let close := scored.filter fun choice => choice.2.isClose
  let ranked := close.mergeSort fun x y => x.2.isAbove y.2 || (!y.2.isAbove x.2 && y.1 ≤ x.1)
  (ranked.take 3).map (·.1)

end TinyScript.Text
