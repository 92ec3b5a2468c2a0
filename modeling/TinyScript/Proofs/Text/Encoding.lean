import TinyScript.Text.Utf8

/-!
# Encoded texts are decoded

The bytes that encode a text in UTF-8 are decoded to its characters (`Utf8.decode_toUTF8`). A character is encoded as a leading
byte and continuation bytes that lie in the ranges which the leading byte admits, whichever of the four lengths the sequence
has (`Utf8.Encodes`). It is there that a surrogate would be refused and is not, for no character is one.
-/

namespace TinyScript.Utf8

/-- The bytes lie in the ranges, one in each. -/
inductive Within : List (UInt8 × UInt8) → List UInt8 → Prop where
  | nil : Within [] []
  | cons {low high byte : UInt8} {ranges : List (UInt8 × UInt8)} {bytes : List UInt8} :
      low ≤ byte → byte ≤ high → Within ranges bytes → Within ((low, high) :: ranges) (byte :: bytes)

/-- The bytes are a sequence for a code point. -/
structure Encodes (lead : UInt8) (tail : List UInt8) (code : Nat) : Prop where
  exists_ranges : ∃ ranges, continuations? lead = some ranges ∧ Within ranges tail
  codePoint_eq : codePoint lead tail = code

section Sequences

variable {lead : UInt8} {tail : List UInt8} {ranges : List (UInt8 × UInt8)} {code : Nat}

theorem Within.length_eq (h : Within ranges tail) : tail.length = ranges.length := by
  induction h with
  | nil => rfl
  | cons _ _ _ ih => rw [List.length_cons, List.length_cons, ih]

/-- Bytes that lie in the ranges match all of them, whatever follows. -/
theorem Within.matching_append (h : Within ranges tail) (rest : List UInt8) :
    matching ranges (tail ++ rest) = ranges.length := by
  induction h with
  | nil => rfl
  | cons hlow hhigh _ ih => rw [List.cons_append, matching, if_pos ⟨hlow, hhigh⟩, ih, List.length_cons]

/-- A sequence is decoded before what follows it. -/
theorem Encodes.decodeFrom (h : Encodes lead tail code) (offset : Nat) (rest : List UInt8) :
    decodeFrom offset (lead :: (tail ++ rest)) =
      (decodeFrom (offset + 1 + tail.length) rest).map (Char.ofNat code :: ·) := by
  obtain ⟨ranges, hlead, htail⟩ := h.exists_ranges
  rw [Utf8.decodeFrom, hlead]
  simp only [htail.matching_append, if_true, ← htail.length_eq, List.take_left, List.drop_left, h.codePoint_eq]
  cases Utf8.decodeFrom (offset + 1 + tail.length) rest <;> rfl

end Sequences

/-! ## The four lengths -/

/-- A continuation byte holds six bits of a number. -/
def continuation (n : Nat) : UInt8 := UInt8.ofNat (n % 0x40 + 0x80)

theorem toNat_continuation (n : Nat) : (continuation n).toNat = n % 0x40 + 0x80 := by
  rw [continuation, UInt8.toNat_ofNat']
  omega

/-- Every continuation byte lies in the widest range. -/
theorem Within.continuation {ranges : List (UInt8 × UInt8)} {tail : List UInt8} (n : Nat) (h : Within ranges tail) :
    Within ((0x80, 0xbf) :: ranges) (continuation n :: tail) := by
  have hn := toNat_continuation n
  refine .cons (UInt8.le_iff_toNat_le.mpr ?_) (UInt8.le_iff_toNat_le.mpr ?_) h
  · rw [hn]
    exact Nat.le_add_left _ _
  · simp only [hn, UInt8.reduceToNat]
    omega

/-- The first continuation byte lies in a range that is narrower where the leading byte is one of two, if it lies in the
narrower range there. -/
theorem Within.narrowed {ranges : List (UInt8 × UInt8)} {tail : List UInt8} {lead least greatest low high : UInt8} {n : Nat}
    (hlow : lead = least → low.toNat ≤ n % 0x40 + 0x80) (hhigh : lead = greatest → n % 0x40 + 0x80 ≤ high.toNat)
    (h : Within ranges tail) :
    Within ((if lead = least then low else 0x80, if lead = greatest then high else 0xbf) :: ranges)
      (Utf8.continuation n :: tail) := by
  cases h.continuation n with
  | cons hleast hgreatest _ =>
    refine .cons ?_ ?_ h
    · split
      next hlead =>
        rw [UInt8.le_iff_toNat_le, toNat_continuation]
        exact hlow hlead
      next => exact hleast
    · split
      next hlead =>
        rw [UInt8.le_iff_toNat_le, toNat_continuation]
        exact hhigh hlead
      next => exact hgreatest

/-- A code point of seven bits is encoded as itself. -/
theorem encodes_one {code : Nat} (h : code ≤ 0x7f) : Encodes (UInt8.ofNat code) [] code := by
  have hlead : (UInt8.ofNat code).toNat = code := by
    rw [UInt8.toNat_ofNat']
    omega
  have hranges : continuations? (UInt8.ofNat code) = some [] := by
    simp only [continuations?, UInt8.lt_iff_toNat_lt, hlead, UInt8.reduceToNat]
    rw [if_pos (by omega)]
  exact ⟨⟨[], hranges, .nil⟩, by simp only [codePoint, leadBits, List.length_nil, if_true, List.foldl_nil, hlead]⟩

/-- A code point of eleven bits is encoded in two bytes. -/
theorem encodes_two {code : Nat} (h : 0x7f < code) (h' : code ≤ 0x7ff) :
    Encodes (UInt8.ofNat (code / 64 % 0x20 + 0xc0)) [continuation code] code := by
  have hlead : (UInt8.ofNat (code / 64 % 0x20 + 0xc0)).toNat = code / 64 + 0xc0 := by
    rw [UInt8.toNat_ofNat']
    omega
  have hranges : continuations? (UInt8.ofNat (code / 64 % 0x20 + 0xc0)) = some [(0x80, 0xbf)] := by
    simp only [continuations?, UInt8.lt_iff_toNat_lt, hlead, UInt8.reduceToNat]
    rw [if_neg (by omega), if_neg (by omega), if_pos (by omega)]
  refine ⟨⟨_, hranges, Within.nil.continuation code⟩, ?_⟩
  simp only [codePoint, leadBits, List.length_cons, List.length_nil, List.foldl_cons, List.foldl_nil, toNat_continuation, hlead]
  rw [if_neg (by decide)]
  omega

/-- A code point of sixteen bits is encoded in three bytes, if it is no surrogate. -/
theorem encodes_three {code : Nat} (h : 0x7ff < code) (h' : code ≤ 0xffff) (hscalar : code < 0xd800 ∨ 0xdfff < code) :
    Encodes (UInt8.ofNat (code / 4096 % 0x10 + 0xe0)) [continuation (code / 64), continuation code] code := by
  have hlead : (UInt8.ofNat (code / 4096 % 0x10 + 0xe0)).toNat = code / 4096 + 0xe0 := by
    rw [UInt8.toNat_ofNat']
    omega
  generalize UInt8.ofNat (code / 4096 % 0x10 + 0xe0) = lead at hlead ⊢
  have hranges : continuations? lead =
      some [(if lead = 0xe0 then 0xa0 else 0x80, if lead = 0xed then 0x9f else 0xbf), (0x80, 0xbf)] := by
    simp only [continuations?, UInt8.lt_iff_toNat_lt, hlead, UInt8.reduceToNat]
    rw [if_neg (by omega), if_neg (by omega), if_neg (by omega), if_pos (by omega)]
  have hleast : lead = 0xe0 → (0xa0 : UInt8).toNat ≤ code / 64 % 0x40 + 0x80 := by
    rintro rfl
    simp only [UInt8.reduceToNat] at hlead ⊢
    omega
  have hgreatest : lead = 0xed → code / 64 % 0x40 + 0x80 ≤ (0x9f : UInt8).toNat := by
    rintro rfl
    simp only [UInt8.reduceToNat] at hlead ⊢
    omega
  refine ⟨⟨_, hranges, (Within.nil.continuation code).narrowed hleast hgreatest⟩, ?_⟩
  simp only [codePoint, leadBits, List.length_cons, List.length_nil, List.foldl_cons, List.foldl_nil, toNat_continuation, hlead]
  rw [if_neg (by decide)]
  omega

/-- A code point of more bits is encoded in four bytes, up to the last one. -/
theorem encodes_four {code : Nat} (h : 0xffff < code) (h' : code ≤ 0x10ffff) :
    Encodes (UInt8.ofNat (code / 262144 % 0x08 + 0xf0))
      [continuation (code / 4096), continuation (code / 64), continuation code] code := by
  have hlead : (UInt8.ofNat (code / 262144 % 0x08 + 0xf0)).toNat = code / 262144 + 0xf0 := by
    rw [UInt8.toNat_ofNat']
    omega
  generalize UInt8.ofNat (code / 262144 % 0x08 + 0xf0) = lead at hlead ⊢
  have hranges : continuations? lead =
      some [(if lead = 0xf0 then 0x90 else 0x80, if lead = 0xf4 then 0x8f else 0xbf), (0x80, 0xbf), (0x80, 0xbf)] := by
    simp only [continuations?, UInt8.lt_iff_toNat_lt, hlead, UInt8.reduceToNat]
    rw [if_neg (by omega), if_neg (by omega), if_neg (by omega), if_neg (by omega), if_pos (by omega)]
  have hleast : lead = 0xf0 → (0x90 : UInt8).toNat ≤ code / 4096 % 0x40 + 0x80 := by
    rintro rfl
    simp only [UInt8.reduceToNat] at hlead ⊢
    omega
  have hgreatest : lead = 0xf4 → code / 4096 % 0x40 + 0x80 ≤ (0x8f : UInt8).toNat := by
    rintro rfl
    simp only [UInt8.reduceToNat] at hlead ⊢
    omega
  have hlater := (Within.nil.continuation code).continuation (code / 64)
  refine ⟨⟨_, hranges, hlater.narrowed hleast hgreatest⟩, ?_⟩
  simp only [codePoint, leadBits, List.length_cons, List.length_nil, List.foldl_cons, List.foldl_nil, toNat_continuation, hlead]
  rw [if_neg (by decide)]
  omega

/-! ## Texts -/

/-- A character is encoded as a sequence for its code point. -/
theorem exists_encodes (c : Char) : ∃ lead tail, String.utf8EncodeChar c = lead :: tail ∧ Encodes lead tail c.toNat := by
  have hscalar : c.toNat < 0xd800 ∨ 0xdfff < c.toNat ∧ c.toNat < 0x110000 := c.valid
  have hlast : c.toNat ≤ 0x10ffff := by omega
  unfold String.utf8EncodeChar
  dsimp only
  split
  next h => exact ⟨_, _, rfl, encodes_one h⟩
  next h =>
    split
    next h' => exact ⟨_, _, rfl, encodes_two (Nat.lt_of_not_le h) h'⟩
    next h' =>
      split
      next h'' => exact ⟨_, _, rfl, encodes_three (Nat.lt_of_not_le h') h'' (hscalar.imp_right And.left)⟩
      next h'' => exact ⟨_, _, rfl, encodes_four (Nat.lt_of_not_le h'') hlast⟩

/-- The bytes of characters are decoded to them. -/
theorem decodeFrom_flatMap (chars : List Char) (offset : Nat) :
    decodeFrom offset (chars.flatMap String.utf8EncodeChar) = .ok chars := by
  induction chars generalizing offset with
  | nil => rw [List.flatMap_nil, decodeFrom]
  | cons c chars ih =>
    obtain ⟨lead, tail, hbytes, hencodes⟩ := exists_encodes c
    rw [List.flatMap_cons, hbytes, List.cons_append, hencodes.decodeFrom, ih, Char.ofNat_toNat]
    rfl

/-- The bytes of a text are decoded to its characters. -/
theorem decode_toUTF8 (text : String) : decode text.toUTF8.data.toList = .ok text.toList := by
  rw [String.toUTF8_eq_toByteArray, ← String.utf8Encode_toList, List.utf8Encode, List.data_toByteArray, List.toList_toArray]
  exact decodeFrom_flatMap text.toList 0

end TinyScript.Utf8
