/-!
# Strict UTF-8

`Utf8.decode` reads bytes as UTF-8 or names the first fault. A sequence is a leading byte and one to three continuation
bytes, and the leading byte decides the range of each: shorter forms of a character, surrogates and code points past the last
one are outside the range of the first continuation byte.
-/

namespace TinyScript.Utf8

/-- Why bytes are not UTF-8. -/
inductive Reason where
  | invalidStart
  | invalidContinuation
  | unexpectedEnd
deriving DecidableEq, Repr

/-- The bytes at fault: the first one, its offset, and how many more belong to the fault. -/
structure Fault where
  reason : Reason
  byte : UInt8
  offset : Nat
  more : Nat
deriving DecidableEq, Repr

/-- The ranges of the bytes that follow a leading byte; none if no sequence starts with it. -/
def continuations? (lead : UInt8) : Option (List (UInt8 × UInt8)) :=
  if lead < 0x80 then some []
  else if lead < 0xc2 then none
  else if lead < 0xe0 then some [(0x80, 0xbf)]
  else if lead < 0xf0 then
    some [(if lead = 0xe0 then 0xa0 else 0x80, if lead = 0xed then 0x9f else 0xbf), (0x80, 0xbf)]
  else if lead < 0xf5 then
    some [(if lead = 0xf0 then 0x90 else 0x80, if lead = 0xf4 then 0x8f else 0xbf), (0x80, 0xbf), (0x80, 0xbf)]
  else none

/-- How many bytes lie in the ranges given for them, before the first that does not. -/
def matching : List (UInt8 × UInt8) → List UInt8 → Nat
  | (low, high) :: ranges, byte :: bytes => if low ≤ byte ∧ byte ≤ high then matching ranges bytes + 1 else 0
  | _, _ => 0

/-- The payload of a leading byte followed by `length` others. -/
def leadBits (lead : UInt8) (length : Nat) : Nat :=
  if length = 0 then lead.toNat else lead.toNat % 2 ^ (6 - length)

/-- The code point of a sequence: six bits from every continuation byte. -/
def codePoint (lead : UInt8) (tail : List UInt8) : Nat :=
  tail.foldl (fun code byte => code * 64 + byte.toNat % 64) (leadBits lead tail.length)

/-- The characters of bytes that start at an offset, or the first fault. -/
def decodeFrom (offset : Nat) : List UInt8 → Except Fault (List Char)
  | [] => .ok []
  | lead :: rest =>
    match continuations? lead with
    | none => .error { reason := .invalidStart, byte := lead, offset, more := 0 }
    | some ranges =>
      let good := matching ranges rest
      if good = ranges.length then
        match decodeFrom (offset + 1 + good) (rest.drop good) with
        | .ok chars => .ok (Char.ofNat (codePoint lead (rest.take good)) :: chars)
        | .error fault => .error fault
      else
        let reason := if good = rest.length then .unexpectedEnd else .invalidContinuation
        .error { reason, byte := lead, offset, more := good }
termination_by bytes => bytes.length
decreasing_by simp only [List.length_drop, List.length_cons]; omega

/-- The characters of a file's bytes, or the first fault. -/
def decode (bytes : List UInt8) : Except Fault (List Char) := decodeFrom 0 bytes

end TinyScript.Utf8
