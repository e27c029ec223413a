import Mathlib.Data.List.Basic

/-!
# UTF-8 with replacement

Encoding text as UTF-8, and decoding bytes as Python's `bytes.decode("utf-8", errors="replace")` does:
each maximal part of a character that is cut short, and each byte that starts none, becomes one U+FFFD.
Bytes that encode a text decode to it (`decode_encode`).
-/

namespace CatalogApi.Utf8

/-- `text.encode("utf-8")`. -/
def encode (text : List Char) : List UInt8 :=
  text.flatMap String.utf8EncodeChar

/-- After the first byte of a character of several: the range of the second one, and how many follow
the first. -/
def lead (first : UInt8) : Option (UInt8 × UInt8 × Nat) :=
  if 0xc2 ≤ first ∧ first ≤ 0xdf then some (0x80, 0xbf, 1)
  else if first = 0xe0 then some (0xa0, 0xbf, 2)
  else if first = 0xed then some (0x80, 0x9f, 2)
  else if 0xe1 ≤ first ∧ first ≤ 0xef then some (0x80, 0xbf, 2)
  else if first = 0xf0 then some (0x90, 0xbf, 3)
  else if 0xf1 ≤ first ∧ first ≤ 0xf3 then some (0x80, 0xbf, 3)
  else if first = 0xf4 then some (0x80, 0x8f, 3)
  else none

/-- How many bytes after the first one U+FFFD replaces with it. -/
def cutShort (first : UInt8) : List UInt8 → Nat
  | [] => 0
  | second :: rest =>
      match lead first with
      | some (lower, upper, more) =>
          if lower ≤ second ∧ second ≤ upper then
            1 + ((rest.take (more - 1)).takeWhile fun byte => 0x80 ≤ byte ∧ byte ≤ 0xbf).length
          else 0
      | none => 0

/-- `decode` after bytes that belong to the last character. -/
def decodeAfter : Nat → List UInt8 → List Char
  | _, [] => []
  | skip + 1, _ :: rest => decodeAfter skip rest
  | 0, first :: rest =>
      match ByteArray.utf8DecodeChar? (first :: rest).toByteArray 0 with
      | some char => char :: decodeAfter (char.utf8Size - 1) rest
      | none => Char.ofNat 0xfffd :: decodeAfter (cutShort first rest) rest

/-- `raw.decode("utf-8", errors="replace")`. -/
def decode (raw : List UInt8) : List Char :=
  decodeAfter 0 raw

theorem decode_after_append (skipped rest : List UInt8) :
    decodeAfter skipped.length (skipped ++ rest) = decodeAfter 0 rest := by
  induction skipped with
  | nil => rfl
  | cons byte skipped ih => rw [List.length_cons, List.cons_append, decodeAfter, ih]

theorem decode_char (char : Char) (rest : List UInt8) :
    decode (String.utf8EncodeChar char ++ rest) = char :: decode rest := by
  have hdecode : ByteArray.utf8DecodeChar? (String.utf8EncodeChar char ++ rest).toByteArray 0 =
      some char := by
    rw [List.toByteArray_append]
    exact ByteArray.utf8DecodeChar?_utf8EncodeChar_append
  have hlength := String.length_utf8EncodeChar char
  cases hbytes : String.utf8EncodeChar char with
  | nil =>
      have hpos := Char.utf8Size_pos char
      rw [hbytes, List.length_nil] at hlength
      omega
  | cons first more =>
      rw [hbytes, List.cons_append] at hdecode
      rw [hbytes, List.length_cons] at hlength
      rw [decode, List.cons_append, decodeAfter, hdecode]
      dsimp only
      rw [show char.utf8Size - 1 = more.length by omega, decode_after_append]
      rfl

/-- The bytes of a text decode to it. -/
theorem decode_encode (text : List Char) : decode (encode text) = text := by
  induction text with
  | nil => rfl
  | cons char text ih =>
      rw [encode, List.flatMap_cons, decode_char]
      exact congrArg (char :: ·) ih

/-- A character cut short by another one is replaced once. -/
example : decode [0xe2, 0x82, 0x41, 0xff, 0xc3, 0xa9] = ['\uFFFD', 'A', '\uFFFD', 'é'] := by decide

end CatalogApi.Utf8
