import CatalogApi.Lib.Text
import CatalogApi.Lib.Utf8

/-!
# Percent encoding

`urllib.parse.quote` with nothing safe: the UTF-8 bytes of a text, letters, digits and `_.-~` as
they are and every other byte as `%` and two hexadecimal digits. Reading the bytes back gives the
text (`unquote_quote`), so no two texts are quoted the same.
-/

namespace CatalogApi.PercentEncoding

open Text

/-- The bytes that `quote` leaves as they are. -/
def unreserved (byte : UInt8) : Bool :=
  (0x61 ≤ byte && byte ≤ 0x7a) || (0x41 ≤ byte && byte ≤ 0x5a) || (0x30 ≤ byte && byte ≤ 0x39) ||
    byte == 0x5f || byte == 0x2e || byte == 0x2d || byte == 0x7e

/-- `"0123456789ABCDEF"[digit]`. -/
def hexDigit (digit : Nat) : Char :=
  Char.ofNat (if digit < 10 then 48 + digit else 55 + digit)

/-- The value of a hexadecimal digit of either case. -/
def hexValue (c : Char) : Option Nat :=
  if '0' ≤ c ∧ c ≤ '9' then some (c.toNat - 48)
  else if 'A' ≤ c ∧ c ≤ 'F' then some (c.toNat - 55)
  else if 'a' ≤ c ∧ c ≤ 'f' then some (c.toNat - 87)
  else none

/-- One byte, quoted. -/
def quoteByte (byte : UInt8) : List Char :=
  if unreserved byte then [Char.ofNat byte.toNat]
  else ['%', hexDigit (byte.toNat / 16), hexDigit (byte.toNat % 16)]

/-- `quote(text, safe="")`. -/
def quote (text : String) : String :=
  .ofList ((Utf8.encode text.toList).flatMap quoteByte)

/-- `unquote_to_bytes`: a `%` without two digits after it stands for itself. -/
def unquoteBytes : List Char → List UInt8
  | [] => []
  | '%' :: high :: low :: rest =>
      match hexValue high, hexValue low with
      | some h, some l => UInt8.ofNat (16 * h + l) :: unquoteBytes rest
      | _, _ => 0x25 :: unquoteBytes (high :: low :: rest)
  | c :: rest => String.utf8EncodeChar c ++ unquoteBytes rest

/-- `unquote`. -/
def unquote (text : String) : String :=
  .ofList (Utf8.decode (unquoteBytes text.toList))

theorem hex_value_digit {digit : Nat} (h : digit < 16) :
    hexValue (hexDigit digit) = some digit := by
  have htable : (List.range 16).all fun digit => hexValue (hexDigit digit) = some digit := by decide
  exact of_decide_eq_true (List.all_eq_true.mp htable digit (List.mem_range.mpr h))

/-- What the table of bytes says of those that are left as they are. -/
theorem unreserved_table (byte : UInt8) (h : unreserved byte) :
    Char.ofNat byte.toNat ≠ '%' ∧ String.utf8EncodeChar (Char.ofNat byte.toNat) = [byte] := by
  have htable : (List.range 256).all fun n => !unreserved (UInt8.ofNat n) ||
      (Char.ofNat n ≠ '%' && String.utf8EncodeChar (Char.ofNat n) == [UInt8.ofNat n]) := by
    decide +kernel
  have hrow := List.all_eq_true.mp htable byte.toNat (List.mem_range.mpr byte.toNat_lt)
  rw [UInt8.ofNat_toNat, h] at hrow
  simpa using hrow

theorem unquote_quote_byte (byte : UInt8) (rest : List Char) :
    unquoteBytes (quoteByte byte ++ rest) = byte :: unquoteBytes rest := by
  unfold quoteByte
  cases h : unreserved byte with
  | true =>
      obtain ⟨hne, hbyte⟩ := unreserved_table byte h
      rw [if_pos rfl, List.singleton_append, unquoteBytes.eq_3 _ _ fun _ _ _ heq _ => hne heq,
        hbyte]
      rfl
  | false =>
      have hlt := byte.toNat_lt
      rw [if_neg (by simp)]
      show unquoteBytes
        ('%' :: hexDigit (byte.toNat / 16) :: hexDigit (byte.toNat % 16) :: rest) = _
      rw [unquoteBytes, hex_value_digit (by omega), hex_value_digit (by omega)]
      dsimp only
      rw [Nat.div_add_mod, UInt8.ofNat_toNat]

theorem unquote_quote_bytes (bytes : List UInt8) :
    unquoteBytes (bytes.flatMap quoteByte) = bytes := by
  induction bytes with
  | nil => rfl
  | cons byte bytes ih => rw [List.flatMap_cons, unquote_quote_byte, ih]

/-- A quoted text reads back. -/
@[simp]
theorem unquote_quote (text : String) : unquote (quote text) = text := by
  rw [unquote, quote, String.toList_ofList, unquote_quote_bytes, Utf8.decode_encode,
    String.ofList_toList]

theorem quote_inj {text text' : String} : quote text = quote text' ↔ text = text' := by
  constructor
  · intro h
    rw [← unquote_quote text, h, unquote_quote]
  · exact congrArg quote

/-- The characters of a quoted text. -/
def quotedChar (c : Char) : Bool :=
  c == '%' || (c.toNat < 256 && unreserved (UInt8.ofNat c.toNat))

theorem quoted_char {text : String} {c : Char} (h : c ∈ (quote text).toList) : quotedChar c := by
  have htable : (List.range 256).all fun n =>
      (quoteByte (UInt8.ofNat n)).all quotedChar := by decide +kernel
  rw [quote, String.toList_ofList, List.mem_flatMap] at h
  obtain ⟨byte, -, hc⟩ := h
  have hrow := List.all_eq_true.mp htable byte.toNat (List.mem_range.mpr byte.toNat_lt)
  rw [UInt8.ofNat_toNat] at hrow
  exact List.all_eq_true.mp hrow c hc

/-- A quoted text has no separators. -/
theorem quote_lacks {c : Char} (h : quotedChar c = false) (text : String) :
    Lacks c (quote text) := by
  intro hc
  rw [quoted_char hc] at h
  cases h

end CatalogApi.PercentEncoding
