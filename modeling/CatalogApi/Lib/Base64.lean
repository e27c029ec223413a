import CatalogApi.Lib.CodePoints
import Mathlib.Data.List.DropRight

/-!
# URL-safe Base64

`base64.urlsafe_b64encode` and `base64.urlsafe_b64decode` of Python. The decoder skips characters
outside the alphabet and stops at the padding that ends a group. Bytes whose text has lost its padding
are decoded once it is padded again (`decode_unpadded`).
-/

namespace CatalogApi.Base64

open CodePoints

/-- The padding character. -/
def pad : CodePoint := ord '='

/-- The character of six bits. -/
def letter (sextet : Nat) : CodePoint :=
  if sextet < 26 then Fin.ofNat _ ('A'.toNat + sextet)
  else if sextet < 52 then Fin.ofNat _ ('a'.toNat + (sextet - 26))
  else if sextet < 62 then Fin.ofNat _ ('0'.toNat + (sextet - 52))
  else if sextet = 62 then ord '-' else ord '_'

/-- The six bits of a character; the standard alphabet is read as well. -/
def sextet (c : CodePoint) : Option Nat :=
  if ord 'A' ≤ c ∧ c ≤ ord 'Z' then some (c.val - 'A'.toNat)
  else if ord 'a' ≤ c ∧ c ≤ ord 'z' then some (c.val - 'a'.toNat + 26)
  else if ord '0' ≤ c ∧ c ≤ ord '9' then some (c.val - '0'.toNat + 52)
  else if c = ord '-' ∨ c = ord '+' then some 62
  else if c = ord '_' ∨ c = ord '/' then some 63
  else none

/-- `urlsafe_b64encode`. -/
def encode : List UInt8 → Str
  | a :: b :: c :: rest =>
      letter (a.toNat / 4) :: letter (a.toNat % 4 * 16 + b.toNat / 16) ::
        letter (b.toNat % 16 * 4 + c.toNat / 64) :: letter (c.toNat % 64) :: encode rest
  | [a, b] =>
      [letter (a.toNat / 4), letter (a.toNat % 4 * 16 + b.toNat / 16), letter (b.toNat % 16 * 4), pad]
  | [a] => [letter (a.toNat / 4), letter (a.toNat % 4 * 16), pad, pad]
  | [] => []

/-- `token.rstrip("=")`. -/
def unpadded (text : Str) : Str := text.rdropWhile fun c => c = pad

/-- `token + "=" * (-len(token) % 4)`. -/
def padded (token : Str) : Str := token ++ List.replicate ((4 - token.length % 4) % 4) pad

/-- The bytes of a text, from the characters of a group read so far, the padding after them and the
bits left over. -/
def decodeFrom (group pads left : Nat) : Str → Option (List UInt8)
  | [] => if group = 0 then some [] else none
  | c :: rest =>
      if c = pad then
        if 2 ≤ group then
          if 4 ≤ group + (pads + 1) then some [] else decodeFrom group (pads + 1) left rest
        else decodeFrom group pads left rest
      else
        match sextet c with
        | none => decodeFrom group pads left rest
        | some bits =>
            match group with
            | 0 => decodeFrom 1 0 bits rest
            | 1 => (decodeFrom 2 0 (bits % 16) rest).map (UInt8.ofNat (left * 4 + bits / 16) :: ·)
            | 2 => (decodeFrom 3 0 (bits % 4) rest).map (UInt8.ofNat (left * 16 + bits / 4) :: ·)
            | _ => (decodeFrom 0 0 0 rest).map (UInt8.ofNat (left * 64 + bits) :: ·)

/-- `urlsafe_b64decode`; `none` is a `ValueError`. -/
def decode (text : Str) : Option (List UInt8) :=
  if text.all fun c => c.val < 0x80 then decodeFrom 0 0 0 text else none

/-! ## The alphabet -/

theorem letter_table : ∀ bits : Fin 64,
    sextet (letter bits) = some bits.val ∧ letter bits ≠ pad ∧ (letter bits).val < 0x80 := by
  decide

theorem sextet_letter {bits : Nat} (h : bits < 64) : sextet (letter bits) = some bits :=
  (letter_table ⟨bits, h⟩).1

theorem letter_ne_pad {bits : Nat} (h : bits < 64) : letter bits ≠ pad :=
  (letter_table ⟨bits, h⟩).2.1

theorem letter_ascii {bits : Nat} (h : bits < 64) : (letter bits).val < 0x80 :=
  (letter_table ⟨bits, h⟩).2.2

/-! ## Reading what was written -/

section Steps

variable {bits left pads : Nat} {rest : Str}

theorem decode_first (h : bits < 64) :
    decodeFrom 0 pads left (letter bits :: rest) = decodeFrom 1 0 bits rest := by
  rw [decodeFrom, if_neg (letter_ne_pad h), sextet_letter h]
  rfl

theorem decode_second (h : bits < 64) :
    decodeFrom 1 pads left (letter bits :: rest) =
      (decodeFrom 2 0 (bits % 16) rest).map (UInt8.ofNat (left * 4 + bits / 16) :: ·) := by
  rw [decodeFrom, if_neg (letter_ne_pad h), sextet_letter h]
  rfl

theorem decode_third (h : bits < 64) :
    decodeFrom 2 pads left (letter bits :: rest) =
      (decodeFrom 3 0 (bits % 4) rest).map (UInt8.ofNat (left * 16 + bits / 4) :: ·) := by
  rw [decodeFrom, if_neg (letter_ne_pad h), sextet_letter h]
  rfl

theorem decode_fourth (h : bits < 64) :
    decodeFrom 3 pads left (letter bits :: rest) =
      (decodeFrom 0 0 0 rest).map (UInt8.ofNat (left * 64 + bits) :: ·) := by
  rw [decodeFrom, if_neg (letter_ne_pad h), sextet_letter h]
  rfl

end Steps

theorem of_nat_eq (byte : UInt8) {n : Nat} (h : n = byte.toNat) : UInt8.ofNat n = byte := by
  rw [h, UInt8.ofNat_toNat]

theorem decode_encode_from (bytes : List UInt8) : decodeFrom 0 0 0 (encode bytes) = some bytes := by
  induction bytes using encode.induct with
  | case1 a b c rest ih =>
      have ha := a.toNat_lt
      have hb := b.toNat_lt
      have hc := c.toNat_lt
      rw [encode, decode_first (by omega), decode_second (by omega), decode_third (by omega),
        decode_fourth (by omega), ih]
      simp only [Option.map_some]
      rw [of_nat_eq a (by omega), of_nat_eq b (by omega), of_nat_eq c (by omega)]
  | case2 a b =>
      have ha := a.toNat_lt
      have hb := b.toNat_lt
      have hstop (left : Nat) : decodeFrom 3 0 left [pad] = some [] := rfl
      rw [encode, decode_first (by omega), decode_second (by omega), decode_third (by omega), hstop]
      simp only [Option.map_some]
      rw [of_nat_eq a (by omega), of_nat_eq b (by omega)]
  | case3 a =>
      have ha := a.toNat_lt
      have hstop (left : Nat) : decodeFrom 2 0 left [pad, pad] = some [] := rfl
      rw [encode, decode_first (by omega), decode_second (by omega), hstop]
      simp only [Option.map_some]
      rw [of_nat_eq a (by omega)]
  | case4 => rfl

/-- What is written: letters, and the padding that fills the last group. -/
structure Spells (bytes : List UInt8) (body : Str) (pads : Nat) : Prop where
  eq : encode bytes = body ++ List.replicate pads pad
  letters : ∀ c ∈ body, c ≠ pad ∧ c.val < 0x80
  length : body.length = (4 * bytes.length + 2) / 3
  filled : (4 - body.length % 4) % 4 = pads

/-- An encoded text is letters followed by pads. -/
theorem encode_spells (bytes : List UInt8) : ∃ body pads, Spells bytes body pads := by
  have hletter {bits : Nat} (h : bits < 64) : letter bits ≠ pad ∧ (letter bits).val < 0x80 :=
    ⟨letter_ne_pad h, letter_ascii h⟩
  induction bytes using encode.induct with
  | case1 a b c rest ih =>
      obtain ⟨body, pads, h⟩ := ih
      have ha := a.toNat_lt
      have hb := b.toNat_lt
      have hc := c.toNat_lt
      refine ⟨_ :: _ :: _ :: _ :: body, pads, by rw [encode, h.eq]; rfl, ?_, ?_, ?_⟩
      · simp only [List.forall_mem_cons]
        exact ⟨hletter (by omega), hletter (by omega), hletter (by omega), hletter (by omega),
          h.letters⟩
      · have hlength := h.length
        simp only [List.length_cons]
        omega
      · have hfilled := h.filled
        simp only [List.length_cons]
        omega
  | case2 a b =>
      have ha := a.toNat_lt
      have hb := b.toNat_lt
      refine ⟨[_, _, _], 1, by rw [encode]; rfl, ?_, by simp, rfl⟩
      simp only [List.forall_mem_cons]
      exact ⟨hletter (by omega), hletter (by omega), hletter (by omega), nofun⟩
  | case3 a =>
      have ha := a.toNat_lt
      refine ⟨[_, _], 2, by rw [encode]; rfl, ?_, by simp, rfl⟩
      simp only [List.forall_mem_cons]
      exact ⟨hletter (by omega), hletter (by omega), nofun⟩
  | case4 => exact ⟨[], 0, rfl, nofun, rfl, rfl⟩

theorem Spells.unpadded {bytes : List UInt8} {body : Str} {pads : Nat} (h : Spells bytes body pads) :
    unpadded (encode bytes) = body := by
  have hpads : ∀ pads : Nat, Base64.unpadded (body ++ List.replicate pads pad) = body := by
    intro pads
    induction pads with
    | zero =>
        rw [List.replicate_zero, List.append_nil, Base64.unpadded]
        refine List.rdropWhile_eq_self_iff.mpr fun hne hpad => ?_
        exact (h.letters _ (List.getLast_mem hne)).1 (of_decide_eq_true hpad)
    | succ pads ih =>
        rw [List.replicate_succ', ← List.append_assoc, Base64.unpadded,
          List.rdropWhile_concat_pos (fun c => c = pad) _ pad (decide_eq_true rfl)]
        exact ih
  rw [h.eq, hpads]

/-- A text that lost its padding decodes to its bytes once it is padded again. -/
theorem decode_unpadded (bytes : List UInt8) :
    decode (padded (unpadded (encode bytes))) = some bytes := by
  obtain ⟨body, pads, h⟩ := encode_spells bytes
  have hpadded : padded (unpadded (encode bytes)) = encode bytes := by
    rw [h.unpadded, padded, h.filled, h.eq]
  have hascii : ((encode bytes).all fun c => c.val < 0x80) = true := by
    rw [h.eq, List.all_append, Bool.and_eq_true, List.all_eq_true, List.all_eq_true]
    refine ⟨fun c hc => decide_eq_true (h.letters c hc).2, fun c hc => ?_⟩
    rw [List.eq_of_mem_replicate hc]
    rfl
  rw [hpadded, decode, if_pos hascii, decode_encode_from]

theorem length_unpadded (bytes : List UInt8) :
    (unpadded (encode bytes)).length = (4 * bytes.length + 2) / 3 := by
  obtain ⟨body, pads, h⟩ := encode_spells bytes
  rw [h.unpadded, h.length]

/-! ## Length -/

/-- Decoding gives no more bytes than there are letters. -/
theorem length_decode_from {group pads left : Nat} {text : Str} {bytes : List UInt8}
    (h : decodeFrom group pads left text = some bytes) : bytes.length ≤ text.length := by
  induction text generalizing group pads left bytes with
  | nil =>
      rw [decodeFrom] at h
      split at h
      · rw [← Option.some.inj h]
        exact Nat.zero_le _
      · cases h
  | cons c rest ih =>
      have hlonger {bytes : List UInt8} {group pads left : Nat}
          (h : decodeFrom group pads left rest = some bytes) : bytes.length ≤ rest.length + 1 :=
        Nat.le_succ_of_le (ih h)
      have hbyte {byte : UInt8} {bytes : List UInt8} {group pads left : Nat}
          (h : (decodeFrom group pads left rest).map (byte :: ·) = some bytes) :
          bytes.length ≤ rest.length + 1 := by
        obtain ⟨tail, htail, rfl⟩ := Option.map_eq_some_iff.mp h
        exact Nat.succ_le_succ (ih htail)
      rw [decodeFrom] at h
      split at h
      · split at h
        · split at h
          · rw [← Option.some.inj h]
            exact Nat.zero_le _
          · exact hlonger h
        · exact hlonger h
      · split at h
        · exact hlonger h
        · split at h
          · exact hlonger h
          · exact hbyte h
          · exact hbyte h
          · exact hbyte h

/-- A text decodes to no more bytes than it has characters. -/
theorem length_decode {text : Str} {bytes : List UInt8} (h : decode text = some bytes) :
    bytes.length ≤ text.length := by
  rw [decode] at h
  split at h
  · exact length_decode_from h
  · cases h

end CatalogApi.Base64
