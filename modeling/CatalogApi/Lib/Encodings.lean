import CatalogApi.Lib.CodePoints
import Mathlib.Data.List.Infix

/-!
# The encodings of JSON bytes

`json.detect_encoding` of Python and the decoders it chooses from, with the handler `surrogatepass`.
Bytes that are all ASCII, and none of them zero, are detected as UTF-8 and decode to their code points
(`decode_ascii`), and no bytes decode to more code points than there are bytes (`length_decode`).
-/

namespace CatalogApi.Encodings

open CodePoints

/-- The encodings that `detect_encoding` tells apart. -/
inductive Encoding where
  | utf8 | utf8Sig | utf16 | utf16Le | utf16Be | utf32 | utf32Le | utf32Be

/-- The encoding of bytes without a mark, by where the zeros stand. -/
def detectZeros : List UInt8 → Encoding
  | a :: b :: c :: d :: _ =>
      if a = 0 then if b = 0 then .utf32Be else .utf16Be
      else if b = 0 then if c = 0 ∧ d = 0 then .utf32Le else .utf16Le
      else .utf8
  | [a, b] => if a = 0 then .utf16Be else if b = 0 then .utf16Le else .utf8
  | _ => .utf8

/-- `detect_encoding`. -/
def detectEncoding (bytes : List UInt8) : Encoding :=
  if [0, 0, 0xFE, 0xFF] <+: bytes ∨ [0xFF, 0xFE, 0, 0] <+: bytes then .utf32
  else if [0xFE, 0xFF] <+: bytes ∨ [0xFF, 0xFE] <+: bytes then .utf16
  else if [0xEF, 0xBB, 0xBF] <+: bytes then .utf8Sig
  else detectZeros bytes

/-- UTF-8, with the bytes that the code point begun still needs, its bits so far and the least code
point of its length. -/
def utf8From (needed bits least : Nat) : List UInt8 → Option Str
  | [] => if needed = 0 then some [] else none
  | byte :: rest =>
      match needed with
      | 0 =>
          if byte.toNat < 0x80 then (utf8From 0 0 0 rest).map (Fin.ofNat _ byte.toNat :: ·)
          else if byte.toNat < 0xC0 then none
          else if byte.toNat < 0xE0 then utf8From 1 (byte.toNat - 0xC0) 0x80 rest
          else if byte.toNat < 0xF0 then utf8From 2 (byte.toNat - 0xE0) 0x800 rest
          else if byte.toNat < 0xF8 then utf8From 3 (byte.toNat - 0xF0) 0x10000 rest
          else none
      | needed + 1 =>
          if 0x80 ≤ byte.toNat ∧ byte.toNat < 0xC0 then
            let total := bits * 64 + (byte.toNat - 0x80)
            if needed ≠ 0 then utf8From needed total least rest
            else if least ≤ total ∧ total < 0x110000 then
              (utf8From 0 0 0 rest).map (Fin.ofNat _ total :: ·)
            else none
          else none

/-- The units of two bytes. -/
def units16 (big : Bool) : List UInt8 → Option Str
  | [] => some []
  | [_] => none
  | a :: b :: rest =>
      (units16 big rest).map
        (Fin.ofNat _ (if big then a.toNat * 256 + b.toNat else b.toNat * 256 + a.toNat) :: ·)

/-- UTF-16: a high surrogate and the low one after it are one code point. -/
def utf16 (big : Bool) (bytes : List UInt8) : Option Str :=
  (units16 big bytes).map fun units => joinPairs (units.map fun unit => (unit, true))

/-- The value of four bytes. -/
def value32 (big : Bool) (a b c d : UInt8) : Nat :=
  if big then ((a.toNat * 256 + b.toNat) * 256 + c.toNat) * 256 + d.toNat
  else ((d.toNat * 256 + c.toNat) * 256 + b.toNat) * 256 + a.toNat

/-- UTF-32. -/
def utf32 (big : Bool) : List UInt8 → Option Str
  | [] => some []
  | a :: b :: c :: d :: rest =>
      if value32 big a b c d < 0x110000 then
        (utf32 big rest).map (Fin.ofNat _ (value32 big a b c d) :: ·)
      else none
  | _ => none

/-- `bytes.decode(encoding, "surrogatepass")`; `none` is a `UnicodeDecodeError`. -/
def decodeAs (bytes : List UInt8) : Encoding → Option Str
  | .utf8 => utf8From 0 0 0 bytes
  | .utf8Sig => utf8From 0 0 0 (bytes.drop 3)
  | .utf16 => utf16 (bytes.head? = some 0xFE) (bytes.drop 2)
  | .utf16Le => utf16 false bytes
  | .utf16Be => utf16 true bytes
  | .utf32 => utf32 (bytes.head? = some 0) (bytes.drop 4)
  | .utf32Le => utf32 false bytes
  | .utf32Be => utf32 true bytes

/-- The text of JSON bytes. -/
def decode (bytes : List UInt8) : Option Str := decodeAs bytes (detectEncoding bytes)

/-- `text.encode()` of an ASCII text. -/
def encodeAscii (text : Str) : List UInt8 := text.map fun c => UInt8.ofNat c.val

/-! ## ASCII -/

/-- Every code point is ASCII and none is zero. -/
def Ascii (text : Str) : Prop := ∀ c ∈ text, 0 < c.val ∧ c.val < 0x80

theorem byte_val {c : CodePoint} (h : c.val < 0x80) : (UInt8.ofNat c.val).toNat = c.val := by
  rw [UInt8.toNat_ofNat']
  exact Nat.mod_eq_of_lt (by omega)

theorem byte_ne {c : CodePoint} (h : 0 < c.val ∧ c.val < 0x80) {byte : UInt8}
    (hbyte : byte = 0 ∨ 0x80 ≤ byte.toNat) : UInt8.ofNat c.val ≠ byte := by
  intro heq
  have hval := byte_val h.2
  rw [heq] at hval
  rcases hbyte with rfl | hle
  · rw [UInt8.toNat_zero] at hval
    omega
  · omega

theorem detect_ascii {text : Str} (h : Ascii text) : detectEncoding (encodeAscii text) = .utf8 := by
  have hfirst {byte : UInt8} {bytes : List UInt8} (hbyte : byte = 0 ∨ 0x80 ≤ byte.toNat) :
      ¬byte :: bytes <+: encodeAscii text := by
    intro hprefix
    cases text with
    | nil => cases List.prefix_nil.mp hprefix
    | cons c text =>
        have hsame := (List.cons_prefix_cons.mp hprefix).1
        exact byte_ne (h c List.mem_cons_self) hbyte hsame.symm
  have hmarks : ∀ byte ∈ [0xFE, 0xFF, 0xEF], (0x80 : Nat) ≤ UInt8.toNat byte := by simp
  rw [detectEncoding, if_neg (not_or.mpr ⟨hfirst (Or.inl rfl), hfirst (Or.inr (hmarks _ (by simp)))⟩),
    if_neg (not_or.mpr ⟨hfirst (Or.inr (hmarks _ (by simp))), hfirst (Or.inr (hmarks _ (by simp)))⟩),
    if_neg (hfirst (Or.inr (hmarks _ (by simp))))]
  have hzero : ∀ c ∈ text, UInt8.ofNat c.val ≠ 0 := fun c hc => byte_ne (h c hc) (Or.inl rfl)
  rcases text with _ | ⟨a, _ | ⟨b, _ | ⟨c, _ | ⟨d, rest⟩⟩⟩⟩
  · rfl
  · rfl
  · show detectZeros [UInt8.ofNat a.val, UInt8.ofNat b.val] = .utf8
    rw [detectZeros, if_neg (hzero a (by simp)), if_neg (hzero b (by simp))]
  · rfl
  · show detectZeros (UInt8.ofNat a.val :: UInt8.ofNat b.val :: UInt8.ofNat c.val ::
      UInt8.ofNat d.val :: encodeAscii rest) = .utf8
    rw [detectZeros, if_neg (hzero a (by simp)), if_neg (hzero b (by simp))]

theorem utf8_ascii {text : Str} (h : Ascii text) :
    utf8From 0 0 0 (encodeAscii text) = some text := by
  induction text with
  | nil => rfl
  | cons c text ih =>
      have hc := (h c List.mem_cons_self).2
      have hbyte : (Fin.ofNat 0x110000 (UInt8.ofNat c.val).toNat : CodePoint) = c := by
        rw [byte_val hc]
        exact Fin.ext (Nat.mod_eq_of_lt c.isLt)
      rw [encodeAscii, List.map_cons, utf8From, if_pos (by rw [byte_val hc]; exact hc), hbyte]
      show (utf8From 0 0 0 (encodeAscii text)).map (c :: ·) = some (c :: text)
      rw [ih fun c hc => h c (List.mem_cons_of_mem _ hc)]
      rfl

/-- ASCII bytes decode to their code points. -/
theorem decode_ascii {text : Str} (h : Ascii text) : decode (encodeAscii text) = some text := by
  rw [decode, detect_ascii h]
  exact utf8_ascii h

/-! ## Length -/

/-- A decoded text is no longer than its bytes. -/
theorem length_utf8 {needed bits least : Nat} {bytes : List UInt8} {text : Str}
    (h : utf8From needed bits least bytes = some text) : text.length ≤ bytes.length := by
  induction bytes generalizing needed bits least text with
  | nil =>
      rw [utf8From] at h
      split at h
      · rw [← Option.some.inj h]
        exact Nat.le_refl _
      · cases h
  | cons byte rest ih =>
      have hlonger {needed bits least : Nat} {text : Str}
          (h : utf8From needed bits least rest = some text) : text.length ≤ rest.length + 1 :=
        Nat.le_succ_of_le (ih h)
      have hpoint {c : CodePoint} {text : Str} (h : (utf8From 0 0 0 rest).map (c :: ·) = some text) :
          text.length ≤ rest.length + 1 := by
        obtain ⟨tail, htail, rfl⟩ := Option.map_eq_some_iff.mp h
        exact Nat.succ_le_succ (ih htail)
      cases needed with
      | zero =>
          rw [utf8From] at h
          split at h
          · exact hpoint h
          split at h
          · cases h
          split at h
          · exact hlonger h
          split at h
          · exact hlonger h
          split at h
          · exact hlonger h
          · cases h
      | succ needed =>
          rw [utf8From] at h
          split at h
          · split at h
            · exact hlonger h
            · dsimp only at h
              split at h
              · exact hpoint h
              · cases h
          · cases h

theorem length_join (units : List (CodePoint × Bool)) : (joinPairs units).length ≤ units.length := by
  induction units using joinPairs.induct with
  | case1 => exact Nat.le_refl _
  | case2 c escaped => exact Nat.le_refl _
  | case3 a escaped b escaped' rest hpair ih =>
      rw [joinPairs, if_pos hpair]
      simp only [List.length_cons]
      omega
  | case4 a escaped b escaped' rest hpair ih =>
      rw [joinPairs, if_neg hpair]
      simp only [List.length_cons] at ih ⊢
      omega

theorem length_units16 {big : Bool} {bytes : List UInt8} {units : Str}
    (h : units16 big bytes = some units) : units.length ≤ bytes.length := by
  induction bytes using units16.induct generalizing units with
  | case1 =>
      rw [← Option.some.inj h]
      exact Nat.le_refl _
  | case2 a => cases h
  | case3 a b rest ih =>
      rw [units16] at h
      obtain ⟨tail, htail, rfl⟩ := Option.map_eq_some_iff.mp h
      have hle := ih htail
      simp only [List.length_cons]
      omega

theorem length_utf16 {big : Bool} {bytes : List UInt8} {text : Str}
    (h : utf16 big bytes = some text) : text.length ≤ bytes.length := by
  obtain ⟨units, hunits, rfl⟩ := Option.map_eq_some_iff.mp h
  refine Nat.le_trans (length_join _) ?_
  rw [List.length_map]
  exact length_units16 hunits

theorem length_utf32 {big : Bool} {bytes : List UInt8} {text : Str}
    (h : utf32 big bytes = some text) : text.length ≤ bytes.length := by
  induction bytes using utf32.induct big generalizing text with
  | case1 =>
      rw [← Option.some.inj h]
      exact Nat.le_refl _
  | case2 a b c d rest hlt ih =>
      rw [utf32, if_pos hlt] at h
      obtain ⟨tail, htail, rfl⟩ := Option.map_eq_some_iff.mp h
      have hle := ih htail
      simp only [List.length_cons]
      omega
  | case3 a b c d rest hlt =>
      rw [utf32, if_neg hlt] at h
      cases h
  | case4 bytes hnil hfew =>
      rw [utf32] at h
      · cases h
      · exact hnil
      · exact hfew

/-- Bytes decode to no more code points than there are bytes. -/
theorem length_decode {bytes : List UInt8} {text : Str} (h : decode bytes = some text) :
    text.length ≤ bytes.length := by
  have hdrop (n : Nat) : (bytes.drop n).length ≤ bytes.length := by
    rw [List.length_drop]
    omega
  rw [decode] at h
  cases hencoding : detectEncoding bytes with
  | utf8 => exact length_utf8 (hencoding ▸ h)
  | utf8Sig => exact Nat.le_trans (length_utf8 (hencoding ▸ h)) (hdrop 3)
  | utf16 => exact Nat.le_trans (length_utf16 (hencoding ▸ h)) (hdrop 2)
  | utf16Le => exact length_utf16 (hencoding ▸ h)
  | utf16Be => exact length_utf16 (hencoding ▸ h)
  | utf32 => exact Nat.le_trans (length_utf32 (hencoding ▸ h)) (hdrop 4)
  | utf32Le => exact length_utf32 (hencoding ▸ h)
  | utf32Be => exact length_utf32 (hencoding ▸ h)

end CatalogApi.Encodings
