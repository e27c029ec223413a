import Mathlib.Data.List.Chain

/-!
# Texts of code points

A text of Python is a list of code points, surrogates included. A writer that spells a code point
above U+FFFF as two surrogates has a reader that joins a high surrogate and the low one after it: a
text in which no low surrogate directly follows a high one reads back as it was (`join_spelled`).
-/

namespace CatalogApi.CodePoints

abbrev CodePoint := Fin 0x110000

/-- There are code points; a number above them is read modulo their number. -/
instance someCodePoint : @NeZero Nat Zero.ofOfNat0 0x110000 := ⟨by decide⟩

/-- A text: its code points, surrogates included. -/
abbrev Str := List CodePoint

theorem char_lt (c : Char) : c.toNat < 0x110000 := by
  have hvalid := c.valid
  simp only [UInt32.isValidChar, Nat.isValidChar] at hvalid
  unfold Char.toNat
  omega

/-- `ord(c)`. -/
def ord (c : Char) : CodePoint := ⟨c.toNat, char_lt c⟩

/-- The code points of a text without surrogates. -/
def ofString (text : String) : Str := text.toList.map ord

/-- A high surrogate. -/
def isHigh (c : CodePoint) : Bool := 0xD800 ≤ c.val ∧ c.val < 0xDC00

/-- A low surrogate. -/
def isLow (c : CodePoint) : Bool := 0xDC00 ≤ c.val ∧ c.val < 0xE000

/-- No low surrogate directly follows a high one. -/
def NoSplitPair (text : Str) : Prop := text.IsChain fun a b => ¬(isHigh a = true ∧ isLow b = true)

/-- The code point that two surrogates spell. -/
def joinSurrogates (high low : CodePoint) : CodePoint :=
  Fin.ofNat _ (0x10000 + (high.val - 0xD800) * 0x400 + (low.val - 0xDC00))

/-- The high surrogate that spells a code point above U+FFFF with a low one. -/
def highOf (c : CodePoint) : CodePoint := Fin.ofNat _ (0xD800 + (c.val - 0x10000) / 0x400)

/-- The low surrogate that spells a code point above U+FFFF with a high one. -/
def lowOf (c : CodePoint) : CodePoint := Fin.ofNat _ (0xDC00 + (c.val - 0x10000) % 0x400)

theorem high_of_val (c : CodePoint) : (highOf c).val = 0xD800 + (c.val - 0x10000) / 0x400 := by
  have hlt := c.isLt
  exact Nat.mod_eq_of_lt (by omega)

theorem low_of_val (c : CodePoint) : (lowOf c).val = 0xDC00 + (c.val - 0x10000) % 0x400 :=
  Nat.mod_eq_of_lt (by omega)

theorem is_high_of (c : CodePoint) : isHigh (highOf c) = true := by
  have hlt := c.isLt
  rw [isHigh, high_of_val]
  simp only [decide_eq_true_eq]
  omega

theorem is_low_of (c : CodePoint) : isLow (lowOf c) = true := by
  rw [isLow, low_of_val]
  simp only [decide_eq_true_eq]
  omega

theorem not_low_of_high {c : CodePoint} (h : isHigh c = true) : isLow c = false := by
  simp only [isHigh, isLow, decide_eq_true_eq, decide_eq_false_iff_not] at h ⊢
  omega

theorem join_high_low {c : CodePoint} (h : 0x10000 ≤ c.val) :
    joinSurrogates (highOf c) (lowOf c) = c := by
  have hlt := c.isLt
  refine Fin.ext ?_
  show (0x10000 + ((highOf c).val - 0xD800) * 0x400 + ((lowOf c).val - 0xDC00)) % 0x110000 = c.val
  rw [high_of_val, low_of_val]
  omega

/-- A text without surrogates splits no pair. -/
theorem no_split_string (text : String) : NoSplitPair (ofString text) := by
  refine List.isChain_map _ |>.mpr ?_
  have hnone : ∀ c : Char, isHigh (ord c) = false := by
    intro c
    have hvalid := c.valid
    simp only [UInt32.isValidChar, Nat.isValidChar] at hvalid
    rw [isHigh, decide_eq_false_iff_not]
    show ¬(0xD800 ≤ c.val.toNat ∧ c.val.toNat < 0xDC00)
    omega
  generalize text.toList = chars
  induction chars with
  | nil => exact .nil
  | cons c chars ih =>
      refine List.isChain_cons.mpr ⟨fun b _ h => ?_, ih⟩
      rw [hnone c] at h
      cases h.1

/-! ## Spelling -/

/-- The units that spell a code point; `escaped` says which of them are escapes. -/
def spelled (escaped : CodePoint → Bool) (c : CodePoint) : List (CodePoint × Bool) :=
  if 0x10000 ≤ c.val then [(highOf c, true), (lowOf c, true)] else [(c, escaped c)]

/-- What units spell: two escaped surrogates that make a pair are joined. -/
def joinPairs : List (CodePoint × Bool) → Str
  | [] => []
  | [(c, _)] => [c]
  | (a, escaped) :: (b, escaped') :: rest =>
      if escaped ∧ escaped' ∧ isHigh a ∧ isLow b then joinSurrogates a b :: joinPairs rest
      else a :: joinPairs ((b, escaped') :: rest)

theorem join_cons {a b : CodePoint} {escaped escaped' : Bool} {rest : List (CodePoint × Bool)}
    (h : ¬(isHigh a = true ∧ isLow b = true)) :
    joinPairs ((a, escaped) :: (b, escaped') :: rest) =
      a :: joinPairs ((b, escaped') :: rest) := by
  rw [joinPairs, if_neg fun hpair => h ⟨hpair.2.2.1, hpair.2.2.2⟩]

theorem join_spelled (escaped : CodePoint → Bool) {text : Str} (h : NoSplitPair text) :
    joinPairs (text.flatMap (spelled escaped)) = text := by
  induction text with
  | nil => rfl
  | cons c text ih =>
      have hrest := ih h.tail
      rw [List.flatMap_cons, spelled]
      by_cases hlarge : 0x10000 ≤ c.val
      · rw [if_pos hlarge, List.cons_append, List.singleton_append, joinPairs,
          if_pos ⟨rfl, rfl, is_high_of c, is_low_of c⟩, join_high_low hlarge, hrest]
      · rw [if_neg hlarge, List.singleton_append]
        cases text with
        | nil => rfl
        | cons b text =>
            have hpair := (List.isChain_cons_cons.mp h).1
            rw [List.flatMap_cons, spelled] at hrest ⊢
            by_cases hnext : 0x10000 ≤ b.val
            · rw [if_pos hnext, List.cons_append] at hrest ⊢
              have hlow := not_low_of_high (is_high_of b)
              rw [join_cons (by rw [hlow]; exact fun h => Bool.false_ne_true h.2), hrest]
            · rw [if_neg hnext, List.singleton_append] at hrest ⊢
              rw [join_cons hpair, hrest]

end CatalogApi.CodePoints
