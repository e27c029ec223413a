import CatalogApi.Lib.Numerals
import Mathlib.Algebra.Group.Int.Defs
import Std.Data.String.ToInt

/-!
# Decimal texts

`str.isdecimal` of Python and the texts of integers. A decimal text that is not too long denotes a
natural number (`int_of_decimal`), and the text of an integer is decimal when the integer is not
negative, in which case `int` reads it back (`decimal_str`, `int_str`).
-/

namespace CatalogApi.Numerals

/-- `text.isdecimal()`. -/
def isDecimalText (text : String) : Bool :=
  text.toList ≠ [] && text.toList.all isDecimal

theorem is_decimal_text {text : String} :
    isDecimalText text = true ↔ text.toList ≠ [] ∧ ∀ c ∈ text.toList, isDecimal c = true := by
  rw [isDecimalText, Bool.and_eq_true, decide_eq_true_eq, List.all_eq_true]

theorem trim_eq_self {space : Char → Bool} {chars : List Char}
    (h : ∀ c ∈ chars, space c = false) : trim space chars = chars := by
  have hdrop : chars.dropWhile space = chars := by
    refine List.dropWhile_eq_self_iff.mpr fun hlen hspace => ?_
    rw [h _ (List.getElem_mem hlen)] at hspace
    cases hspace
  rw [trim, hdrop]
  refine List.rdropWhile_eq_self_iff.mpr fun hne hspace => ?_
  rw [h _ (List.getLast_mem hne)] at hspace
  cases hspace

/-- A decimal text denotes a number, unless it is too long. -/
theorem int_of_decimal {text : String} (h : isDecimalText text = true) :
    int text = if text.toList.length ≤ maxStrDigits then some (Int.ofNat (value text.toList))
      else none := by
  obtain ⟨hne, hall⟩ := is_decimal_text.mp h
  have hdigit : ∀ c ∈ text.toList, isDigitChar c = true := fun c hc => decimal_is_digit (hall c hc)
  have hbody : (strip text).toList = text.toList := by
    rw [strip, String.toList_ofList]
    exact trim_eq_self fun c hc => digit_no_space (hdigit c hc)
  have hstrip : isDigit (strip text) = true := by
    rw [isDigit, hbody, Bool.and_eq_true, List.all_eq_true]
    exact ⟨decide_eq_true hne, hdigit⟩
  have hconvertible : Convertible text ↔ text.toList.length ≤ maxStrDigits := by
    rw [Convertible, hbody]
    exact ⟨fun h => h.2.2, fun h => ⟨fun c hc => digit_no_separator (hdigit c hc), hall, h⟩⟩
  rw [int_of_digits hstrip, hbody]
  exact if_congr hconvertible rfl rfl

theorem int_decimal_nonneg {text : String} (h : isDecimalText text = true) {n : Int}
    (hint : int text = some n) : 0 ≤ n := by
  rw [int_of_decimal h] at hint
  split at hint
  case isTrue =>
    obtain rfl : Int.ofNat (value text.toList) = n := Option.some.inj hint
    exact Int.natCast_nonneg _
  case isFalse => cases hint

/-! ## The texts of integers -/

theorem ascii_digit {c : Char} (h : c.isDigit = true) :
    isDecimal c = true ∧ digitValue c = c.toNat - '0'.toNat := by
  rw [Char.isDigit_iff_toNat] at h
  have hrun : 0x30 ≤ c.toNat ∧ c.toNat ≤ 0x30 + 9 := h
  constructor
  · exact List.any_eq_true.mpr ⟨(0x30, 0x30 + 9), List.mem_cons_self, decide_eq_true hrun⟩
  · have hfind : decimalZeros.find? (fun first => first ≤ c.toNat ∧ c.toNat ≤ first + 9) =
        some 0x30 := List.find?_cons_of_pos (decide_eq_true hrun)
    rw [digitValue, hfind]
    rfl

theorem value_digits (n : Nat) : value (Nat.toDigits 10 n) = n := by
  have hfold : ∀ (chars : List Char) (total : Nat), (∀ c ∈ chars, c.isDigit = true) →
      chars.foldl (fun total digit => 10 * total + digitValue digit) total =
        Nat.ofDigitChars 10 chars total := by
    intro chars
    induction chars with
    | nil => exact fun _ _ => rfl
    | cons c chars ih =>
        intro total h
        rw [List.forall_mem_cons] at h
        rw [List.foldl_cons, Nat.ofDigitChars_cons, (ascii_digit h.1).2, ih _ h.2]
  rw [value, hfold _ _ fun c hc => Nat.isDigit_of_mem_toDigits (by decide) (by decide) hc]
  exact Nat.ofDigitChars_ten_toDigits

/-- `str(n)` is decimal for the numbers that are not negative. -/
theorem decimal_str (n : Int) : isDecimalText (toString n) = true ↔ 0 ≤ n := by
  rw [Int.toString_eq_repr, Int.repr_eq_if]
  split
  case isTrue hnonneg =>
    refine iff_of_true (is_decimal_text.mpr ?_) hnonneg
    rw [Nat.toList_repr]
    exact ⟨Nat.toDigits_ne_nil, fun c hc =>
      (ascii_digit (Nat.isDigit_of_mem_toDigits (by decide) (by decide) hc)).1⟩
  case isFalse hneg =>
    refine iff_of_false (fun h => ?_) hneg
    have hminus := (is_decimal_text.mp h).2 '-' (by simp)
    exact absurd hminus (by decide)

/-- `int(str(n))` for a number that is neither negative nor too long. -/
theorem int_str {n : Int} (hnonneg : 0 ≤ n) (hlt : n < 10 ^ maxStrDigits) :
    int (toString n) = some n := by
  have hrepr : (toString n).toList = Nat.toDigits 10 n.toNat := by
    rw [Int.toString_eq_repr, Int.repr_eq_if, if_pos hnonneg, Nat.toList_repr]
  have hlength : (Nat.toDigits 10 n.toNat).length ≤ maxStrDigits := by
    refine (Nat.length_toDigits_le_iff (by decide) (by decide)).mpr ?_
    rw [Int.toNat_lt hnonneg, Int.natCast_pow]
    exact hlt
  rw [int_of_decimal ((decimal_str n).mpr hnonneg), hrepr, if_pos hlength, value_digits]
  exact congrArg some (Int.toNat_of_nonneg hnonneg)

end CatalogApi.Numerals
