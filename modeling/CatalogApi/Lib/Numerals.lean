import Mathlib.Algebra.Group.Nat.Defs
import Mathlib.Data.List.DropRight

/-!
# Numerals in text

`str.strip`, `str.isdigit` and `int` of Python over Unicode 16. The three disagree: `isdigit` takes
digits that are no decimals, `strip` takes four separators that `int` does not skip, and `int` has
a limit on the length. `int_of_digits` says what `int` makes of a text that `isdigit` takes.
-/

namespace CatalogApi.Numerals

/-! ## Characters -/

/-- The zeros of the decimal digits, each with nine more after it. -/
def decimalZeros : List Nat :=
  [0x30, 0x660, 0x6F0, 0x7C0, 0x966, 0x9E6, 0xA66, 0xAE6, 0xB66, 0xBE6, 0xC66, 0xCE6, 0xD66,
    0xDE6, 0xE50, 0xED0, 0xF20, 0x1040, 0x1090, 0x17E0, 0x1810, 0x1946, 0x19D0, 0x1A80, 0x1A90,
    0x1B50, 0x1BB0, 0x1C40, 0x1C50, 0xA620, 0xA8D0, 0xA900, 0xA9D0, 0xA9F0, 0xAA50, 0xABF0,
    0xFF10, 0x104A0, 0x10D30, 0x10D40, 0x11066, 0x110F0, 0x11136, 0x111D0, 0x112F0, 0x11450,
    0x114D0, 0x11650, 0x116C0, 0x116D0, 0x116DA, 0x11730, 0x118E0, 0x11950, 0x11BF0, 0x11C50,
    0x11D50, 0x11DA0, 0x11F50, 0x16130, 0x16A60, 0x16AC0, 0x16B50, 0x16D70, 0x1CCF0, 0x1D7CE,
    0x1D7D8, 0x1D7E2, 0x1D7EC, 0x1D7F6, 0x1E140, 0x1E2F0, 0x1E4F0, 0x1E5F1, 0x1E950, 0x1FBF0]

/-- The runs of the digits that are no decimals, such as superscripts and circled digits. -/
def digitRuns : List (Nat × Nat) :=
  [(0xB2, 0xB3), (0xB9, 0xB9), (0x1369, 0x1371), (0x19DA, 0x19DA), (0x2070, 0x2070),
    (0x2074, 0x2079), (0x2080, 0x2089), (0x2460, 0x2468), (0x2474, 0x247C), (0x2488, 0x2490),
    (0x24EA, 0x24EA), (0x24F5, 0x24FD), (0x24FF, 0x24FF), (0x2776, 0x277E), (0x2780, 0x2788),
    (0x278A, 0x2792), (0x10A40, 0x10A43), (0x10E60, 0x10E68), (0x11052, 0x1105A),
    (0x1F100, 0x1F10A)]

/-- The runs of the whitespace characters. -/
def spaceRuns : List (Nat × Nat) :=
  [(0x9, 0xD), (0x1C, 0x20), (0x85, 0x85), (0xA0, 0xA0), (0x1680, 0x1680), (0x2000, 0x200A),
    (0x2028, 0x2029), (0x202F, 0x202F), (0x205F, 0x205F), (0x3000, 0x3000)]

/-- The character lies in one of the runs. -/
def inRuns (runs : List (Nat × Nat)) (c : Char) : Bool :=
  runs.any fun run => run.1 ≤ c.toNat ∧ c.toNat ≤ run.2

/-- The runs of the decimal digits. -/
def decimalRuns : List (Nat × Nat) := decimalZeros.map fun first => (first, first + 9)

/-- `c.isdecimal()`. -/
def isDecimal (c : Char) : Bool := inRuns decimalRuns c

/-- The value of a decimal digit. -/
def digitValue (c : Char) : Nat :=
  ((decimalZeros.find? fun first => first ≤ c.toNat ∧ c.toNat ≤ first + 9).map (c.toNat - ·)).getD 0

/-- `c.isdigit()`. -/
def isDigitChar (c : Char) : Bool := inRuns (decimalRuns ++ digitRuns) c

/-- `c.isspace()`. -/
def isSpace (c : Char) : Bool := inRuns spaceRuns c

/-- The separators of files, groups, records and units. -/
def isSeparator (c : Char) : Bool := inRuns [(0x1C, 0x1F)] c

/-- The whitespace that `int` skips around a numeral: all but the four separators. -/
def isIntSpace (c : Char) : Bool := isSpace c && !isSeparator c

/-! ## Texts -/

/-- The characters without those at both ends that meet the test. -/
def trim (space : Char → Bool) (chars : List Char) : List Char :=
  (chars.dropWhile space).rdropWhile space

/-- `text.strip()`. -/
def strip (text : String) : String := .ofList (trim isSpace text.toList)

/-- `text.isdigit()`. -/
def isDigit (text : String) : Bool :=
  text.toList ≠ [] && text.toList.all isDigitChar

/-- The number that decimal digits denote. -/
def value (digits : List Char) : Nat :=
  digits.foldl (fun total digit => 10 * total + digitValue digit) 0

/-- `sys.int_info.default_max_str_digits`. -/
def maxStrDigits : Nat := 4300

/-- The number of a numeral without a sign: groups of decimal digits with one underscore between
them, not too many in all. -/
def unsigned (numeral : List Char) : Option Nat :=
  let groups := numeral.splitOn '_'
  let digits := groups.flatten
  if [] ∉ groups ∧ digits.all isDecimal ∧ digits.length ≤ maxStrDigits then some (value digits)
  else none

/-- `int(text)`, and `none` for a `ValueError`. -/
def int (text : String) : Option Int :=
  match trim isIntSpace text.toList with
  | '-' :: numeral => (unsigned numeral).map fun n => -Int.ofNat n
  | '+' :: numeral => (unsigned numeral).map Int.ofNat
  | numeral => (unsigned numeral).map Int.ofNat

/-! ## Trimming -/

theorem drop_while_congr {space space' : Char → Bool} {chars : List Char}
    (h : ∀ c ∈ chars, space c = space' c) : chars.dropWhile space = chars.dropWhile space' := by
  induction chars with
  | nil => rfl
  | cons c chars ih =>
      rw [List.dropWhile_cons, List.dropWhile_cons, h c List.mem_cons_self,
        ih fun c hc => h c (List.mem_cons_of_mem _ hc)]

theorem mem_drop_while {space : Char → Bool} {chars : List Char} {c : Char} (h : c ∈ chars)
    (hspace : space c = false) : c ∈ chars.dropWhile space := by
  rw [← @List.takeWhile_append_dropWhile _ space chars] at h
  rcases List.mem_append.mp h with h | h
  · rw [List.mem_takeWhile_imp h] at hspace
    cases hspace
  · exact h

theorem mem_of_mem_trim {space : Char → Bool} {chars : List Char} {c : Char}
    (h : c ∈ trim space chars) : c ∈ chars :=
  List.dropWhile_subset _ ((List.rdropWhile_prefix _ _).subset h)

/-- Only characters that meet the test are trimmed off. -/
theorem mem_trim {space : Char → Bool} {chars : List Char} {c : Char} (h : c ∈ chars)
    (hspace : space c = false) : c ∈ trim space chars :=
  List.mem_reverse.mpr (mem_drop_while (List.mem_reverse.mpr (mem_drop_while h hspace)) hspace)

theorem trim_congr {space space' : Char → Bool} {chars : List Char}
    (h : ∀ c ∈ chars, space c = space' c) : trim space chars = trim space' chars := by
  rw [trim, trim, drop_while_congr h]
  refine congrArg List.reverse (drop_while_congr fun c hc => h c ?_)
  exact List.dropWhile_subset _ (List.mem_reverse.mp hc)

/-- Two runs that share no character. -/
theorem in_runs_disjoint {runs runs' : List (Nat × Nat)}
    (h : ∀ run ∈ runs, ∀ run' ∈ runs', run.2 < run'.1 ∨ run'.2 < run.1) {c : Char}
    (hin : inRuns runs c = true) : inRuns runs' c = false := by
  obtain ⟨run, hrun, hc⟩ := List.any_eq_true.mp hin
  refine List.any_eq_false.mpr fun run' hrun' => ?_
  rw [decide_eq_true_eq] at hc ⊢
  have hapart := h run hrun run' hrun'
  omega

theorem digit_no_space {c : Char} (h : isDigitChar c = true) : isSpace c = false :=
  in_runs_disjoint (by decide +kernel) h

theorem digit_no_separator {c : Char} (h : isDigitChar c = true) : isSeparator c = false :=
  in_runs_disjoint (by decide +kernel) h

theorem decimal_is_digit {c : Char} (h : isDecimal c = true) : isDigitChar c = true := by
  rw [isDigitChar, inRuns, List.any_append, Bool.or_eq_true]
  exact Or.inl h

/-- A text that is digits once stripped has only digits and whitespace. -/
theorem digits_or_space {text : String} (h : isDigit (strip text) = true) {c : Char}
    (hc : c ∈ text.toList) : isDigitChar c = true ∨ isSpace c = true := by
  rw [isDigit, strip, String.toList_ofList, Bool.and_eq_true, List.all_eq_true] at h
  cases hspace : isSpace c with
  | true => exact Or.inr rfl
  | false => exact Or.inl (h.2 c (mem_trim hc hspace))

theorem not_digits_or_space {c : Char} (hsign : c = '_' ∨ c = '-' ∨ c = '+') :
    ¬(isDigitChar c = true ∨ isSpace c = true) := by
  rcases hsign with rfl | rfl | rfl
  · decide
  · decide
  · decide

theorem unsigned_plain {numeral : List Char} (hne : numeral ≠ []) (hlacks : '_' ∉ numeral) :
    unsigned numeral =
      if numeral.all isDecimal ∧ numeral.length ≤ maxStrDigits then some (value numeral)
      else none := by
  have hgroups : numeral.splitOn '_' = [numeral] := by
    refine List.splitOn_eq_singleton_of_beq_eq_false fun c hc => ?_
    rw [beq_eq_false_iff_ne]
    rintro rfl
    exact hlacks hc
  rw [unsigned, hgroups]
  simp [hne.symm]

theorem int_plain {text : String} (h : isDigit (strip text) = true) :
    int text = (unsigned (trim isIntSpace text.toList)).map Int.ofNat := by
  have hsign : ∀ c ∈ trim isIntSpace text.toList, c ≠ '-' ∧ c ≠ '+' := by
    intro c hc
    have hmem := digits_or_space h (mem_of_mem_trim hc)
    exact ⟨fun heq => not_digits_or_space (Or.inr (Or.inl heq)) hmem,
      fun heq => not_digits_or_space (Or.inr (Or.inr heq)) hmem⟩
  unfold int
  split
  · rename_i numeral htrim
    exact absurd rfl (hsign '-' (htrim ▸ List.mem_cons_self)).1
  · rename_i numeral htrim
    exact absurd rfl (hsign '+' (htrim ▸ List.mem_cons_self)).2
  · rfl

/-- The text is decimals, at most as many as `int` takes, with none of the separators around
them. -/
def Convertible (text : String) : Prop :=
  (∀ c ∈ text.toList, isSeparator c = false) ∧
    (∀ c ∈ (strip text).toList, isDecimal c = true) ∧
    (strip text).toList.length ≤ maxStrDigits

instance (text : String) : Decidable (Convertible text) :=
  inferInstanceAs (Decidable (_ ∧ _ ∧ _))

/-- Of the texts that are digits once stripped, `int` converts the convertible ones. -/
theorem int_of_digits {text : String} (h : isDigit (strip text) = true) :
    int text = if Convertible text then some (Int.ofNat (value (strip text).toList)) else none := by
  have hne : (strip text).toList ≠ [] := by
    rw [isDigit, Bool.and_eq_true] at h
    exact of_decide_eq_true h.1
  have hbody : (strip text).toList = trim isSpace text.toList := by
    rw [strip, String.toList_ofList]
  rw [hbody] at hne ⊢
  have hconvertible : Convertible text ↔ (∀ c ∈ text.toList, isSeparator c = false) ∧
      (trim isSpace text.toList).all isDecimal = true ∧
      (trim isSpace text.toList).length ≤ maxStrDigits := by
    rw [Convertible, hbody, List.all_eq_true]
  have hnumeral : trim isIntSpace text.toList ≠ [] := by
    obtain ⟨c, hc⟩ := List.exists_mem_of_ne_nil _ hne
    have hdigit : isDigitChar c = true := by
      rw [isDigit, hbody, Bool.and_eq_true, List.all_eq_true] at h
      exact h.2 c hc
    refine List.ne_nil_of_mem (mem_trim (mem_of_mem_trim hc) ?_)
    rw [isIntSpace, digit_no_space hdigit, Bool.false_and]
  have hlacks : '_' ∉ trim isIntSpace text.toList := fun hc =>
    not_digits_or_space (Or.inl rfl) (digits_or_space h (mem_of_mem_trim hc))
  rw [int_plain h, unsigned_plain hnumeral hlacks]
  by_cases hsep : ∀ c ∈ text.toList, isSeparator c = false
  · have hsame : trim isIntSpace text.toList = trim isSpace text.toList := by
      refine trim_congr fun c hc => ?_
      rw [isIntSpace, hsep c hc, Bool.not_false, Bool.and_true]
    rw [hsame]
    by_cases hall : (trim isSpace text.toList).all isDecimal = true ∧
        (trim isSpace text.toList).length ≤ maxStrDigits
    · rw [if_pos hall, if_pos (hconvertible.mpr ⟨hsep, hall⟩), Option.map_some]
    · rw [if_neg hall, if_neg fun hcond => hall (hconvertible.mp hcond).2, Option.map_none]
  · -- a separator stays in the numeral, and it is no decimal
    obtain ⟨c, hc, hc'⟩ : ∃ c ∈ text.toList, isSeparator c = true := by
      simpa using hsep
    have hmem : c ∈ trim isIntSpace text.toList := by
      refine mem_trim hc ?_
      rw [isIntSpace, hc', Bool.not_true, Bool.and_false]
    rw [if_neg, if_neg fun hcond => hsep (hconvertible.mp hcond).1, Option.map_none]
    rintro ⟨hall, -⟩
    have hdigit := decimal_is_digit (List.all_eq_true.mp hall c hmem)
    rw [digit_no_separator hdigit] at hc'
    cases hc'

end CatalogApi.Numerals
