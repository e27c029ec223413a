import Mathlib.Data.List.Nodup

/-!
# Barcode forms

`_barcode_forms` of `api/routers/lookup.py` splits on the length and the leading zeros of a barcode.
For a GTIN the split comes to the same as one on its 14-digit padding (`forms_of_gtin`), so a form
of a GTIN is any GTIN with the same padding (`mem_barcode_forms`).
-/

namespace CatalogApi.Lookup

/-- The cases of `_barcode_forms`, on characters. -/
def formsOf (digits : List Char) : List (List Char) :=
  if digits.length = 12 then [digits, '0' :: digits, '0' :: '0' :: digits]
  else if digits.length = 13 then
    if digits[0]? = some '0' then [digits.drop 1, digits, '0' :: digits]
    else [digits, '0' :: digits]
  else if digits.length = 14 ∧ digits[0]? = some '0' then
    if digits[1]? = some '0' then [digits.drop 2, digits.drop 1, digits]
    else [digits.drop 1, digits]
  else [digits]

/-- `_barcode_forms`. -/
def barcodeForms (normalized : String) : List String :=
  (formsOf normalized.toList).map String.ofList

/-- The text has the length of a GTIN-12, GTIN-13 or GTIN-14. -/
def Gtin (text : String) : Prop :=
  text.toList.length = 12 ∨ text.toList.length = 13 ∨ text.toList.length = 14

instance (text : String) : Decidable (Gtin text) := inferInstanceAs (Decidable (_ ∨ _ ∨ _))

/-- The characters right-aligned in a field of 14 that is filled with zeros. -/
def padded (digits : List Char) : List Char :=
  List.replicate (14 - digits.length) '0' ++ digits

/-- The forms of a GTIN by its 14-digit padding. -/
def paddedForms (field : List Char) : List (List Char) :=
  if field[0]? = some '0' then
    if field[1]? = some '0' then [field.drop 2, field.drop 1, field] else [field.drop 1, field]
  else [field]

theorem padded_twelve {digits : List Char} (h : digits.length = 12) :
    padded digits = '0' :: '0' :: digits := by
  rw [padded, h]
  rfl

theorem padded_thirteen {digits : List Char} (h : digits.length = 13) :
    padded digits = '0' :: digits := by
  rw [padded, h]
  rfl

theorem padded_fourteen {digits : List Char} (h : digits.length = 14) : padded digits = digits := by
  rw [padded, h]
  rfl

theorem length_padded {digits : List Char} (h : digits.length ≤ 14) : (padded digits).length = 14 := by
  rw [padded, List.length_append, List.length_replicate]
  omega

/-- The forms of a GTIN depend on its padding alone. -/
theorem forms_of_gtin {digits : List Char}
    (h : digits.length = 12 ∨ digits.length = 13 ∨ digits.length = 14) :
    formsOf digits = paddedForms (padded digits) := by
  rcases h with h | h | h
  · rw [padded_twelve h, formsOf, if_pos h]
    rfl
  · rw [padded_thirteen h, formsOf, if_neg (by omega), if_pos h]
    rfl
  · rw [padded_fourteen h, formsOf, if_neg (by omega), if_neg (by omega), paddedForms]
    by_cases hzero : digits[0]? = some '0'
    · rw [if_pos ⟨h, hzero⟩, if_pos hzero]
    · rw [if_neg fun hboth => hzero hboth.2, if_neg hzero]

theorem forms_of_other {digits : List Char}
    (h : ¬(digits.length = 12 ∨ digits.length = 13 ∨ digits.length = 14)) :
    formsOf digits = [digits] := by
  rw [formsOf, if_neg (by omega), if_neg (by omega), if_neg (by omega)]

/-- The forms by a padding are the GTINs that have it. -/
theorem mem_padded_forms {field : List Char} (hfield : field.length = 14) {form : List Char} :
    form ∈ paddedForms field ↔
      (form.length = 12 ∨ form.length = 13 ∨ form.length = 14) ∧ padded form = field := by
  obtain ⟨first, second, rest, rfl⟩ : ∃ first second rest, field = first :: second :: rest := by
    match field, hfield with
    | first :: second :: rest, _ => exact ⟨first, second, rest, rfl⟩
  have hrest : rest.length = 12 := by simpa using hfield
  constructor
  · intro h
    have hself : form = first :: second :: rest →
        (form.length = 12 ∨ form.length = 13 ∨ form.length = 14) ∧
          padded form = first :: second :: rest := by
      rintro rfl
      exact ⟨Or.inr (Or.inr hfield), padded_fourteen hfield⟩
    have hshort : first = '0' → form = second :: rest →
        (form.length = 12 ∨ form.length = 13 ∨ form.length = 14) ∧
          padded form = first :: second :: rest := by
      rintro rfl rfl
      have hlength : (second :: rest).length = 13 := congrArg Nat.succ hrest
      exact ⟨Or.inr (Or.inl hlength), padded_thirteen hlength⟩
    simp only [paddedForms, List.getElem?_cons_zero, List.getElem?_cons_succ, Option.some.injEq,
      List.drop_succ_cons, List.drop_zero] at h
    split at h
    case isTrue hfirst =>
      split at h
      case isTrue hsecond =>
        simp only [List.mem_cons, List.not_mem_nil, or_false] at h
        rcases h with rfl | h | h
        · refine ⟨Or.inl hrest, ?_⟩
          rw [padded_twelve hrest, hfirst, hsecond]
        · exact hshort hfirst h
        · exact hself h
      case isFalse =>
        simp only [List.mem_cons, List.not_mem_nil, or_false] at h
        rcases h with h | h
        · exact hshort hfirst h
        · exact hself h
    case isFalse => exact hself (List.mem_singleton.mp h)
  · rintro ⟨h | h | h, heq⟩
    · rw [padded_twelve h] at heq
      simp [← heq, paddedForms]
    · rw [padded_thirteen h] at heq
      rw [← heq, paddedForms, List.getElem?_cons_zero, if_pos rfl]
      split <;> simp
    · rw [padded_fourteen h] at heq
      rw [heq, paddedForms]
      split
      · split <;> simp
      · simp

/-! ## Forms of texts -/

/-- A form of a barcode is the barcode itself or, between GTINs, one with the same padding. -/
theorem mem_barcode_forms (a b : String) : b ∈ barcodeForms a ↔
    a = b ∨ (Gtin a ∧ Gtin b ∧ padded a.toList = padded b.toList) := by
  have hmem : b ∈ barcodeForms a ↔ b.toList ∈ formsOf a.toList := by
    rw [barcodeForms, List.mem_map]
    constructor
    · rintro ⟨form, hform, rfl⟩
      rwa [String.toList_ofList]
    · exact fun h => ⟨b.toList, h, String.ofList_toList⟩
  have hself : a = b → Gtin a → padded b.toList = padded a.toList := by
    rintro rfl -
    rfl
  rw [hmem]
  by_cases ha : Gtin a
  · have hfield : (padded a.toList).length = 14 := length_padded (by unfold Gtin at ha; omega)
    rw [forms_of_gtin ha, mem_padded_forms hfield]
    constructor
    · exact fun h => Or.inr ⟨ha, h.1, h.2.symm⟩
    · rintro (rfl | h)
      · exact ⟨ha, rfl⟩
      · exact ⟨h.2.1, h.2.2.symm⟩
  · rw [forms_of_other ha, List.mem_singleton, String.toList_inj]
    constructor
    · exact fun h => Or.inl h.symm
    · rintro (h | h)
      · exact h.symm
      · exact absurd h.1 ha

/-- Barcodes that are forms of each other have the same forms, in the same order. -/
theorem barcode_forms_eq {a b : String} (h : b ∈ barcodeForms a) :
    barcodeForms a = barcodeForms b := by
  rcases (mem_barcode_forms a b).mp h with rfl | ⟨ha, hb, heq⟩
  · rfl
  · rw [barcodeForms, barcodeForms, forms_of_gtin ha, forms_of_gtin hb, heq]

theorem barcode_forms_equivalence : Equivalence fun a b => b ∈ barcodeForms a := by
  have hself : ∀ a, a ∈ barcodeForms a := fun a => (mem_barcode_forms a a).mpr (Or.inl rfl)
  constructor
  · exact hself
  · intro a b h
    rw [← barcode_forms_eq h]
    exact hself a
  · intro a b c hab hbc
    rwa [barcode_forms_eq hab]

/-- The forms differ in their length. -/
theorem forms_lengths (digits : List Char) : ((formsOf digits).map List.length).Nodup := by
  rw [formsOf]
  split
  case isTrue =>
    simp only [List.map_cons, List.map_nil, List.length_cons, List.nodup_cons, List.mem_cons]
    simp
    omega
  case isFalse =>
    split
    case isTrue h =>
      split
      case isTrue => simp [h]
      case isFalse => simp
    case isFalse =>
      split
      case isTrue h =>
        split
        case isTrue => simp [h.1]
        case isFalse => simp [h.1]
      case isFalse => simp

theorem barcode_forms_nodup (a : String) : (barcodeForms a).Nodup := by
  refine (forms_lengths a.toList).of_map.map fun form form' heq => ?_
  rwa [String.ofList_inj] at heq

end CatalogApi.Lookup
