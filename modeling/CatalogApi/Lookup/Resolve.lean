import CatalogApi.Lib.ByKey
import CatalogApi.Lookup.Barcodes

/-!
# Identifier lookup

`lookup_identifier` resolves a normalized value through the open alias rows, one form by a single
probe and several by one batched query. Either way it answers with the items that the forms name and
that have releases (`items_lookup`), so two barcodes with the same forms are answered with the same
items (`barcodes_resolve_alike`).
-/

namespace CatalogApi.Lookup

open ByKey

/-! ## The tables -/

/-- A row of `provider_aliases`; a row with an end is closed. -/
structure AliasRow (Item : Type) where
  provider : String
  entityKind : String
  externalId : String
  nativeId : Item
  validTo : Option Int

/-- `_RELEASE_KIND`. -/
def releaseKind : String := "release"

/-- The row is open and names a release under the provider. -/
def AliasRow.Open {Item : Type} (row : AliasRow Item) (provider : String) : Prop :=
  row.provider = provider ∧ row.entityKind = releaseKind ∧ row.validTo = none

instance {Item : Type} (row : AliasRow Item) (provider : String) : Decidable (row.Open provider) :=
  inferInstanceAs (Decidable (_ ∧ _ ∧ _))

/-- `provider_aliases`, with at most one open row for a provider, an entity kind and a value. -/
structure Aliases (Item : Type) where
  rows : List (AliasRow Item)
  unique : ∀ row ∈ rows, ∀ row' ∈ rows, row.validTo = none → row'.validTo = none →
    row.provider = row'.provider → row.entityKind = row'.entityKind →
    row.externalId = row'.externalId → row.nativeId = row'.nativeId

section Lookup

variable {Item Release : Type} [LinearOrder Item]

/-- `resolve_alias_native_id`. -/
def resolveAliasNativeId (aliases : Aliases Item) (provider externalId : String) : Option Item :=
  (aliases.rows.find? fun row => row.Open provider ∧ row.externalId = externalId).map (·.nativeId)

/-- `resolve_alias_native_ids`. -/
def resolveAliasNativeIds (aliases : Aliases Item) (provider : String)
    (externalIds : List String) : List (String × Item) :=
  (aliases.rows.filter fun row => row.Open provider ∧ row.externalId ∈ externalIds).map fun row =>
    (row.externalId, row.nativeId)

/-- What the lookup reads: the vocabulary's providers and their normalization, the aliases, and
`releases_for_native_id`. -/
structure Catalog (Item Release : Type) where
  lookupProviders : List String
  normalizeLookupValue : String → String → Option String
  aliases : Aliases Item
  releasesForNativeId : Item → List Release

/-! ## The response -/

/-- `LookupMatch`. -/
structure LookupMatch (Item Release : Type) where
  gmId : Item
  externalId : String
  releases : List Release

/-- `LookupResponse`. -/
structure LookupResponse (Item Release : Type) where
  provider : String
  value : String
  normalized : String
  gmId : Item
  releases : List Release
  matchedRows : List (LookupMatch Item Release)

/-- The answers of the lookup of a service that is ready. -/
inductive Answer (Item Release : Type)
  | invalidProvider
  | notFound
  | found (response : LookupResponse Item Release)

/-- The forms that are probed for a normalized value. -/
def probedForms (provider normalized : String) : List String :=
  if provider = "barcode" then barcodeForms normalized else [normalized]

/-- `resolved`: the forms that an open alias carries, with the item each names. -/
def resolve (aliases : Aliases Item) (provider : String) (normalized : Option String) :
    List (String × Item) :=
  match normalized with
  | none => []
  | some text =>
      if text = "" then []
      else
        match probedForms provider text with
        | [form] => ((resolveAliasNativeId aliases provider form).map fun item => (form, item)).toList
        | forms => resolveAliasNativeIds aliases provider forms

/-- The rows whose item has a release. -/
def loadedRows (catalog : Catalog Item Release) (resolved : List (String × Item)) :
    List (Item × String) :=
  (resolved.filter fun entry => catalog.releasesForNativeId entry.2 ≠ []).map fun entry =>
    (entry.2, entry.1)

/-- The sort key of a row: exact match first, then the shortest stored value, then the item. -/
def rowKey (normalized : Option String) (row : Item × String) : Bool ×ₗ Nat ×ₗ Item :=
  toLex (decide (some row.2 ≠ normalized), toLex (row.2.length, row.1))

/-- `lookup_identifier`. -/
def lookupIdentifier (catalog : Catalog Item Release) (provider value : String) :
    Answer Item Release :=
  if provider ∉ catalog.lookupProviders then .invalidProvider
  else
    let normalized := catalog.normalizeLookupValue provider value
    let rows := loadedRows catalog (resolve catalog.aliases provider normalized)
    let single := (rows.map (·.1)).eraseDups.length = 1
    let rows := if single then rows else sortBy (rowKey normalized) rows
    match rows with
    | [] => .notFound
    | primary :: _ => .found
        { provider, value
          normalized := normalized.getD ""
          gmId := primary.1
          releases := catalog.releasesForNativeId primary.1
          matchedRows := if single then [] else rows.map fun row =>
            ⟨row.1, row.2, catalog.releasesForNativeId row.1⟩ }

/-- The items an answer names, each with its releases. -/
def Answer.items : Answer Item Release → Set (Item × List Release)
  | .invalidProvider => ∅
  | .notFound => ∅
  | .found response =>
      if response.matchedRows.isEmpty then {(response.gmId, response.releases)}
      else {item | ∃ found ∈ response.matchedRows, (found.gmId, found.releases) = item}

/-! ## What is resolved -/

omit [LinearOrder Item] in
/-- One probe and the batched query resolve the same rows. -/
theorem mem_resolve {aliases : Aliases Item} {provider text form : String} {item : Item}
    (htext : text ≠ "") : (form, item) ∈ resolve aliases provider (some text) ↔
      form ∈ probedForms provider text ∧ ∃ row ∈ aliases.rows, row.Open provider ∧
        row.externalId = form ∧ row.nativeId = item := by
  have hmany : ∀ forms : List String, (form, item) ∈ resolveAliasNativeIds aliases provider forms ↔
      form ∈ forms ∧ ∃ row ∈ aliases.rows, row.Open provider ∧ row.externalId = form ∧
        row.nativeId = item := by
    intro forms
    rw [resolveAliasNativeIds, List.mem_map]
    constructor
    · rintro ⟨row, hrow, heq⟩
      obtain ⟨hmem, hopen, hform⟩ := by simpa using hrow
      rw [Prod.mk.injEq] at heq
      exact ⟨heq.1 ▸ hform, row, hmem, hopen, heq⟩
    · rintro ⟨hform, row, hrow, hopen, rfl, rfl⟩
      exact ⟨row, List.mem_filter.mpr ⟨hrow, by simp [hopen, hform]⟩, rfl⟩
  rw [resolve]
  simp only [if_neg htext]
  split
  case h_1 only hforms =>
    rw [hforms, List.mem_singleton, Option.mem_toList, resolveAliasNativeId]
    cases hfind : aliases.rows.find? fun row => row.Open provider ∧ row.externalId = only with
    | none =>
        refine iff_of_false (by simp) ?_
        rintro ⟨rfl, row, hrow, hopen, hform, -⟩
        exact List.find?_eq_none.mp hfind row hrow (by simp [hopen, hform])
    | some found =>
        have hfound := List.mem_of_find?_eq_some hfind
        obtain ⟨hopen, hform⟩ := by simpa using List.find?_some hfind
        simp only [Option.map_some, Option.some.injEq, Prod.mk.injEq]
        constructor
        · rintro ⟨rfl, rfl⟩
          exact ⟨rfl, found, hfound, hopen, hform, rfl⟩
        · rintro ⟨rfl, row, hrow, hopen', hform', rfl⟩
          refine ⟨rfl, ?_⟩
          exact aliases.unique found hfound row hrow hopen.2.2 hopen'.2.2
            (hopen.1.trans hopen'.1.symm) (hopen.2.1.trans hopen'.2.1.symm)
            (hform.trans hform'.symm)
  case h_2 => exact hmany _

omit [LinearOrder Item] in
/-- The items of the loaded rows. -/
theorem loaded_items {catalog : Catalog Item Release} {provider text : String} (htext : text ≠ "")
    {item : Item × List Release} :
    (∃ row ∈ loadedRows catalog (resolve catalog.aliases provider (some text)),
      (row.1, catalog.releasesForNativeId row.1) = item) ↔
    ∃ form ∈ probedForms provider text, ∃ row ∈ catalog.aliases.rows,
      row.Open provider ∧ row.externalId = form ∧ catalog.releasesForNativeId row.nativeId ≠ [] ∧
        (row.nativeId, catalog.releasesForNativeId row.nativeId) = item := by
  constructor
  · rintro ⟨row, hrow, rfl⟩
    obtain ⟨⟨form, native⟩, hentry, rfl⟩ := List.mem_map.mp hrow
    obtain ⟨hmem, hreleases⟩ := List.mem_filter.mp hentry
    obtain ⟨hform, stored, hstored, hopen, hexternal, hnative⟩ := (mem_resolve htext).mp hmem
    refine ⟨form, hform, stored, hstored, hopen, hexternal, ?_, ?_⟩
    · rw [hnative]
      exact of_decide_eq_true hreleases
    · rw [hnative]
  · rintro ⟨form, hform, stored, hstored, hopen, hexternal, hreleases, rfl⟩
    refine ⟨(stored.nativeId, form), List.mem_map.mpr ⟨(form, stored.nativeId), ?_, rfl⟩, rfl⟩
    refine List.mem_filter.mpr ⟨(mem_resolve htext).mpr ?_, decide_eq_true hreleases⟩
    exact ⟨hform, stored, hstored, hopen, hexternal, rfl⟩

theorem eq_of_one_distinct {l : List Item} (h : l.eraseDups.length = 1) {a b : Item} (ha : a ∈ l)
    (hb : b ∈ l) : a = b := by
  obtain ⟨only, honly⟩ := List.length_eq_one_iff.mp h
  rw [← List.mem_eraseDups, honly, List.mem_singleton] at ha hb
  rw [ha, hb]

/-- An answer names the items that the probed forms name and that have releases. -/
theorem items_lookup (catalog : Catalog Item Release) {provider value text : String}
    (hprovider : provider ∈ catalog.lookupProviders)
    (hnormalize : catalog.normalizeLookupValue provider value = some text) (htext : text ≠ "") :
    (lookupIdentifier catalog provider value).items =
      {item | ∃ form ∈ probedForms provider text, ∃ row ∈ catalog.aliases.rows,
        row.Open provider ∧ row.externalId = form ∧ catalog.releasesForNativeId row.nativeId ≠ [] ∧
          (row.nativeId, catalog.releasesForNativeId row.nativeId) = item} := by
  rw [lookupIdentifier, if_neg (not_not.mpr hprovider), hnormalize]
  dsimp only
  set rows := loadedRows catalog (resolve catalog.aliases provider (some text)) with hrows
  have hloaded : ∀ item : Item × List Release,
      (∃ row ∈ rows, (row.1, catalog.releasesForNativeId row.1) = item) ↔
      ∃ form ∈ probedForms provider text, ∃ row ∈ catalog.aliases.rows,
        row.Open provider ∧ row.externalId = form ∧ catalog.releasesForNativeId row.nativeId ≠ [] ∧
          (row.nativeId, catalog.releasesForNativeId row.nativeId) = item := by
    intro item
    rw [hrows]
    exact loaded_items htext
  by_cases hsingle : (rows.map (·.1)).eraseDups.length = 1
  · simp only [if_pos hsingle]
    cases hcases : rows with
    | nil =>
        rw [hcases] at hsingle
        cases hsingle
    | cons primary rest =>
        refine Set.ext fun item => ?_
        rw [Set.mem_ofPred_eq, ← hloaded item, Answer.items, List.isEmpty_nil, if_pos rfl,
          Set.mem_singleton_iff]
        constructor
        · rintro rfl
          exact ⟨primary, hcases ▸ List.mem_cons_self, rfl⟩
        · rintro ⟨row, hrow, rfl⟩
          have hprimary : primary ∈ rows := hcases ▸ List.mem_cons_self
          rw [eq_of_one_distinct hsingle (List.mem_map_of_mem hrow) (List.mem_map_of_mem hprimary)]
  · simp only [if_neg hsingle]
    have hmem : ∀ row, row ∈ sortBy (rowKey (some text)) rows ↔ row ∈ rows := fun _ => mem_sort_by
    refine Set.ext fun item => ?_
    rw [Set.mem_ofPred_eq, ← hloaded item]
    cases hcases : sortBy (rowKey (some text)) rows with
    | nil =>
        rw [sort_by_eq_nil.mp hcases]
        simp [Answer.items]
    | cons primary rest =>
        rw [hcases] at hmem
        show (∃ found ∈ (primary :: rest).map fun row =>
          (⟨row.1, row.2, catalog.releasesForNativeId row.1⟩ : LookupMatch Item Release),
          (found.gmId, found.releases) = item) ↔ _
        constructor
        · rintro ⟨found, hfound, heq⟩
          obtain ⟨row, hrow, rfl⟩ := List.mem_map.mp hfound
          exact ⟨row, (hmem row).mp hrow, heq⟩
        · rintro ⟨row, hrow, heq⟩
          exact ⟨_, List.mem_map_of_mem ((hmem row).mpr hrow), heq⟩

/-- Barcodes with the same forms resolve to the same items and releases. -/
theorem barcodes_resolve_alike (catalog : Catalog Item Release) {a b : String}
    (hforms : b ∈ barcodeForms a)
    (hnormalize : ∀ text ∈ [a, b], text ≠ "" →
      catalog.normalizeLookupValue "barcode" text = some text) :
    (lookupIdentifier catalog "barcode" a).items = (lookupIdentifier catalog "barcode" b).items := by
  by_cases hprovider : "barcode" ∈ catalog.lookupProviders
  · by_cases hempty : a = "" ∨ b = ""
    · have hsame : a = b := by
        rcases hempty with rfl | rfl
        · exact (List.mem_singleton.mp hforms).symm
        · exact List.mem_singleton.mp (barcode_forms_equivalence.symm hforms)
      rw [hsame]
    · rw [not_or] at hempty
      rw [items_lookup catalog hprovider (hnormalize a (by simp) hempty.1) hempty.1,
        items_lookup catalog hprovider (hnormalize b (by simp) hempty.2) hempty.2]
      simp only [probedForms, if_pos, barcode_forms_eq hforms]
  · rw [lookupIdentifier, lookupIdentifier, if_pos hprovider, if_pos hprovider]

end Lookup

/-- Barcode forms are GTIN equivalence: between the texts it is an equivalence whose classes are the
forms, without repetitions, and barcodes of digits that are forms of each other resolve alike. -/
theorem barcode_forms_gtin {Item Release : Type} [LinearOrder Item]
    (catalog : Catalog Item Release)
    (hnormalize : ∀ text, text ≠ "" → (∀ c ∈ text.toList, c.isDigit = true) →
      catalog.normalizeLookupValue "barcode" text = some text) :
    (∀ a b, b ∈ barcodeForms a ↔
      a = b ∨ (Gtin a ∧ Gtin b ∧ padded a.toList = padded b.toList)) ∧
    (Equivalence fun a b => b ∈ barcodeForms a) ∧
    (∀ a b, b ∈ barcodeForms a → ∀ form, form ∈ barcodeForms a ↔ form ∈ barcodeForms b) ∧
    (∀ a, (barcodeForms a).Nodup) ∧
    ∀ a b, (∀ c ∈ a.toList, c.isDigit = true) → (∀ c ∈ b.toList, c.isDigit = true) →
      b ∈ barcodeForms a →
        (lookupIdentifier catalog "barcode" a).items =
          (lookupIdentifier catalog "barcode" b).items := by
  refine ⟨mem_barcode_forms, barcode_forms_equivalence, fun a b h form => ?_, barcode_forms_nodup,
    fun a b ha hb h => barcodes_resolve_alike catalog h fun text htext hne => ?_⟩
  · rw [barcode_forms_eq h]
  · rcases List.mem_pair.mp htext with rfl | rfl
    · exact hnormalize _ hne ha
    · exact hnormalize _ hne hb

/-- Two aliases of one GTIN that name two items, and a closed one. -/
def threeAliases : Aliases Nat where
  rows := [⟨"barcode", "release", "036000291452", 1, none⟩,
    ⟨"barcode", "release", "0036000291452", 2, none⟩,
    ⟨"barcode", "release", "00036000291452", 3, some 7⟩]
  unique := by decide

/-- A catalog over them that keeps the digits of a barcode. -/
def digitCatalog : Catalog Nat String where
  lookupProviders := ["barcode", "catalog_number", "matrix"]
  normalizeLookupValue provider value :=
    let kept := if provider = "barcode" then String.ofList (value.toList.filter (·.isDigit))
      else value
    if kept = "" then none else some kept
  aliases := threeAliases
  releasesForNativeId item := if item = 1 then ["249504"] else if item = 2 then ["77"] else []

theorem digits_kept {text : String} (hne : text ≠ "") (hdigits : ∀ c ∈ text.toList, c.isDigit = true) :
    digitCatalog.normalizeLookupValue "barcode" text = some text := by
  have hkept : text.toList.filter (·.isDigit) = text.toList := List.filter_eq_self.mpr hdigits
  have hsame : String.ofList (text.toList.filter (·.isDigit)) = text := by
    rw [hkept, String.ofList_toList]
  simp only [digitCatalog, if_pos, hsame, if_neg hne]

theorem twelve_and_fourteen_digits_resolve_alike :
    (lookupIdentifier digitCatalog "barcode" "036000291452").items =
      (lookupIdentifier digitCatalog "barcode" "00036000291452").items := by
  obtain ⟨-, -, -, -, halike⟩ := barcode_forms_gtin digitCatalog fun text => digits_kept
  have hshort : ("036000291452".toList.all (·.isDigit)) = true := by decide +kernel
  have hlong : ("00036000291452".toList.all (·.isDigit)) = true := by decide +kernel
  exact halike _ _ (List.all_eq_true.mp hshort) (List.all_eq_true.mp hlong) (by decide +kernel)

end CatalogApi.Lookup
