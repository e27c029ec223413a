import CatalogApi.Strata.Codec
import CatalogApi.Strata.Render

/-!
# A ladder from the cache

`decode_catalog` returns values that nothing has checked. `CachedCatalog.typed` is the catalog that
they make where each has the type of its field, and of a catalog that was encoded it is that catalog
(`typed_cached`), so `build_strata` answers from the cache as it does from the graph. Years of more
than 4300 digits have no text, and such a catalog is not encoded.
-/

namespace CatalogApi.Strata

open Json CodePoints

/-! ## Values of the types of the fields -/

/-- The character of a code point that is no surrogate. -/
def charOf (c : CodePoint) : Option Char :=
  if ord (Char.ofNat c.val) = c then some (Char.ofNat c.val) else none

/-- The text of a value. -/
def textOf : Value → Option String
  | .str text => (text.mapM charOf).map String.ofList
  | _ => none

/-- The number of a value. -/
def intOf : Value → Option Int
  | .int n => some n
  | _ => none

/-- The value of an optional field. -/
def optionalOf {α : Type} (read : Value → Option α) : Value → Option (Option α)
  | .null => some none
  | value => (read value).map some

/-- The provider of a value. -/
def providerOf (value : Value) : Option Provider := do
  let text ← textOf value
  if text = "discogs" then some .discogs
  else if text = "musicbrainz" then some .musicbrainz
  else none

/-- The release of decoded values. -/
def CachedRelease.typed (release : CachedRelease) : Option Release := do
  let id ← textOf release.id
  let masterId ← optionalOf textOf release.masterId
  let year ← optionalOf intOf release.year
  let credit ← release.credit.mapM textOf
  let provider ← providerOf release.provider
  let title ← optionalOf textOf release.title
  return ⟨id, masterId, year, credit, provider, title⟩

/-- The year of a master. -/
def masterYearOf (member : Str × Value) : Option (String × Option Int) := do
  return (← textOf (.str member.1), ← optionalOf intOf member.2)

/-- The years of the masters. -/
def masterYearsOf : Value → Option (Dict String (Option Int))
  | .object members => do
      let entries ← members.mapM masterYearOf
      if h : (entries.map (·.1)).Nodup then some ⟨entries, h⟩ else none
  | _ => none

/-- The catalog of decoded values. -/
def CachedCatalog.typed (catalog : CachedCatalog) : Option Catalog := do
  let rootId ← textOf catalog.rootId
  let rootName ← optionalOf textOf catalog.rootName
  let releases ← catalog.releases.mapM CachedRelease.typed
  let masterYears ← masterYearsOf catalog.masterYears
  return ⟨rootId, rootName, releases, masterYears⟩

theorem char_of_ord (c : Char) : charOf (ord c) = some c := by
  have hchar : Char.ofNat (ord c).val = c := Char.ofNat_toNat c
  rw [charOf, hchar, if_pos rfl]

theorem text_of_value (text : String) : textOf (textValue text) = some text := by
  have hchars : (ofString text).mapM charOf = some text.toList := by
    rw [ofString, List.mapM_map]
    exact (map_m_some (g := id) fun c _ => char_of_ord c).trans (congrArg some (List.map_id _))
  show ((ofString text).mapM charOf).map String.ofList = some text
  rw [hchars, Option.map_some, String.ofList_toList]

theorem optional_text_of (text : Option String) :
    optionalOf textOf (optionalText text) = some text := by
  cases text with
  | none => rfl
  | some text =>
      show (textOf (textValue text)).map some = some (some text)
      rw [text_of_value]
      rfl

theorem optional_int_of (n : Option Int) : optionalOf intOf (optionalInt n) = some n := by
  cases n with
  | none => rfl
  | some n => rfl

theorem provider_of_text (provider : Provider) :
    providerOf (textValue (providerText provider)) = some provider := by
  rw [providerOf, text_of_value]
  cases provider with
  | discogs => rfl
  | musicbrainz => rfl

theorem credit_of_texts (credit : Credit) :
    (credit.map textValue).mapM textOf = some credit := by
  rw [List.mapM_map]
  exact (map_m_some (g := id) fun id _ => text_of_value id).trans (congrArg some (List.map_id _))

/-- The values of a release make that release. -/
theorem typed_release (release : Release) : release.cached.typed = some release := by
  rw [CachedRelease.typed, Release.cached]
  simp only [text_of_value, optional_text_of, optional_int_of, credit_of_texts, provider_of_text,
    Option.bind_eq_bind, Option.bind_some]
  rfl

theorem master_years_of (years : Dict String (Option Int)) :
    masterYearsOf (.object (years.entries.map fun entry =>
      (ofString entry.1, optionalInt entry.2))) = some years := by
  have hentry : ∀ entry : String × Option Int,
      masterYearOf (ofString entry.1, optionalInt entry.2) = some entry := by
    intro entry
    have htext : textOf (.str (ofString entry.1)) = some entry.1 := text_of_value entry.1
    rw [masterYearOf, htext, optional_int_of]
    rfl
  have hentries : (years.entries.map fun entry =>
      (ofString entry.1, optionalInt entry.2)).mapM masterYearOf = some years.entries := by
    rw [List.mapM_map]
    exact (map_m_some (g := id) fun entry _ => hentry entry).trans (congrArg some (List.map_id _))
  rw [masterYearsOf, hentries]
  exact dif_pos years.nodup

/-- The values of a catalog make that catalog. -/
theorem typed_cached (catalog : Catalog) : catalog.cached.typed = some catalog := by
  have hreleases : (catalog.releases.map Release.cached).mapM CachedRelease.typed =
      some catalog.releases := by
    rw [List.mapM_map]
    exact (map_m_some (g := id) fun release _ => typed_release release).trans
      (congrArg some (List.map_id _))
  rw [CachedCatalog.typed, Catalog.cached]
  simp only [text_of_value, optional_text_of, hreleases, master_years_of, Option.bind_eq_bind,
    Option.bind_some]
  rfl

/-! ## The format of an entry -/

/-- Only an entry of this format is read. -/
theorem decoded_format {floats : Floats} {limit : Nat} {document : Document}
    {decoded : CachedCatalog} (h : decodeCatalog floats limit document = .ok (some decoded)) :
    ∃ data format, loads floats limit document = .ok data ∧
      subscript data "format" = some format ∧ isFormat format = true := by
  rw [decodeCatalog] at h
  split at h
  · rename_i data hdata
    have hread := Except.ok.inj h
    rw [readCatalog] at hread
    cases hformat : subscript data "format" with
    | none =>
        rw [hformat] at hread
        cases hread
    | some format =>
        rw [hformat, Option.bind_eq_bind, Option.bind_some] at hread
        split at hread
        · rename_i his
          exact ⟨data, format, hdata, hformat, his⟩
        · cases hread
  · cases h
  · cases h

/-! ## The round trip -/

/-- A catalog whose years have at most 4300 digits is encoded, and what is decoded from the text or its
bytes makes that catalog, so every strata of the decoded catalog is the strata of the catalog; and an
entry of another format is not decoded. -/
theorem cached_catalog_same_strata (floats : Floats) {limit : Nat} (hlimit : 3 ≤ limit) :
    (∀ catalog : Catalog, catalog.Writable →
      ∃ text decoded, encodeCatalog floats catalog = .ok text ∧
        decodeCatalog floats limit (.str text) = .ok (some decoded) ∧
        decodeCatalog floats limit (.bytes (Encodings.encodeAscii text)) = .ok (some decoded) ∧
        decoded.typed = some catalog ∧
        ∀ budget focus page marks,
          (decoded.typed.map fun cached => buildStrata cached budget focus page marks) =
            some (buildStrata catalog budget focus page marks)) ∧
    ∀ document decoded, decodeCatalog floats limit document = .ok (some decoded) →
      ∃ data format, loads floats limit document = .ok data ∧
        subscript data "format" = some format ∧ isFormat format = true := by
  refine ⟨fun catalog hwritable => ?_, fun document decoded h => decoded_format h⟩
  obtain ⟨text, hencode, hstr, hbytes⟩ := encoded_reads_back floats hlimit hwritable
  refine ⟨text, catalog.cached, hencode, hstr, hbytes, typed_cached catalog, ?_⟩
  intro budget focus page marks
  rw [typed_cached]
  rfl

/-- One release of a year. -/
def datedIn (year : Int) : Catalog where
  rootId := "1"
  rootName := none
  releases := [⟨"2", none, some year, ["1"], .discogs, none⟩]
  masterYears := ⟨[], List.nodup_nil⟩

/-- A year that has no text makes `encode_catalog` fail. -/
theorem long_year_not_encoded (floats : Floats) {year : Int} (hyear : short (.int year) = false) :
    encodeCatalog floats (datedIn year) = .error .value := by
  have hcatalog : short (catalogValue (datedIn year)) = false := by
    simp only [catalogValue, datedIn, releaseRows, releaseRow, short, shortMembers, shortItems,
      optionalInt, List.cons_append] at hyear ⊢
    simp only [hyear, Bool.false_and, Bool.and_false]
  rw [encodeCatalog, dumps, hcatalog]
  rfl

/-- The least number that has one digit more than Python writes. -/
theorem long_power (digits : Nat) (hmost : Numerals.maxStrDigits = digits) (hpos : 0 < digits) :
    short (.int (10 ^ digits : Nat)) = false := by
  rw [short, decide_eq_false_iff_not, hmost, Int.natAbs_natCast,
    Nat.length_toDigits_le_iff (show 1 < 10 by omega) hpos]
  exact Nat.lt_irrefl _

/-- A year of one digit more than Python writes: the catalog is not encoded. -/
theorem far_year_not_cached :
    encodeCatalog ⟨fun _ => none, fun _ => []⟩ (datedIn (10 ^ 4300 : Nat)) = .error .value :=
  long_year_not_encoded _ (long_power 4300 rfl (by omega))

/-- An entry of the next format. -/
def nextFormat : Value := .object [(ofString "format", .int 2)]

theorem fits_next_format : Fits 1 nextFormat := by
  refine ⟨List.nodup_singleton _, ?_⟩
  simp only [List.forall_mem_cons]
  exact ⟨⟨no_split_string _, fits_int 0 (by decide)⟩, List.forall_mem_nil _⟩

/-- A MusicBrainz-only release beside pressings of one credit folds from the cache as it does from
the graph, and an entry of the next format is no catalog. -/
theorem pressings_same_strata :
    (∃ text decoded, encodeCatalog ⟨fun _ => none, fun _ => []⟩ pressings = .ok text ∧
        decodeCatalog ⟨fun _ => none, fun _ => []⟩ 3 (.str text) = .ok (some decoded) ∧
        decoded.typed = some pressings) ∧
      ¬∃ decoded, decodeCatalog ⟨fun _ => none, fun _ => []⟩ 3
        (.str (text ⟨fun _ => none, fun _ => []⟩ [] nextFormat)) = .ok (some decoded) := by
  obtain ⟨hround, hformat⟩ := cached_catalog_same_strata ⟨fun _ => none, fun _ => []⟩
    (Nat.le_refl 3)
  constructor
  · obtain ⟨text, decoded, hencode, hstr, -, htyped, -⟩ :=
      hround pressings ⟨by decide, by decide, by decide⟩
    exact ⟨text, decoded, hencode, hstr, htyped⟩
  · rintro ⟨decoded, hdecode⟩
    have hload := (loads_compact ⟨fun _ => none, fun _ => []⟩ (show 1 ≤ 3 by omega)
      fits_next_format).1
    obtain ⟨data, format, hdata, hsubscript, his⟩ := hformat _ decoded hdecode
    obtain rfl := Except.ok.inj (hload.symm.trans hdata)
    obtain rfl : Value.int 2 = format := Option.some.inj hsubscript
    cases his

end CatalogApi.Strata
