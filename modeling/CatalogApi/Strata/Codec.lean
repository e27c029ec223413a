import CatalogApi.Lib.JsonRoundTrip
import CatalogApi.Strata.Catalog

/-!
# The cached form of a catalog

`encode_catalog` and `decode_catalog` of `api/strata.py`. A release row holds the index of its credit
in a table of the distinct credits. What is decoded is not checked, so a decoded catalog holds any
JSON values; of a catalog that was encoded it holds exactly the catalog's own (`decode_encode_catalog`).
-/

namespace CatalogApi.Strata

open Json CodePoints

/-- `CATALOG_FORMAT`. -/
def catalogFormat : Int := 1

/-! ## Writing -/

/-- A text. -/
def textValue (text : String) : Value := .str (ofString text)

/-- A text or `None`. -/
def optionalText : Option String → Value
  | none => .null
  | some text => textValue text

/-- A number or `None`. -/
def optionalInt : Option Int → Value
  | none => .null
  | some n => .int n

def providerText : Provider → String
  | .discogs => "discogs"
  | .musicbrainz => "musicbrainz"

/-- `credits.setdefault(credit, len(credits))`. -/
def setDefault (credits : Dict Credit Nat) (credit : Credit) : Nat × Dict Credit Nat :=
  match credits.get? credit with
  | some index => (index, credits)
  | none => (credits.entries.length, credits.set credit credits.entries.length)

/-- The row of a release, with the index of its credit. -/
def releaseRow (release : Release) (index : Nat) : Value :=
  .array ([textValue release.id, optionalText release.masterId, optionalInt release.year,
      .int index] ++
    if release.provider ≠ .discogs ∨ release.title ≠ none then
      [textValue (providerText release.provider), optionalText release.title]
    else [])

/-- The table of credits and the rows after the rest of the releases. -/
def releaseRows : Dict Credit Nat → List Release → Dict Credit Nat × List Value
  | credits, [] => (credits, [])
  | credits, release :: releases =>
      let (index, credits) := setDefault credits release.credit
      let (credits, rows) := releaseRows credits releases
      (credits, releaseRow release index :: rows)

/-- What is written for a catalog. -/
def catalogValue (catalog : Catalog) : Value :=
  let (credits, rows) := releaseRows Dict.empty catalog.releases
  .object
    [(ofString "format", .int catalogFormat),
      (ofString "root_id", textValue catalog.rootId),
      (ofString "root_name", optionalText catalog.rootName),
      (ofString "credits",
        .array (credits.entries.map fun entry => .array (entry.1.map textValue))),
      (ofString "releases", .array rows),
      (ofString "master_years", .object (catalog.masterYears.entries.map fun entry =>
        (ofString entry.1, optionalInt entry.2)))]

/-- `encode_catalog`. -/
def encodeCatalog (floats : Floats) (catalog : Catalog) : Except Failure Str :=
  dumps floats [] (catalogValue catalog)

/-! ## Reading -/

/-- A decoded `Release`, whose fields are not checked. -/
structure CachedRelease where
  id : Value
  masterId : Value
  year : Value
  credit : List Value
  provider : Value
  title : Value

/-- A decoded `Catalog`, whose fields are not checked. -/
structure CachedCatalog where
  rootId : Value
  rootName : Value
  releases : List CachedRelease
  masterYears : Value

/-- `data[key]`, and `none` for a `KeyError` or `TypeError`. -/
def subscript (data : Value) (key : String) : Option Value :=
  match data with
  | .object members => (members.find? fun member => member.1 = ofString key).map (·.2)
  | _ => none

/-- The elements of a value, and `none` for a `TypeError`. -/
def iterate : Value → Option (List Value)
  | .array items => some items
  | .str text => some (text.map fun c => .str [c])
  | .object members => some (members.map fun member => .str member.1)
  | _ => none

/-- `value == CATALOG_FORMAT`. -/
def isFormat : Value → Bool
  | .int n => n = catalogFormat
  | .bool b => b
  | .float (.finite x) => x = catalogFormat
  | _ => false

/-- `xs[n]`, and `none` for an `IndexError`; a negative index counts from the end. -/
def itemAt {α : Type} (xs : List α) (n : Int) : Option α :=
  if 0 ≤ n then xs[n.toNat]? else if 0 ≤ xs.length + n then xs[(xs.length + n).toNat]? else none

/-- `credits[index]`, and `none` for an `IndexError` or `TypeError`. -/
def creditAt (credits : List (List Value)) : Value → Option (List Value)
  | .int n => itemAt credits n
  | .bool b => itemAt credits (if b then 1 else 0)
  | _ => none

/-- `Release(row[0], row[1], row[2], credits[row[3]], *row[4:])`, and `none` for an error. A row that
is a text has no index that is a number, and an object has no such keys. -/
def readRelease (credits : List (List Value)) : Value → Option CachedRelease
  | .array (id :: masterId :: year :: index :: more) =>
      match creditAt credits index, more with
      | some credit, [] => some ⟨id, masterId, year, credit, textValue "discogs", .null⟩
      | some credit, [provider] => some ⟨id, masterId, year, credit, provider, .null⟩
      | some credit, [provider, title] => some ⟨id, masterId, year, credit, provider, title⟩
      | _, _ => none
  | _ => none

/-- The catalog of a value that `json.loads` read. -/
def readCatalog (data : Value) : Option CachedCatalog := do
  let format ← subscript data "format"
  if isFormat format then
    let credits ← (← iterate (← subscript data "credits")).mapM iterate
    let releases ← (← iterate (← subscript data "releases")).mapM (readRelease credits)
    return ⟨← subscript data "root_id", ← subscript data "root_name", releases,
      ← subscript data "master_years"⟩
  else none

/-- `decode_catalog`, where only a `RecursionError` of `json.loads` escapes. -/
def decodeCatalog (floats : Floats) (limit : Nat) (document : Document) :
    Except Failure (Option CachedCatalog) :=
  match loads floats limit document with
  | .ok data => .ok (readCatalog data)
  | .error .value => .ok none
  | .error .recursion => .error .recursion

/-! ## What is read back -/

/-- The values that a release holds. -/
def Release.cached (release : Release) : CachedRelease where
  id := textValue release.id
  masterId := optionalText release.masterId
  year := optionalInt release.year
  credit := release.credit.map textValue
  provider := textValue (providerText release.provider)
  title := optionalText release.title

/-- The values that a catalog holds. -/
def Catalog.cached (catalog : Catalog) : CachedCatalog where
  rootId := textValue catalog.rootId
  rootName := optionalText catalog.rootName
  releases := catalog.releases.map Release.cached
  masterYears := .object (catalog.masterYears.entries.map fun entry =>
    (ofString entry.1, optionalInt entry.2))

/-! ## The table of credits -/

/-- The credits of a table, in order. -/
def tableOf (credits : Dict Credit Nat) : List Credit := credits.entries.map (·.1)

/-- Each credit of the table stands under its index. -/
def Numbered (credits : Dict Credit Nat) : Prop :=
  ∀ entry ∈ credits.entries, (tableOf credits)[entry.2]? = some entry.1

/-- What is in a table stays under its index as the table grows. -/
theorem found_in_longer {table table' : List Credit} (h : table <+: table') {index : Nat}
    {credit : Credit} (hfound : table[index]? = some credit) : table'[index]? = some credit := by
  obtain ⟨more, rfl⟩ := h
  rw [List.getElem?_append_left (List.getElem?_eq_some_iff.mp hfound).1, hfound]

/-- A credit that is in the table, or is put at its end, is found under its index; the rest of the
table stays. -/
theorem set_default_numbered {credits : Dict Credit Nat} (h : Numbered credits) (credit : Credit) :
    Numbered (setDefault credits credit).2 ∧
      tableOf credits <+: tableOf (setDefault credits credit).2 ∧
        (tableOf (setDefault credits credit).2)[(setDefault credits credit).1]? = some credit := by
  unfold setDefault
  cases hget : credits.get? credit with
  | some index => exact ⟨h, List.prefix_refl _, h _ (Dict.mem_of_get hget)⟩
  | none =>
      have hnew : credit ∉ credits.entries.map (·.1) := by
        intro hmem
        obtain ⟨⟨key, index⟩, hentry, rfl⟩ := List.mem_map.mp hmem
        rw [Dict.get_of_mem hentry] at hget
        cases hget
      have hentries : (credits.set credit credits.entries.length).entries =
          credits.entries ++ [(credit, credits.entries.length)] := if_neg hnew
      have htable : tableOf (credits.set credit credits.entries.length) =
          tableOf credits ++ [credit] := by
        rw [tableOf, hentries, List.map_append]
        rfl
      have hlast : (tableOf credits ++ [credit])[credits.entries.length]? = some credit := by
        rw [List.getElem?_append_right (by simp [tableOf])]
        simp [tableOf]
      refine ⟨fun entry hentry => ?_, ?_, ?_⟩
      · rw [htable]
        rw [hentries] at hentry
        rcases List.mem_append.mp hentry with hold | hnew
        · exact found_in_longer (List.prefix_append _ _) (h entry hold)
        · obtain rfl := List.mem_singleton.mp hnew
          exact hlast
      · rw [htable]
        exact List.prefix_append _ _
      · rw [htable]
        exact hlast

/-- The row of a release with the index of its credit in a table. -/
def RowOf (table : List Credit) (release : Release) (row : Value) : Prop :=
  ∃ index, table[index]? = some release.credit ∧ row = releaseRow release index

theorem row_of_longer {table table' : List Credit} (h : table <+: table') {release : Release}
    {row : Value} (hrow : RowOf table release row) : RowOf table' release row := by
  obtain ⟨index, hindex, rfl⟩ := hrow
  exact ⟨index, found_in_longer h hindex, rfl⟩

theorem numbered_empty : Numbered (Dict.empty : Dict Credit Nat) := fun _ h => by cases h

theorem release_rows_of {credits : Dict Credit Nat} (h : Numbered credits)
    (releases : List Release) :
    tableOf credits <+: tableOf (releaseRows credits releases).1 ∧
      List.Forall₂ (RowOf (tableOf (releaseRows credits releases).1)) releases
        (releaseRows credits releases).2 := by
  induction releases generalizing credits with
  | nil => exact ⟨List.prefix_refl _, .nil⟩
  | cons release releases ih =>
      obtain ⟨hnumbered, hgrows, hindex⟩ := set_default_numbered h release.credit
      obtain ⟨hmore, hrows⟩ := ih hnumbered
      exact ⟨hgrows.trans hmore, .cons (row_of_longer hmore ⟨_, hindex, rfl⟩) hrows⟩

/-! ## Reading back -/

theorem map_m_some {α β : Type} {f : α → Option β} {g : α → β} {xs : List α}
    (h : ∀ x ∈ xs, f x = some (g x)) : xs.mapM f = some (xs.map g) := by
  induction xs with
  | nil => rfl
  | cons x xs ih =>
      rw [List.mapM_cons, h x List.mem_cons_self,
        ih fun y hy => h y (List.mem_cons_of_mem _ hy)]
      rfl

/-- The row of a release reads back as the values of the release. -/
theorem read_row {table : List Credit} {release : Release} {row : Value}
    (h : RowOf table release row) :
    readRelease (table.map fun credit => credit.map textValue) row = some release.cached := by
  obtain ⟨index, hindex, rfl⟩ := h
  have hcredit : creditAt (table.map fun credit => credit.map textValue) (.int index) =
      some (release.credit.map textValue) := by
    rw [creditAt, itemAt, if_pos (Int.natCast_nonneg index), Int.toNat_natCast, List.getElem?_map,
      hindex]
    rfl
  rw [releaseRow]
  split
  · simp only [List.cons_append, List.nil_append, readRelease, hcredit]
    rfl
  · rename_i hplain
    obtain ⟨hprovider, htitle⟩ := not_or.mp hplain
    simp only [List.append_nil, readRelease, hcredit]
    rw [Release.cached, not_not.mp hprovider, not_not.mp htitle]
    rfl

theorem read_rows {table : List Credit} {releases : List Release} {rows : List Value}
    (h : List.Forall₂ (RowOf table) releases rows) :
    rows.mapM (readRelease (table.map fun credit => credit.map textValue)) =
      some (releases.map Release.cached) := by
  induction h with
  | nil => rfl
  | cons hrow _ ih =>
      rw [List.mapM_cons, read_row hrow, ih]
      rfl

theorem subscript_object {members : List (Str × Value)} {key : String} {value : Value}
    (h : (members.find? fun member => member.1 = ofString key) = some (ofString key, value)) :
    subscript (.object members) key = some value := by
  rw [subscript, h]
  rfl

/-- The value of a catalog reads back as the values that the catalog holds. -/
theorem read_catalog_value (catalog : Catalog) :
    readCatalog (catalogValue catalog) = some catalog.cached := by
  obtain ⟨-, hrows⟩ := release_rows_of numbered_empty catalog.releases
  have hread := read_rows hrows
  rw [catalogValue]
  generalize releaseRows Dict.empty catalog.releases = written at hread
  obtain ⟨credits, rows⟩ := written
  have hcredits : (credits.entries.map fun entry => Value.array (entry.1.map textValue)).mapM
      iterate = some ((tableOf credits).map fun credit => credit.map textValue) := by
    rw [tableOf, List.map_map, List.mapM_map]
    exact map_m_some fun _ _ => rfl
  rw [readCatalog, subscript_object rfl, subscript_object rfl, subscript_object rfl,
    subscript_object rfl, subscript_object rfl, subscript_object rfl]
  simp only [Option.bind_eq_bind, Option.bind_some, iterate, hcredits, hread]
  rfl

/-! ## What can be written -/

/-- The years and the number of releases are not too long to be written. -/
structure Catalog.Writable (catalog : Catalog) : Prop where
  releases : short (.int catalog.releases.length) = true
  years : ∀ release ∈ catalog.releases, ∀ year ∈ release.year, short (.int year) = true
  masterYears : ∀ entry ∈ catalog.masterYears.entries, ∀ year ∈ entry.2,
    short (.int year) = true

theorem short_of_le {n m : Nat} (h : short (.int m) = true) (hle : n ≤ m) :
    short (.int n) = true := by
  simp only [short, decide_eq_true_eq, Int.natAbs_natCast, Numerals.maxStrDigits,
    Nat.length_toDigits_le_iff (show 1 < 10 by omega) (show 0 < 4300 by omega)] at h ⊢
  exact Nat.lt_of_le_of_lt hle h

theorem ord_inj {c c' : Char} (h : ord c = ord c') : c = c' := by
  have hval : (ord c).val = (ord c').val := congrArg (·.val) h
  exact Char.toNat_inj.mp hval

theorem of_string_inj {text text' : String} (h : ofString text = ofString text') : text = text' :=
  String.toList_inj.mp (List.map_injective_iff.mpr (fun _ _ => ord_inj) h)

theorem fits_text (depth : Nat) (text : String) : Fits depth (textValue text) := by
  cases depth <;> exact no_split_string text

theorem fits_optional_text (depth : Nat) (text : Option String) :
    Fits depth (optionalText text) := by
  cases text with
  | none => cases depth <;> exact trivial
  | some text => exact fits_text depth text

theorem fits_optional_int (depth : Nat) {n : Option Int}
    (h : ∀ m ∈ n, short (.int m) = true) : Fits depth (optionalInt n) := by
  cases n with
  | none => cases depth <;> exact trivial
  | some n => exact fits_int depth (h n rfl)

theorem length_release_rows (credits : Dict Credit Nat) (releases : List Release) :
    (tableOf (releaseRows credits releases).1).length ≤
      (tableOf credits).length + releases.length := by
  induction releases generalizing credits with
  | nil => exact Nat.le_refl _
  | cons release releases ih =>
      have hstep : (tableOf (setDefault credits release.credit).2).length ≤
          (tableOf credits).length + 1 := by
        unfold setDefault
        split
        · exact Nat.le_succ _
        · simp only [tableOf, Dict.set, Dict.assigned, List.length_map]
          split
          · simp
          · simp
      have hmore := ih (setDefault credits release.credit).2
      rw [List.length_cons]
      show (tableOf (releaseRows (setDefault credits release.credit).2 releases).1).length ≤ _
      omega

theorem row_of_mem {table : List Credit} {releases : List Release} {rows : List Value}
    (h : List.Forall₂ (RowOf table) releases rows) {row : Value} (hrow : row ∈ rows) :
    ∃ release ∈ releases, RowOf table release row := by
  induction h with
  | nil => cases hrow
  | cons hof _ ih =>
      rcases List.mem_cons.mp hrow with rfl | hrow
      · exact ⟨_, List.mem_cons_self, hof⟩
      · obtain ⟨release, hrelease, hof⟩ := ih hrow
        exact ⟨release, List.mem_cons_of_mem _ hrelease, hof⟩

theorem fits_row {table : List Credit} {release : Release} {row : Value}
    (h : RowOf table release row) (htable : short (.int table.length) = true)
    (hyear : ∀ year ∈ release.year, short (.int year) = true) : Fits 1 row := by
  obtain ⟨index, hindex, rfl⟩ := h
  have hless := (List.getElem?_eq_some_iff.mp hindex).1
  have hfirst : ∀ item ∈ [textValue release.id, optionalText release.masterId,
      optionalInt release.year, .int index], Fits 0 item := by
    simp only [List.forall_mem_cons]
    exact ⟨fits_text 0 _, fits_optional_text 0 _, fits_optional_int 0 hyear,
      fits_int 0 (short_of_le htable (Nat.le_of_lt hless)), List.forall_mem_nil _⟩
  intro item hitem
  rcases List.mem_append.mp hitem with hitem | hitem
  · exact hfirst item hitem
  · split at hitem
    · have hlast : ∀ item ∈ [textValue (providerText release.provider),
          optionalText release.title], Fits 0 item := by
        simp only [List.forall_mem_cons]
        exact ⟨fits_text 0 _, fits_optional_text 0 _, List.forall_mem_nil _⟩
      exact hlast item hitem
    · cases hitem

/-- A written catalog nests at most three levels. -/
theorem fits_catalog {catalog : Catalog} (h : catalog.Writable) : Fits 3 (catalogValue catalog) := by
  obtain ⟨-, hrows⟩ := release_rows_of numbered_empty catalog.releases
  have hlength := length_release_rows Dict.empty catalog.releases
  rw [catalogValue]
  generalize releaseRows Dict.empty catalog.releases = written at hrows hlength
  obtain ⟨credits, rows⟩ := written
  have htable : short (.int (tableOf credits).length) = true := by
    refine short_of_le h.releases (Nat.le_trans hlength ?_)
    exact Nat.le_of_eq (Nat.zero_add _)
  have hkeys : ((catalog.masterYears.entries.map fun entry =>
      (ofString entry.1, optionalInt entry.2)).map (·.1)).Nodup := by
    rw [List.map_map]
    have hnodup := List.Nodup.map (fun _ _ => of_string_inj) catalog.masterYears.nodup
    rwa [List.map_map] at hnodup
  have hnames : (["format", "root_id", "root_name", "credits", "releases", "master_years"].map
      ofString).Nodup := List.Nodup.map (fun _ _ => of_string_inj) (by decide)
  refine ⟨hnames, ?_⟩
  simp only [List.forall_mem_cons]
  refine ⟨⟨no_split_string _, fits_int 2 (by decide)⟩, ⟨no_split_string _, fits_text 2 _⟩,
    ⟨no_split_string _, fits_optional_text 2 _⟩, ⟨no_split_string _, ?credits⟩,
    ⟨no_split_string _, ?releases⟩, ⟨no_split_string _, hkeys, ?years⟩, List.forall_mem_nil _⟩
  case credits =>
    intro item hitem
    obtain ⟨entry, -, rfl⟩ := List.mem_map.mp hitem
    intro artist hartist
    obtain ⟨id, -, rfl⟩ := List.mem_map.mp hartist
    exact fits_text 0 id
  case releases =>
    intro row hrow
    obtain ⟨release, hrelease, hof⟩ := row_of_mem hrows hrow
    exact fits_row hof htable (h.years release hrelease)
  case years =>
    intro member hmember
    obtain ⟨entry, hentry, rfl⟩ := List.mem_map.mp hmember
    exact ⟨no_split_string _, fits_optional_int 1 (h.masterYears entry hentry)⟩

/-! ## The values of a catalog -/

theorem text_value_inj {text text' : String} (h : textValue text = textValue text') :
    text = text' := of_string_inj (Value.str.inj h)

theorem optional_text_inj {text text' : Option String} (h : optionalText text = optionalText text') :
    text = text' := by
  cases text with
  | none =>
      cases text' with
      | none => rfl
      | some text' => cases h
  | some text =>
      cases text' with
      | none => cases h
      | some text' => rw [text_value_inj h]

theorem optional_int_inj {n n' : Option Int} (h : optionalInt n = optionalInt n') : n = n' := by
  cases n with
  | none =>
      cases n' with
      | none => rfl
      | some n' => cases h
  | some n =>
      cases n' with
      | none => cases h
      | some n' => rw [Value.int.inj h]

theorem provider_text_inj {provider provider' : Provider}
    (h : providerText provider = providerText provider') : provider = provider' := by
  cases provider <;> cases provider'
  case discogs.discogs => rfl
  case musicbrainz.musicbrainz => rfl
  all_goals exact absurd h (by decide)

theorem cached_release_inj {release release' : Release} (h : release.cached = release'.cached) :
    release = release' := by
  obtain ⟨id, masterId, year, credit, provider, title⟩ := release
  obtain ⟨id', masterId', year', credit', provider', title'⟩ := release'
  have hid : id = id' := text_value_inj (congrArg CachedRelease.id h)
  have hmaster : masterId = masterId' := optional_text_inj (congrArg CachedRelease.masterId h)
  have hyear : year = year' := optional_int_inj (congrArg CachedRelease.year h)
  have hcredit : credit = credit' :=
    List.map_injective_iff.mpr (fun _ _ => text_value_inj) (congrArg CachedRelease.credit h)
  have hprovider : provider = provider' :=
    provider_text_inj (text_value_inj (congrArg CachedRelease.provider h))
  have htitle : title = title' := optional_text_inj (congrArg CachedRelease.title h)
  rw [hid, hmaster, hyear, hcredit, hprovider, htitle]

/-- A catalog is told by the values that it holds. -/
theorem cached_inj {catalog catalog' : Catalog} (h : catalog.cached = catalog'.cached) :
    catalog = catalog' := by
  obtain ⟨rootId, rootName, releases, ⟨entries, hnodup⟩⟩ := catalog
  obtain ⟨rootId', rootName', releases', ⟨entries', hnodup'⟩⟩ := catalog'
  have hid : rootId = rootId' := text_value_inj (congrArg CachedCatalog.rootId h)
  have hname : rootName = rootName' := optional_text_inj (congrArg CachedCatalog.rootName h)
  have hreleases : releases = releases' := List.map_injective_iff.mpr
    (fun _ _ => cached_release_inj) (congrArg CachedCatalog.releases h)
  have hentries : entries = entries' := by
    have hyears := Value.object.inj (congrArg CachedCatalog.masterYears h)
    refine List.map_injective_iff.mpr (fun entry entry' heq => ?_) hyears
    obtain ⟨hkey, hyear⟩ := Prod.mk.inj heq
    exact Prod.ext (of_string_inj hkey) (optional_int_inj hyear)
  subst hentries
  rw [hid, hname, hreleases]

/-! ## The round trip -/

/-- A value that is not nested too deeply is loaded from its compact text, and from its bytes. -/
theorem loads_compact (floats : Floats) {limit depth : Nat} (hdepth : depth ≤ limit) {value : Value}
    (h : Fits depth value) :
    loads floats limit (.str (text floats [] value)) = .ok value ∧
      loads floats limit (.bytes (Encodings.encodeAscii (text floats [] value))) = .ok value := by
  have hgap : ∀ c ∈ ([] : Str), isSpace c = true := fun _ h => by cases h
  have hread := decode_fitting floats hgap (fits_deeper hdepth h)
  have hempty : Encodings.Ascii [] := fun _ h => by cases h
  have hascii := ascii_text floats hempty h
  constructor
  · have hmark : ¬(text floats [] value).head? = some 0xFEFF := by
      intro hhead
      have hless := (hascii _ (List.mem_of_mem_head? hhead)).2
      exact absurd hless (by decide)
    rw [loads, if_neg hmark, hread]
  · rw [loads, Encodings.decode_ascii hascii]
    exact hread

/-- What `encode_catalog` writes reads back, as a text or as its bytes, as the values of the
catalog. -/
theorem encoded_reads_back (floats : Floats) {limit : Nat} (hlimit : 3 ≤ limit) {catalog : Catalog}
    (h : catalog.Writable) :
    ∃ text, encodeCatalog floats catalog = .ok text ∧
      decodeCatalog floats limit (.str text) = .ok (some catalog.cached) ∧
      decodeCatalog floats limit (.bytes (Encodings.encodeAscii text)) =
        .ok (some catalog.cached) := by
  have hfits := fits_catalog h
  obtain ⟨hstr, hbytes⟩ := loads_compact floats hlimit hfits
  refine ⟨text floats [] (catalogValue catalog), dumps_fitting floats hfits, ?_, ?_⟩
  · rw [decodeCatalog, hstr]
    exact congrArg _ (read_catalog_value catalog)
  · rw [decodeCatalog, hbytes]
    exact congrArg _ (read_catalog_value catalog)

/-- What `encode_catalog` writes, as a text or as its bytes, `decode_catalog` reads back with exactly
the values of the catalog, and no other catalog is written the same. -/
theorem decode_encode_catalog (floats : Floats) {limit : Nat} (hlimit : 3 ≤ limit) {catalog : Catalog}
    (h : catalog.Writable) :
    ∃ text, encodeCatalog floats catalog = .ok text ∧
      decodeCatalog floats limit (.str text) = .ok (some catalog.cached) ∧
      decodeCatalog floats limit (.bytes (Encodings.encodeAscii text)) =
        .ok (some catalog.cached) ∧
      ∀ other : Catalog, other.Writable → encodeCatalog floats other = .ok text →
        other = catalog := by
  obtain ⟨text, hencode, hstr, hbytes⟩ := encoded_reads_back floats hlimit h
  refine ⟨text, hencode, hstr, hbytes, fun other hother hsame => ?_⟩
  obtain ⟨text', hencode', hstr', -⟩ := encoded_reads_back floats hlimit hother
  obtain rfl : text = text' := Except.ok.inj (hsame.symm.trans hencode')
  exact cached_inj (Option.some.inj (Except.ok.inj (hstr'.symm.trans hstr)))

/-- Two pressings with one credit and a release that only MusicBrainz has. -/
def pressings : Catalog where
  rootId := "7"
  rootName := some "Dïva"
  releases :=
    [⟨"10", some "4", some 1990, ["7"], .discogs, none⟩,
      ⟨"11", some "4", none, ["7"], .discogs, none⟩,
      ⟨"mb-1", none, some 2001, [], .musicbrainz, some "Live"⟩]
  masterYears := Dict.empty.set "4" (some 1989)

theorem pressings_decode_encode :
    ∃ text, encodeCatalog ⟨fun _ => none, fun _ => []⟩ pressings = .ok text ∧
      decodeCatalog ⟨fun _ => none, fun _ => []⟩ 3 (.str text) = .ok (some pressings.cached) ∧
      decodeCatalog ⟨fun _ => none, fun _ => []⟩ 3 (.bytes (Encodings.encodeAscii text)) =
        .ok (some pressings.cached) ∧
      ∀ other : Catalog, other.Writable →
        encodeCatalog ⟨fun _ => none, fun _ => []⟩ other = .ok text → other = pressings :=
  decode_encode_catalog ⟨fun _ => none, fun _ => []⟩ (Nat.le_refl 3)
    ⟨by decide, by decide, by decide⟩

end CatalogApi.Strata
