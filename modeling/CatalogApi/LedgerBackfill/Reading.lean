import CatalogApi.LedgerBackfill.Tables
import CatalogApi.Lib.Blocks
import CatalogApi.Lib.Runs

/-!
# The tables a reader holds

`Tables` are the rows that are kept of the five tables, and `Tables.reader` is the reader whose
arrays are their columns. Reading the members of an export, in any order, gives the reader of its
tables (`read_members_eq`).
-/

namespace CatalogApi.LedgerBackfill

open Text Runs

/-- The rows kept of the five tables: the discogs release-url link types, the links, the Discogs
release URLs, the release URLs of any type and the releases. -/
structure Tables where
  linkTypes : List Int
  links : List (Int × Int)
  urls : List (Int × Int)
  rows : List ReleaseUrl
  releases : List (Int × { gid : Bytes // gid.length = 16 })
  deriving DecidableEq

/-- The same rows in other orders. -/
structure Tables.Reordered (tables tables' : Tables) : Prop where
  linkTypes : tables.linkTypes.Perm tables'.linkTypes
  links : tables.links.Perm tables'.links
  urls : tables.urls.Perm tables'.urls
  rows : tables.rows.Perm tables'.rows
  releases : tables.releases.Perm tables'.releases

section Contents

variable (builtins : Builtins)

/-- The id and Discogs id of a `url` line whose URL is a Discogs release. -/
def discogsUrl (raw : Bytes) : Option (Int × Int) := do
  let text ← builtins.decode raw
  let cells := split '\t' (stripNewlines text)
  let url ← cells[2]?
  let found ← (extractDiscogsId builtins url).toOption.join
  let id ← cells[0]?.bind builtins.intText
  return (id, found)

/-- The contents of the tables with these lines. -/
def Tables.of (lines : String → List Bytes) : Tables where
  linkTypes := (lines "link_type").filterMap fun raw => (readLinkType builtins raw).toOption.join
  links := (lines "link").filterMap fun raw => (readLink builtins raw).toOption
  urls := (lines "url").filterMap (discogsUrl builtins)
  rows := (lines "l_release_url").filterMap fun raw => (readReleaseUrl builtins raw).toOption
  releases := (lines "release").filterMap fun raw => (readRelease builtins raw).toOption

/-- The members of an export, in this order. -/
def ExportReader.readMembers (reader : ExportReader) (lines : String → List Bytes)
    (order : List String) : Except Failure ExportReader :=
  order.foldlM (fun reader table => reader.readMember builtins table (lines table)) reader

/-- Every line of the five tables can be read. -/
def Readable (lines : String → List Bytes) : Prop :=
  ∀ table ∈ tableNames, ∀ raw ∈ lines table,
    ∃ reader, ExportReader.empty.readLine builtins table raw = .ok reader

end Contents

/-! ## UTF-8 -/

/-- `text.encode()`. -/
def utf8 (text : String) : Bytes := text.toList.flatMap String.utf8EncodeChar

/-- `bytes.decode("utf-8")` gives a text whose encoding is the bytes. -/
def Builtins.Decodes (builtins : Builtins) : Prop :=
  ∀ raw text, builtins.decode raw = some text → raw = utf8 text

theorem strip_newlines_prefix (text : String) :
    ∃ rest, text.toList = (stripNewlines text).toList ++ rest := by
  refine ⟨(text.toList.reverse.takeWhile (· = '\n')).reverse, ?_⟩
  rw [stripNewlines, String.toList_ofList, ← List.reverse_append, List.takeWhile_append_dropWhile,
    List.reverse_reverse]

theorem needle_eq : needle = utf8 ("\t" ++ discogsRelease) := by decide

/-- A line whose third cell is a Discogs release URL contains the needle. -/
theorem contains_needle {text rest : String}
    (h : (split '\t' (stripNewlines text))[2]? = some (discogsRelease ++ rest)) :
    needle <:+: utf8 text := by
  obtain ⟨newlines, hnewlines⟩ := strip_newlines_prefix text
  have hjoin := join_split '\t' (stripNewlines text)
  match hcells : split '\t' (stripNewlines text) with
  | [] => simp [hcells] at h
  | [_] => simp [hcells] at h
  | [_, _] => simp [hcells] at h
  | first :: second :: third :: more =>
      simp only [hcells, List.getElem?_cons_succ, List.getElem?_cons_zero, Option.some.injEq] at h
      have hline : ∃ tail, text.toList =
          first.toList ++ '\t' :: second.toList ++ ('\t' :: discogsRelease.toList) ++ tail := by
        rw [hnewlines, ← hjoin, hcells, to_list_join, h]
        cases more with
        | nil =>
            refine ⟨rest.toList ++ newlines, ?_⟩
            simp [List.intercalate_cons_cons]
        | cons fourth more =>
            refine ⟨rest.toList ++ '\t' :: (['\t'].intercalate ((fourth :: more).map (·.toList)) ++
              newlines), ?_⟩
            simp [List.intercalate_cons_cons]
      obtain ⟨tail, htail⟩ := hline
      refine ⟨(first.toList ++ '\t' :: second.toList).flatMap String.utf8EncodeChar,
        tail.flatMap String.utf8EncodeChar, ?_⟩
      rw [needle_eq, utf8, utf8, htail, String.toList_append]
      simp only [List.flatMap_append]
      rfl

section Lines

variable {builtins : Builtins} {raw : Bytes}

theorem int32_eq {value kept : Int} (h : int32 value = .ok kept) : kept = value := by
  rw [int32] at h
  split at h
  · exact (Except.ok.inj h).symm
  · cases h

/-- A Discogs release URL is the start of its address and a rest. -/
theorem extract_discogs_id_start {url : String} {found : Int}
    (h : extractDiscogsId builtins url = .ok (some found)) : ∃ rest, url = discogsRelease ++ rest := by
  cases hrest : afterPrefix discogsRelease url with
  | none =>
      rw [extractDiscogsId, hrest] at h
      cases h
  | some rest => exact ⟨rest, after_prefix_eq_some.mp hrest⟩

/-- The search for the needle passes over no line with a Discogs release URL. -/
theorem read_url_eq (hdecodes : builtins.Decodes) {url : Option (Int × Int)}
    (h : readUrl builtins raw = .ok url) : discogsUrl builtins raw = url := by
  rw [readUrl] at h
  rw [discogsUrl]
  split at h
  case isTrue hneedle =>
    cases hdecode : builtins.decode raw with
    | none => simp [hdecode, convert, bind, Except.bind] at h
    | some text =>
        simp only [hdecode, convert, bind, Except.bind, cell] at h
        simp only [Option.bind_eq_bind, Option.bind_some]
        cases haddress : (split '\t' (stripNewlines text))[2]? with
        | none => simp [haddress] at h
        | some address =>
            simp only [haddress] at h
            cases hfound : extractDiscogsId builtins address with
            | error failure => simp [hfound] at h
            | ok found =>
                simp only [hfound] at h
                cases found with
                | none =>
                    cases h
                    simp [hfound, Except.toOption]
                | some found =>
                    cases hid : (split '\t' (stripNewlines text))[0]? with
                    | none => simp [hid] at h
                    | some first =>
                        simp only [hid] at h
                        cases hint : builtins.intText first with
                        | none => simp [hint] at h
                        | some id =>
                            simp only [hint] at h
                            cases hwide : int32 id with
                            | error failure => simp [hwide] at h
                            | ok value =>
                                rw [hwide] at h
                                cases h
                                simp [int32_eq hwide, hfound, hint, Except.toOption]
  case isFalse hneedle =>
    cases h
    cases hdecode : builtins.decode raw with
    | none => rfl
    | some text =>
        simp only [Option.bind_eq_bind, Option.bind_some]
        cases haddress : (split '\t' (stripNewlines text))[2]? with
        | none => rfl
        | some address =>
            rw [Option.bind_some]
            cases hfound : (extractDiscogsId builtins address).toOption.join with
            | none => rfl
            | some found =>
                have hextract : extractDiscogsId builtins address = .ok (some found) := by
                  cases hresult : extractDiscogsId builtins address with
                  | error failure => simp [hresult, Except.toOption] at hfound
                  | ok result => simpa [hresult, Except.toOption] using hfound
                obtain ⟨rest, rfl⟩ := extract_discogs_id_start hextract
                rw [hdecodes raw text hdecode] at hneedle
                exact absurd (contains_needle haddress) hneedle

/-- What a reader takes of a line that an empty reader can read. -/
theorem taken {α : Type} {line : Except Failure α} {take : α → ExportReader}
    (h : ∃ reader, (do let found ← line; return take found) = .ok reader) :
    ∃ found, line = .ok found := by
  obtain ⟨reader, hreader⟩ := h
  cases line with
  | error failure => cases hreader
  | ok found => exact ⟨found, rfl⟩

end Lines

/-! ## Members -/

/-- The reader that holds these tables after these members. -/
def Tables.reader (tables : Tables) (read : List String) : ExportReader where
  discogsLinkTypes := tables.linkTypes
  linkIds := tables.links.map (·.1)
  linkTypes := tables.links.map (·.2)
  urlIds := tables.urls.map (·.1)
  urlDiscogs := tables.urls.map (·.2)
  rowIds := tables.rows.map (·.id)
  rowLinks := tables.rows.map (·.link)
  rowReleases := tables.rows.map (·.release)
  rowUrls := tables.rows.map (·.url)
  rowUpdated := tables.rows.map (·.updated)
  releaseIds := tables.releases.map (·.1)
  releaseGids := tables.releases.flatMap (·.2.val)
  read
  links := by simp
  urls := by simp
  rows := by simp
  releases := by rw [Blocks.length_flat fun release => release.2.property, List.length_map]

/-- The rows of these members alone. -/
def Tables.only (tables : Tables) (read : List String) : Tables where
  linkTypes := if "link_type" ∈ read then tables.linkTypes else []
  links := if "link" ∈ read then tables.links else []
  urls := if "url" ∈ read then tables.urls else []
  rows := if "l_release_url" ∈ read then tables.rows else []
  releases := if "release" ∈ read then tables.releases else []

section Members

variable {builtins : Builtins} {lines : String → List Bytes} {tables : Tables} {read : List String}

/-- The lines of a table, when a reader that holds some of its rows takes each of them. -/
theorem read_lines {α : Type} {table : String} {kept : Bytes → Option α}
    {held : List α → ExportReader} (rows : List Bytes)
    (hline : ∀ raw ∈ rows, ∀ found, (held found).readLine builtins table raw =
      .ok (held (found ++ (kept raw).toList))) (found : List α) :
    rows.foldlM (fun reader raw => reader.readLine builtins table raw) (held found) =
      .ok (held (found ++ rows.filterMap kept)) := by
  induction rows generalizing found with
  | nil => simp [pure, Except.pure]
  | cons raw rows ih =>
      rw [List.foldlM_cons, hline raw List.mem_cons_self]
      refine (ih (fun raw hraw => hline raw (List.mem_cons_of_mem _ hraw)) _).trans ?_
      cases hkept : kept raw with
      | none => simp [hkept]
      | some row => simp [hkept]

/-- A member whose lines can be read and are taken one by one adds what is kept of them. -/
theorem read_member_eq {α β : Type} {table : String} {before after : Tables}
    (held : List α → Tables) {line : Bytes → Except Failure β} (keep : β → Option α)
    {rows : List Bytes} (hline : ∀ raw ∈ rows, ∃ found, line raw = .ok found)
    (htake : ∀ raw found kept, line raw = .ok found →
      ((held kept).reader read).readLine builtins table raw =
        .ok ((held (kept ++ (keep found).toList)).reader read))
    (hbefore : held [] = before)
    (hafter : held (rows.filterMap fun raw => (line raw).toOption.bind keep) = after) :
    (before.reader read).readMember builtins table rows = .ok (after.reader (read ++ [table])) := by
  have hlines : ∀ raw ∈ rows, ∀ kept, ((held kept).reader read).readLine builtins table raw =
      .ok ((held (kept ++ ((line raw).toOption.bind keep).toList)).reader read) := by
    intro raw hraw kept
    obtain ⟨found, hfound⟩ := hline raw hraw
    rw [htake raw found kept hfound, hfound]
    rfl
  rw [ExportReader.readMember, ← hbefore,
    read_lines rows hlines [], ← hafter]
  rfl

/-- A member of which no row is held yet adds the rows of its lines. -/
theorem read_member_step (hdecodes : builtins.Decodes) (hread : Readable builtins lines)
    {table : String} (htable : table ∈ tableNames) (hnew : table ∉ read) :
    (((Tables.of builtins lines).only read).reader read).readMember builtins table (lines table) =
      .ok (((Tables.of builtins lines).only (read ++ [table])).reader (read ++ [table])) := by
  have hlines := hread table htable
  simp only [tableNames, List.mem_cons, List.not_mem_nil, or_false] at htable
  rcases htable with rfl | rfl | rfl | rfl | rfl
  · refine read_member_eq (fun rows => { (Tables.of builtins lines).only read with rows }) some
      (fun raw hraw => taken (hlines raw hraw)) (fun raw row kept hrow => ?_)
      (by simp [Tables.only, hnew]) (by simp [Tables.only, hnew, Tables.of])
    simp [ExportReader.readLine, hrow, Tables.reader, ExportReader.addReleaseUrl, bind,
      Except.bind, pure, Except.pure]
  · refine read_member_eq (fun links => { (Tables.of builtins lines).only read with links }) some
      (fun raw hraw => taken (hlines raw hraw)) (fun raw link kept hlink => ?_)
      (by simp [Tables.only, hnew]) (by simp [Tables.only, hnew, Tables.of])
    simp [ExportReader.readLine, hlink, Tables.reader, ExportReader.addLink, bind, Except.bind,
      pure, Except.pure]
  · have htypes : (lines "link_type").filterMap
        (fun raw => (readLinkType builtins raw).toOption.bind id) =
          (Tables.of builtins lines).linkTypes := rfl
    refine read_member_eq (fun linkTypes => { (Tables.of builtins lines).only read with linkTypes })
      id (fun raw hraw => taken (hlines raw hraw)) (fun raw id kept hid => ?_)
      (by simp [Tables.only, hnew]) (by simp [Tables.only, hnew, ← htypes])
    cases id with
    | none => simp [ExportReader.readLine, hid, bind, Except.bind, pure, Except.pure]
    | some id =>
        simp [ExportReader.readLine, hid, Tables.reader, ExportReader.addLinkType, bind,
          Except.bind, pure, Except.pure]
  · refine read_member_eq (fun releases => { (Tables.of builtins lines).only read with releases })
      some (fun raw hraw => taken (hlines raw hraw)) (fun raw release kept hrelease => ?_)
      (by simp [Tables.only, hnew]) (by simp [Tables.only, hnew, Tables.of])
    simp [ExportReader.readLine, hrelease, Tables.reader, ExportReader.addRelease, bind,
      Except.bind, pure, Except.pure]
  · have hurls : (lines "url").filterMap (fun raw => (readUrl builtins raw).toOption.bind id) =
        (lines "url").filterMap (discogsUrl builtins) := by
      refine List.filterMap_congr fun raw hraw => ?_
      obtain ⟨url, hurl⟩ := taken (hlines raw hraw)
      rw [read_url_eq hdecodes hurl, hurl]
      rfl
    refine read_member_eq (fun urls => { (Tables.of builtins lines).only read with urls }) id
      (fun raw hraw => taken (hlines raw hraw)) (fun raw url kept hurl => ?_)
      (by simp [Tables.only, hnew]) (by simp [Tables.only, hnew, Tables.of, ← hurls])
    cases url with
    | none => simp [ExportReader.readLine, hurl, bind, Except.bind, pure, Except.pure]
    | some url =>
        simp [ExportReader.readLine, hurl, Tables.reader, ExportReader.addUrl, bind,
          Except.bind, pure, Except.pure]

/-- The members of an export, each read once, add the rows of their lines. -/
theorem read_members_from (hdecodes : builtins.Decodes) (hread : Readable builtins lines)
    {order : List String} (htables : ∀ table ∈ order, table ∈ tableNames)
    (hnodup : (read ++ order).Nodup) :
    (((Tables.of builtins lines).only read).reader read).readMembers builtins lines order =
      .ok (((Tables.of builtins lines).only (read ++ order)).reader (read ++ order)) := by
  induction order generalizing read with
  | nil => rw [List.append_nil, ExportReader.readMembers, List.foldlM_nil]; rfl
  | cons table order ih =>
      have hnew : table ∉ read := fun hmem =>
        (List.nodup_append.mp hnodup).2.2 table hmem table List.mem_cons_self rfl
      have hstep := read_member_step hdecodes hread (htables table List.mem_cons_self) hnew
      rw [ExportReader.readMembers, List.foldlM_cons, hstep]
      have hsplit : read ++ table :: order = read ++ [table] ++ order := List.append_cons ..
      rw [hsplit] at hnodup ⊢
      exact ih (fun table htable => htables table (List.mem_cons_of_mem _ htable)) hnodup

/-- An export whose members come in any order is read as its tables. -/
theorem read_members_eq (hdecodes : builtins.Decodes) (hread : Readable builtins lines)
    {order : List String} (horder : order.Perm tableNames) :
    ExportReader.empty.readMembers builtins lines order =
      .ok ((Tables.of builtins lines).reader order) := by
  have hall : ∀ table ∈ tableNames, table ∈ order := fun table => horder.mem_iff.mpr
  have hnodup : order.Nodup := horder.nodup_iff.mpr (by decide)
  have honly : (Tables.of builtins lines).only order = Tables.of builtins lines := by
    rw [Tables.only, if_pos (hall _ (by decide)), if_pos (hall _ (by decide)),
      if_pos (hall _ (by decide)), if_pos (hall _ (by decide)), if_pos (hall _ (by decide))]
  have hrun : (((Tables.of builtins lines).only []).reader []).readMembers builtins lines order =
      .ok (((Tables.of builtins lines).only order).reader order) :=
    read_members_from hdecodes hread (fun table => horder.mem_iff.mp) hnodup
  rw [honly] at hrun
  exact hrun

/-- Another order of the lines of each table is another order of its rows. -/
theorem tables_of_perm {lines' : String → List Bytes}
    (h : ∀ table, (lines' table).Perm (lines table)) :
    (Tables.of builtins lines').Reordered (Tables.of builtins lines) where
  linkTypes := (h _).filterMap _
  links := (h _).filterMap _
  urls := (h _).filterMap _
  rows := (h _).filterMap _
  releases := (h _).filterMap _

theorem Readable.of_perm {lines' : String → List Bytes} (hread : Readable builtins lines)
    (h : ∀ table, (lines' table).Perm (lines table)) : Readable builtins lines' :=
  fun table htable raw hraw => hread table htable raw ((h table).mem_iff.mp hraw)

theorem epoch_lt {text : String} {updated : Int} (h : epoch builtins text = .ok updated) :
    updated < 2 ^ 38 := by
  rw [epoch] at h
  split at h
  case isTrue =>
    cases h
    decide
  case isFalse =>
    obtain ⟨moment, -, hmoment⟩ := bind_ok h
    cases hmoment
    exact moment.property.2

/-- The timestamps of the rows are in the years of a `datetime`. -/
theorem updated_lt {row : ReleaseUrl} (hrow : row ∈ (Tables.of builtins lines).rows) :
    row.updated < 2 ^ 38 := by
  obtain ⟨raw, -, hkept⟩ := List.mem_filterMap.mp hrow
  cases hresult : readReleaseUrl builtins raw with
  | error failure =>
      rw [hresult] at hkept
      cases hkept
  | ok found =>
      rw [hresult] at hkept
      cases hkept
      obtain ⟨_, -, h⟩ := bind_ok hresult
      obtain ⟨_, -, h⟩ := bind_ok h
      obtain ⟨id, -, h⟩ := bind_ok h
      obtain ⟨_, -, h⟩ := bind_ok h
      obtain ⟨_, -, h⟩ := bind_ok h
      obtain ⟨link, -, h⟩ := bind_ok h
      obtain ⟨_, -, h⟩ := bind_ok h
      obtain ⟨_, -, h⟩ := bind_ok h
      obtain ⟨release, -, h⟩ := bind_ok h
      obtain ⟨_, -, h⟩ := bind_ok h
      obtain ⟨_, -, h⟩ := bind_ok h
      obtain ⟨url, -, h⟩ := bind_ok h
      obtain ⟨_, -, h⟩ := bind_ok h
      obtain ⟨_, -, h⟩ := bind_ok h
      obtain ⟨updated, hupdated, h⟩ := bind_ok h
      cases h
      exact epoch_lt hupdated

end Members

end CatalogApi.LedgerBackfill
