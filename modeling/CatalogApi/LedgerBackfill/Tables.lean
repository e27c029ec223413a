import CatalogApi.LedgerBackfill.Stream
import CatalogApi.Lib.Text
import Mathlib.Algebra.Group.Int.Defs
import Mathlib.Data.List.Infix

/-!
# Reading the five tables

`ExportReader.read_member` of `api/ledger_backfill.py`, one line of a table at a time: which cells it
takes from a line, which of Python's exceptions a line raises, and the arrays a line is appended to.
-/

namespace CatalogApi.LedgerBackfill

open Text

/-- The exceptions that can end the reading of an export. -/
inductive Failure where
  | index | value | overflow | os | eof | tar
  deriving DecidableEq

/-- The conversions of the standard library a line goes through, `none` where they raise
`ValueError`. A UUID has 16 bytes, and a timestamp is of the years 1 to 9999, in seconds. -/
structure Builtins where
  decode : Bytes → Option String
  decodeAscii : Bytes → Option String
  int : Bytes → Option Int
  intText : String → Option Int
  uuid : String → Option { gid : Bytes // gid.length = 16 }
  timestamp : String → Option { moment : Int // -2 ^ 38 ≤ moment ∧ moment < 2 ^ 38 }

/-! ## Cells -/

/-- `raw.split(b"\t", limit)`. -/
def splitTabs (limit : Nat) : Bytes → List Bytes
  | [] => [[]]
  | byte :: raw =>
      if limit ≠ 0 ∧ byte = 9 then [] :: splitTabs (limit - 1) raw
      else
        match splitTabs limit raw with
        | [] => [[byte]]
        | cell :: cells => (byte :: cell) :: cells

/-- `text.rstrip("\n")`. -/
def stripNewlines (text : String) : String :=
  String.ofList (text.toList.reverse.dropWhile (· = '\n')).reverse

/-- `cells[index]`. -/
def cell {α : Type} (cells : List α) (index : Nat) : Except Failure α :=
  match cells[index]? with
  | some cell => .ok cell
  | none => .error .index

/-- A conversion that raises `ValueError`. -/
def convert {α : Type} (value : Option α) : Except Failure α :=
  match value with
  | some value => .ok value
  | none => .error .value

/-- An integer appended to an `array("i")`. -/
def int32 (value : Int) : Except Failure Int :=
  if -2 ^ 31 ≤ value ∧ value < 2 ^ 31 then .ok value else .error .overflow

/-- `_DISCOGS_RELEASE`. -/
def discogsRelease : String := "https://www.discogs.com/release/"

/-- `_I64_MAX`. -/
def i64Max : Int := 2 ^ 63 - 1

/-- `_I64.fullmatch`: an optional `+`, then one or more digits. -/
def isI64 (text : String) : Bool :=
  isDigit ((afterPrefix "+" text).getD text)

section Lines

variable (builtins : Builtins)

/-- `extract_discogs_id` of a release. -/
def extractDiscogsId (url : String) : Except Failure (Option Int) :=
  match afterPrefix discogsRelease url with
  | none => .ok none
  | some rest =>
      let head := (split '-' rest).headD ""
      if isI64 head then do
        let value ← convert (builtins.intText head)
        pure (if value ≤ i64Max then some value else none)
      else .ok none

/-- `epoch`: whole seconds, 0 for NULL. -/
def epoch (text : String) : Except Failure Int :=
  if text = "\\N" then .ok 0
  else do
    let moment ← convert (builtins.timestamp text)
    pure moment.val

/-- A `link_type` line: the id of a discogs release-url link type. -/
def readLinkType (raw : Bytes) : Except Failure (Option Int) := do
  let text ← convert (builtins.decode raw)
  let cells := split '\t' (stripNewlines text)
  if (← cell cells 4) = "release" then
    if (← cell cells 5) = "url" then
      if (← cell cells 6) = "discogs" then
        let id ← convert (builtins.intText (← cell cells 0))
        return some id
  return none

/-- A `link` line: id and link type. -/
def readLink (raw : Bytes) : Except Failure (Int × Int) := do
  let link := splitTabs 2 raw
  let id ← int32 (← convert (builtins.int (← cell link 0)))
  let linkType ← int32 (← convert (builtins.int (← cell link 1)))
  return (id, linkType)

/-- The needle of a `url` line: a tab, and the start of a Discogs release URL. -/
def needle : Bytes := 9 :: discogsRelease.toList.map (·.toUInt8)

/-- A `url` line: id and Discogs id of a Discogs release URL. -/
def readUrl (raw : Bytes) : Except Failure (Option (Int × Int)) := do
  if needle <:+: raw then
    let text ← convert (builtins.decode raw)
    let cells := split '\t' (stripNewlines text)
    match ← extractDiscogsId builtins (← cell cells 2) with
    | none => return none
    | some found =>
        let id ← int32 (← convert (builtins.intText (← cell cells 0)))
        return some (id, found)
  else return none

/-- A row of `l_release_url` as the reader keeps it. -/
structure ReleaseUrl where
  id : Int
  link : Int
  release : Int
  url : Int
  updated : Int
  deriving DecidableEq

/-- An `l_release_url` line. -/
def readReleaseUrl (raw : Bytes) : Except Failure ReleaseUrl := do
  let row := splitTabs 6 raw
  let id ← int32 (← convert (builtins.int (← cell row 0)))
  let link ← int32 (← convert (builtins.int (← cell row 1)))
  let release ← int32 (← convert (builtins.int (← cell row 2)))
  let url ← int32 (← convert (builtins.int (← cell row 3)))
  let updated ← epoch builtins (← convert (builtins.decode (← cell row 5)))
  return { id, link, release, url, updated }

/-- A `release` line: id and gid. -/
def readRelease (raw : Bytes) : Except Failure (Int × { gid : Bytes // gid.length = 16 }) := do
  let release := splitTabs 2 raw
  let id ← int32 (← convert (builtins.int (← cell release 0)))
  let gid ← convert (builtins.uuid (← convert (builtins.decodeAscii (← cell release 1))))
  return (id, gid)

end Lines

/-! ## The reader -/

/-- `TABLES`. -/
def tableNames : List String := ["l_release_url", "link", "link_type", "release", "url"]

/-- `ExportReader`: the arrays the tables are kept in, those of one table of one length. -/
structure ExportReader where
  discogsLinkTypes : List Int
  linkIds : List Int
  linkTypes : List Int
  urlIds : List Int
  urlDiscogs : List Int
  rowIds : List Int
  rowLinks : List Int
  rowReleases : List Int
  rowUrls : List Int
  rowUpdated : List Int
  releaseIds : List Int
  releaseGids : Bytes
  read : List String
  links : linkTypes.length = linkIds.length
  urls : urlDiscogs.length = urlIds.length
  rows : rowLinks.length = rowIds.length ∧ rowReleases.length = rowIds.length ∧
    rowUrls.length = rowIds.length ∧ rowUpdated.length = rowIds.length
  releases : releaseGids.length = 16 * releaseIds.length

namespace ExportReader

/-- `__init__`. -/
def empty : ExportReader where
  discogsLinkTypes := []
  linkIds := []
  linkTypes := []
  urlIds := []
  urlDiscogs := []
  rowIds := []
  rowLinks := []
  rowReleases := []
  rowUrls := []
  rowUpdated := []
  releaseIds := []
  releaseGids := []
  read := []
  links := rfl
  urls := rfl
  rows := ⟨rfl, rfl, rfl, rfl⟩
  releases := rfl

variable (reader : ExportReader)

def addLinkType (id : Int) : ExportReader :=
  { reader with discogsLinkTypes := reader.discogsLinkTypes ++ [id] }

def addLink (id linkType : Int) : ExportReader :=
  { reader with
    linkIds := reader.linkIds ++ [id]
    linkTypes := reader.linkTypes ++ [linkType]
    links := by simp [reader.links] }

def addUrl (id discogsId : Int) : ExportReader :=
  { reader with
    urlIds := reader.urlIds ++ [id]
    urlDiscogs := reader.urlDiscogs ++ [discogsId]
    urls := by simp [reader.urls] }

def addReleaseUrl (row : ReleaseUrl) : ExportReader :=
  { reader with
    rowIds := reader.rowIds ++ [row.id]
    rowLinks := reader.rowLinks ++ [row.link]
    rowReleases := reader.rowReleases ++ [row.release]
    rowUrls := reader.rowUrls ++ [row.url]
    rowUpdated := reader.rowUpdated ++ [row.updated]
    rows := by simp [reader.rows] }

def addRelease (id : Int) (gid : { gid : Bytes // gid.length = 16 }) : ExportReader :=
  { reader with
    releaseIds := reader.releaseIds ++ [id]
    releaseGids := reader.releaseGids ++ gid.val
    releases := by simp [reader.releases, gid.property, Nat.mul_add] }

/-- One line of a table. -/
def readLine (builtins : Builtins) (table : String) (raw : Bytes) : Except Failure ExportReader :=
  if table = "link_type" then do
    let id ← readLinkType builtins raw
    return id.elim reader reader.addLinkType
  else if table = "link" then do
    let link ← readLink builtins raw
    return reader.addLink link.1 link.2
  else if table = "url" then do
    let url ← readUrl builtins raw
    return url.elim reader fun url => reader.addUrl url.1 url.2
  else if table = "l_release_url" then do
    let row ← readReleaseUrl builtins raw
    return reader.addReleaseUrl row
  else if table = "release" then do
    let release ← readRelease builtins raw
    return reader.addRelease release.1 release.2
  else .ok reader

/-- The end of a table. -/
def endTable (table : String) : ExportReader :=
  { reader with read := reader.read ++ [table] }

/-- `read_member`. -/
def readMember (builtins : Builtins) (table : String) (lines : List Bytes) :
    Except Failure ExportReader := do
  let reader ← lines.foldlM (fun reader raw => reader.readLine builtins table raw) reader
  return reader.endTable table

end ExportReader

end CatalogApi.LedgerBackfill
