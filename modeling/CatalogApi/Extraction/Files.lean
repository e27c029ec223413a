import CatalogApi.Lib.ByKey
import Mathlib.Algebra.Ring.Nat
import Mathlib.Data.String.Basic

/-!
# Reading the files of an extraction

The records of a version's JSONL files as `_read_violations` and `_read_skipped` read them
(`extraction_analysis.py`), up to a number of bytes and of records over all files of UTF-8 text. What
is returned are the records of the lines within the bytes, as many as the cap on records lets through,
unless a line that is reached before raises an error that is not caught (`read_violations_capped`).
-/

namespace CatalogApi.Extraction

open ByKey

variable {R : Type}

/-- What a line of a JSONL file comes to: it is blank or corrupt, or it is an object, or it raises,
being a value of another kind or one on which `json.loads` raises no `JSONDecodeError`. -/
inductive Content (R : Type) where
  | skipped
  | object (record : R)
  | raises

/-- A line of a JSONL file, with its bytes. -/
structure Line (R : Type) where
  bytes : Nat
  content : Content R

/-- An entry of a version's directory, with the lines of the files that it has. -/
structure EntityDir (R : Type) where
  name : String
  isDir : Bool
  violations : Option (List (Line R))
  skipped : Option (List (Line R))

/-- The caps on one version. -/
structure Caps where
  totalBytes : Nat
  records : Nat

/-- `_MAX_JSONL_TOTAL_BYTES` and `_MAX_JSONL_RECORDS`. -/
def jsonlCaps : Caps where
  totalBytes := 64 * 1024 * 1024
  records := 200000

/-- What was read so far. -/
structure Reading (R : Type) where
  records : List R
  bytesRead : Nat

/-- How the loops end before their last line: by the early `return`, or by an error. -/
inductive Stop (R : Type) where
  | returned (records : List R)
  | raised

/-- The loop over the lines of a file, which gives every record its entity type by `inject`. -/
def readLines (caps : Caps) (inject : R → R) : Reading R → List (Line R) →
    Except (Stop R) (Reading R)
  | reading, [] => .ok reading
  | reading, line :: lines =>
      let bytesRead := reading.bytesRead + line.bytes
      if caps.totalBytes < bytesRead ∨ caps.records ≤ reading.records.length then
        .error (.returned reading.records)
      else
        match line.content with
        | .skipped => readLines caps inject ⟨reading.records, bytesRead⟩ lines
        | .object record => readLines caps inject ⟨reading.records ++ [inject record], bytesRead⟩ lines
        | .raises => .error .raised

/-- The loop over the entries of the directory; none if it raises. -/
def readDirs (caps : Caps) (file : EntityDir R → Option (List (Line R)))
    (inject : String → R → R) : Reading R → List (EntityDir R) → Option (List R)
  | reading, [] => some reading.records
  | reading, dir :: dirs =>
      if dir.isDir then
        match file dir with
        | none => readDirs caps file inject reading dirs
        | some lines =>
            match readLines caps (inject dir.name) reading lines with
            | .error (.returned records) => some records
            | .error .raised => none
            | .ok reading => readDirs caps file inject reading dirs
      else readDirs caps file inject reading dirs

/-- `_read_violations`, of the entries in any order. -/
def readViolations (caps : Caps) (inject : String → R → R) (dirs : List (EntityDir R)) :
    Option (List R) :=
  readDirs caps (·.violations) inject ⟨[], 0⟩ (sortBy (·.name) dirs)

/-- `_read_skipped`, of the entries in any order. -/
def readSkipped (caps : Caps) (inject : String → R → R) (dirs : List (EntityDir R)) :
    Option (List R) :=
  readDirs caps (·.skipped) inject ⟨[], 0⟩ (sortBy (·.name) dirs)

/-! ## The lines that are read -/

/-- The record of a line. -/
def Line.record (line : Line R) : Option R :=
  match line.content with
  | .object record => some record
  | _ => none

/-- The line raises when it is read. -/
def Line.raises (line : Line R) : Bool :=
  match line.content with
  | .raises => true
  | _ => false

/-- A line whose record has its entity type. -/
def Line.tag (inject : R → R) (line : Line R) : Line R :=
  { line with
    content := match line.content with
      | .skipped => .skipped
      | .object record => .object (inject record)
      | .raises => .raises }

/-- The lines of an entry. -/
def dirLines (file : EntityDir R → Option (List (Line R))) (inject : String → R → R)
    (dir : EntityDir R) : List (Line R) :=
  if dir.isDir then ((file dir).getD []).map (Line.tag (inject dir.name)) else []

/-- The first lines that stay within so many bytes together. -/
def within : Nat → List (Line R) → List (Line R)
  | _, [] => []
  | budget, line :: lines =>
      if line.bytes ≤ budget then line :: within (budget - line.bytes) lines else []

/-- The first lines up to the one that fills the cap on records. -/
def beforeFull : Nat → List (Line R) → List (Line R)
  | _, [] => []
  | 0, _ => []
  | room + 1, line :: lines =>
      line :: beforeFull (if line.record.isSome then room else room + 1) lines

/-- The lines that a read reaches. -/
def reached (caps : Caps) (lines : List (Line R)) : List (Line R) :=
  beforeFull caps.records (within caps.totalBytes lines)

/-- What a read of these lines comes to, none if a line it reaches raises. -/
def outcome (caps : Caps) (lines : List (Line R)) : Option (List R) :=
  if (reached caps lines).any (·.raises) then none
  else some (((within caps.totalBytes lines).filterMap (·.record)).take caps.records)

theorem prefix_within (budget : Nat) (lines : List (Line R)) : within budget lines <+: lines := by
  induction lines generalizing budget with
  | nil => exact List.prefix_rfl
  | cons line lines ih =>
      rw [within]
      split
      case isTrue => exact (List.prefix_cons_inj line).mpr (ih _)
      case isFalse => exact List.nil_prefix

theorem within_all {budget : Nat} {lines : List (Line R)}
    (h : (lines.map (·.bytes)).sum ≤ budget) : within budget lines = lines := by
  induction lines generalizing budget with
  | nil => rfl
  | cons line lines ih =>
      rw [List.map_cons, List.sum_cons] at h
      rw [within, if_pos (by omega), ih (by omega)]

/-! ## The loops -/

/-- What a loop over lines leaves, whether it ends or returns early. -/
def left : Except (Stop R) (Reading R) → Option (List R)
  | .error (.returned records) => some records
  | .error .raised => none
  | .ok reading => some reading.records

theorem read_lines_tag (caps : Caps) (inject : R → R) (reading : Reading R)
    (lines : List (Line R)) :
    readLines caps inject reading lines =
      readLines caps id reading (lines.map (Line.tag inject)) := by
  induction lines generalizing reading with
  | nil => rfl
  | cons line lines ih =>
      cases hcontent : line.content with
      | skipped => simp [readLines, Line.tag, hcontent, ih]
      | object record => simp [readLines, Line.tag, hcontent, ih]
      | raises => simp [readLines, Line.tag, hcontent]

/-- A loop over more lines goes on where the first lines left it, unless it ended there. -/
theorem read_lines_append (caps : Caps) (reading : Reading R) (first rest : List (Line R)) :
    readLines caps id reading (first ++ rest) =
      (readLines caps id reading first).bind fun reading => readLines caps id reading rest := by
  induction first generalizing reading with
  | nil => rfl
  | cons line lines ih =>
      rw [List.cons_append, readLines, readLines]
      split
      case isTrue => rfl
      case isFalse =>
        cases line.content with
        | skipped => exact ih _
        | object record => exact ih _
        | raises => rfl

/-- The loop over the entries is the loop over all their lines. -/
theorem read_dirs_eq (caps : Caps) (file : EntityDir R → Option (List (Line R)))
    (inject : String → R → R) (reading : Reading R) (dirs : List (EntityDir R)) :
    readDirs caps file inject reading dirs =
      left (readLines caps id reading (dirs.flatMap (dirLines file inject))) := by
  induction dirs generalizing reading with
  | nil => rfl
  | cons dir dirs ih =>
      rw [List.flatMap_cons, read_lines_append, readDirs]
      by_cases hdir : dir.isDir
      · rw [if_pos hdir, dirLines, if_pos hdir]
        cases hfile : file dir with
        | none => exact ih reading
        | some lines =>
            dsimp only
            rw [Option.getD_some, ← read_lines_tag]
            cases readLines caps (inject dir.name) reading lines with
            | error stop => cases stop <;> rfl
            | ok reading => exact ih reading
      · rw [if_neg hdir, dirLines, if_neg hdir]
        exact ih reading

theorem before_full_zero (lines : List (Line R)) : beforeFull 0 lines = [] := by
  cases lines <;> rfl

/-- A line is reached while there is room, and a record takes some. -/
theorem before_full_cons {room : Nat} (h : 0 < room) (line : Line R) (lines : List (Line R)) :
    beforeFull room (line :: lines) =
      line :: beforeFull (room - if line.record.isSome then 1 else 0) lines := by
  cases room with
  | zero => exact absurd h (Nat.lt_irrefl 0)
  | succ room =>
      rw [beforeFull]
      cases line.record <;> rfl

/-- Within both caps the loop adds the records of the lines that fit, up to the cap on records, unless
one of the lines it reaches raises. -/
theorem left_read_lines (caps : Caps) {reading : Reading R}
    (hbytes : reading.bytesRead ≤ caps.totalBytes)
    (hrecords : reading.records.length ≤ caps.records) (lines : List (Line R)) :
    left (readLines caps id reading lines) =
      if (beforeFull (caps.records - reading.records.length)
          (within (caps.totalBytes - reading.bytesRead) lines)).any (·.raises) then none
      else some ((reading.records ++
        (within (caps.totalBytes - reading.bytesRead) lines).filterMap (·.record)).take
          caps.records) := by
  induction lines generalizing reading with
  | nil =>
      show some reading.records = _
      rw [within, List.filterMap_nil, List.append_nil, List.take_of_length_le hrecords, beforeFull]
      rfl
  | cons line lines ih =>
      rw [readLines]
      by_cases hover : caps.totalBytes < reading.bytesRead + line.bytes
      · -- the line does not fit, and none after it is read
        have hnone : within (caps.totalBytes - reading.bytesRead) (line :: lines) = [] := by
          rw [within, if_neg (by omega)]
        rw [if_pos (Or.inl hover), hnone, List.filterMap_nil, List.append_nil,
          List.take_of_length_le hrecords, beforeFull]
        rfl
      by_cases hfull : caps.records ≤ reading.records.length
      · -- whatever fits, the cap on records leaves nothing of it
        rw [if_pos (Or.inr hfull), List.take_append_of_le_length hfull,
          List.take_of_length_le hrecords, Nat.sub_eq_zero_of_le hfull, before_full_zero]
        rfl
      have hsome : within (caps.totalBytes - reading.bytesRead) (line :: lines) =
          line :: within (caps.totalBytes - (reading.bytesRead + line.bytes)) lines := by
        rw [within, if_pos (by omega), Nat.sub_sub]
      rw [if_neg (by omega), hsome,
        before_full_cons (by omega : 0 < caps.records - reading.records.length), List.any_cons]
      have hfits : reading.bytesRead + line.bytes ≤ caps.totalBytes := by omega
      cases hcontent : line.content with
      | skipped =>
          have hrecord : line.record = none := by rw [Line.record, hcontent]
          have hraises : line.raises = false := by rw [Line.raises, hcontent]
          rw [List.filterMap_cons_none hrecord, hrecord, hraises, Bool.false_or]
          exact ih hfits hrecords
      | object record =>
          have hrecord : line.record = some record := by rw [Line.record, hcontent]
          have hraises : line.raises = false := by rw [Line.raises, hcontent]
          have hlength : (reading.records ++ [record]).length ≤ caps.records := by
            rw [List.length_append, List.length_singleton]
            omega
          have hrest := @ih ⟨reading.records ++ [record], reading.bytesRead + line.bytes⟩ hfits
            hlength
          rw [List.length_append, List.length_singleton, ← Nat.sub_sub] at hrest
          rw [List.filterMap_cons_some hrecord, hrecord, hraises, Bool.false_or, List.append_cons]
          exact hrest
      | raises =>
          have hraises : line.raises = true := by rw [Line.raises, hcontent]
          rw [hraises, Bool.true_or]
          rfl

/-- The lines of a file over all entries, by name. -/
def allLines (file : EntityDir R → Option (List (Line R))) (inject : String → R → R)
    (dirs : List (EntityDir R)) : List (Line R) :=
  (sortBy (·.name) dirs).flatMap (dirLines file inject)

/-- What a read of a file over all entries says. -/
structure Capped (caps : Caps) (lines : List (Line R)) (read : Option (List R)) : Prop where
  /-- It raises exactly when a line that it reaches does. -/
  raised : read = none ↔ ∃ line ∈ reached caps lines, line.raises = true
  /-- Else it has the records of the lines within the bytes, up to the cap on records. -/
  records : ∀ records, read = some records →
    records = ((within caps.totalBytes lines).filterMap (·.record)).take caps.records
  /-- They are the first records, and within the cap. -/
  first : ∀ records, read = some records →
    records <+: lines.filterMap (·.record) ∧ records.length ≤ caps.records
  /-- They are all of them where both caps suffice. -/
  all : ∀ records, read = some records → (lines.map (·.bytes)).sum ≤ caps.totalBytes →
    (lines.filterMap (·.record)).length ≤ caps.records → records = lines.filterMap (·.record)

theorem read_dirs_outcome (caps : Caps) (file : EntityDir R → Option (List (Line R)))
    (inject : String → R → R) (dirs : List (EntityDir R)) :
    readDirs caps file inject ⟨[], 0⟩ dirs =
      outcome caps (dirs.flatMap (dirLines file inject)) := by
  rw [read_dirs_eq, left_read_lines caps (Nat.zero_le _) (Nat.zero_le _), List.nil_append,
    Nat.sub_zero, List.length_nil, Nat.sub_zero]
  rfl

theorem outcome_capped (caps : Caps) (lines : List (Line R)) :
    Capped caps lines (outcome caps lines) := by
  have hrecords : ∀ records, outcome caps lines = some records →
      records = ((within caps.totalBytes lines).filterMap (·.record)).take caps.records := by
    intro records hread
    rw [outcome] at hread
    split at hread
    · cases hread
    · exact (Option.some.inj hread).symm
  constructor
  case raised =>
    rw [← List.any_eq_true, outcome]
    split <;> simp_all
  case records => exact hrecords
  case first =>
    intro records hread
    rw [hrecords records hread]
    exact ⟨(List.take_prefix _ _).trans ((prefix_within _ _).filterMap _),
      List.length_take_le _ _⟩
  case all =>
    intro records hread hbytes hlength
    rw [hrecords records hread, within_all hbytes]
    exact List.take_of_length_le hlength

theorem sort_dirs_congr {dirs dirs' : List (EntityDir R)} (hnames : (dirs.map (·.name)).Nodup)
    (hperm : dirs.Perm dirs') : sortBy (·.name) dirs = sortBy (·.name) dirs' :=
  sort_by_eq_of_perm hperm fun _ ha _ hb heq => List.inj_on_of_nodup_map hnames ha hb heq

/-- In whatever order the directory lists its entries, a read comes to the same: it raises when a line
that it reaches does, and else has the records of the lines that fit into the bytes, up to the cap on
records: first records of the entries by name, and all of them where both caps suffice. -/
theorem read_violations_capped (caps : Caps) (inject : String → R → R)
    {dirs dirs' : List (EntityDir R)} (hnames : (dirs.map (·.name)).Nodup)
    (hperm : dirs.Perm dirs') :
    (readViolations caps inject dirs' = readViolations caps inject dirs ∧
      readSkipped caps inject dirs' = readSkipped caps inject dirs) ∧
    Capped caps (allLines (·.violations) inject dirs) (readViolations caps inject dirs) ∧
    Capped caps (allLines (·.skipped) inject dirs) (readSkipped caps inject dirs) := by
  have hsort := sort_dirs_congr hnames hperm
  refine ⟨⟨?_, ?_⟩, ?_, ?_⟩
  · rw [readViolations, readViolations, hsort]
  · rw [readSkipped, readSkipped, hsort]
  · rw [readViolations, read_dirs_outcome]
    exact outcome_capped caps _
  · rw [readSkipped, read_dirs_outcome]
    exact outcome_capped caps _

/-- Two entity types, with a corrupt line in the first and a line that raises in the skipped records of
the second. -/
def twoEntities : List (EntityDir (String × Nat)) :=
  [⟨"releases", true, some [⟨30, .object ("", 17)⟩, ⟨9, .skipped⟩], none⟩,
    ⟨"artists", true, some [⟨28, .object ("", 4)⟩], some [⟨3, .raises⟩]⟩]

theorem two_entities_read :
    readViolations jsonlCaps (fun name record => (name, record.2)) twoEntities.reverse =
        some [("artists", 4), ("releases", 17)] ∧
      readSkipped jsonlCaps (fun name record => (name, record.2)) twoEntities.reverse = none := by
  have hread := (read_violations_capped jsonlCaps (fun name record => (name, record.2))
    (by decide : (twoEntities.map (·.name)).Nodup)
    (List.reverse_perm twoEntities).symm).1
  rw [hread.1, hread.2]
  decide

end CatalogApi.Extraction
