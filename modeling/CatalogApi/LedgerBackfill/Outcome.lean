import CatalogApi.LedgerBackfill.Export

/-!
# Failures of an export

An id goes into a 32-bit array, and one that does not fit raises `OverflowError`, which `read_export`
does not list. `tableLines` is what the layers hand out of a file and `overflows` reads such an id
off a line; a line raises `OverflowError` exactly there (`read_line_overflow`), so exactly the files
whose first unreadable line is of this kind leave `read_export` without its digest check.
-/

namespace CatalogApi.LedgerBackfill

open Text

/-! ## Lines of the tables -/

/-- The lines of the five tables that the layers hand out of a file, from a position. -/
def Untar.tableLines (file : Bytes) : Untar → Nat → Option String → List (String × Bytes)
  | .read size next, position, table =>
      (next (slice file position size)).tableLines file
        (position + (slice file position size).length) table
  | .member name isFile next, position, _ =>
      (next (tableOf name isFile).isSome).tableLines file position (tableOf name isFile)
  | .line raw next, position, some table =>
      (table, raw) :: next.tableLines file position (some table)
  | .line _ next, position, none => next.tableLines file position none
  | .endOfMember next, position, _ => next.tableLines file position none
  | .raises _, _, _ => []
  | .done, _, _ => []

variable (builtins : Builtins)

/-- The cells of a line that go into a 32-bit array, in the order they are converted; `none` is a
cell that is missing or not a number. -/
def idCells (table : String) (raw : Bytes) : List (Option Int) :=
  if table = "link" then
    [((splitTabs 2 raw)[0]?).bind builtins.int, ((splitTabs 2 raw)[1]?).bind builtins.int]
  else if table = "url" then
    if needle <:+: raw then
      match builtins.decode raw with
      | none => []
      | some text =>
          let cells := split '\t' (stripNewlines text)
          match (cell cells 2).bind (extractDiscogsId builtins) with
          | .ok (some _) => [(cells[0]?).bind builtins.intText]
          | _ => []
    else []
  else if table = "l_release_url" then
    let row := splitTabs 6 raw
    [(row[0]?).bind builtins.int, (row[1]?).bind builtins.int, (row[2]?).bind builtins.int,
      (row[3]?).bind builtins.int]
  else if table = "release" then [((splitTabs 2 raw)[0]?).bind builtins.int]
  else []

/-- A number outside 32 bits comes before any cell that is none. -/
def overflows : List (Option Int) → Bool
  | some id :: cells => if -2 ^ 31 ≤ id ∧ id < 2 ^ 31 then overflows cells else true
  | _ => false

/-- A line that cannot be read. -/
def unreadable (line : String × Bytes) : Bool :=
  match ExportReader.empty.readLine builtins line.1 line.2 with
  | .ok _ => false
  | .error _ => true

/-- The first line of a file that cannot be read. -/
def firstUnreadable (untar : Untar) (file : Bytes) : Option (String × Bytes) :=
  (untar.tableLines file 0 none).find? (unreadable builtins)

/-! ## One line -/

section Cells

variable {α β : Type} {cells : List α} {index : Nat} {parse : α → Option Int}

theorem convert_overflow (value : Option α) : convert value ≠ .error .overflow := by
  cases value with
  | none => nofun
  | some value => nofun

theorem cell_overflow (cells : List α) (index : Nat) : cell cells index ≠ .error .overflow := by
  rw [cell]
  split
  · nofun
  · nofun

/-- A step that does not overflow passes an overflow on from what follows. -/
theorem bind_overflow {step : Except Failure α} {next : α → Except Failure β}
    (hstep : step ≠ .error .overflow) :
    step >>= next = .error .overflow ↔ ∃ value, step = .ok value ∧ next value = .error .overflow := by
  cases step with
  | error failure =>
      refine ⟨fun h => ?_, fun ⟨value, hvalue, _⟩ => by cases hvalue⟩
      exact absurd (by cases h; rfl) hstep
  | ok value =>
      refine ⟨fun h => ⟨value, rfl, h⟩, ?_⟩
      rintro ⟨found, hfound, h⟩
      cases hfound
      exact h

/-- An id cell overflows, or passes on what follows overflows. -/
theorem id_cell_overflow {next : Int → Except Failure β} {rest : List (Option Int)}
    (hnext : ∀ id, next id = .error .overflow ↔ overflows rest = true) :
    (do
      let id ← int32 (← convert (parse (← cell cells index)))
      next id) = .error .overflow ↔
      overflows ((cells[index]?).bind parse :: rest) = true := by
  rw [bind_overflow (cell_overflow cells index)]
  cases hcell : cells[index]? with
  | none => simp [cell, hcell, overflows]
  | some found =>
      have hok : cell cells index = .ok found := by rw [cell, hcell]
      simp only [hok, Except.ok.injEq, exists_eq_left']
      rw [bind_overflow (convert_overflow (parse found)), Option.bind_some]
      cases hparse : parse found with
      | none => simp [convert, overflows]
      | some id =>
          simp only [convert, Except.ok.injEq, exists_eq_left', int32, overflows]
          split
          · exact hnext id
          · simp [bind, Except.bind]

end Cells

theorem read_link_type_overflow (raw : Bytes) :
    readLinkType builtins raw ≠ .error .overflow := by
  rw [readLinkType]
  intro h
  obtain ⟨text, -, h⟩ := (bind_overflow (convert_overflow _)).mp h
  obtain ⟨entity, -, h⟩ := (bind_overflow (cell_overflow _ _)).mp h
  split at h
  · obtain ⟨target, -, h⟩ := (bind_overflow (cell_overflow _ _)).mp h
    split at h
    · obtain ⟨name, -, h⟩ := (bind_overflow (cell_overflow _ _)).mp h
      split at h
      · obtain ⟨id, -, h⟩ := (bind_overflow (cell_overflow _ _)).mp h
        obtain ⟨id, -, h⟩ := (bind_overflow (convert_overflow _)).mp h
        cases h
      · cases h
    · cases h
  · cases h

theorem read_link_overflow (raw : Bytes) :
    readLink builtins raw = .error .overflow ↔ overflows (idCells builtins "link" raw) = true := by
  refine id_cell_overflow fun id => ?_
  refine id_cell_overflow fun linkType => ?_
  simp [overflows, pure, Except.pure]

theorem extract_discogs_id_overflow (url : String) :
    extractDiscogsId builtins url ≠ .error .overflow := by
  rw [extractDiscogsId]
  intro h
  split at h
  · cases h
  · dsimp only at h
    split at h
    · obtain ⟨value, -, h⟩ := (bind_overflow (convert_overflow _)).mp h
      cases h
    · cases h

/-- A `url` line overflows exactly when its id is too wide. -/
theorem read_url_overflow (raw : Bytes) :
    readUrl builtins raw = .error .overflow ↔ overflows (idCells builtins "url" raw) = true := by
  have hcells : idCells builtins "url" raw = if needle <:+: raw then
      match builtins.decode raw with
      | none => []
      | some text =>
          match (cell (split '\t' (stripNewlines text)) 2).bind (extractDiscogsId builtins) with
          | .ok (some _) => [((split '\t' (stripNewlines text))[0]?).bind builtins.intText]
          | _ => []
      else [] := rfl
  rw [hcells, readUrl]
  split
  · rw [bind_overflow (convert_overflow _)]
    cases hdecode : builtins.decode raw with
    | none => simp [convert, overflows]
    | some text =>
        simp only [convert, Except.ok.injEq, exists_eq_left']
        rw [bind_overflow (cell_overflow _ _)]
        cases hurl : cell (split '\t' (stripNewlines text)) 2 with
        | error failure => simp [Except.bind, overflows]
        | ok url =>
            simp only [Except.ok.injEq, exists_eq_left', Except.bind]
            rw [bind_overflow (extract_discogs_id_overflow builtins url)]
            cases hfound : extractDiscogsId builtins url with
            | error failure => simp [overflows]
            | ok found =>
                simp only [Except.ok.injEq, exists_eq_left']
                cases found with
                | none => simp [overflows, pure, Except.pure]
                | some found =>
                    refine id_cell_overflow fun id => ?_
                    simp [overflows, pure, Except.pure]
  · simp [overflows, pure, Except.pure]

theorem epoch_overflow (text : String) : epoch builtins text ≠ .error .overflow := by
  rw [epoch]
  intro h
  split at h
  · cases h
  · obtain ⟨moment, -, h⟩ := (bind_overflow (convert_overflow _)).mp h
    cases h

theorem read_release_url_overflow (raw : Bytes) :
    readReleaseUrl builtins raw = .error .overflow ↔
      overflows (idCells builtins "l_release_url" raw) = true := by
  refine id_cell_overflow fun id => ?_
  refine id_cell_overflow fun link => ?_
  refine id_cell_overflow fun release => ?_
  refine id_cell_overflow fun url => ?_
  simp only [overflows, Bool.false_eq_true, iff_false]
  intro h
  obtain ⟨stamp, -, h⟩ := (bind_overflow (cell_overflow _ _)).mp h
  obtain ⟨text, -, h⟩ := (bind_overflow (convert_overflow _)).mp h
  obtain ⟨updated, -, h⟩ := (bind_overflow (epoch_overflow builtins _)).mp h
  cases h

theorem read_release_overflow (raw : Bytes) :
    readRelease builtins raw = .error .overflow ↔
      overflows (idCells builtins "release" raw) = true := by
  refine id_cell_overflow fun id => ?_
  simp only [overflows, Bool.false_eq_true, iff_false]
  intro h
  obtain ⟨gid, -, h⟩ := (bind_overflow (cell_overflow _ _)).mp h
  obtain ⟨text, -, h⟩ := (bind_overflow (convert_overflow _)).mp h
  obtain ⟨bytes, -, h⟩ := (bind_overflow (convert_overflow _)).mp h
  cases h

/-- A line that is taken into a reader fails as the line does. -/
theorem take_error {α : Type} {line : Except Failure α} {take : α → ExportReader}
    {failure : Failure} :
    (do let found ← line; return take found) = .error failure ↔ line = .error failure := by
  cases line with
  | error raised => simp [bind, Except.bind]
  | ok found => simp [bind, Except.bind, pure, Except.pure]

variable (reader : ExportReader) (table : String) (raw : Bytes)

/-- What a line raises does not depend on what was read before. -/
theorem read_line_error (failure : Failure) :
    reader.readLine builtins table raw = .error failure ↔
      ExportReader.empty.readLine builtins table raw = .error failure := by
  rw [ExportReader.readLine, ExportReader.readLine]
  split
  · rw [take_error, take_error]
  split
  · rw [take_error, take_error]
  split
  · rw [take_error, take_error]
  split
  · rw [take_error, take_error]
  split
  · rw [take_error, take_error]
  · exact ⟨fun h => (by cases h), fun h => (by cases h)⟩

/-- A line overflows exactly at an id outside 32 bits before any cell that is no number. -/
theorem read_line_overflow :
    reader.readLine builtins table raw = .error .overflow ↔
      overflows (idCells builtins table raw) = true := by
  rw [ExportReader.readLine]
  split
  · rename_i h
    subst h
    rw [take_error]
    exact iff_of_false (read_link_type_overflow builtins raw) (by nofun)
  split
  · rename_i h
    subst h
    rw [take_error, read_link_overflow]
  split
  · rename_i h
    subst h
    rw [take_error, read_url_overflow]
  split
  · rename_i h
    subst h
    rw [take_error, read_release_url_overflow]
  split
  · rename_i h
    subst h
    rw [take_error, read_release_overflow]
  · rename_i hlink hurl hrow hrelease
    refine iff_of_false (by nofun) ?_
    rw [idCells, if_neg hlink, if_neg hurl, if_neg hrow, if_neg hrelease]
    nofun

/-! ## A whole file -/

/-- The reading of a file overflows where its first unreadable line does. -/
theorem run_file_overflow (untar : Untar) (file : Bytes) (position : Nat) (table : Option String)
    (reader : ExportReader) :
    untar.runFile builtins file position table reader = .error .overflow ↔
      ∃ line, (untar.tableLines file position table).find? (unreadable builtins) = some line ∧
        overflows (idCells builtins line.1 line.2) = true := by
  induction untar generalizing position table reader with
  | read size next ih => exact ih _ _ table reader
  | member name isFile next ih => exact ih _ position _ reader
  | line raw next ih =>
      cases table with
      | none => exact ih position none reader
      | some table =>
          rw [Untar.runFile, Untar.tableLines, List.find?_cons]
          cases hline : reader.readLine builtins table raw with
          | ok read =>
              have hread : unreadable builtins (table, raw) = false := by
                rw [unreadable]
                split
                · rfl
                · rename_i failure hfailure
                  rw [← read_line_error builtins reader, hline] at hfailure
                  cases hfailure
              rw [hread]
              exact ih position (some table) read
          | error failure =>
              have hread : unreadable builtins (table, raw) = true := by
                rw [unreadable, (read_line_error builtins reader table raw failure).mp hline]
              simp only [hread, Option.some.injEq, exists_eq_left', Except.error.injEq]
              rw [← read_line_overflow builtins reader, hline, Except.error.injEq]
  | endOfMember next ih =>
      cases table with
      | none => exact ih position none reader
      | some table => exact ih position none (reader.endTable table)
  | raises failure =>
      refine iff_of_false ?_ (by rintro ⟨line, hline, -⟩; cases hline)
      cases failure <;> simp [Untar.runFile, LayerFailure.failure]
  | done => exact iff_of_false (by simp [Untar.runFile]) (by rintro ⟨line, hline, -⟩; cases hline)

/-- A digest and the outcome of reading: another digest is a checksum error, and the expected one
gives a plan or an export error. -/
def Classified (digest expected : String) (outcome : Except Raised (BackfillPlan × Nat)) : Prop :=
  (digest ≠ lower expected → outcome = .error (.checksumError digest expected)) ∧
    (digest = lower expected → (∃ plan, outcome = .ok plan) ∨
      (∃ failure, outcome = .error (.unreadable failure)) ∨
      ∃ failure, outcome = .error (.exportError failure))

/-- An outcome that checks the digest first is classified. -/
theorem Classified.of_check {digest expected : String}
    {outcome : Except Raised (BackfillPlan × Nat)}
    (h : (∃ plan, outcome = .ok plan) ∨ (∃ failure, outcome = .error (.unreadable failure)) ∨
      ∃ failure, outcome = .error (.exportError failure)) :
    Classified digest expected
      (if digest ≠ lower expected then .error (.checksumError digest expected) else outcome) := by
  refine ⟨fun hne => if_pos hne, fun heq => ?_⟩
  rw [if_neg (not_not_intro heq)]
  exact h

theorem not_classified_of_escaped (digest expected : String) (failure : Failure) :
    ¬Classified digest expected (.error (.escaped failure)) := by
  rintro ⟨hother, hsame⟩
  by_cases hdigest : digest = lower expected
  · rcases hsame hdigest with ⟨plan, hplan⟩ | ⟨raised, hraised⟩ | ⟨raised, hraised⟩
    · cases hplan
    · cases hraised
    · cases hraised
  · cases hother hdigest

/-- The reading of a file is classified unless it overflows. -/
theorem classified_iff_not_overflow (sha256 : Bytes → String) (untar : Untar) (file : Bytes)
    (expected : String) :
    Classified (sha256 file) expected (readFile builtins sha256 untar file expected) ↔
      untar.runFile builtins file 0 none ExportReader.empty ≠ .error .overflow := by
  rw [readFile]
  cases untar.runFile builtins file 0 none ExportReader.empty with
  | ok reader =>
      refine iff_of_true (Classified.of_check ?_) (by simp)
      cases reader.finalize with
      | ok plan => exact Or.inl ⟨_, rfl⟩
      | error failure => exact Or.inr (Or.inr ⟨failure, rfl⟩)
  | error failure =>
      cases failure with
      | overflow =>
          exact iff_of_false (not_classified_of_escaped _ _ _) (not_not_intro rfl)
      | index => exact iff_of_true (Classified.of_check (Or.inr (Or.inl ⟨_, rfl⟩))) (by simp)
      | value => exact iff_of_true (Classified.of_check (Or.inr (Or.inl ⟨_, rfl⟩))) (by simp)
      | os => exact iff_of_true (Classified.of_check (Or.inr (Or.inl ⟨_, rfl⟩))) (by simp)
      | eof => exact iff_of_true (Classified.of_check (Or.inr (Or.inl ⟨_, rfl⟩))) (by simp)
      | tar => exact iff_of_true (Classified.of_check (Or.inr (Or.inl ⟨_, rfl⟩))) (by simp)

/-- Every failure is classified exactly if the first line that cannot be read, if there is one, does
not fail at an id outside 32 bits. -/
theorem failures_classified_iff (sha256 : Bytes → String) (untar : Untar) (chunks : List Bytes)
    (expected : String) :
    Classified (sha256 chunks.flatten) expected
        (readExport builtins sha256 untar chunks expected) ↔
      ∀ line, firstUnreadable builtins untar chunks.flatten = some line →
        overflows (idCells builtins line.1 line.2) = false := by
  rw [read_export_eq, classified_iff_not_overflow, Ne, run_file_overflow, not_exists]
  refine forall_congr' fun line => ?_
  rw [not_and, Bool.not_eq_true]
  exact Iff.rfl

/-! ## An id of 2 ^ 31 -/

/-- Conversions that know the cells of one line. -/
def wideBuiltins : Builtins where
  decode := fun _ => none
  decodeAscii := fun _ => none
  int := fun raw =>
    if raw = "2147483648".toList.map (·.toUInt8) then some 2147483648
    else if raw = "1\n".toList.map (·.toUInt8) then some 1
    else none
  intText := fun _ => none
  uuid := fun _ => none
  timestamp := fun _ => none

/-- The bytes of an export in two chunks: a line of the `link` table with that id. -/
def wideChunks : List Bytes :=
  ["21474".toList.map (·.toUInt8), "83648\t1\n".toList.map (·.toUInt8)]

/-- Layers without compression: the bytes they read are the one line of the `link` table. -/
def wideUntar : Untar :=
  .read 64 fun first => .read 64 fun second =>
    .member "mbdump/link" true fun _ => .line (first ++ second) (.endOfMember .done)

/-- An id of 2 ^ 31 leaves `read_export` as an `OverflowError`, also where the digest differs. -/
theorem wide_id_escapes :
    ¬∀ (builtins : Builtins) (sha256 : Bytes → String) (untar : Untar) (chunks : List Bytes)
      (expected : String), Classified (sha256 chunks.flatten) expected
        (readExport builtins sha256 untar chunks expected) := by
  intro h
  have hescaped : readExport wideBuiltins (fun _ => "ab") wideUntar wideChunks "cd" =
      .error (.escaped .overflow) := by decide +kernel
  have hclassified := h wideBuiltins (fun _ => "ab") wideUntar wideChunks "cd"
  rw [hescaped] at hclassified
  exact not_classified_of_escaped _ _ _ hclassified

end CatalogApi.LedgerBackfill
