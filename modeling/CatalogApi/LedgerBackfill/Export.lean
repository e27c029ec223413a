import CatalogApi.LedgerBackfill.Plan

/-!
# Reading an export

`read_export` of `api/ledger_backfill.py`. The decompressor and the untar layer are a deterministic
program that reads the stream and hands out members and their lines; the reader takes the lines of
the five tables, and the digest is checked before anything is planned.
-/

namespace CatalogApi.LedgerBackfill

open Text

/-- What the decompressor and the untar layer raise. -/
inductive LayerFailure where
  | os | eof | value | tar

/-- The failure as the reading of an export sees it. -/
def LayerFailure.failure : LayerFailure → Failure
  | .os => .os
  | .eof => .eof
  | .value => .value
  | .tar => .tar

/-- The decompressor and the untar layer: reads of the stream, members (told whether the member's
lines are wanted), lines of the member that is read, and how it ends. -/
inductive Untar where
  | read (size : Int) (next : Bytes → Untar)
  | member (name : String) (isFile : Bool) (next : Bool → Untar)
  | line (raw : Bytes) (next : Untar)
  | endOfMember (next : Untar)
  | raises (failure : LayerFailure)
  | done

/-- `member.name.rsplit("/", 1)[-1]`. -/
def baseName (name : String) : String := ((split '/' name).getLast?).getD ""

/-- The table a member is read as. -/
def tableOf (name : String) (isFile : Bool) : Option String :=
  if isFile ∧ baseName name ∈ tableNames then some (baseName name) else none

/-- What raises out of `read_export`: its two errors, or an exception it does not list. -/
inductive Raised where
  | checksumError (digest expected : String)
  | unreadable (failure : Failure)
  | exportError (failure : PlanFailure)
  | escaped (failure : Failure)
  deriving DecidableEq

/-- The exceptions `read_export` lists: `IndexError`, `ValueError`, `OSError`, `EOFError` and
`TarError`. -/
def Failure.listed : Failure → Bool
  | .overflow => false
  | _ => true

section Read

variable (builtins : Builtins)

/-- The layers and the reader over a stream. -/
def Untar.run : Untar → Option String → ExportReader → DigestingStream →
    Except Failure ExportReader × DigestingStream
  | .read size next, table, reader, stream =>
      (next (stream.read size).1).run table reader (stream.read size).2
  | .member name isFile next, _, reader, stream =>
      (next (tableOf name isFile).isSome).run (tableOf name isFile) reader stream
  | .line raw next, some table, reader, stream =>
      match reader.readLine builtins table raw with
      | .ok reader => next.run (some table) reader stream
      | .error failure => (.error failure, stream)
  | .line _ next, none, reader, stream => next.run none reader stream
  | .endOfMember next, some table, reader, stream => next.run none (reader.endTable table) stream
  | .endOfMember next, none, reader, stream => next.run none reader stream
  | .raises failure, _, _, stream => (.error failure.failure, stream)
  | .done, _, reader, stream => (.ok reader, stream)

variable (sha256 : Bytes → String) (untar : Untar)

/-- `read_export`; with the plan, the number of bytes read. -/
def readExport (chunks : List Bytes) (expected : String) : Except Raised (BackfillPlan × Nat) :=
  match untar.run builtins none ExportReader.empty (DigestingStream.open' chunks) with
  | (.error failure, stream) =>
      if failure.listed then
        let digest := sha256 stream.drain.digest
        if digest ≠ lower expected then .error (.checksumError digest expected)
        else .error (.unreadable failure)
      else .error (.escaped failure)
  | (.ok reader, stream) =>
      let drained := stream.drain
      let digest := sha256 drained.digest
      if digest ≠ lower expected then .error (.checksumError digest expected)
      else
        match reader.finalize with
        | .ok plan => .ok (plan, drained.size)
        | .error failure => .error (.exportError failure)

/-! ## The export as one file -/

/-- The layers and the reader over a whole file, from a position. -/
def Untar.runFile (file : Bytes) : Untar → Nat → Option String → ExportReader →
    Except Failure ExportReader
  | .read size next, position, table, reader =>
      (next (slice file position size)).runFile file
        (position + (slice file position size).length) table reader
  | .member name isFile next, position, _, reader =>
      (next (tableOf name isFile).isSome).runFile file position (tableOf name isFile) reader
  | .line raw next, position, some table, reader =>
      match reader.readLine builtins table raw with
      | .ok reader => next.runFile file position (some table) reader
      | .error failure => .error failure
  | .line _ next, position, none, reader => next.runFile file position none reader
  | .endOfMember next, position, some table, reader =>
      next.runFile file position none (reader.endTable table)
  | .endOfMember next, position, none, reader => next.runFile file position none reader
  | .raises failure, _, _, _ => .error failure.failure
  | .done, _, _, reader => .ok reader

/-- A run over a stream is the run over the file its chunks make up. -/
theorem run_eq_run_file {file : Bytes} {position : Nat} {stream : DigestingStream}
    (h : Stands file position stream) (table : Option String) (reader : ExportReader) :
    (untar.run builtins table reader stream).1 =
        untar.runFile builtins file position table reader ∧
      ∃ last, Stands file last (untar.run builtins table reader stream).2 := by
  induction untar generalizing position stream table reader with
  | read size next ih =>
      obtain ⟨hslice, hnext⟩ := h.read size
      rw [Untar.run, Untar.runFile, ← hslice]
      rw [← hslice] at hnext
      exact ih _ hnext table reader
  | member name isFile next ih => exact ih _ h _ reader
  | line raw next ih =>
      cases table with
      | none => exact ih h none reader
      | some table =>
          rw [Untar.run, Untar.runFile]
          cases reader.readLine builtins table raw with
          | ok reader => exact ih h (some table) reader
          | error failure => exact ⟨rfl, position, h⟩
  | endOfMember next ih =>
      cases table with
      | none => exact ih h none reader
      | some table => exact ih h none (reader.endTable table)
  | raises failure => exact ⟨rfl, position, h⟩
  | done => exact ⟨rfl, position, h⟩

/-- `read_export` of a whole file. -/
def readFile (file : Bytes) (expected : String) : Except Raised (BackfillPlan × Nat) :=
  match untar.runFile builtins file 0 none ExportReader.empty with
  | .error failure =>
      if failure.listed then
        if sha256 file ≠ lower expected then .error (.checksumError (sha256 file) expected)
        else .error (.unreadable failure)
      else .error (.escaped failure)
  | .ok reader =>
      if sha256 file ≠ lower expected then .error (.checksumError (sha256 file) expected)
      else
        match reader.finalize with
        | .ok plan => .ok (plan, file.length)
        | .error failure => .error (.exportError failure)

/-- Only the bytes and the expected digest show in the outcome. -/
theorem read_export_eq (chunks : List Bytes) (expected : String) :
    readExport builtins sha256 untar chunks expected =
      readFile builtins sha256 untar chunks.flatten expected := by
  obtain ⟨hrun, last, hstands⟩ :=
    run_eq_run_file builtins untar (stands_open chunks) none ExportReader.empty
  obtain ⟨hdigest, hsize⟩ := hstands.drain
  rw [readExport, readFile, ← hrun]
  generalize untar.run builtins none ExportReader.empty (DigestingStream.open' chunks) = outcome
    at hdigest hsize
  obtain ⟨outcome, stream⟩ := outcome
  cases outcome with
  | error failure => simp only [hdigest]
  | ok reader => simp only [hdigest, hsize]

/-- A plan comes only of a file with the expected digest. -/
theorem read_file_verified {file : Bytes} {expected : String} {plan : BackfillPlan × Nat}
    (h : readFile builtins sha256 untar file expected = .ok plan) :
    sha256 file = lower expected := by
  by_contra hne
  rw [readFile] at h
  cases hrun : untar.runFile builtins file 0 none ExportReader.empty with
  | error failure =>
      simp only [hrun, if_pos hne] at h
      split at h
      · cases h
      · cases h
  | ok reader =>
      simp only [hrun, if_pos hne] at h
      cases h

/-- The checksum comes before any plan: reads hand out consecutive slices of the file and draining
digests all of it, however it was chunked and wherever the reads stop; so the outcome depends on the
file and the expected digest alone, and a plan means that they agree. -/
theorem checksum_before_plan :
    (∀ (chunks : List Bytes) (sizes : List Int),
      ((DigestingStream.open' chunks).reads sizes).1 = slices chunks.flatten 0 sizes ∧
      ((DigestingStream.open' chunks).reads sizes).1.flatten <+: chunks.flatten ∧
      (∀ (index : Nat) (size : Int) (short : Bytes), sizes[index]? = some size →
        ((DigestingStream.open' chunks).reads sizes).1[index]? = some short →
        size < 0 ∨ short.length < size →
        (((DigestingStream.open' chunks).reads sizes).1.take (index + 1)).flatten =
          chunks.flatten) ∧
      sha256 ((DigestingStream.open' chunks).reads sizes).2.drain.digest =
        sha256 chunks.flatten) ∧
    (∀ (chunks chunks' : List Bytes) (expected : String), chunks.flatten = chunks'.flatten →
      readExport builtins sha256 untar chunks expected =
        readExport builtins sha256 untar chunks' expected) ∧
    ∀ (chunks : List Bytes) (expected : String) (plan : BackfillPlan × Nat),
      readExport builtins sha256 untar chunks expected = .ok plan →
        sha256 chunks.flatten = lower expected := by
  refine ⟨fun chunks sizes => ?_, fun chunks chunks' expected hsame => ?_,
    fun chunks expected plan hplan => ?_⟩
  · obtain ⟨hslices, last, hlast⟩ := (stands_open chunks).reads sizes
    rw [hslices]
    refine ⟨rfl, ?_, fun index size short hsize hslice hshort => ?_, ?_⟩
    · exact slices_prefix chunks.flatten 0 sizes
    · exact slices_short hsize hslice hshort
    · rw [hlast.drain.1]
  · rw [read_export_eq, read_export_eq, hsame]
  · rw [read_export_eq] at hplan
    exact read_file_verified builtins sha256 untar hplan

end Read

end CatalogApi.LedgerBackfill
