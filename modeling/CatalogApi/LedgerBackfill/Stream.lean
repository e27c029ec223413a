import Mathlib.Data.List.Basic
import Mathlib.Order.Nat

/-!
# The digesting stream

`_DigestingStream` of `api/ledger_backfill.py`: a read-only file over byte chunks that feeds every
chunk it pulls to a digest. `Stands` says where a stream stands in the concatenation of its chunks;
every read hands out the next slice from there (`Stands.read`) and draining digests all of it
(`Stands.drain`), so the chunks show in nothing.
-/

namespace CatalogApi.LedgerBackfill

abbrev Bytes := List UInt8

/-- `_DigestingStream`; the digest is the bytes it was updated with. -/
structure DigestingStream where
  chunks : List Bytes
  buffer : Bytes
  digest : Bytes
  size : Nat

namespace DigestingStream

/-- `__init__`. -/
def open' (chunks : List Bytes) : DigestingStream :=
  { chunks, buffer := [], digest := [], size := 0 }

/-- `_pull` of this chunk, with these after it. -/
def pulled (stream : DigestingStream) (chunk : Bytes) (rest : List Bytes) : DigestingStream :=
  { chunks := rest
    buffer := stream.buffer ++ chunk
    digest := stream.digest ++ chunk
    size := stream.size + chunk.length }

/-- The loop of `read`, over the chunks that are left. -/
def fill (size : Int) (stream : DigestingStream) : List Bytes → DigestingStream
  | [] => { stream with chunks := [] }
  | chunk :: rest =>
      if size < 0 ∨ stream.buffer.length < size then
        fill size (stream.pulled chunk rest) rest
      else { stream with chunks := chunk :: rest }

/-- `read`. -/
def read (stream : DigestingStream) (size : Int) : Bytes × DigestingStream :=
  let filled := stream.fill size stream.chunks
  let count := if size < 0 then filled.buffer.length else size.toNat
  (filled.buffer.take count, { filled with buffer := filled.buffer.drop count })

/-- The loop of `drain`, over the chunks that are left. -/
def drainFrom (stream : DigestingStream) : List Bytes → DigestingStream
  | [] => { stream with chunks := [] }
  | chunk :: rest => drainFrom { stream.pulled chunk rest with buffer := [] } rest

/-- `drain`, up to the digest. -/
def drain (stream : DigestingStream) : DigestingStream :=
  drainFrom { stream with buffer := [] } stream.chunks

/-- The slices of a sequence of reads, and the stream after them. -/
def reads (stream : DigestingStream) : List Int → List Bytes × DigestingStream
  | [] => ([], stream)
  | size :: sizes =>
      let (slice, next) := stream.read size
      let (slices, last) := next.reads sizes
      (slice :: slices, last)

end DigestingStream

/-! ## The file the chunks make up -/

/-- The next slice of this size of a file, from a position. -/
def slice (file : Bytes) (position : Nat) (size : Int) : Bytes :=
  if size < 0 then file.drop position else (file.drop position).take size.toNat

/-- The slices of a sequence of reads of a file, from a position. -/
def slices (file : Bytes) (position : Nat) : List Int → List Bytes
  | [] => []
  | size :: sizes =>
      slice file position size ::
        slices file (position + (slice file position size).length) sizes

/-- The stream stands at a position of a file: what it pulled is digested and what it has not handed
out is buffered. -/
structure Stands (file : Bytes) (position : Nat) (stream : DigestingStream) : Prop where
  file_eq : stream.digest ++ stream.chunks.flatten = file
  buffer_eq : stream.buffer = stream.digest.drop position
  handed : position ≤ stream.digest.length
  size_eq : stream.size = stream.digest.length

variable {file : Bytes} {position : Nat} {stream : DigestingStream}

theorem stands_open (chunks : List Bytes) :
    Stands chunks.flatten 0 (DigestingStream.open' chunks) where
  file_eq := List.nil_append _
  buffer_eq := rfl
  handed := Nat.le_refl 0
  size_eq := rfl

theorem Stands.pulled (h : Stands file position stream) {chunk : Bytes} {rest : List Bytes}
    (hchunks : stream.chunks = chunk :: rest) :
    Stands file position (stream.pulled chunk rest) where
  file_eq := by
    have hfile := h.file_eq
    rw [hchunks, List.flatten_cons, ← List.append_assoc] at hfile
    exact hfile
  buffer_eq := by
    rw [DigestingStream.pulled, h.buffer_eq, List.drop_append_of_le_length h.handed]
  handed := by
    rw [DigestingStream.pulled, List.length_append]
    exact Nat.le_add_right_of_le h.handed
  size_eq := by
    rw [DigestingStream.pulled, h.size_eq, List.length_append]

/-- The loop of `read` ends with enough in the buffer or nothing left to pull. -/
theorem Stands.fill (size : Int) (h : Stands file position stream) {chunks : List Bytes}
    (hchunks : stream.chunks = chunks) :
    Stands file position (stream.fill size chunks) ∧
      ((stream.fill size chunks).chunks = [] ∨
        0 ≤ size ∧ size ≤ (stream.fill size chunks).buffer.length) := by
  induction chunks generalizing stream with
  | nil =>
      have hsame : stream.fill size [] = stream := by
        rw [DigestingStream.fill, ← hchunks]
      rw [hsame]
      exact ⟨h, Or.inl hchunks⟩
  | cons chunk rest ih =>
      rw [DigestingStream.fill]
      split
      · exact ih (h.pulled hchunks) rfl
      · rename_i hfull
        have henough : 0 ≤ size ∧ size ≤ stream.buffer.length := by omega
        rw [← hchunks]
        exact ⟨h, Or.inr henough⟩

/-- A read hands out the next slice of the file. -/
theorem Stands.read (h : Stands file position stream) (size : Int) :
    (stream.read size).1 = slice file position size ∧
      Stands file (position + (slice file position size).length) (stream.read size).2 := by
  obtain ⟨hfill, hend⟩ := h.fill size rfl
  generalize hfilled : stream.fill size stream.chunks = filled at hfill hend
  have hrest : file.drop position = filled.buffer ++ filled.chunks.flatten := by
    rw [← hfill.file_eq, List.drop_append_of_le_length hfill.handed, ← hfill.buffer_eq]
  have hslice : (stream.read size).1 = slice file position size := by
    rw [DigestingStream.read, hfilled, slice, hrest]
    split
    · rename_i hneg
      have hnil := hend.resolve_right (by omega)
      rw [hnil, List.flatten_nil, List.append_nil, List.take_length]
    · rcases hend with hnil | ⟨-, henough⟩
      · rw [hnil, List.flatten_nil, List.append_nil]
      · rw [List.take_append_of_le_length (by omega)]
  refine ⟨hslice, ?_⟩
  have hlength : (slice file position size).length ≤ filled.buffer.length := by
    rw [← hslice, DigestingStream.read, hfilled, List.length_take]
    exact Nat.min_le_right _ _
  have hbuffer : (stream.read size).2.buffer =
      filled.buffer.drop (slice file position size).length := by
    rw [← hslice, DigestingStream.read, hfilled, List.length_take]
    rcases Nat.le_total (if size < 0 then filled.buffer.length else size.toNat)
      filled.buffer.length with hle | hge
    · rw [Nat.min_eq_left hle]
    · rw [Nat.min_eq_right hge, List.drop_length, List.drop_eq_nil_of_le hge]
  have hpulled : filled.buffer.length + position = filled.digest.length := by
    rw [hfill.buffer_eq, List.length_drop, Nat.sub_add_cancel hfill.handed]
  exact
    { file_eq := by
        rw [DigestingStream.read, hfilled]
        exact hfill.file_eq
      buffer_eq := by
        rw [hbuffer, hfill.buffer_eq, List.drop_drop, DigestingStream.read, hfilled]
      handed := by
        rw [DigestingStream.read, hfilled]
        change _ ≤ filled.digest.length
        omega
      size_eq := by
        rw [DigestingStream.read, hfilled]
        exact hfill.size_eq }

/-- A sequence of reads hands out the slices of the file. -/
theorem Stands.reads (h : Stands file position stream) (sizes : List Int) :
    (stream.reads sizes).1 = slices file position sizes ∧
      ∃ last, Stands file last (stream.reads sizes).2 := by
  induction sizes generalizing position stream with
  | nil => exact ⟨rfl, position, h⟩
  | cons size sizes ih =>
      obtain ⟨hslice, hnext⟩ := h.read size
      obtain ⟨hslices, hlast⟩ := ih hnext
      refine ⟨?_, hlast⟩
      change (stream.read size).1 :: ((stream.read size).2.reads sizes).1 = _
      rw [hslice, hslices]
      rfl

theorem Stands.drain_from {chunks : List Bytes}
    (hfile : stream.digest ++ chunks.flatten = file) (hsize : stream.size = stream.digest.length) :
    (stream.drainFrom chunks).digest = file ∧ (stream.drainFrom chunks).size = file.length := by
  induction chunks generalizing stream with
  | nil =>
      rw [List.flatten_nil, List.append_nil] at hfile
      rw [DigestingStream.drainFrom, ← hfile]
      exact ⟨rfl, hsize⟩
  | cons chunk rest ih =>
      rw [DigestingStream.drainFrom]
      refine ih ?_ ?_
      · rw [List.flatten_cons, ← List.append_assoc] at hfile
        exact hfile
      · change stream.size + chunk.length = (stream.digest ++ chunk).length
        rw [List.length_append, hsize]

/-- Draining digests the whole file, whatever was read. -/
theorem Stands.drain (h : Stands file position stream) :
    stream.drain.digest = file ∧ stream.drain.size = file.length :=
  Stands.drain_from h.file_eq h.size_eq

/-! ## Slices -/

theorem slice_prefix (file : Bytes) (position : Nat) (size : Int) :
    slice file position size <+: file.drop position := by
  rw [slice]
  split
  · exact List.prefix_rfl
  · exact List.take_prefix _ _

/-- The slices are consecutive: together they are a prefix of the file from the position on. -/
theorem slices_prefix (file : Bytes) (position : Nat) (sizes : List Int) :
    (slices file position sizes).flatten <+: file.drop position := by
  induction sizes generalizing position with
  | nil => exact List.nil_prefix
  | cons size sizes ih =>
      obtain ⟨rest, hrest⟩ := slice_prefix file position size
      have hdrop : file.drop (position + (slice file position size).length) = rest := by
        rw [← List.drop_drop, ← hrest, List.drop_left]
      rw [slices, List.flatten_cons, ← hrest, List.prefix_append_right_inj, ← hdrop]
      exact ih _

/-- A slice is shorter than its size only at the end of the file. -/
theorem slice_short {file : Bytes} {position : Nat} {size : Int}
    (hshort : size < 0 ∨ (slice file position size).length < size) :
    file.drop (position + (slice file position size).length) = [] := by
  rw [List.drop_eq_nil_iff]
  rw [slice] at hshort ⊢
  split
  · rw [List.length_drop]
    omega
  · rename_i hsize
    rw [if_neg hsize, List.length_take, List.length_drop] at hshort
    rw [List.length_take, List.length_drop]
    omega

/-- Up to a slice shorter than its size, the slices are all of the file. -/
theorem slices_short {file : Bytes} {position : Nat} {sizes : List Int} {index : Nat} {size : Int}
    {short : Bytes} (hsize : sizes[index]? = some size)
    (hslice : (slices file position sizes)[index]? = some short)
    (hshort : size < 0 ∨ short.length < size) :
    ((slices file position sizes).take (index + 1)).flatten = file.drop position := by
  induction sizes generalizing position index with
  | nil => simp at hsize
  | cons first sizes ih =>
      have hsplit : slice file position first ++
          file.drop (position + (slice file position first).length) = file.drop position := by
        obtain ⟨rest, hrest⟩ := slice_prefix file position first
        rw [← List.drop_drop, ← hrest, List.drop_left]
      rw [slices, List.take_succ_cons, List.flatten_cons]
      cases index with
      | zero =>
          rw [List.getElem?_cons_zero, Option.some.injEq] at hsize
          rw [slices, List.getElem?_cons_zero, Option.some.injEq] at hslice
          subst hsize hslice
          rw [List.take_zero, List.flatten_nil, ← slice_short hshort, hsplit]
      | succ index =>
          rw [List.getElem?_cons_succ] at hsize
          rw [slices, List.getElem?_cons_succ] at hslice
          rw [ih hsize hslice, hsplit]

end CatalogApi.LedgerBackfill
