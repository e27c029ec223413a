import Mathlib.Data.List.Basic

/-!
# Flat arrays of blocks

Records of one width, kept one after the other in a flat array: reading the block at an index gives
the record's bytes (`block_at`), and writing it replaces that record alone (`set_block`).
-/

namespace CatalogApi.Blocks

variable {α ρ : Type} {width : Nat} {bytes : ρ → List α}

/-- The block at an index. -/
def blockAt (width : Nat) (flat : List α) (index : Nat) : List α :=
  (flat.drop (width * index)).take width

/-- The array with another block at an index. -/
def setBlock (width : Nat) (flat : List α) (index : Nat) (block : List α) : List α :=
  flat.take (width * index) ++ block ++ flat.drop (width * index + width)

theorem length_flat (hwidth : ∀ row, (bytes row).length = width) (rows : List ρ) :
    (rows.flatMap bytes).length = width * rows.length := by
  induction rows with
  | nil => rfl
  | cons row rows ih =>
      rw [List.flatMap_cons, List.length_append, ih, hwidth, List.length_cons, Nat.mul_succ,
        Nat.add_comm]

/-- A block of a flat array is the record at its index. -/
theorem block_at (hwidth : ∀ row, (bytes row).length = width) {rows : List ρ} {index : Nat} {row : ρ}
    (hrow : rows[index]? = some row) : blockAt width (rows.flatMap bytes) index = bytes row := by
  induction rows generalizing index with
  | nil => cases hrow
  | cons head rows ih =>
      have hhead := hwidth head
      cases index with
      | zero =>
          cases hrow
          rw [blockAt, List.flatMap_cons, Nat.mul_zero, List.drop_zero, ← hhead, List.take_left]
      | succ index =>
          have hrest := ih hrow
          have hdrop : (bytes head ++ rows.flatMap bytes).drop width = rows.flatMap bytes :=
            List.drop_left' hhead
          rw [blockAt] at hrest ⊢
          rw [List.flatMap_cons, Nat.mul_succ, Nat.add_comm, ← List.drop_drop, hdrop, hrest]

/-- Writing a block replaces the record at its index. -/
theorem set_block (hwidth : ∀ row, (bytes row).length = width) {rows : List ρ} {index : Nat}
    (hindex : index < rows.length) (row : ρ) :
    setBlock width (rows.flatMap bytes) index (bytes row) = (rows.set index row).flatMap bytes := by
  induction rows generalizing index with
  | nil => cases hindex
  | cons head rows ih =>
      have hhead := hwidth head
      cases index with
      | zero =>
          rw [setBlock, List.set_cons_zero, List.flatMap_cons, List.flatMap_cons, Nat.mul_zero,
            List.take_zero, List.nil_append, Nat.zero_add, ← hhead, List.drop_left]
      | succ index =>
          have hrest := ih (Nat.lt_of_succ_lt_succ hindex)
          have htake : (bytes head ++ rows.flatMap bytes).take (width + width * index) =
              bytes head ++ (rows.flatMap bytes).take (width * index) := by
            rw [← hhead, List.take_length_add_append]
          have hdrop : (bytes head ++ rows.flatMap bytes).drop width = rows.flatMap bytes :=
            List.drop_left' hhead
          rw [setBlock] at hrest ⊢
          rw [List.set_cons_succ, List.flatMap_cons, List.flatMap_cons, ← hrest, Nat.mul_succ,
            Nat.add_comm (width * index) width, htake, Nat.add_assoc, ← List.drop_drop, hdrop,
            List.append_assoc, List.append_assoc, List.append_assoc, Nat.add_comm width]

end CatalogApi.Blocks
