import CatalogApi.Lib.ByKey
import CatalogApi.Lib.Correlation
import CatalogApi.Lib.Updates
import Mathlib.Data.Rat.BigOperators
import Mathlib.Data.String.Basic

/-!
# Cosines of counted names

`to_genre_vector` and `cosine_similarity` of `api/queries/similarity.py` in exact arithmetic, and the
sorted names that two vectors share. The rows of a profile are what a query counts by name: each
name once, with a positive count. The cosine of two profiles is positive exactly when they share a
name (`cosine_pos_iff`) and one exactly when their counts have the same shares
(`cosine_eq_one_iff`).
-/

namespace CatalogApi.Recommend

open ByKey Correlation

/-- A name that a query counts by; a label or an artist of the graph may have none. -/
abbrev Name := Option String

/-- The rows of a query that counts releases by name. -/
structure Counts where
  rows : List (Name × Nat)
  positive : ∀ row ∈ rows, 0 < row.2
  distinct : (rows.map (·.1)).Nodup

/-- `[]`. -/
def Counts.none : Counts := ⟨[], fun _ h => absurd h List.not_mem_nil, List.nodup_nil⟩

/-- The releases of all rows. -/
def total (rows : List (Name × Nat)) : Nat := (rows.map (·.2)).sum

/-- `to_genre_vector`. -/
def toGenreVector (rows : List (Name × Nat)) : Dict Name ℚ :=
  if total rows = 0 then .empty
  else rows.foldl (fun vec row => vec.set row.1 (row.2 / total rows)) .empty

/-- `vec.get(name, 0.0)`. -/
def weight (vec : Dict Name ℚ) (name : Name) : ℚ := (vec.get? name).getD 0

/-- `set(vec_a) | set(vec_b)`. -/
def allKeys (vecA vecB : Dict Name ℚ) : List Name :=
  vecA.keys ++ vecB.keys.filter fun name => name ∉ vecA.keys

/-- `set(cand_vec) & target_names`. -/
def sharedNames (target counts : Counts) : List Name :=
  (toGenreVector counts.rows).keys.filter fun name => name ∈ (toGenreVector target.rows).keys

/-- Comparing a missing name with another one. -/
inductive TypeError where
  | unorderable

/-- Names in order, a missing one before the others. -/
def inOrder (names : List Name) : List Name :=
  (names.filter (·.isNone)) ++ (sortedSet (names.filterMap id)).map some

/-- `sorted` of a set of names: a missing name is fine alone, and compares with no other. -/
def sorted (names : List Name) : Except TypeError (List Name) :=
  if none ∈ names ∧ names ≠ [none] then .error .unorderable else .ok (inOrder names)

/-- The magnitude of a vector. -/
noncomputable def magnitude (vec : Dict Name ℚ) : ℝ :=
  √(((vec.entries.map fun entry => entry.2 * entry.2).sum : ℚ) : ℝ)

/-- `cosine_similarity`. -/
noncomputable def cosineSimilarity (vecA vecB : Dict Name ℚ) : ℝ :=
  if vecA.entries = [] ∨ vecB.entries = [] then 0
  else if magnitude vecA = 0 ∨ magnitude vecB = 0 then 0
  else
    ((((allKeys vecA vecB).map fun name => weight vecA name * weight vecB name).sum : ℚ) : ℝ) /
      (magnitude vecA * magnitude vecB)

/-! ## The cosine as a product of vectors -/

/-- The weights of two vectors under the names of either. -/
noncomputable def pairs (vecA vecB : Dict Name ℚ) : List (ℝ × ℝ) :=
  (allKeys vecA vecB).map fun name => ((weight vecA name : ℝ), (weight vecB name : ℝ))

theorem nodup_keys {κ α : Type} (vec : Dict κ α) : vec.keys.Nodup := vec.nodup

theorem all_keys_nodup (vecA vecB : Dict Name ℚ) : (allKeys vecA vecB).Nodup := by
  refine List.nodup_append.mpr ⟨nodup_keys vecA, (nodup_keys vecB).filter _, ?_⟩
  intro name hname other hother heq
  exact (of_decide_eq_true (List.mem_filter.mp hother).2) (heq ▸ hname)

theorem mem_all_keys {vecA vecB : Dict Name ℚ} {name : Name} :
    name ∈ allKeys vecA vecB ↔ name ∈ vecA.keys ∨ name ∈ vecB.keys := by
  rw [allKeys, List.mem_append, List.mem_filter, decide_eq_true_eq]
  tauto

theorem weight_of_absent {vec : Dict Name ℚ} {name : Name} (h : name ∉ vec.keys) :
    weight vec name = 0 := by
  rw [weight, Dict.get_eq_none.mpr h]
  rfl

/-- A sum over more names adds nothing where the terms are zero. -/
theorem sum_map_of_subset {f : Name → ℝ} {part all : List Name} (hpart : part.Nodup)
    (hall : all.Nodup) (hsub : ∀ name ∈ part, name ∈ all)
    (hzero : ∀ name ∈ all, name ∉ part → f name = 0) : (all.map f).sum = (part.map f).sum := by
  rw [← List.sum_toFinset f hall, ← List.sum_toFinset f hpart]
  refine (Finset.sum_subset ?_ ?_).symm
  · intro name hname
    exact List.mem_toFinset.mpr (hsub name (List.mem_toFinset.mp hname))
  · intro name hname hnot
    exact hzero name (List.mem_toFinset.mp hname) fun h => hnot (List.mem_toFinset.mpr h)

/-- The sum of a function of the weights, over the names and over the entries. -/
theorem sum_over_keys (vec : Dict Name ℚ) (f : ℚ → ℝ) :
    (vec.keys.map fun name => f (weight vec name)).sum =
      (vec.entries.map fun entry => f entry.2).sum := by
  rw [Dict.keys, List.map_map]
  refine congrArg List.sum (List.map_congr_left fun entry hentry => ?_)
  show f (weight vec entry.1) = f entry.2
  rw [weight, Dict.get_of_mem hentry]
  rfl

section Squares

variable (vecA vecB : Dict Name ℚ)

theorem left_pairs :
    leftSquare (pairs vecA vecB) = (vecA.entries.map fun entry => (entry.2 : ℝ) ^ 2).sum := by
  rw [leftSquare, pairs, List.map_map, ← sum_over_keys vecA fun w => (w : ℝ) ^ 2]
  refine sum_map_of_subset (nodup_keys vecA) (all_keys_nodup vecA vecB)
    (fun name hname => mem_all_keys.mpr (.inl hname)) fun name _ hnot => ?_
  show (weight vecA name : ℝ) ^ 2 = 0
  rw [weight_of_absent hnot]
  simp

theorem right_pairs :
    rightSquare (pairs vecA vecB) = (vecB.entries.map fun entry => (entry.2 : ℝ) ^ 2).sum := by
  rw [rightSquare, pairs, List.map_map, ← sum_over_keys vecB fun w => (w : ℝ) ^ 2]
  refine sum_map_of_subset (nodup_keys vecB) (all_keys_nodup vecA vecB)
    (fun name hname => mem_all_keys.mpr (.inr hname)) fun name _ hnot => ?_
  show (weight vecB name : ℝ) ^ 2 = 0
  rw [weight_of_absent hnot]
  simp

theorem magnitude_eq (vec : Dict Name ℚ) :
    magnitude vec = √((vec.entries.map fun entry => (entry.2 : ℝ) ^ 2).sum) := by
  rw [magnitude, Rat.cast_list_sum, List.map_map]
  refine congrArg (fun l : List ℝ => √l.sum) (List.map_congr_left fun entry _ => ?_)
  show ((entry.2 * entry.2 : ℚ) : ℝ) = (entry.2 : ℝ) ^ 2
  rw [Rat.cast_mul, pow_two]

/-- The cosine is the normalised product; the guards of the code are where that is zero. -/
theorem cosine_eq_quotient : cosineSimilarity vecA vecB = quotient (pairs vecA vecB) := by
  have hleft := left_pairs vecA vecB
  have hright := right_pairs vecA vecB
  have hnonneg : 0 ≤ leftSquare (pairs vecA vecB) :=
    List.sum_nonneg (List.forall_mem_map.mpr fun p _ => sq_nonneg _)
  have hdot : ((((allKeys vecA vecB).map fun name => weight vecA name * weight vecB name).sum : ℚ)
      : ℝ) = dot (pairs vecA vecB) := by
    rw [Rat.cast_list_sum, List.map_map, dot, pairs, List.map_map]
    refine congrArg List.sum (List.map_congr_left fun name _ => ?_)
    exact Rat.cast_mul _ _
  have hmagnitudes : magnitude vecA * magnitude vecB =
      √(leftSquare (pairs vecA vecB) * rightSquare (pairs vecA vecB)) := by
    rw [magnitude_eq, magnitude_eq, ← hleft, ← hright, Real.sqrt_mul hnonneg]
  have hzero (h : magnitude vecA * magnitude vecB = 0) : quotient (pairs vecA vecB) = 0 := by
    rw [quotient, ← hmagnitudes, h, div_zero]
  have hempty {vec : Dict Name ℚ} (h : vec.entries = []) : magnitude vec = 0 := by
    rw [magnitude, h]
    simp
  rw [cosineSimilarity]
  split
  case isTrue h =>
    refine (hzero (mul_eq_zero.mpr (h.imp hempty hempty))).symm
  case isFalse =>
    split
    case isTrue h => exact (hzero (mul_eq_zero.mpr h)).symm
    case isFalse => rw [hdot, hmagnitudes, quotient]

end Squares

/-! ## Profiles -/

theorem entries_foldl_set {rows : List (Name × Nat)} {share : Name × Nat → ℚ}
    {vec : Dict Name ℚ} (hdistinct : (rows.map (·.1)).Nodup)
    (hnew : ∀ row ∈ rows, vec.get? row.1 = none) :
    (rows.foldl (fun vec row => vec.set row.1 (share row)) vec).entries =
      vec.entries ++ rows.map fun row => (row.1, share row) := by
  induction rows generalizing vec with
  | nil => simp
  | cons row rows ih =>
      obtain ⟨hhead, hrows⟩ := List.nodup_cons.mp hdistinct
      rw [List.foldl_cons, ih hrows, Dict.set_of_absent (hnew row List.mem_cons_self)]
      · simp
      · intro other hother
        have hne : other.1 ≠ row.1 := fun heq =>
          hhead (List.mem_map.mpr ⟨other, hother, heq⟩)
        rw [Dict.get_set, if_neg hne]
        exact hnew other (List.mem_cons_of_mem _ hother)

variable (counts : Counts)

theorem Counts.total_eq_zero : total counts.rows = 0 ↔ counts.rows = [] := by
  constructor
  · intro hzero
    refine List.eq_nil_iff_forall_not_mem.mpr fun row hrow => ?_
    have hle : row.2 ≤ total counts.rows := List.single_le_sum (fun _ _ => Nat.zero_le _) _
      (List.mem_map_of_mem hrow)
    have hpos := counts.positive row hrow
    omega
  · intro hnil
    rw [hnil]
    rfl

/-- The vector of a profile gives each name its share. -/
theorem Counts.entries_vector : (toGenreVector counts.rows).entries =
    counts.rows.map fun row => (row.1, (row.2 : ℚ) / total counts.rows) := by
  rw [toGenreVector]
  split
  case isTrue hzero =>
    rw [counts.total_eq_zero.mp hzero]
    rfl
  case isFalse =>
    rw [entries_foldl_set counts.distinct fun _ _ => rfl]
    rfl

/-- The share of a name among the releases of the rows. -/
def Counts.share (name : Name) : ℚ := weight (toGenreVector counts.rows) name

/-- The names of the rows. -/
def Counts.names : List Name := counts.rows.map (·.1)

theorem Counts.keys_vector : (toGenreVector counts.rows).keys = counts.names := by
  rw [Dict.keys, counts.entries_vector, List.map_map]
  rfl

theorem Counts.share_pos_iff (name : Name) : 0 < counts.share name ↔ name ∈ counts.names := by
  constructor
  case mp =>
    intro hpos
    by_contra hnot
    rw [Counts.share, weight_of_absent (counts.keys_vector ▸ hnot)] at hpos
    exact lt_irrefl 0 hpos
  case mpr =>
    intro hname
    obtain ⟨row, hrow, rfl⟩ := List.mem_map.mp hname
    have hentry : (row.1, (row.2 : ℚ) / total counts.rows) ∈
        (toGenreVector counts.rows).entries := by
      rw [counts.entries_vector]
      exact List.mem_map_of_mem hrow
    have htotal : total counts.rows ≠ 0 := fun h => by
      rw [counts.total_eq_zero.mp h] at hrow
      cases hrow
    have hcount := counts.positive row hrow
    rw [Counts.share, weight, Dict.get_of_mem hentry]
    show (0 : ℚ) < row.2 / total counts.rows
    exact div_pos (by exact_mod_cast hcount) (by exact_mod_cast Nat.pos_of_ne_zero htotal)

theorem Counts.share_nonneg (name : Name) : 0 ≤ counts.share name := by
  by_cases hname : name ∈ counts.names
  · exact ((counts.share_pos_iff name).mpr hname).le
  · rw [Counts.share, weight_of_absent (counts.keys_vector ▸ hname)]

/-- The shares of a profile with rows add up to one. -/
theorem Counts.sum_shares (h : counts.rows ≠ []) {all : List Name} (hall : all.Nodup)
    (hsub : ∀ name ∈ counts.names, name ∈ all) :
    (all.map fun name => (counts.share name : ℝ)).sum = 1 := by
  have htotal : total counts.rows ≠ 0 := fun hzero => h (counts.total_eq_zero.mp hzero)
  have hzero : ∀ name ∈ all, name ∉ counts.names → (counts.share name : ℝ) = 0 := by
    intro name _ hnot
    rw [Counts.share, weight_of_absent (counts.keys_vector ▸ hnot), Rat.cast_zero]
  have hsum := sum_over_keys (toGenreVector counts.rows) fun w => (w : ℝ)
  rw [counts.keys_vector, counts.entries_vector, List.map_map] at hsum
  rw [sum_map_of_subset counts.distinct hall hsub hzero]
  refine hsum.trans ?_
  have hdivide (n : Nat) (rows : List (Name × Nat)) : (rows.map ((fun entry : Name × ℚ =>
      (entry.2 : ℝ)) ∘ fun row => (row.1, (row.2 : ℚ) / n))).sum = (total rows : ℝ) / n := by
    induction rows with
    | nil => simp [total]
    | cons row rows ih =>
        rw [List.map_cons, List.sum_cons, ih]
        simp only [Function.comp_apply, total, List.map_cons, List.sum_cons]
        push_cast
        ring
  rw [hdivide, div_self (by exact_mod_cast htotal)]

/-! ## The cosine of two profiles -/

/-- The cosine of two profiles. -/
noncomputable def Counts.cosine (a b : Counts) : ℝ :=
  cosineSimilarity (toGenreVector a.rows) (toGenreVector b.rows)

section Cosine

variable (a b : Counts)

theorem Counts.mem_pairs {p : ℝ × ℝ} :
    p ∈ pairs (toGenreVector a.rows) (toGenreVector b.rows) ↔
      ∃ name, (name ∈ a.names ∨ name ∈ b.names) ∧ p = ((a.share name : ℝ), (b.share name : ℝ)) := by
  rw [pairs, List.mem_map]
  simp only [mem_all_keys, Counts.keys_vector, Counts.share, eq_comm]

theorem Counts.pairs_nonneg :
    ∀ p ∈ pairs (toGenreVector a.rows) (toGenreVector b.rows), 0 ≤ p.1 ∧ 0 ≤ p.2 := by
  intro p hp
  obtain ⟨name, -, rfl⟩ := (Counts.mem_pairs a b).mp hp
  exact ⟨Rat.cast_nonneg.mpr (a.share_nonneg name), Rat.cast_nonneg.mpr (b.share_nonneg name)⟩

theorem Counts.cosine_nonneg : 0 ≤ a.cosine b := by
  rw [Counts.cosine, cosine_eq_quotient]
  exact quotient_nonneg (Counts.pairs_nonneg a b)

/-- Two profiles have a positive cosine exactly when they share a name. -/
theorem Counts.cosine_pos_iff : 0 < a.cosine b ↔ ∃ name ∈ a.names, name ∈ b.names := by
  rw [Counts.cosine, cosine_eq_quotient, quotient_pos_iff (Counts.pairs_nonneg a b)]
  constructor
  case mp =>
    intro ⟨p, hp, hfirst, hsecond⟩
    obtain ⟨name, -, rfl⟩ := (Counts.mem_pairs a b).mp hp
    exact ⟨name, (a.share_pos_iff name).mp (Rat.cast_pos.mp hfirst),
      (b.share_pos_iff name).mp (Rat.cast_pos.mp hsecond)⟩
  case mpr =>
    intro ⟨name, hname, hname'⟩
    exact ⟨_, (Counts.mem_pairs a b).mpr ⟨name, .inl hname, rfl⟩,
      Rat.cast_pos.mpr ((a.share_pos_iff name).mpr hname),
      Rat.cast_pos.mpr ((b.share_pos_iff name).mpr hname')⟩

/-- The cosine is zero, or both profiles have rows. -/
theorem Counts.squares_pos (h : a.cosine b ≠ 0) :
    0 < leftSquare (pairs (toGenreVector a.rows) (toGenreVector b.rows)) ∧
      0 < rightSquare (pairs (toGenreVector a.rows) (toGenreVector b.rows)) := by
  rw [Counts.cosine, cosine_eq_quotient] at h
  have hnonneg {f : ℝ × ℝ → ℝ} : 0 ≤ ((pairs (toGenreVector a.rows)
      (toGenreVector b.rows)).map fun p => f p ^ 2).sum :=
    List.sum_nonneg (List.forall_mem_map.mpr fun p _ => sq_nonneg _)
  refine ⟨lt_of_le_of_ne hnonneg fun hzero => h ?_, lt_of_le_of_ne hnonneg fun hzero => h ?_⟩
  · have hleft : leftSquare (pairs (toGenreVector a.rows) (toGenreVector b.rows)) = 0 := hzero.symm
    rw [quotient, hleft, zero_mul, Real.sqrt_zero, div_zero]
  · have hright : rightSquare (pairs (toGenreVector a.rows) (toGenreVector b.rows)) = 0 :=
      hzero.symm
    rw [quotient, hright, mul_zero, Real.sqrt_zero, div_zero]

theorem Counts.cosine_le_one : a.cosine b ≤ 1 := by
  by_cases hzero : a.cosine b = 0
  · rw [hzero]
    exact zero_le_one
  · obtain ⟨hleft, hright⟩ := Counts.squares_pos a b hzero
    rw [Counts.cosine, cosine_eq_quotient]
    exact quotient_le_one hleft hright

/-- Two profiles have the cosine one exactly when they have the same shares, and some. -/
theorem Counts.cosine_eq_one_iff : a.cosine b = 1 ↔ a.rows ≠ [] ∧ a.share = b.share := by
  have hnames (counts : Counts) (name : Name) (h : name ∉ counts.names) :
      counts.share name = 0 :=
    le_antisymm (not_lt.mp fun hpos => h ((counts.share_pos_iff name).mp hpos))
      (counts.share_nonneg name)
  constructor
  case mp =>
    intro hone
    obtain ⟨hleft, hright⟩ := Counts.squares_pos a b (by rw [hone]; exact one_ne_zero)
    obtain ⟨name, hname, hname'⟩ := (Counts.cosine_pos_iff a b).mp (by rw [hone]; exact one_pos)
    have hrows {counts : Counts} (h : name ∈ counts.names) : counts.rows ≠ [] := by
      obtain ⟨row, hrow, -⟩ := List.mem_map.mp h
      exact List.ne_nil_of_mem hrow
    rw [Counts.cosine, cosine_eq_quotient, quotient_eq_one_iff hleft hright] at hone
    have hall := all_keys_nodup (toGenreVector a.rows) (toGenreVector b.rows)
    have hmem (name : Name) : name ∈ allKeys (toGenreVector a.rows) (toGenreVector b.rows) ↔
        name ∈ a.names ∨ name ∈ b.names := by
      rw [mem_all_keys, Counts.keys_vector, Counts.keys_vector]
    have hsum := a.sum_shares (hrows hname) hall fun name h => (hmem name).mpr (.inl h)
    have hsum' := b.sum_shares (hrows hname') hall fun name h => (hmem name).mpr (.inr h)
    -- parallel vectors differ by a factor, and the shares of both sides sum to one
    set x := √(leftSquare (pairs (toGenreVector a.rows) (toGenreVector b.rows))) with hx
    set y := √(rightSquare (pairs (toGenreVector a.rows) (toGenreVector b.rows))) with hy
    have hxpos : 0 < x := Real.sqrt_pos.mpr hleft
    have hypos : 0 < y := Real.sqrt_pos.mpr hright
    have hscaled : ∀ name, (a.share name : ℝ) / x = b.share name / y := by
      intro name
      by_cases h : name ∈ a.names ∨ name ∈ b.names
      · exact hone _ ((Counts.mem_pairs a b).mpr ⟨name, h, rfl⟩)
      · rw [hnames a name fun h' => h (.inl h'), hnames b name fun h' => h (.inr h')]
        simp
    have hscale : x = y := by
      have hmap : ((allKeys (toGenreVector a.rows) (toGenreVector b.rows)).map
          fun name => (a.share name : ℝ)) =
          (allKeys (toGenreVector a.rows) (toGenreVector b.rows)).map
            fun name => (b.share name : ℝ) * (x / y) := by
        refine List.map_congr_left fun name _ => ?_
        have h := hscaled name
        rw [div_eq_div_iff hxpos.ne' hypos.ne'] at h
        field_simp
        exact h
      rw [hmap, List.sum_map_mul_right, hsum', one_mul, div_eq_one_iff_eq hypos.ne'] at hsum
      exact hsum
    refine ⟨hrows hname, funext fun name => ?_⟩
    have h := hscaled name
    rw [hscale, div_left_inj' hypos.ne'] at h
    exact_mod_cast h
  case mpr =>
    intro ⟨hrows, hshare⟩
    obtain ⟨row, hrow⟩ := List.exists_mem_of_ne_nil _ hrows
    have hname : row.1 ∈ a.names := List.mem_map_of_mem hrow
    have hname' : row.1 ∈ b.names := (b.share_pos_iff _).mp
      (hshare ▸ (a.share_pos_iff _).mpr hname)
    have hpos := (Counts.cosine_pos_iff a b).mpr ⟨row.1, hname, hname'⟩
    obtain ⟨hleft, hright⟩ := Counts.squares_pos a b hpos.ne'
    have hequal : ∀ p ∈ pairs (toGenreVector a.rows) (toGenreVector b.rows), p.1 = p.2 := by
      intro p hp
      obtain ⟨name, -, rfl⟩ := (Counts.mem_pairs a b).mp hp
      rw [hshare]
    have hsquares : leftSquare (pairs (toGenreVector a.rows) (toGenreVector b.rows)) =
        rightSquare (pairs (toGenreVector a.rows) (toGenreVector b.rows)) :=
      congrArg List.sum (List.map_congr_left fun p hp => by rw [hequal p hp])
    rw [Counts.cosine, cosine_eq_quotient, quotient_eq_one_iff hleft hright]
    intro p hp
    rw [hsquares, hequal p hp]

theorem Counts.cosine_comm : a.cosine b = b.cosine a := by
  have hperm : (allKeys (toGenreVector a.rows) (toGenreVector b.rows)).Perm
      (allKeys (toGenreVector b.rows) (toGenreVector a.rows)) :=
    (List.perm_ext_iff_of_nodup (all_keys_nodup _ _) (all_keys_nodup _ _)).mpr fun name => by
      rw [mem_all_keys, mem_all_keys, or_comm]
  rw [Counts.cosine, Counts.cosine, cosine_eq_quotient, cosine_eq_quotient, pairs,
    quotient_perm (hperm.map _), ← quotient_swap, List.map_map]
  rfl

end Cosine

end CatalogApi.Recommend
