import CatalogApi.Lib.ByKey

/-!
# The least rows of a list

What a query keeps that orders its rows by a key and limits their number: `n` rows that no other
row is less than. Ties leave it open which rows these are (`Firsts`). A part of a list that keeps
`n` rows before each row it leaves out has the same least rows as the list (`Keeps.firsts`), so
rows may be limited in parts first and together then (`Firsts.append`). A key that tells the rows
apart decides the least (`Firsts.eq_take`).
-/

namespace CatalogApi.ByKey

variable {α β κ : Type} [LinearOrder κ] {key : α → κ} {n : Nat}
  {all all' rows rows' least : List α}

/-- The rows are `n` of a list that no other row is less than by the key, in some order. -/
structure Firsts (key : α → κ) (n : Nat) (all rows : List α) : Prop where
  length : rows.length = min n all.length
  split : ∃ rest, all.Perm (rows ++ rest) ∧ ∀ a ∈ rows, ∀ b ∈ rest, key a ≤ key b

namespace Firsts

/-- The first rows of a list in order. -/
theorem take_sorted (hsorted : all.Pairwise fun a b => key a ≤ key b) :
    Firsts key n all (all.take n) where
  length := List.length_take
  split := by
    refine ⟨all.drop n, by rw [List.take_append_drop], ?_⟩
    rw [← List.take_append_drop n all, List.pairwise_append] at hsorted
    exact hsorted.2.2

theorem perm (h : Firsts key n all rows) (hall : all.Perm all') (hrows : rows.Perm rows') :
    Firsts key n all' rows' where
  length := by rw [← hrows.length_eq, ← hall.length_eq, h.length]
  split := by
    obtain ⟨rest, hperm, hle⟩ := h.split
    exact ⟨rest, hall.symm.trans (hperm.trans (hrows.append_right rest)),
      fun a ha => hle a (hrows.mem_iff.mpr ha)⟩

theorem mem (h : Firsts key n all rows) {a : α} (ha : a ∈ rows) : a ∈ all := by
  obtain ⟨rest, hperm, -⟩ := h.split
  exact hperm.mem_iff.mpr (List.mem_append_left rest ha)

/-- The least rows of the images, under a key that orders the images alike. -/
theorem map {κ' : Type} [LinearOrder κ'] {f : α → β} {order : β → κ'} (h : Firsts key n all rows)
    (hkey : ∀ a ∈ all, ∀ b ∈ all, key a ≤ key b → order (f a) ≤ order (f b)) :
    Firsts order n (all.map f) (rows.map f) where
  length := by rw [List.length_map, List.length_map, h.length]
  split := by
    obtain ⟨rest, hperm, hle⟩ := h.split
    refine ⟨rest.map f, ?_, ?_⟩
    · rw [← List.map_append]
      exact hperm.map f
    · intro b hb c hc
      obtain ⟨a, ha, rfl⟩ := List.mem_map.mp hb
      obtain ⟨a', ha', rfl⟩ := List.mem_map.mp hc
      exact hkey a (h.mem ha) a' (hperm.mem_iff.mpr (List.mem_append_right rows ha'))
        (hle a ha a' ha')

end Firsts

theorem firsts_sort (key : α → κ) (n : Nat) (all : List α) :
    Firsts key n all ((sortBy key all).take n) :=
  (Firsts.take_sorted (sort_by_sorted key all)).perm (sort_by_perm key all) (List.Perm.refl _)

/-- A part of a list that holds `n` rows not beyond any row that it leaves out. -/
def Keeps (key : α → κ) (n : Nat) (all rows : List α) : Prop :=
  ∃ rest, all.Perm (rows ++ rest) ∧ ∀ b ∈ rest, n ≤ rows.countP fun a => key a ≤ key b

theorem Firsts.keeps (h : Firsts key n all rows) : Keeps key n all rows := by
  obtain ⟨rest, hperm, hle⟩ := h.split
  refine ⟨rest, hperm, fun b hb => ?_⟩
  -- a row was left out, so there are `n`
  have hlong := hperm.length_eq
  rw [List.length_append] at hlong
  have hpos := List.length_pos_of_mem hb
  have hrows := h.length
  have hall : rows.countP (fun a => key a ≤ key b) = rows.length :=
    List.countP_eq_length.mpr fun a ha => decide_eq_true (hle a ha b hb)
  omega

namespace Keeps

theorem nil (key : α → κ) (n : Nat) : Keeps key n [] [] :=
  ⟨[], List.Perm.refl _, fun _ hb => absurd hb List.not_mem_nil⟩

/-- Parts of two lists together. -/
theorem append (hfirst : Keeps key n all rows) (hsecond : Keeps key n all' rows') :
    Keeps key n (all ++ all') (rows ++ rows') := by
  obtain ⟨rest, hperm, hcount⟩ := hfirst
  obtain ⟨rest', hperm', hcount'⟩ := hsecond
  refine ⟨rest ++ rest', ?_, ?_⟩
  · have hswap : ((rows ++ rest) ++ (rows' ++ rest')).Perm ((rows ++ rows') ++ (rest ++ rest')) := by
      rw [List.append_assoc, List.append_assoc]
      refine List.Perm.append_left rows ?_
      rw [← List.append_assoc, ← List.append_assoc]
      exact List.perm_append_comm.append_right rest'
    exact (hperm.append hperm').trans hswap
  · intro b hb
    rw [List.countP_append]
    rcases List.mem_append.mp hb with hb | hb
    · exact Nat.le_add_right_of_le (hcount b hb)
    · exact Nat.le_add_left_of_le (hcount' b hb)

theorem flat_map {ι : Type} {whole part : ι → List α} {parts : List ι}
    (h : ∀ i ∈ parts, Keeps key n (whole i) (part i)) :
    Keeps key n (parts.flatMap whole) (parts.flatMap part) := by
  induction parts with
  | nil => exact nil key n
  | cons i parts ih =>
      rw [List.flatMap_cons, List.flatMap_cons]
      exact (h i List.mem_cons_self).append (ih fun j hj => h j (List.mem_cons_of_mem i hj))

/-- The least rows of the part are those of the list. -/
theorem firsts {m : Nat} (hkeeps : Keeps key n all rows) (h : Firsts key m rows least)
    (hm : m ≤ n) : Firsts key m all least where
  length := by
    obtain ⟨rest, hperm, hcount⟩ := hkeeps
    have hlong := hperm.length_eq
    rw [List.length_append] at hlong
    rw [h.length]
    cases rest with
    | nil => rw [hlong, List.length_nil, Nat.add_zero]
    | cons b rest =>
        have hmany := (hcount b List.mem_cons_self).trans List.countP_le_length
        omega
  split := by
    obtain ⟨rest, hperm, hcount⟩ := hkeeps
    obtain ⟨left, hsplit, hleft⟩ := h.split
    refine ⟨left ++ rest, ?_, fun a ha b hb => ?_⟩
    · rw [← List.append_assoc]
      exact hperm.trans (hsplit.append_right rest)
    rcases List.mem_append.mp hb with hb | hb
    · exact hleft a ha b hb
    by_contra hlt
    rw [not_le] at hlt
    -- the `n` rows not beyond `b` are less than `a`, so they and `a` itself are among the first
    have hnone : left.countP (fun c => key c ≤ key b) = 0 := by
      refine List.countP_eq_zero.mpr fun c hc => ?_
      rw [decide_eq_true_eq, not_le]
      exact lt_of_lt_of_le hlt (hleft a ha c hc)
    have hsame := hsplit.countP_eq fun c => decide (key c ≤ key b)
    rw [List.countP_append, hnone] at hsame
    have hself : least.countP (fun c => key c ≤ key b) < least.length := by
      refine lt_of_le_of_ne List.countP_le_length fun heq => ?_
      have hbelow := List.countP_eq_length.mp heq a ha
      rw [decide_eq_true_eq] at hbelow
      exact absurd hbelow (not_le.mpr hlt)
    have hmany := hcount b hb
    have hfew := h.length
    omega

end Keeps

namespace Firsts

/-- The first of the first rows of two lists are the first of the lists together. -/
theorem append (hfirst : Firsts key n all rows) (hsecond : Firsts key n all' rows')
    (h : Firsts key n (rows ++ rows') least) : Firsts key n (all ++ all') least :=
  (hfirst.keeps.append hsecond.keeps).firsts h le_rfl

/-- Least rows in order are the beginning of an order of the list. -/
theorem order (h : Firsts key n all rows) (hsorted : rows.Pairwise fun a b => key a ≤ key b) :
    ∃ ordered : List α, ordered.Perm all ∧ (ordered.Pairwise fun a b => key a ≤ key b) ∧
      rows = ordered.take n := by
  obtain ⟨rest, hperm, hle⟩ := h.split
  refine ⟨rows ++ sortBy key rest, ?_, ?_, ?_⟩
  · exact ((sort_by_perm key rest).append_left rows).trans hperm.symm
  · refine List.pairwise_append.mpr ⟨hsorted, sort_by_sorted key rest, fun a ha b hb => ?_⟩
    exact hle a ha b (mem_sort_by.mp hb)
  · have hlong := hperm.length_eq
    rw [List.length_append] at hlong
    have hlength := h.length
    rcases Nat.le_total n all.length with hn | hn
    · rw [Nat.min_eq_left hn] at hlength
      rw [← hlength, List.take_left]
    · rw [Nat.min_eq_right hn] at hlength
      have hnone : rest = [] := List.length_eq_zero_iff.mp (by omega)
      rw [hnone, show sortBy key ([] : List α) = [] from rfl, List.append_nil,
        List.take_of_length_le (by omega)]

/-- Least rows in order are the first of the sorted list, by a key that tells the rows apart. -/
theorem eq_take (h : Firsts key n all rows) (hsorted : rows.Pairwise fun a b => key a ≤ key b)
    (hkey : Separates key all) : rows = (sortBy key all).take n := by
  obtain ⟨ordered, hperm, hordered, rfl⟩ := h.order hsorted
  congr 1
  refine List.Perm.eq_of_pairwise (fun a b ha hb hab hba => ?_) hordered (sort_by_sorted key all)
    (hperm.trans (sort_by_perm key all).symm)
  exact hkey a (hperm.mem_iff.mp ha) b (mem_sort_by.mp hb) (le_antisymm hab hba)

end Firsts

end CatalogApi.ByKey
