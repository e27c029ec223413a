import CatalogApi.Lib.Dict
import CatalogApi.Lib.Stable
import Mathlib.Algebra.BigOperators.Group.List.Lemmas
import Mathlib.Algebra.Ring.Nat

/-!
# Counters

A counter of values that holds how often each element of a list occurs. Whatever the order in which
it was filled, the sorted items are the tally of the list (`Counts.items`), a tally read back counts
the list again (`counts_foldl`, `expand_tally`), and the counts of the values below one are the
number of elements below it (`sum_below`).
-/

namespace CatalogApi.Counters

open ByKey

variable {V : Type} [LinearOrder V] {d : Dict V Nat} {vs : List V}

/-- The keys of a counter. -/
def keys (d : Dict V Nat) : List V := d.entries.map (·.1)

/-- The entries after `counter[value] += count`. -/
def bumped (entries : List (V × Nat)) (value : V) (count : Nat) : List (V × Nat) :=
  if value ∈ entries.map (·.1) then
    entries.map fun entry => if entry.1 = value then (value, entry.2 + count) else entry
  else entries ++ [(value, count)]

theorem bumped_nodup {entries : List (V × Nat)} (h : (entries.map (·.1)).Nodup) (value : V)
    (count : Nat) : ((bumped entries value count).map (·.1)).Nodup := by
  rw [bumped]
  split
  case isTrue hmem =>
    have hkeys : (entries.map fun entry =>
        if entry.1 = value then (value, entry.2 + count) else entry).map (·.1) =
        entries.map (·.1) := by
      rw [List.map_map]
      refine List.map_congr_left fun entry _ => ?_
      rw [Function.comp_apply]
      split
      case isTrue heq => exact heq.symm
      case isFalse => rfl
    rwa [hkeys]
  case isFalse hmem =>
    rw [List.map_append, List.nodup_append]
    refine ⟨h, List.nodup_singleton _, fun key hkey other hother => ?_⟩
    rw [List.map_singleton, List.mem_singleton] at hother
    subst hother
    exact fun heq => hmem (heq ▸ hkey)

/-- `counter[value] += count`. -/
def bump (d : Dict V Nat) (value : V) (count : Nat) : Dict V Nat :=
  ⟨bumped d.entries value count, bumped_nodup d.nodup value count⟩

/-- The distinct elements in order, each with how often it occurs. -/
def tally (vs : List V) : List (V × Nat) :=
  (sortedSet vs).map fun v => (v, vs.count v)

/-- The counter holds how often each element of the list occurs. -/
def Counts (d : Dict V Nat) (vs : List V) : Prop :=
  ∀ v n, (v, n) ∈ d.entries ↔ v ∈ vs ∧ n = vs.count v

theorem counts_empty : Counts (Dict.empty : Dict V Nat) [] :=
  fun v n => by simp [Dict.empty]

theorem Counts.of_perm {vs' : List V} (h : Counts d vs) (hperm : vs.Perm vs') : Counts d vs' :=
  fun v n => by rw [h v n, hperm.mem_iff, hperm.count_eq]

theorem Counts.mem_keys (h : Counts d vs) {v : V} : v ∈ keys d ↔ v ∈ vs := by
  constructor
  · intro hv
    obtain ⟨⟨w, n⟩, hentry, rfl⟩ := List.mem_map.mp hv
    exact ((h w n).mp hentry).1
  · intro hv
    exact List.mem_map.mpr ⟨(v, vs.count v), (h v _).mpr ⟨hv, rfl⟩, rfl⟩

/-- One count more than none of a value adds as many occurrences. -/
theorem counts_bump (h : Counts d vs) {count : Nat} (hcount : 0 < count) (value : V) :
    Counts (bump d value count) (List.replicate count value ++ vs) := by
  intro w n
  have hmem : w ∈ List.replicate count value ++ vs ↔ w = value ∨ w ∈ vs := by
    rw [List.mem_append, List.mem_replicate]
    exact or_congr_left (and_iff_right hcount.ne')
  have hcounts : (List.replicate count value ++ vs).count w =
      (if w = value then count else 0) + vs.count w := by
    rw [List.count_append, List.count_replicate]
    simp only [beq_iff_eq, @eq_comm _ value]
  rw [hmem, hcounts]
  have hkey := h.mem_keys (v := value)
  by_cases hvalue : value ∈ vs
  · have hentries : (bump d value count).entries = d.entries.map fun entry =>
        if entry.1 = value then (value, entry.2 + count) else entry :=
      if_pos (hkey.mpr hvalue)
    rw [hentries, List.mem_map]
    constructor
    · rintro ⟨⟨u, m⟩, hentry, heq⟩
      obtain ⟨hu, rfl⟩ := (h u m).mp hentry
      by_cases huv : u = value
      · rw [if_pos huv, Prod.mk.injEq] at heq
        obtain ⟨rfl, rfl⟩ := heq
        rw [if_pos rfl, huv]
        exact ⟨Or.inl rfl, Nat.add_comm _ _⟩
      · rw [if_neg huv, Prod.mk.injEq] at heq
        obtain ⟨rfl, rfl⟩ := heq
        rw [if_neg huv, Nat.zero_add]
        exact ⟨Or.inr hu, rfl⟩
    · rintro ⟨hw, rfl⟩
      have hw' : w ∈ vs := hw.elim (fun heq => heq ▸ hvalue) id
      refine ⟨(w, vs.count w), (h w _).mpr ⟨hw', rfl⟩, ?_⟩
      by_cases hwv : w = value
      · rw [if_pos hwv, if_pos hwv, Nat.add_comm, hwv]
      · rw [if_neg hwv, if_neg hwv, Nat.zero_add]
  · have hentries : (bump d value count).entries = d.entries ++ [(value, count)] :=
      if_neg fun hin => hvalue (hkey.mp hin)
    have hzero : vs.count value = 0 := List.count_eq_zero.mpr hvalue
    rw [hentries, List.mem_append, List.mem_singleton, h w n, Prod.mk.injEq]
    by_cases hwv : w = value
    · subst hwv
      simp [hvalue, hzero]
    · simp [hwv]

theorem Counts.get (h : Counts d vs) (v : V) : (d.get? v).getD 0 = vs.count v := by
  by_cases hv : v ∈ vs
  · rw [Dict.get_of_mem ((h v _).mpr ⟨hv, rfl⟩), Option.getD_some]
  · have hnone : d.get? v = none := by
      rw [Dict.get?, Option.map_eq_none_iff, List.find?_eq_none]
      rintro ⟨w, n⟩ hentry hw
      have hwv : w = v := of_decide_eq_true hw
      exact hv (hwv ▸ ((h w n).mp hentry).1)
    rw [hnone, Option.getD_none, List.count_eq_zero.mpr hv]

/-- The keys in order are the distinct elements in order. -/
theorem Counts.keys_sorted (h : Counts d vs) : sortBy id (keys d) = sortedSet vs := by
  refine sort_by_eq_of_perm ?_ fun a _ b _ heq => heq
  refine (List.perm_ext_iff_of_nodup d.nodup (nodup_erase_dups vs)).mpr fun v => ?_
  rw [List.mem_eraseDups]
  exact h.mem_keys

theorem tally_nodup (vs : List V) : (tally vs).Nodup :=
  (sorted_set_nodup vs).map fun _ _ heq => congrArg Prod.fst heq

theorem sorted_set_sorted (vs : List V) : (sortedSet vs).Pairwise (· ≤ ·) :=
  sort_by_sorted id _

theorem tally_sorted (vs : List V) :
    (tally vs).Pairwise fun a b => toLex a ≤ toLex b := by
  have hne : (sortedSet vs).Pairwise (· ≠ ·) := sorted_set_nodup vs
  rw [tally, List.pairwise_map]
  refine ((sorted_set_sorted vs).and hne).imp fun ⟨hle, hdiffer⟩ => ?_
  exact Prod.Lex.toLex_le_toLex.mpr (Or.inl (lt_of_le_of_ne hle hdiffer))

/-- The items in order are the tally. -/
theorem Counts.items (h : Counts d vs) :
    sortBy (fun item => toLex item) d.entries = tally vs := by
  have hmem : ∀ item, item ∈ d.entries ↔ item ∈ tally vs := by
    rintro ⟨v, n⟩
    rw [h v n, tally, List.mem_map]
    constructor
    · rintro ⟨hv, rfl⟩
      exact ⟨v, mem_sorted_set.mpr hv, rfl⟩
    · rintro ⟨w, hw, heq⟩
      rw [Prod.mk.injEq] at heq
      obtain ⟨rfl, rfl⟩ := heq
      exact ⟨mem_sorted_set.mp hw, rfl⟩
  have hperm : d.entries.Perm (tally vs) :=
    (List.perm_ext_iff_of_nodup d.nodup.of_map (tally_nodup vs)).mpr hmem
  refine List.Perm.eq_of_pairwise (fun a b _ _ hab hba => ?_) (sort_by_sorted _ _)
    (tally_sorted vs) ((sort_by_perm _ _).trans hperm)
  exact toLex.injective (le_antisymm hab hba)

/-! ## Tallies -/

/-- The elements that items count. -/
def expand (items : List (V × Nat)) : List V :=
  items.flatMap fun item => List.replicate item.2 item.1

theorem expand_tally (vs : List V) : (expand (tally vs)).Perm vs := by
  refine List.perm_iff_count.mpr fun v => ?_
  have hcount : ∀ l : List V, l.Nodup →
      (expand (l.map fun w => (w, vs.count w))).count v = if v ∈ l then vs.count v else 0 := by
    intro l hl
    induction l with
    | nil => rfl
    | cons w l ih =>
        rw [List.nodup_cons] at hl
        rw [List.map_cons, expand, List.flatMap_cons, List.count_append, List.count_replicate]
        rw [expand] at ih
        rw [ih hl.2]
        by_cases hvw : v = w
        · subst hvw
          simp [hl.1]
        · simp [hvw, Ne.symm hvw]
  rw [tally, hcount _ (sorted_set_nodup vs)]
  split
  case isTrue => rfl
  case isFalse hv => exact (List.count_eq_zero.mpr fun hmem => hv (mem_sorted_set.mpr hmem)).symm

theorem tally_pos (vs : List V) : ∀ item ∈ tally vs, 0 < item.2 := by
  intro item hitem
  obtain ⟨v, hv, rfl⟩ := List.mem_map.mp hitem
  exact List.count_pos_iff.mpr (mem_sorted_set.mp hv)

/-- Items read back count the elements they stand for. -/
theorem counts_foldl (h : Counts d vs) {items : List (V × Nat)} (hpos : ∀ item ∈ items, 0 < item.2) :
    Counts (items.foldl (fun d item => bump d item.1 item.2) d) (expand items ++ vs) := by
  induction items generalizing d vs with
  | nil => exact h
  | cons item items ih =>
      rw [List.forall_mem_cons] at hpos
      have hrest := ih (counts_bump h hpos.1 item.1) hpos.2
      refine hrest.of_perm ?_
      rw [expand, expand, List.flatMap_cons, ← List.append_assoc]
      exact List.perm_append_comm.append_right vs

/-- In a sorted list the elements below a value come first. -/
theorem take_below {l : List V} (hsorted : l.Pairwise (· ≤ ·)) (v : V) :
    l.take (l.countP (· < v)) = l.filter (· < v) := by
  induction l with
  | nil => rfl
  | cons w l ih =>
      rw [List.pairwise_cons] at hsorted
      by_cases hw : w < v
      · simp [hw, ih hsorted.2]
      · have hnone : ∀ u ∈ w :: l, ¬u < v := by
          intro u hu
          rcases List.mem_cons.mp hu with rfl | hu
          · exact hw
          · exact fun hlt => hw ((hsorted.1 u hu).trans_lt hlt)
        have hcount : (w :: l).countP (· < v) = 0 :=
          List.countP_eq_zero.mpr fun u hu => by simpa using hnone u hu
        have hfilter : (w :: l).filter (· < v) = [] :=
          List.filter_eq_nil_iff.mpr fun u hu => by simpa using hnone u hu
        rw [hcount, hfilter, List.take_zero]

theorem sorted_set_dedup (vs : List V) : (sortedSet vs).Perm vs.dedup := by
  refine (List.perm_ext_iff_of_nodup (sorted_set_nodup vs) (List.nodup_dedup vs)).mpr fun w => ?_
  rw [mem_sorted_set, List.mem_dedup]

/-- The elements below one value are counted with the distinct values below it. -/
theorem sum_below (vs : List V) (v : V) :
    (((sortedSet vs).take ((sortedSet vs).countP (· < v))).map vs.count).sum = vs.countP (· < v) := by
  have htake : (sortedSet vs).take ((sortedSet vs).countP (· < v)) =
      (sortedSet vs).filter (· < v) := take_below (sorted_set_sorted vs) v
  rw [htake, (((sorted_set_dedup vs).filter _).map _).sum_eq]
  exact List.sum_map_count_dedup_filter_eq_countP _ vs

/-- Distinct values that cover a list count all of it. -/
theorem sum_counts {values : List V} (hvalues : values.Nodup) (hcover : ∀ v ∈ vs, v ∈ values) :
    (values.map vs.count).sum = vs.length := by
  have hperm := flat_map_filter_perm (fun v => v) hvalues vs hcover
  rw [← hperm.length_eq, List.length_flatMap]
  exact congrArg List.sum (List.map_congr_left fun v _ => List.count_eq_length_filter)

/-- All elements are counted with their distinct values. -/
theorem sum_all (vs : List V) : ((sortedSet vs).map vs.count).sum = vs.length :=
  sum_counts (sorted_set_nodup vs) fun _ hv => mem_sorted_set.mpr hv

end CatalogApi.Counters
