import CatalogApi.Lib.Bisect
import CatalogApi.Lib.Counters
import Mathlib.Data.Rat.Cast.Defs

/-!
# Distributions of a quality signal

`_Distribution` holds the truthy values of a signal as value counts. Once frozen it ranks a value
as `_percentile_rank` ranks it in the sorted list of the same values (`percentile_rank_eq`), whether
it was filled value by value or from the counts of other distributions.
-/

namespace CatalogApi.Rarity

open ByKey Bisect Counters

variable {V : Type} [LinearOrder V] [Zero V]

/-- `_percentile_rank`, with the quotient exact. -/
def percentileRank (value : V) (sortedValues : List V) : ℚ :=
  if sortedValues = [] ∨ value ≤ 0 then 0
  else bisectLeft sortedValues value / sortedValues.length

/-- `_Distribution`: the counts of the values, and what `freeze` computes from them. -/
structure Distribution (V : Type) where
  counter : Dict V Nat
  values : List V
  below : List Nat
  total : Nat

/-- The values that `add` counts: neither missing nor zero. -/
def truthy (values : List (Option V)) : List V :=
  values.filterMap fun value => value.filter (· ≠ 0)

namespace Distribution

/-- `_Distribution()`. -/
def empty : Distribution V := ⟨Dict.empty, [], [], 0⟩

/-- `add`: counts a value that is truthy. -/
def add (d : Distribution V) : Option V → Distribution V
  | none => d
  | some value => if value = 0 then d else { d with counter := bump d.counter value 1 }

/-- `counts`: the pairs of value and count, smallest value first. -/
def counts (d : Distribution V) : List (V × Nat) :=
  sortBy (fun item => toLex item) d.counter.entries

/-- The loop of `freeze`: how many values lie below each one, and the number of all. -/
def belowFrom (counter : Dict V Nat) : List V → Nat → List Nat × Nat
  | [], running => ([], running)
  | value :: values, running =>
      let rest := belowFrom counter values (running + (counter.get? value).getD 0)
      (running :: rest.1, rest.2)

/-- `freeze`. -/
def freeze (d : Distribution V) : Distribution V :=
  let values := sortBy id (keys d.counter)
  let loop := belowFrom d.counter values 0
  { d with values := values, below := loop.1, total := loop.2 }

/-- `from_counts`. -/
def fromCounts (pairs : List (V × Nat)) : Distribution V :=
  freeze { empty with
    counter := pairs.foldl (fun counter item => bump counter item.1 item.2) Dict.empty }

/-- `percentile_rank`. -/
def percentileRank (d : Distribution V) (value : V) : ℚ :=
  if d.total = 0 ∨ value ≤ 0 then 0
  else
    let index := bisectLeft d.values value
    let below := if index < d.values.length then d.below.getD index 0 else d.total
    below / d.total

/-- The distribution is frozen, and its counter holds the values. -/
structure Frozen (d : Distribution V) (vs : List V) : Prop where
  counted : Counts d.counter vs
  values : d.values = sortedSet vs
  below : d.below = (List.range (sortedSet vs).length).map fun i =>
    (((sortedSet vs).take i).map vs.count).sum
  total : d.total = vs.length

/-- Two distributions that answer every question alike. -/
structure Agrees (d d' : Distribution V) : Prop where
  counts : d.counts = d'.counts
  values : d.values = d'.values
  below : d.below = d'.below
  total : d.total = d'.total

/-! ## Filling -/

omit [Zero V] in
theorem counts_eq {d : Distribution V} {vs : List V} (h : Counts d.counter vs) :
    d.counts = tally vs :=
  h.items

theorem add_counts {d : Distribution V} {vs : List V} (h : Counts d.counter vs)
    (value : Option V) : Counts (d.add value).counter (truthy [value] ++ vs) := by
  cases value with
  | none => exact h
  | some value =>
      rw [add]
      split
      case isTrue hzero => simpa [truthy, hzero] using h
      case isFalse hne =>
        have htruthy : truthy [some value] = [value] := by
          simp [truthy, Option.filter, hne]
        rw [htruthy]
        exact counts_bump h Nat.one_pos value

/-- Values added one after the other are counted. -/
theorem foldl_add_counts {d : Distribution V} {vs : List V} (h : Counts d.counter vs)
    (values : List (Option V)) :
    Counts (values.foldl add d).counter (truthy values ++ vs) := by
  induction values generalizing d vs with
  | nil => exact h
  | cons value values ih =>
      rw [List.foldl_cons]
      refine (ih (add_counts h value)).of_perm ?_
      have hsplit : truthy (value :: values) = truthy [value] ++ truthy values := by
        rw [truthy, truthy, truthy, ← List.filterMap_append, List.singleton_append]
      rw [hsplit, ← List.append_assoc]
      exact List.perm_append_comm.append_right vs

/-! ## Freezing -/

omit [Zero V] in
theorem below_from_eq {counter : Dict V Nat} {vs : List V} (h : Counts counter vs)
    (values : List V) (running : Nat) :
    belowFrom counter values running =
      ((List.range values.length).map fun i => running + ((values.take i).map vs.count).sum,
        running + (values.map vs.count).sum) := by
  induction values generalizing running with
  | nil => rfl
  | cons value values ih =>
      rw [belowFrom, ih, h.get, List.length_cons, List.range_succ_eq_map]
      simp [Function.comp_def, Nat.add_assoc]

omit [Zero V] in
theorem freeze_frozen {d : Distribution V} {vs : List V} (h : Counts d.counter vs) :
    d.freeze.Frozen vs where
  counted := h
  values := h.keys_sorted
  below := by
    rw [freeze, below_from_eq h, h.keys_sorted]
    simp
  total := by
    rw [freeze, below_from_eq h, h.keys_sorted]
    simp [sum_all]

omit [Zero V] in
theorem Frozen.agrees {d d' : Distribution V} {vs vs' : List V} (h : d.Frozen vs)
    (h' : d'.Frozen vs') (hperm : vs.Perm vs') : d.Agrees d' := by
  have hset : sortedSet vs = sortedSet vs' := sorted_set_congr fun v => hperm.mem_iff
  refine ⟨?_, ?_, ?_, ?_⟩
  · rw [counts_eq h.counted, counts_eq h'.counted, tally, tally, hset]
    simp only [hperm.count_eq]
  · rw [h.values, h'.values, hset]
  · rw [h.below, h'.below, hset]
    simp only [hperm.count_eq]
  · rw [h.total, h'.total, hperm.length_eq]

/-- A frozen distribution ranks a value as the sorted list of its values does. -/
theorem percentile_rank_eq {d : Distribution V} {vs : List V} (h : d.Frozen vs) (value : V) :
    d.percentileRank value = Rarity.percentileRank value (sortBy id vs) := by
  have hempty : d.total = 0 ↔ sortBy id vs = [] := by
    rw [h.total, List.length_eq_zero_iff, sort_by_eq_nil]
  rw [percentileRank, Rarity.percentileRank]
  refine if_congr (or_congr_left hempty) rfl ?_
  have hindex : bisectLeft d.values value = (sortedSet vs).countP (· < value) := by
    rw [h.values, bisect_left_eq (sorted_set_sorted vs)]
  have hrank : bisectLeft (sortBy id vs) value = vs.countP (· < value) := by
    rw [bisect_left_eq (sort_by_sorted id vs)]
    exact (sort_by_perm id vs).countP_eq _
  have hbelow : (if bisectLeft d.values value < d.values.length then
      d.below.getD (bisectLeft d.values value) 0 else d.total) = vs.countP (· < value) := by
    rw [← sum_below, hindex, h.values]
    split
    case isTrue hlt =>
      rw [h.below, List.getD_eq_getElem _ _ (by simpa using hlt), List.getElem_map,
        List.getElem_range]
    case isFalse hle =>
      rw [List.take_of_length_le (Nat.le_of_not_lt hle), sum_all, h.total]
  dsimp only
  rw [hbelow, hrank, h.total, length_sort_by]

end Distribution

end CatalogApi.Rarity
