import Mathlib.Algebra.BigOperators.Group.List.Lemmas
import Mathlib.Algebra.BigOperators.Ring.List
import Mathlib.Algebra.Order.BigOperators.Group.List
import Mathlib.Algebra.Order.Field.Basic

/-!
# Weighted means of a list

The mean of the values of a list by non-negative weights, renormalised by the weights that are
there. It lies between any bounds of the values and grows with each of them.
-/

namespace CatalogApi.WeightedMean

variable {ι K : Type*} [Field K] [LinearOrder K] [IsStrictOrderedRing K]
  {weight value value' : ι → K} {l l' : List ι} {c : K}

/-- The sum of the weights. -/
def total (weight : ι → K) (l : List ι) : K := (l.map weight).sum

/-- The mean of the values; zero without any weight. -/
def mean (weight value : ι → K) (l : List ι) : K :=
  (l.map fun i => weight i * value i).sum / total weight l

omit [IsStrictOrderedRing K] [LinearOrder K] in
theorem sum_mul_const (weight : ι → K) (c : K) (l : List ι) :
    (l.map fun i => weight i * c).sum = total weight l * c := by
  rw [total, ← List.sum_map_mul_right]

section

variable (hweight : ∀ i ∈ l, 0 ≤ weight i)
include hweight

theorem total_nonneg : 0 ≤ total weight l :=
  List.sum_nonneg (List.forall_mem_map.mpr hweight)

theorem mean_le (hpos : 0 < total weight l)
    (hvalue : ∀ i ∈ l, value i ≤ c) : mean weight value l ≤ c := by
  rw [mean, div_le_iff₀ hpos, mul_comm, ← sum_mul_const]
  exact List.sum_le_sum fun i hi => mul_le_mul_of_nonneg_left (hvalue i hi) (hweight i hi)

theorem le_mean (hpos : 0 < total weight l)
    (hvalue : ∀ i ∈ l, c ≤ value i) : c ≤ mean weight value l := by
  rw [mean, le_div_iff₀ hpos, mul_comm, ← sum_mul_const]
  exact List.sum_le_sum fun i hi => mul_le_mul_of_nonneg_left (hvalue i hi) (hweight i hi)

/-- A mean of values in a unit range is in the range, also without any weight. -/
theorem mean_mem_unit (hvalue : ∀ i ∈ l, 0 ≤ value i ∧ value i ≤ 1) :
    0 ≤ mean weight value l ∧ mean weight value l ≤ 1 := by
  rcases (total_nonneg hweight).lt_or_eq with hpos | hzero
  · exact ⟨le_mean hweight hpos fun i hi => (hvalue i hi).1,
      mean_le hweight hpos fun i hi => (hvalue i hi).2⟩
  · rw [mean, ← hzero, div_zero]
    exact ⟨le_rfl, zero_le_one⟩

theorem mean_mono (hvalue : ∀ i ∈ l, value i ≤ value' i) :
    mean weight value l ≤ mean weight value' l := by
  refine div_le_div_of_nonneg_right ?_ (total_nonneg hweight)
  exact List.sum_le_sum fun i hi => mul_le_mul_of_nonneg_left (hvalue i hi) (hweight i hi)

end

end CatalogApi.WeightedMean
