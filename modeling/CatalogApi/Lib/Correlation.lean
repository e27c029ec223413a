import Mathlib.Analysis.Real.Sqrt

/-!
# The normalised product of two vectors

Two vectors of reals as one list of pairs. Their product divided by their magnitudes lies between
`-1` and `1` (`quotient_le_one`, `neg_one_le_quotient`). It is at an end exactly when the vectors,
each divided by its magnitude, are equal or opposite (`quotient_eq_one_iff`,
`quotient_eq_neg_one_iff`).
-/

namespace CatalogApi.Correlation

/-- The sum of the products. -/
noncomputable def dot (l : List (ℝ × ℝ)) : ℝ := (l.map fun p => p.1 * p.2).sum

/-- The squared magnitude of the first vector. -/
noncomputable def leftSquare (l : List (ℝ × ℝ)) : ℝ := (l.map fun p => p.1 ^ 2).sum

/-- The squared magnitude of the second vector. -/
noncomputable def rightSquare (l : List (ℝ × ℝ)) : ℝ := (l.map fun p => p.2 ^ 2).sum

/-- The product over the magnitudes. -/
noncomputable def quotient (l : List (ℝ × ℝ)) : ℝ := dot l / √(leftSquare l * rightSquare l)

theorem sum_sq_eq_zero_iff (l : List (ℝ × ℝ)) (f : ℝ × ℝ → ℝ) :
    (l.map fun p => f p ^ 2).sum = 0 ↔ ∀ p ∈ l, f p = 0 := by
  have hnonneg (l : List (ℝ × ℝ)) : 0 ≤ (l.map fun p => f p ^ 2).sum :=
    List.sum_nonneg (List.forall_mem_map.mpr fun p _ => sq_nonneg (f p))
  induction l with
  | nil => simp
  | cons p l ih =>
      rw [List.map_cons, List.sum_cons, add_eq_zero_iff_of_nonneg (sq_nonneg _) (hnonneg l),
        List.forall_mem_cons, sq_eq_zero_iff]
      exact and_congr_right fun _ => ih

/-- The squared magnitude of a combination of the two vectors. -/
theorem sum_combined (l : List (ℝ × ℝ)) (a b : ℝ) :
    (l.map fun p => (a * p.1 + b * p.2) ^ 2).sum =
      a ^ 2 * leftSquare l + 2 * a * b * dot l + b ^ 2 * rightSquare l := by
  unfold leftSquare rightSquare dot
  induction l with
  | nil => simp
  | cons p l ih =>
      simp only [List.map_cons, List.sum_cons, ih]
      ring

/-- The order of the pairs does not matter. -/
theorem quotient_perm {l l' : List (ℝ × ℝ)} (h : l.Perm l') : quotient l = quotient l' := by
  rw [quotient, quotient, dot, dot, leftSquare, leftSquare, rightSquare, rightSquare,
    (h.map _).sum_eq, (h.map _).sum_eq, (h.map _).sum_eq]

/-- The order of the vectors does not matter. -/
theorem quotient_swap (l : List (ℝ × ℝ)) :
    quotient (l.map fun p => (p.2, p.1)) = quotient l := by
  simp only [quotient, dot, leftSquare, rightSquare, List.map_map, Function.comp_def]
  simp only [mul_comm]

section Quotient

variable {l : List (ℝ × ℝ)} (hleft : 0 < leftSquare l) (hright : 0 < rightSquare l)
include hleft hright

/-- The squared distance of the two vectors, each divided by its magnitude. -/
theorem sum_distance :
    (l.map fun p => (p.1 / √(leftSquare l) - p.2 / √(rightSquare l)) ^ 2).sum =
      2 - 2 * quotient l := by
  have hsum := sum_combined l (1 / √(leftSquare l)) (-(1 / √(rightSquare l)))
  have hone {x : ℝ} (hx : 0 < x) : (1 / √x) ^ 2 * x = 1 := by
    rw [div_pow, Real.sq_sqrt hx.le, one_pow, one_div, inv_mul_cancel₀ hx.ne']
  have hproduct : √(leftSquare l * rightSquare l) = √(leftSquare l) * √(rightSquare l) :=
    Real.sqrt_mul hleft.le _
  rw [neg_sq, hone hleft, hone hright] at hsum
  have hmap : (fun p : ℝ × ℝ => (p.1 / √(leftSquare l) - p.2 / √(rightSquare l)) ^ 2) =
      fun p => (1 / √(leftSquare l) * p.1 + -(1 / √(rightSquare l)) * p.2) ^ 2 :=
    funext fun p => by ring
  have hroot := Real.sqrt_pos.mpr hleft
  have hroot' := Real.sqrt_pos.mpr hright
  rw [hmap, hsum, quotient, hproduct]
  field_simp
  ring

theorem quotient_le_one : quotient l ≤ 1 := by
  have hdistance := sum_distance hleft hright
  have hnonneg : 0 ≤ (l.map fun p =>
      (p.1 / √(leftSquare l) - p.2 / √(rightSquare l)) ^ 2).sum :=
    List.sum_nonneg (List.forall_mem_map.mpr fun p _ => sq_nonneg _)
  linarith

/-- The product is one exactly for vectors of one direction. -/
theorem quotient_eq_one_iff :
    quotient l = 1 ↔ ∀ p ∈ l, p.1 / √(leftSquare l) = p.2 / √(rightSquare l) := by
  have hdistance := sum_distance hleft hright
  have hzero := sum_sq_eq_zero_iff l fun p => p.1 / √(leftSquare l) - p.2 / √(rightSquare l)
  simp only [sub_eq_zero] at hzero
  rw [← hzero, hdistance]
  constructor
  · intro h
    rw [h]
    ring
  · intro h
    linarith

end Quotient

/-! ## The opposite direction -/

/-- The pairs with the second vector negated. -/
def opposite (l : List (ℝ × ℝ)) : List (ℝ × ℝ) := l.map fun p => (p.1, -p.2)

theorem left_opposite (l : List (ℝ × ℝ)) : leftSquare (opposite l) = leftSquare l := by
  rw [leftSquare, opposite, List.map_map]
  rfl

theorem right_opposite (l : List (ℝ × ℝ)) : rightSquare (opposite l) = rightSquare l := by
  rw [rightSquare, opposite, List.map_map, rightSquare]
  refine congrArg List.sum (List.map_congr_left fun p _ => ?_)
  show (-p.2) ^ 2 = p.2 ^ 2
  exact neg_sq _

theorem quotient_opposite (l : List (ℝ × ℝ)) : quotient (opposite l) = -quotient l := by
  have hdot : dot (opposite l) = -dot l := by
    unfold dot opposite
    induction l with
    | nil => simp
    | cons p l ih =>
        simp only [List.map_cons, List.sum_cons, ih]
        ring
  rw [quotient, left_opposite, right_opposite, hdot, neg_div, quotient]

section Ends

variable {l : List (ℝ × ℝ)} (hleft : 0 < leftSquare l) (hright : 0 < rightSquare l)
include hleft hright

theorem neg_one_le_quotient : -1 ≤ quotient l := by
  rw [← left_opposite] at hleft
  rw [← right_opposite] at hright
  have hle := quotient_le_one hleft hright
  rw [quotient_opposite] at hle
  linarith

/-- The product is minus one exactly for vectors of opposite directions. -/
theorem quotient_eq_neg_one_iff :
    quotient l = -1 ↔ ∀ p ∈ l, p.1 / √(leftSquare l) = -(p.2 / √(rightSquare l)) := by
  rw [← left_opposite] at hleft
  rw [← right_opposite] at hright
  have hone := quotient_eq_one_iff hleft hright
  rw [quotient_opposite, left_opposite, right_opposite] at hone
  have hmem : (∀ p ∈ opposite l, p.1 / √(leftSquare l) = p.2 / √(rightSquare l)) ↔
      ∀ p ∈ l, p.1 / √(leftSquare l) = -(p.2 / √(rightSquare l)) := by
    unfold opposite
    rw [List.forall_mem_map]
    simp only [neg_div]
  rw [← hmem, ← hone, neg_eq_iff_eq_neg]

end Ends

/-! ## Vectors without negative entries -/

section Nonneg

variable {l : List (ℝ × ℝ)} (hnonneg : ∀ p ∈ l, 0 ≤ p.1 ∧ 0 ≤ p.2)
include hnonneg

theorem dot_nonneg : 0 ≤ dot l :=
  List.sum_nonneg (List.forall_mem_map.mpr fun p hp =>
    mul_nonneg (hnonneg p hp).1 (hnonneg p hp).2)

theorem quotient_nonneg : 0 ≤ quotient l := div_nonneg (dot_nonneg hnonneg) (Real.sqrt_nonneg _)

/-- The product is positive exactly when the vectors share an entry. -/
theorem quotient_pos_iff : 0 < quotient l ↔ ∃ p ∈ l, 0 < p.1 ∧ 0 < p.2 := by
  constructor
  case mp =>
    intro hpos
    by_contra hnone
    push Not at hnone
    have hzero : dot l = 0 := by
      refine List.sum_eq_zero fun x hx => ?_
      obtain ⟨p, hp, rfl⟩ := List.mem_map.mp hx
      rcases (hnonneg p hp).1.eq_or_lt with heq | hlt
      · rw [← heq, zero_mul]
      · rw [le_antisymm (hnone p hp hlt) (hnonneg p hp).2, mul_zero]
    rw [quotient, hzero, zero_div] at hpos
    exact lt_irrefl 0 hpos
  case mpr =>
    intro ⟨p, hp, hfirst, hsecond⟩
    have hterms {f : ℝ × ℝ → ℝ} (hf : ∀ q ∈ l, 0 ≤ f q) (hone : 0 < f p) :
        0 < (l.map f).sum :=
      hone.trans_le (List.single_le_sum (List.forall_mem_map.mpr hf) _ (List.mem_map_of_mem hp))
    have hdot : 0 < dot l :=
      hterms (fun q hq => mul_nonneg (hnonneg q hq).1 (hnonneg q hq).2) (mul_pos hfirst hsecond)
    have hleft : 0 < leftSquare l := hterms (fun q _ => sq_nonneg _) (pow_pos hfirst 2)
    have hright : 0 < rightSquare l := hterms (fun q _ => sq_nonneg _) (pow_pos hsecond 2)
    exact div_pos hdot (Real.sqrt_pos.mpr (mul_pos hleft hright))

end Nonneg

end CatalogApi.Correlation
