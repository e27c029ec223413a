import CatalogApi.Evaluation.Ranks
import Mathlib.Analysis.Real.Sqrt

/-!
# The rank correlation

`spearman` of `api/evaluation/metrics.py` in exact arithmetic: the means, the covariance and the
variances of the ranks are rational, and only the quotient by the square root is real.
-/

namespace CatalogApi.Evaluation

variable {α : Type} [LinearOrder α]

/-- `_mean`. -/
def mean (values : List ℚ) : ℚ := if values = [] then 0 else values.sum / values.length

/-- The sum of the products of the deviations. -/
def covariance (ranksA ranksB : List ℚ) : ℚ :=
  (List.zipWith (fun a b => (a - mean ranksA) * (b - mean ranksB)) ranksA ranksB).sum

/-- The sum of the squared deviations. -/
def variance (ranks : List ℚ) : ℚ := (ranks.map fun a => (a - mean ranks) ^ 2).sum

/-- `ValueError`. -/
structure ValueError where
  message : String

/-- `spearman`. -/
noncomputable def spearman (first second : List α) : Except ValueError ℝ :=
  if first.length ≠ second.length then
    .error ⟨"spearman needs two sequences of the same length"⟩
  else if first = [] then .ok 0
  else
    let ranksA := averageRanks first
    let ranksB := averageRanks second
    if variance ranksA = 0 ∨ variance ranksB = 0 then .ok (if first = second then 1 else 0)
    else .ok (max (-1) (min 1 ((covariance ranksA ranksB : ℝ) /
      √((variance ranksA * variance ranksB : ℚ) : ℝ))))

/-! ## Ranks read in another order -/

theorem mean_perm {values values' : List ℚ} (h : values.Perm values') :
    mean values = mean values' := by
  have hnil : values = [] ↔ values' = [] := by
    rw [← List.length_eq_zero_iff, h.length_eq, List.length_eq_zero_iff]
  simp only [mean, hnil, h.sum_eq, h.length_eq]

theorem variance_perm {ranks ranks' : List ℚ} (h : ranks.Perm ranks') :
    variance ranks = variance ranks' := by
  rw [variance, variance, mean_perm h, (h.map _).sum_eq]

theorem covariance_comm (ranksA ranksB : List ℚ) :
    covariance ranksA ranksB = covariance ranksB ranksA := by
  rw [covariance, covariance, List.zipWith_comm]
  simp only [mul_comm]

theorem zip_with_of_fn {n : Nat} (f : ℚ → ℚ → ℚ) (a b : Fin n → ℚ) :
    List.zipWith f (List.ofFn a) (List.ofFn b) = List.ofFn fun i => f (a i) (b i) := by
  refine List.ext_getElem (by simp) fun i _ _ => ?_
  simp

/-- The covariance does not depend on the order of the pairs. -/
theorem covariance_permuted {n : Nat} (a b : Fin n → ℚ) (σ : Equiv.Perm (Fin n)) :
    covariance (List.ofFn (a ∘ σ)) (List.ofFn (b ∘ σ)) = covariance (List.ofFn a) (List.ofFn b) := by
  rw [covariance, covariance, mean_perm (σ.ofFn_comp_perm a), mean_perm (σ.ofFn_comp_perm b),
    zip_with_of_fn, zip_with_of_fn]
  exact (σ.ofFn_comp_perm fun i =>
    (a i - mean (List.ofFn a)) * (b i - mean (List.ofFn b))).sum_eq

theorem average_ranks_of_fn {n : Nat} (value : Fin n → α) :
    averageRanks (List.ofFn value) = List.ofFn (meanRank (List.ofFn value) ∘ value) := by
  rw [average_ranks_eq, List.map_ofFn]

theorem average_ranks_permuted {n : Nat} (value : Fin n → α) (σ : Equiv.Perm (Fin n)) :
    averageRanks (List.ofFn (value ∘ σ)) =
      List.ofFn ((meanRank (List.ofFn value) ∘ value) ∘ σ) := by
  rw [average_ranks_of_fn]
  refine congrArg List.ofFn (funext fun i => ?_)
  exact mean_rank_perm (σ.ofFn_comp_perm value) _

/-! ## Ranks that vary -/

/-- A greater value has a greater mean rank. -/
theorem mean_rank_lt {values : List α} {v w : α} (hv : v ∈ values) (hlt : v < w) :
    meanRank values v < meanRank values w := by
  have hle : values.countP (· < v) + values.countP (· = v) ≤ values.countP (· < w) := by
    clear hv
    induction values with
    | nil => exact le_rfl
    | cons u values ih =>
        simp only [List.countP_cons, decide_eq_true_eq]
        rcases lt_trichotomy u v with hu | rfl | hu
        · simp only [hu, hu.ne, hu.trans hlt, if_true, if_false]
          omega
        · simp only [lt_irrefl, hlt, if_true, if_false]
          omega
        · simp only [hu.not_gt, hu.ne', if_false]
          omega
  have hone : 1 ≤ values.countP (· = v) := List.countP_pos_iff.mpr ⟨v, hv, decide_eq_true rfl⟩
  have hleq : (values.countP (· < v) : ℚ) + values.countP (· = v) ≤ values.countP (· < w) := by
    exact_mod_cast hle
  have honeq : (1 : ℚ) ≤ values.countP (· = v) := by
    exact_mod_cast hone
  have hw : (0 : ℚ) ≤ values.countP (· = w) := Nat.cast_nonneg _
  rw [meanRank, meanRank]
  linarith

theorem variance_pos {ranks : List ℚ} {a b : ℚ} (ha : a ∈ ranks) (hb : b ∈ ranks) (hne : a ≠ b) :
    0 < variance ranks := by
  have hnonneg : ∀ d ∈ ranks.map fun a => (a - mean ranks) ^ 2, 0 ≤ d :=
    List.forall_mem_map.mpr fun a _ => sq_nonneg _
  have hone : ∀ c ∈ ranks, c ≠ mean ranks → 0 < variance ranks := fun c hc hdiffers =>
    (sq_pos_of_ne_zero (sub_ne_zero.mpr hdiffers)).trans_le
      (List.single_le_sum hnonneg _ (List.mem_map_of_mem hc))
  by_cases hmean : a = mean ranks
  · exact hone b hb fun heq => hne (hmean.trans heq.symm)
  · exact hone a ha hmean

/-- A sequence with two values has ranks that vary. -/
theorem variance_ranks_pos {values : List α} {v w : α} (hv : v ∈ values) (hw : w ∈ values)
    (hne : v ≠ w) : 0 < variance (averageRanks values) := by
  rw [average_ranks_eq]
  refine variance_pos (List.mem_map_of_mem hv) (List.mem_map_of_mem hw) ?_
  rcases lt_or_gt_of_ne hne with hlt | hlt
  · exact (mean_rank_lt hv hlt).ne
  · exact (mean_rank_lt hw hlt).ne'

/-! ## The correlation -/

theorem spearman_symm (first second : List α) : spearman first second = spearman second first := by
  unfold spearman
  by_cases hlength : first.length = second.length
  · rw [if_neg (not_not_intro hlength), if_neg (not_not_intro hlength.symm)]
    have hnil : first = [] ↔ second = [] := by
      rw [← List.length_eq_zero_iff, hlength, List.length_eq_zero_iff]
    simp only [hnil, or_comm, eq_comm, covariance_comm (averageRanks first), mul_comm]
  · rw [if_pos hlength, if_pos (Ne.symm hlength)]

/-- Rearranging both sequences alike changes nothing. -/
theorem spearman_permuted {n : Nat} (first second : Fin n → α) (σ : Equiv.Perm (Fin n)) :
    spearman (List.ofFn (first ∘ σ)) (List.ofFn (second ∘ σ)) =
      spearman (List.ofFn first) (List.ofFn second) := by
  have hequal : List.ofFn (first ∘ σ) = List.ofFn (second ∘ σ) ↔
      List.ofFn first = List.ofFn second := by
    rw [List.ofFn_inj, List.ofFn_inj]
    exact σ.surjective.injective_comp_right.eq_iff
  have hnil : List.ofFn (first ∘ σ) = [] ↔ List.ofFn first = [] := by
    rw [List.ofFn_eq_nil_iff, List.ofFn_eq_nil_iff]
  unfold spearman
  simp only [hequal, hnil, List.length_ofFn, average_ranks_permuted first σ,
    average_ranks_permuted second σ, average_ranks_of_fn first, average_ranks_of_fn second,
    covariance_permuted, variance_perm (σ.ofFn_comp_perm (meanRank (List.ofFn first) ∘ first)),
    variance_perm (σ.ofFn_comp_perm (meanRank (List.ofFn second) ∘ second))]

/-- A sequence with two values against an increasing image of itself. -/
theorem spearman_increasing {values : List α} {f : α → α} (h : StrictMonoOn f {v | v ∈ values})
    {v w : α} (hv : v ∈ values) (hw : w ∈ values) (hne : v ≠ w) :
    spearman values (values.map f) = .ok 1 := by
  have hpos := variance_ranks_pos hv hw hne
  have hself : ∀ ranks : List ℚ, covariance ranks ranks = variance ranks := by
    intro ranks
    rw [covariance, variance, List.zipWith_self]
    simp only [pow_two]
  have hroot : √((variance (averageRanks values) * variance (averageRanks values) : ℚ) : ℝ) =
      (variance (averageRanks values) : ℝ) := by
    rw [Rat.cast_mul, Real.sqrt_mul_self (by exact_mod_cast hpos.le)]
  rw [spearman, if_neg (not_not_intro (List.length_map f).symm), if_neg (List.ne_nil_of_mem hv),
    average_ranks_map h]
  dsimp only
  rw [if_neg (by simpa using hpos.ne'), hself, hroot,
    div_self (by exact_mod_cast hpos.ne'), min_self, max_eq_right (by norm_num)]

/-! ## What ranks and the correlation mean -/

/-- The ranks count, follow rearrangements, depend on the order alone and have a fixed sum, and the
correlation is symmetric, follows rearrangements and is one for an increasing image. -/
structure RankMeaning (α : Type) [LinearOrder α] : Prop where
  rank : ∀ (values : List α) (i : Nat) (hi : i < values.length), (averageRanks values)[i]? =
    some ((values.countP (· < values[i]) : ℚ) + ((values.countP (· = values[i]) : ℚ) + 1) / 2)
  permuted : ∀ (n : Nat) (value : Fin n → α) (σ : Equiv.Perm (Fin n)) (i : Fin n),
    (averageRanks (List.ofFn (value ∘ σ)))[i.val]? = (averageRanks (List.ofFn value))[(σ i).val]?
  increasing : ∀ (β : Type) [LinearOrder β] (values : List α) (f : α → β),
    StrictMonoOn f {v | v ∈ values} → averageRanks (values.map f) = averageRanks values
  sum : ∀ values : List α,
    (averageRanks values).sum = (values.length : ℚ) * (values.length + 1) / 2
  symmetric : ∀ first second : List α, spearman first second = spearman second first
  alike : ∀ (n : Nat) (first second : Fin n → α) (σ : Equiv.Perm (Fin n)),
    spearman (List.ofFn (first ∘ σ)) (List.ofFn (second ∘ σ)) =
      spearman (List.ofFn first) (List.ofFn second)
  one : ∀ (values : List α) (f : α → α), StrictMonoOn f {v | v ∈ values} →
    (∃ v ∈ values, ∃ w ∈ values, v ≠ w) → spearman values (values.map f) = .ok 1

/-- Average ranks mean what they say. -/
theorem average_ranks_mean (α : Type) [LinearOrder α] : RankMeaning α where
  rank values i hi := by
    rw [average_ranks_eq, List.getElem?_map, List.getElem?_eq_getElem hi, Option.map_some, meanRank]
  permuted _ := rank_of_permuted
  increasing _ _ _ _ := average_ranks_map
  sum := sum_average_ranks
  symmetric := spearman_symm
  alike _ := spearman_permuted
  one _ _ h := fun ⟨_, hv, _, hw, hne⟩ => spearman_increasing h hv hw hne

end CatalogApi.Evaluation
