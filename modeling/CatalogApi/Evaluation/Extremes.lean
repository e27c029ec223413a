import CatalogApi.Evaluation.Spearman
import CatalogApi.Lib.Correlation
import Mathlib.Data.Rat.BigOperators

/-!
# The extremes of the rank correlation

In exact arithmetic the quotient of `spearman` lies between `-1` and `1` by itself, so the clamp of
`api/evaluation/metrics.py` only takes back what floating point adds. It is at an end for sequences
in one order or in opposite orders, and for no others (`spearman_extremes`).
-/

namespace CatalogApi.Evaluation

open Correlation

/-! ## Deviations as vectors -/

/-- The deviations of the pairs from their means. -/
noncomputable def deviations (ranksA ranksB : List ℚ) : List (ℝ × ℝ) :=
  (ranksA.zip ranksB).map fun p => (((p.1 - mean ranksA : ℚ) : ℝ), ((p.2 - mean ranksB : ℚ) : ℝ))

theorem dot_deviations (ranksA ranksB : List ℚ) :
    dot (deviations ranksA ranksB) = covariance ranksA ranksB := by
  rw [covariance, ← List.map_uncurry_zip_eq_zipWith, Rat.cast_list_sum, List.map_map, dot,
    deviations, List.map_map]
  refine congrArg List.sum (List.map_congr_left fun p _ => ?_)
  show _ = (((p.1 - mean ranksA) * (p.2 - mean ranksB) : ℚ) : ℝ)
  exact (Rat.cast_mul _ _).symm

section Length

variable {ranksA ranksB : List ℚ} (hlength : ranksA.length = ranksB.length)
include hlength

theorem left_deviations : leftSquare (deviations ranksA ranksB) = variance ranksA := by
  have hfirst : (ranksA.zip ranksB).map Prod.fst = ranksA := List.map_fst_zip hlength.le
  rw [variance, Rat.cast_list_sum, List.map_map, leftSquare, deviations, List.map_map]
  conv_rhs => rw [← hfirst, List.map_map]
  rw [hfirst]
  refine congrArg List.sum (List.map_congr_left fun p _ => ?_)
  exact (Rat.cast_pow _ _).symm

theorem right_deviations : rightSquare (deviations ranksA ranksB) = variance ranksB := by
  have hsecond : (ranksA.zip ranksB).map Prod.snd = ranksB := List.map_snd_zip hlength.ge
  rw [variance, Rat.cast_list_sum, List.map_map, rightSquare, deviations, List.map_map]
  conv_rhs => rw [← hsecond, List.map_map]
  rw [hsecond]
  refine congrArg List.sum (List.map_congr_left fun p _ => ?_)
  exact (Rat.cast_pow _ _).symm

end Length

/-- Ranks that do not vary have no variance. -/
theorem variance_constant {ranks : List ℚ} {c : ℚ} (h : ∀ a ∈ ranks, a = c) :
    variance ranks = 0 := by
  refine List.sum_eq_zero fun d hd => ?_
  obtain ⟨a, ha, rfl⟩ := List.mem_map.mp hd
  have hlength : (ranks.length : ℚ) ≠ 0 := by
    exact_mod_cast (List.length_pos_of_mem ha).ne'
  have hmean : mean ranks = c := by
    rw [mean, if_neg (List.ne_nil_of_mem ha), List.sum_eq_card_nsmul ranks c h, nsmul_eq_mul,
      mul_div_cancel_left₀ _ hlength]
  rw [hmean, h a ha, sub_self]
  exact zero_pow two_ne_zero

variable {α : Type} [LinearOrder α]

/-! ## Sequences in one order -/

/-- The sequences rise and fall together. -/
def SameOrder (first second : List α) : Prop :=
  ∀ p ∈ first.zip second, ∀ q ∈ first.zip second, p.1 < q.1 ↔ p.2 < q.2

/-- One sequence rises where the other falls. -/
def OppositeOrder (first second : List α) : Prop :=
  ∀ p ∈ first.zip second, ∀ q ∈ first.zip second, p.1 < q.1 ↔ q.2 < p.2

/-- Two of the values differ. -/
def Varies (values : List α) : Prop := ∃ v ∈ values, ∃ w ∈ values, v ≠ w

theorem variance_ranks_iff (values : List α) :
    variance (averageRanks values) ≠ 0 ↔ Varies values := by
  constructor
  case mp =>
    intro hvariance
    by_contra hconstant
    refine hvariance ?_
    cases values with
    | nil => rw [average_ranks_eq]; rfl
    | cons v values =>
        refine variance_constant (c := meanRank (v :: values) v) ?_
        rw [average_ranks_eq, List.forall_mem_map]
        intro w hw
        have heq : w = v := by
          by_contra hne
          exact hconstant ⟨w, hw, v, List.mem_cons_self, hne⟩
        rw [heq]
  case mpr =>
    intro ⟨v, hv, w, hw, hne⟩
    exact (variance_ranks_pos hv hw hne).ne'

theorem mean_rank_lt_iff {values : List α} {v w : α} (hv : v ∈ values) (hw : w ∈ values) :
    meanRank values v < meanRank values w ↔ v < w := by
  refine ⟨fun hrank => ?_, mean_rank_lt hv⟩
  by_contra hle
  rcases (not_lt.mp hle).eq_or_lt with rfl | hlt
  · exact lt_irrefl _ hrank
  · exact lt_asymm hrank (mean_rank_lt hw hlt)

theorem zip_average_ranks (first second : List α) :
    (averageRanks first).zip (averageRanks second) =
      (first.zip second).map fun p => (meanRank first p.1, meanRank second p.2) := by
  rw [average_ranks_eq, average_ranks_eq, List.zip_map]
  rfl

section Pairs

variable {first second : List α} (hlength : first.length = second.length)
include hlength

omit [LinearOrder α] in
theorem count_first (p : α → Bool) :
    first.countP p = (first.zip second).countP fun q => p q.1 := by
  conv_lhs => rw [← List.map_fst_zip hlength.le, List.countP_map]
  rfl

omit [LinearOrder α] in
theorem count_second (p : α → Bool) :
    second.countP p = (first.zip second).countP fun q => p q.2 := by
  conv_lhs => rw [← List.map_snd_zip hlength.ge, List.countP_map]
  rfl

/-- Sequences in one order have the same ranks. -/
theorem SameOrder.ranks (h : SameOrder first second) {p : α × α} (hp : p ∈ first.zip second) :
    meanRank first p.1 = meanRank second p.2 := by
  have hsmaller : first.countP (· < p.1) = second.countP (· < p.2) := by
    rw [count_first hlength, count_second hlength]
    exact List.countP_congr fun q hq => by simpa using h q hq p hp
  have hequal : first.countP (· = p.1) = second.countP (· = p.2) := by
    rw [count_first hlength, count_second hlength]
    exact List.countP_congr fun q hq => by
      simpa using eq_iff_eq_of_lt_iff_lt_of_gt_iff_gt (h q hq p hp) (h p hp q hq)
  rw [meanRank, meanRank, hsmaller, hequal]

/-- The ranks of sequences in opposite orders add up to one more than their length. -/
theorem OppositeOrder.ranks (h : OppositeOrder first second) {p : α × α}
    (hp : p ∈ first.zip second) :
    meanRank first p.1 + meanRank second p.2 = first.length + 1 := by
  have hsmaller : first.countP (· < p.1) = second.countP (p.2 < ·) := by
    rw [count_first hlength, count_second hlength]
    exact List.countP_congr fun q hq => by simpa using h q hq p hp
  have hequal : first.countP (· = p.1) = second.countP (· = p.2) := by
    rw [count_first hlength, count_second hlength]
    exact List.countP_congr fun q hq => by
      simpa [eq_comm] using eq_iff_eq_of_lt_iff_lt_of_gt_iff_gt (h q hq p hp) (h p hp q hq)
  have hsplit := count_split second p.2
  have hcast : (second.countP (· < p.2) : ℚ) + second.countP (· = p.2) +
      second.countP (p.2 < ·) = first.length := by
    rw [hlength]
    exact_mod_cast hsplit
  rw [meanRank, meanRank, hsmaller, hequal]
  linarith

omit hlength in
theorem mean_ranks {values : List α} (hne : values ≠ []) :
    mean (averageRanks values) = (values.length + 1) / 2 := by
  have hlengths : (averageRanks values).length = values.length := by
    rw [average_ranks_eq, List.length_map]
  have hnil : averageRanks values ≠ [] := by
    rw [ne_eq, ← List.length_eq_zero_iff, hlengths, List.length_eq_zero_iff]
    exact hne
  have hzero : (values.length : ℚ) ≠ 0 := by
    exact_mod_cast fun h => hne (List.length_eq_zero_iff.mp h)
  rw [mean, if_neg hnil, sum_average_ranks, hlengths]
  field_simp

/-! ## The ends -/

/-- The deviations of two sequences, by their pairs. -/
theorem deviations_ranks (hne : first ≠ []) :
    deviations (averageRanks first) (averageRanks second) = (first.zip second).map fun p =>
      (((meanRank first p.1 - (first.length + 1) / 2 : ℚ) : ℝ),
        ((meanRank second p.2 - (first.length + 1) / 2 : ℚ) : ℝ)) := by
  have hne' : second ≠ [] := by
    rw [ne_eq, ← List.length_eq_zero_iff, ← hlength, List.length_eq_zero_iff]
    exact hne
  rw [deviations, zip_average_ranks, List.map_map, mean_ranks hne, mean_ranks hne', hlength]
  rfl

theorem length_average_ranks_eq : (averageRanks first).length = (averageRanks second).length := by
  rw [average_ranks_eq, average_ranks_eq, List.length_map, List.length_map, hlength]

section Vary

variable (hfirst : Varies first) (hsecond : Varies second)
include hfirst hsecond

theorem squares_pos : 0 < leftSquare (deviations (averageRanks first) (averageRanks second)) ∧
    0 < rightSquare (deviations (averageRanks first) (averageRanks second)) := by
  have hlengths := length_average_ranks_eq hlength
  obtain ⟨v, hv, w, hw, hne⟩ := hfirst
  obtain ⟨v', hv', w', hw', hne'⟩ := hsecond
  rw [left_deviations hlengths, right_deviations hlengths]
  exact ⟨by exact_mod_cast variance_ranks_pos hv hw hne,
    by exact_mod_cast variance_ranks_pos hv' hw' hne'⟩

/-- The quotient is one exactly for sequences in the same order. -/
theorem quotient_one_iff_same :
    quotient (deviations (averageRanks first) (averageRanks second)) = 1 ↔
      SameOrder first second := by
  obtain ⟨hleft, hright⟩ := squares_pos hlength hfirst hsecond
  obtain ⟨v, hv, -⟩ := hfirst
  have hdeviations := deviations_ranks hlength (List.ne_nil_of_mem hv)
  rw [quotient_eq_one_iff hleft hright]
  constructor
  case mp =>
    intro hscaled p hp q hq
    have hroot := Real.sqrt_pos.mpr hleft
    have hroot' := Real.sqrt_pos.mpr hright
    have hpair {p : α × α} (hp : p ∈ first.zip second) := hscaled _
      (hdeviations ▸ List.mem_map_of_mem hp)
    have hp' := hpair hp
    have hq' := hpair hq
    dsimp only at hp' hq'
    -- both ranks are the same deviation scaled, and scaling by a positive factor keeps the order
    rw [← mean_rank_lt_iff (List.of_mem_zip hp).1 (List.of_mem_zip hq).1,
      ← mean_rank_lt_iff (List.of_mem_zip hp).2 (List.of_mem_zip hq).2,
      ← sub_lt_sub_iff_right ((first.length + 1) / 2 : ℚ), ← Rat.cast_lt (K := ℝ),
      ← div_lt_div_iff_of_pos_right hroot, hp', hq', div_lt_div_iff_of_pos_right hroot',
      Rat.cast_lt, sub_lt_sub_iff_right]
  case mpr =>
    intro hsame
    have hequal : ∀ p ∈ deviations (averageRanks first) (averageRanks second), p.1 = p.2 := by
      rw [hdeviations, List.forall_mem_map]
      intro p hp
      rw [hsame.ranks hlength hp]
    have hsquares : leftSquare (deviations (averageRanks first) (averageRanks second)) =
        rightSquare (deviations (averageRanks first) (averageRanks second)) :=
      congrArg List.sum (List.map_congr_left fun p hp => by rw [hequal p hp])
    intro p hp
    rw [hsquares, hequal p hp]

/-- The quotient is minus one exactly for sequences in opposite orders. -/
theorem quotient_neg_one_iff_opposite :
    quotient (deviations (averageRanks first) (averageRanks second)) = -1 ↔
      OppositeOrder first second := by
  obtain ⟨hleft, hright⟩ := squares_pos hlength hfirst hsecond
  obtain ⟨v, hv, -⟩ := hfirst
  have hdeviations := deviations_ranks hlength (List.ne_nil_of_mem hv)
  rw [quotient_eq_neg_one_iff hleft hright]
  constructor
  case mp =>
    intro hscaled p hp q hq
    have hroot := Real.sqrt_pos.mpr hleft
    have hroot' := Real.sqrt_pos.mpr hright
    have hpair {p : α × α} (hp : p ∈ first.zip second) := hscaled _
      (hdeviations ▸ List.mem_map_of_mem hp)
    have hp' := hpair hp
    have hq' := hpair hq
    dsimp only at hp' hq'
    rw [← mean_rank_lt_iff (List.of_mem_zip hp).1 (List.of_mem_zip hq).1,
      ← mean_rank_lt_iff (List.of_mem_zip hq).2 (List.of_mem_zip hp).2,
      ← sub_lt_sub_iff_right ((first.length + 1) / 2 : ℚ), ← Rat.cast_lt (K := ℝ),
      ← div_lt_div_iff_of_pos_right hroot, hp', hq', neg_lt_neg_iff,
      div_lt_div_iff_of_pos_right hroot', Rat.cast_lt, sub_lt_sub_iff_right]
  case mpr =>
    intro hopposite
    have hequal : ∀ p ∈ deviations (averageRanks first) (averageRanks second), p.1 = -p.2 := by
      rw [hdeviations, List.forall_mem_map]
      intro p hp
      have hsum := hopposite.ranks hlength hp
      have hdeviation : meanRank first p.1 - (first.length + 1) / 2 =
          -(meanRank second p.2 - (first.length + 1) / 2) := by linarith
      rw [hdeviation, Rat.cast_neg]
    have hsquares : leftSquare (deviations (averageRanks first) (averageRanks second)) =
        rightSquare (deviations (averageRanks first) (averageRanks second)) :=
      congrArg List.sum (List.map_congr_left fun p hp => by rw [hequal p hp, neg_sq])
    intro p hp
    rw [hsquares, hequal p hp, neg_div]

end Vary

/-- A sequence varies if it tells apart what a sequence that varies tells apart. -/
theorem varies_second (h : ∀ p ∈ first.zip second, ∀ q ∈ first.zip second, p.1 < q.1 → p.2 ≠ q.2)
    (hfirst : Varies first) : Varies second := by
  obtain ⟨v, hv, w, hw, hne⟩ := hfirst
  rw [← List.map_fst_zip hlength.le] at hv hw
  obtain ⟨p, hp, rfl⟩ := List.mem_map.mp hv
  obtain ⟨q, hq, rfl⟩ := List.mem_map.mp hw
  have hp' := (List.of_mem_zip hp).2
  have hq' := (List.of_mem_zip hq).2
  rcases lt_or_gt_of_ne hne with hlt | hlt
  · exact ⟨p.2, hp', q.2, hq', h p hp q hq hlt⟩
  · exact ⟨q.2, hq', p.2, hp', h q hq p hp hlt⟩

end Pairs

theorem same_order_self (values : List α) : SameOrder values values := by
  have hpair : ∀ p ∈ values.zip values, p.1 = p.2 := by
    induction values with
    | nil => exact List.forall_mem_nil _
    | cons v values ih => exact List.forall_mem_cons.mpr ⟨rfl, ih⟩
  intro p hp q hq
  rw [hpair p hp, hpair q hq]

/-- What the correlation of two sequences of one length says. -/
structure Extremes (first second : List α) (r : ℝ) : Prop where
  quotient : Varies first → Varies second →
    r = quotient (deviations (averageRanks first) (averageRanks second))
  degenerate : ¬(Varies first ∧ Varies second) → r = if first = second then 1 else 0
  bounded : -1 ≤ r ∧ r ≤ 1
  one : r = 1 ↔ first = second ∨ (Varies first ∧ SameOrder first second)
  negOne : r = -1 ↔ Varies first ∧ OppositeOrder first second

/-- The correlation is the quotient itself where the ranks of both sequences vary. It is one for
equal sequences and for sequences in one order, and minus one for sequences in opposite orders. -/
theorem spearman_extremes {first second : List α} (hlength : first.length = second.length)
    (hne : first ≠ []) : ∃ r, spearman first second = .ok r ∧ Extremes first second r := by
  have hsame (h : SameOrder first second) (hfirst : Varies first) : Varies second :=
    varies_second hlength (fun p hp q hq hlt => ((h p hp q hq).mp hlt).ne) hfirst
  have hopposite (h : OppositeOrder first second) (hfirst : Varies first) : Varies second :=
    varies_second hlength (fun p hp q hq hlt => ((h p hp q hq).mp hlt).ne') hfirst
  rw [spearman, if_neg (not_not_intro hlength), if_neg hne]
  dsimp only
  by_cases hvary : Varies first ∧ Varies second
  case pos =>
    obtain ⟨hfirst, hsecond⟩ := hvary
    obtain ⟨hleft, hright⟩ := squares_pos hlength hfirst hsecond
    have hquotient : (covariance (averageRanks first) (averageRanks second) : ℝ) /
        √((variance (averageRanks first) * variance (averageRanks second) : ℚ) : ℝ) =
          quotient (deviations (averageRanks first) (averageRanks second)) := by
      have hlengths := length_average_ranks_eq hlength
      rw [quotient, dot_deviations, left_deviations hlengths, right_deviations hlengths,
        Rat.cast_mul]
    have hle := quotient_le_one hleft hright
    have hge := neg_one_le_quotient hleft hright
    rw [if_neg (not_or.mpr ⟨(variance_ranks_iff first).mpr hfirst,
      (variance_ranks_iff second).mpr hsecond⟩), hquotient, min_eq_right hle, max_eq_right hge]
    refine ⟨_, rfl, fun _ _ => rfl, fun hnot => absurd ⟨hfirst, hsecond⟩ hnot, ⟨hge, hle⟩, ?_, ?_⟩
    · rw [quotient_one_iff_same hlength hfirst hsecond]
      refine ⟨fun h => .inr ⟨hfirst, h⟩, ?_⟩
      rintro (rfl | ⟨-, h⟩)
      · exact same_order_self first
      · exact h
    · rw [quotient_neg_one_iff_opposite hlength hfirst hsecond]
      exact ⟨fun h => ⟨hfirst, h⟩, fun h => h.2⟩
  case neg =>
    -- without variation there is no correlation, and the source compares the sequences
    have hzero : variance (averageRanks first) = 0 ∨ variance (averageRanks second) = 0 := by
      by_contra hnot
      rw [not_or] at hnot
      exact hvary ⟨(variance_ranks_iff first).mp hnot.1, (variance_ranks_iff second).mp hnot.2⟩
    rw [if_pos hzero]
    refine ⟨_, rfl, fun hfirst hsecond => absurd ⟨hfirst, hsecond⟩ hvary, fun _ => rfl, ?_, ?_, ?_⟩
    · split <;> norm_num
    · constructor
      · intro h
        refine .inl ?_
        by_contra hdiffer
        rw [if_neg hdiffer] at h
        exact zero_ne_one h
      · rintro (heq | ⟨hfirst, h⟩)
        · rw [if_pos heq]
        · exact absurd ⟨hfirst, hsame h hfirst⟩ hvary
    · refine ⟨fun h => ?_, fun h => absurd ⟨h.1, hopposite h.2 h.1⟩ hvary⟩
      split at h
      · linarith
      · linarith

/-- Three scores against three in the same order. -/
theorem spearman_rising :
    ∃ r, spearman [(1 : ℤ), 2, 3] [10, 20, 40] = .ok r ∧ Extremes [(1 : ℤ), 2, 3] [10, 20, 40] r :=
  spearman_extremes rfl (List.cons_ne_nil _ _)

end CatalogApi.Evaluation
