import CatalogApi.Lib.ByKey
import Mathlib.Algebra.BigOperators.Ring.List
import Mathlib.Data.List.FinRange
import Mathlib.Data.List.TakeWhile
import Mathlib.Tactic.Linarith
import Mathlib.Tactic.Ring

/-!
# Average ranks

`_average_ranks` of `api/evaluation/metrics.py`, over values of any linear order and with exact
rational ranks. `average_ranks_eq` says that the loops over the tie runs give each value the mean of
the places that it and its equals take.
-/

namespace CatalogApi.Evaluation

open ByKey

variable {α : Type} [LinearOrder α] {values : List α}

/-! ## The loops -/

/-- The indices of the values, in increasing order of the values. -/
def rankOrder (values : List α) : List (Fin values.length) :=
  sortBy values.get (List.finRange values.length)

/-- The inner loop: the end of the tie run of `first`, from `last` on. -/
def runEnd (values : List α) (order : List (Fin values.length)) (first : Fin values.length)
    (last : Nat) : Nat :=
  if _ : last + 1 < order.length then
    if values.get order[last + 1] = values.get first then runEnd values order first (last + 1)
    else last
  else last
termination_by order.length - last

theorem le_run_end (order : List (Fin values.length)) (first : Fin values.length) (last : Nat) :
    last ≤ runEnd values order first last := by
  fun_induction runEnd values order first last with
  | case1 last _ _ ih => exact (Nat.le_succ last).trans ih
  | case2 => exact le_rfl
  | case3 => exact le_rfl

/-- The outer loop from `start` on: the indices of each tie run get the rank they share. -/
def fillRanks (values : List α) (order : List (Fin values.length)) (ranks : List ℚ)
    (start : Nat) : List ℚ :=
  if _ : start < order.length then
    let last := runEnd values order order[start] start
    let shared : ℚ := ((start + last : Nat) : ℚ) / 2 + 1
    let written := ((order.take (last + 1)).drop start).foldl
      (fun ranks index => ranks.set index shared) ranks
    fillRanks values order written (last + 1)
  else ranks
termination_by order.length - start
decreasing_by
  have hle := le_run_end order order[start] start
  omega

/-- `_average_ranks`. -/
def averageRanks (values : List α) : List ℚ :=
  fillRanks values (rankOrder values) (List.replicate values.length 0) 0

/-! ## The mean of the places -/

/-- The number of smaller values, and half of one more than the number of equal values. -/
def meanRank (values : List α) (v : α) : ℚ :=
  (values.countP (· < v) : ℚ) + ((values.countP (· = v) : ℚ) + 1) / 2

theorem mean_rank_perm {values values' : List α} (h : values.Perm values') (v : α) :
    meanRank values v = meanRank values' v := by
  rw [meanRank, meanRank, h.countP_eq, h.countP_eq]

/-- The inner loop stops after the elements that are equal to the first. -/
theorem run_end_eq {order before rest : List (Fin values.length)} {first last : Fin values.length}
    (horder : order = before ++ last :: rest) : runEnd values order first before.length =
      before.length + (rest.takeWhile fun index => values.get index = values.get first).length := by
  induction rest generalizing before last with
  | nil =>
      rw [runEnd, dif_neg (by simp [horder])]
      rfl
  | cons index rest ih =>
      have hlt : before.length + 1 < order.length := by simp [horder]
      have hread : order[before.length + 1] = index := by
        simp only [horder]
        rw [List.getElem_append_right (Nat.le_succ _)]
        simp
      rw [runEnd, dif_pos hlt, hread]
      by_cases hsame : values.get index = values.get first
      · have hnext : order = (before ++ [last]) ++ index :: rest := by simp [horder]
        have hrest := ih hnext
        rw [List.length_append, List.length_singleton] at hrest
        rw [if_pos hsame, hrest, List.takeWhile_cons, decide_eq_true hsame, if_pos rfl,
          List.length_cons]
        omega
      · rw [if_neg hsame, List.takeWhile_cons, decide_eq_false hsame]
        rfl

/-- Writing one rank at the indices of a run. -/
theorem get_written {n : Nat} {run : List (Fin n)} {ranks : List ℚ} (hlength : ranks.length = n)
    (shared : ℚ) (i : Fin n) :
    (run.foldl (fun ranks index => ranks.set index shared) ranks)[i.val]? =
      if i ∈ run then some shared else ranks[i.val]? := by
  induction run generalizing ranks with
  | nil => simp
  | cons index run ih =>
      rw [List.foldl_cons, ih (by rw [List.length_set, hlength])]
      by_cases hrun : i ∈ run
      · simp [hrun]
      · by_cases hindex : i = index
        · subst hindex
          simp [hrun, hlength]
        · have hne : index.val ≠ i.val := fun heq => hindex (Fin.ext heq.symm)
          simp [hrun, hindex, List.getElem?_set_ne hne]

theorem length_written {n : Nat} (run : List (Fin n)) (ranks : List ℚ) (shared : ℚ) :
    (run.foldl (fun ranks index => ranks.set index shared) ranks).length = ranks.length := by
  induction run generalizing ranks with
  | nil => rfl
  | cons index run ih => rw [List.foldl_cons, ih, List.length_set]

/-- The rank that the loop writes is the mean rank of the run. -/
theorem shared_eq {before run after : List (Fin values.length)} {v : α}
    (hperm : (before ++ run ++ after).Perm (List.finRange values.length))
    (hbefore : ∀ index ∈ before, values.get index < v) (hrun : ∀ index ∈ run, values.get index = v)
    (hafter : ∀ index ∈ after, v < values.get index) (hne : run ≠ []) :
    ((before.length + (before.length + (run.length - 1)) : Nat) : ℚ) / 2 + 1 = meanRank values v := by
  have hvalues : ((before ++ run ++ after).map values.get).Perm values := by
    have hmap := hperm.map values.get
    rwa [List.map_get_finRange] at hmap
  have hsmaller : values.countP (· < v) = before.length := by
    rw [← hvalues.countP_eq, List.countP_map, List.countP_append, List.countP_append,
      List.countP_eq_length.mpr, List.countP_eq_zero.mpr, List.countP_eq_zero.mpr]
    · rfl
    · intro index hindex
      simpa using (hafter index hindex).le
    · intro index hindex
      simpa using (hrun index hindex).ge
    · intro index hindex
      simpa using hbefore index hindex
  have hequal : values.countP (· = v) = run.length := by
    rw [← hvalues.countP_eq, List.countP_map, List.countP_append, List.countP_append,
      List.countP_eq_zero.mpr, List.countP_eq_length.mpr, List.countP_eq_zero.mpr]
    · simp
    · intro index hindex
      simpa using (hafter index hindex).ne'
    · intro index hindex
      simpa using hrun index hindex
    · intro index hindex
      simpa using (hbefore index hindex).ne
  obtain ⟨rest, hrest⟩ := Nat.exists_eq_add_of_lt (List.length_pos_of_ne_nil hne)
  rw [meanRank, hsmaller, hequal, hrest]
  simp only [Nat.zero_add, Nat.add_sub_cancel]
  push_cast
  ring

/-- What a sorted list holds after the elements that are equal to a lower bound is greater. -/
theorem lt_of_mem_drop_while {ι : Type} {key : ι → α} {v : α} {l : List ι}
    (hsorted : l.Pairwise fun a b => key a ≤ key b) (hle : ∀ {a}, a ∈ l → v ≤ key a) {a : ι}
    (h : a ∈ l.dropWhile fun b => key b = v) : v < key a := by
  induction l with
  | nil => exact absurd h List.not_mem_nil
  | cons b l ih =>
      rw [List.dropWhile_cons] at h
      by_cases hsame : key b = v
      · rw [decide_eq_true hsame, if_pos rfl] at h
        exact ih hsorted.of_cons (fun hin => hle (List.mem_cons_of_mem _ hin)) h
      · rw [decide_eq_false hsame, if_neg Bool.false_ne_true] at h
        have hlt : v < key b := lt_of_le_of_ne (hle List.mem_cons_self) (Ne.symm hsame)
        rcases List.mem_cons.mp h with rfl | h
        · exact hlt
        · exact hlt.trans_le (List.rel_of_pairwise_cons hsorted h)

/-- The loop invariant: the indices before `start` have their mean ranks, and their values are
smaller than those of the rest. -/
theorem fill_ranks_spec {order before rest : List (Fin values.length)} {ranks : List ℚ}
    (horder : order = before ++ rest) (hperm : order.Perm (List.finRange values.length))
    (hsorted : order.Pairwise fun a b => values.get a ≤ values.get b)
    (hlength : ranks.length = values.length)
    (hboundary : ∀ a ∈ before, ∀ b ∈ rest, values.get a < values.get b)
    (hranks : ∀ a ∈ before, ranks[a.val]? = some (meanRank values (values.get a))) :
    (fillRanks values order ranks before.length).length = values.length ∧
      ∀ a ∈ order, (fillRanks values order ranks before.length)[a.val]? =
        some (meanRank values (values.get a)) := by
  -- each round of the loop ranks one run of ties, which leaves a shorter rest
  induction hrest : rest.length using Nat.strong_induction_on generalizing before rest ranks with
  | _ n ih =>
      cases rest with
      | nil =>
          rw [fillRanks, dif_neg (by simp [horder])]
          rw [horder, List.append_nil]
          exact ⟨hlength, hranks⟩
      | cons first rest =>
          -- the tie run of `first` and what comes after it
          obtain ⟨ties, hties⟩ : ∃ ties, ties =
              rest.takeWhile fun index => values.get index = values.get first := ⟨_, rfl⟩
          obtain ⟨after, hafter⟩ : ∃ after, after =
              rest.dropWhile fun index => values.get index = values.get first := ⟨_, rfl⟩
          have hsplit : rest = ties ++ after := by
            rw [hties, hafter, List.takeWhile_append_dropWhile]
          have hlt : before.length < order.length := by simp [horder]
          have hread : order[before.length] = first := by
            simp only [horder]
            rw [List.getElem_append_right le_rfl]
            simp
          have hlast : runEnd values order first before.length = before.length + ties.length := by
            rw [run_end_eq horder, hties]
          have hrun : (order.take (before.length + ties.length + 1)).drop before.length =
              first :: ties := by
            rw [horder, hsplit, Nat.add_assoc, List.take_length_add_append, List.drop_left]
            simp
          have htie : ∀ index ∈ first :: ties, values.get index = values.get first := by
            intro index hindex
            rcases List.mem_cons.mp hindex with rfl | hindex
            · rfl
            · rw [hties] at hindex
              have himp := List.mem_takeWhile_imp hindex
              exact of_decide_eq_true himp
          have hparts : order = (before ++ first :: ties) ++ after := by
            rw [horder, hsplit, List.append_assoc, List.cons_append]
          have hrestsorted : (first :: rest).Pairwise fun a b => values.get a ≤ values.get b := by
            rw [horder, List.pairwise_append] at hsorted
            exact hsorted.2.1
          have hgreater : ∀ index ∈ after, values.get first < values.get index := by
            rw [hafter]
            exact fun index hindex =>
              lt_of_mem_drop_while hrestsorted.of_cons (List.rel_of_pairwise_cons hrestsorted) hindex
          have hsmaller : ∀ index ∈ before, values.get index < values.get first :=
            fun index hindex => hboundary index hindex first List.mem_cons_self
          have hshared : ((before.length + (before.length + ties.length) : Nat) : ℚ) / 2 + 1 =
              meanRank values (values.get first) := by
            have hmean := shared_eq (hparts ▸ hperm) hsmaller htie hgreater (List.cons_ne_nil _ _)
            rwa [List.length_cons, Nat.add_sub_cancel] at hmean
          rw [fillRanks, dif_pos hlt, hread]
          dsimp only
          rw [hlast, hrun, hshared]
          have hfewer : after.length < n := by
            rw [← hrest, hsplit, List.length_cons, List.length_append]
            omega
          have hboundary' : ∀ a ∈ before ++ first :: ties, ∀ b ∈ after,
              values.get a < values.get b := by
            intro a ha b hb
            rcases List.mem_append.mp ha with ha | ha
            · exact (hsmaller a ha).trans (hgreater b hb)
            · rw [htie a ha]
              exact hgreater b hb
          have hranks' : ∀ a ∈ before ++ first :: ties,
              ((first :: ties).foldl (fun ranks index =>
                ranks.set index (meanRank values (values.get first))) ranks)[a.val]? =
                  some (meanRank values (values.get a)) := by
            intro a ha
            rw [get_written hlength]
            by_cases hmem : a ∈ first :: ties
            · rw [if_pos hmem, htie a hmem]
            · rw [if_neg hmem]
              exact hranks a ((List.mem_append.mp ha).resolve_right hmem)
          have hnext := ih after.length hfewer hparts ((length_written _ _ _).trans hlength)
            hboundary' hranks' rfl
          rwa [List.length_append, List.length_cons, ← Nat.add_assoc] at hnext

/-- Each value gets its mean rank. -/
theorem average_ranks_eq (values : List α) :
    averageRanks values = values.map (meanRank values) := by
  obtain ⟨hlength, hranks⟩ := fill_ranks_spec (List.nil_append (rankOrder values)).symm
    (sort_by_perm _ _) (sort_by_sorted _ _) List.length_replicate
    (fun _ ha => absurd ha List.not_mem_nil) fun _ ha => absurd ha List.not_mem_nil
  refine List.ext_getElem? fun i => ?_
  by_cases hi : i < values.length
  · have hread := hranks ⟨i, hi⟩ (mem_sort_by.mpr (List.mem_finRange _))
    rw [List.getElem?_map, List.getElem?_eq_getElem hi]
    exact hread
  · rw [List.getElem?_eq_none (by rw [averageRanks]; exact hlength.le.trans (Nat.le_of_not_lt hi)),
      List.getElem?_eq_none (by rw [List.length_map]; exact Nat.le_of_not_lt hi)]

/-! ## What ranks mean -/

/-- The ranks follow the values through a rearrangement. -/
theorem rank_of_permuted {n : Nat} (value : Fin n → α) (σ : Equiv.Perm (Fin n)) (i : Fin n) :
    (averageRanks (List.ofFn (value ∘ σ)))[i.val]? = (averageRanks (List.ofFn value))[(σ i).val]? := by
  have hperm := σ.ofFn_comp_perm value
  rw [average_ranks_eq, average_ranks_eq, List.getElem?_map, List.getElem?_map]
  simp [mean_rank_perm hperm]

/-- The ranks of the images under a strictly increasing map are the ranks. -/
theorem average_ranks_map {β : Type} [LinearOrder β] {f : α → β} {values : List α}
    (h : StrictMonoOn f {v | v ∈ values}) : averageRanks (values.map f) = averageRanks values := by
  rw [average_ranks_eq, average_ranks_eq, List.map_map]
  refine List.map_congr_left fun v hv => ?_
  rw [Function.comp_apply, meanRank, meanRank, List.countP_map, List.countP_map]
  have hsmaller : values.countP ((fun b => decide (b < f v)) ∘ f) = values.countP (· < v) :=
    List.countP_congr fun w hw => by simp [h.lt_iff_lt hw hv]
  have hequal : values.countP ((fun b => decide (b = f v)) ∘ f) = values.countP (· = v) :=
    List.countP_congr fun w hw => by simp [h.injOn.eq_iff hw hv]
  rw [hsmaller, hequal]

omit [LinearOrder α] in
/-- A count over pairs, from either side. -/
theorem sum_count_swap (p : α → α → Bool) (l l' : List α) :
    (l.map fun a => l'.countP (p a)).sum = (l'.map fun b => l.countP fun a => p a b).sum := by
  induction l with
  | nil => simp
  | cons a l ih =>
      have hcount : ∀ l' : List α, l'.countP (p a) =
          (l'.map fun b => if p a b then 1 else 0).sum := by
        intro l'
        induction l' with
        | nil => rfl
        | cons b l' ih => rw [List.countP_cons, List.map_cons, List.sum_cons, ih, Nat.add_comm]
      rw [List.map_cons, List.sum_cons, ih, hcount, ← List.sum_map_add]
      refine congrArg List.sum (List.map_congr_left fun b _ => ?_)
      rw [List.countP_cons, Nat.add_comm]

theorem sum_mean_ranks (values l : List α) : (l.map (meanRank values)).sum =
    ((l.map fun v => values.countP (· < v)).sum : ℕ) +
      (((l.map fun v => values.countP (· = v)).sum : ℕ) + (l.length : ℚ)) / 2 := by
  induction l with
  | nil => simp
  | cons v l ih =>
      simp only [List.map_cons, List.sum_cons, ih, meanRank, List.length_cons]
      push_cast
      ring

/-- The values are below, at or above each of them. -/
theorem count_split (values : List α) (v : α) :
    values.countP (· < v) + values.countP (· = v) + values.countP (v < ·) = values.length := by
  induction values with
  | nil => rfl
  | cons w values ih =>
      simp only [List.countP_cons, List.length_cons, decide_eq_true_eq]
      rcases lt_trichotomy w v with hlt | rfl | hlt
      · simp only [hlt, hlt.ne, hlt.not_gt, if_true, if_false]
        omega
      · simp only [lt_irrefl, if_true, if_false]
        omega
      · simp only [hlt, hlt.ne', hlt.not_gt, if_true, if_false]
        omega

/-- The ranks of `n` values sum to `n (n + 1) / 2`. -/
theorem sum_average_ranks (values : List α) :
    (averageRanks values).sum = (values.length : ℚ) * (values.length + 1) / 2 := by
  have hswap : (values.map fun v => values.countP (· < v)).sum =
      (values.map fun v => values.countP (v < ·)).sum :=
    sum_count_swap (fun v w => decide (w < v)) values values
  have hall : (values.map fun v => values.countP (· < v)).sum +
      (values.map fun v => values.countP (· = v)).sum +
        (values.map fun v => values.countP (v < ·)).sum = values.length * values.length := by
    rw [← List.sum_map_add, ← List.sum_map_add, List.map_congr_left fun v _ => count_split values v]
    simp
  have hcast : (((values.map fun v => values.countP (· < v)).sum : ℕ) : ℚ) * 2 +
      ((values.map fun v => values.countP (· = v)).sum : ℕ) = values.length * values.length := by
    rw [← hswap] at hall
    have htwice : (values.map fun v => values.countP (· < v)).sum * 2 +
        (values.map fun v => values.countP (· = v)).sum = values.length * values.length := by
      omega
    exact_mod_cast htwice
  rw [average_ranks_eq, sum_mean_ranks]
  linarith

end CatalogApi.Evaluation
