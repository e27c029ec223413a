import Mathlib.Data.List.Pairwise
import Mathlib.Order.Lattice

/-!
# Heads of runs

The elements of one key stand together in a list that is sorted by it, and the first of each run is
the least of its key under whatever the list is sorted by within a key (`mem_heads`).
-/

namespace CatalogApi.ByKey

variable {α β κ ι : Type}

section Heads

variable [DecidableEq κ]

/-- The first element of each run of one key. -/
def heads (key : α → κ) : List α → List α
  | [] => []
  | a :: l => a :: heads key (l.dropWhile fun b => key b = key a)
termination_by l => l.length
decreasing_by exact Nat.lt_succ_of_le (List.dropWhile_sublist _).length_le

@[simp]
theorem heads_nil (key : α → κ) : heads key [] = [] := by rw [heads]

theorem heads_cons (key : α → κ) (a : α) (l : List α) :
    heads key (a :: l) = a :: heads key (l.dropWhile fun b => key b = key a) := by rw [heads]

theorem heads_sublist (key : α → κ) (l : List α) : (heads key l).Sublist l := by
  induction l using heads.induct key with
  | case1 => simp
  | case2 a l ih =>
      rw [heads_cons]
      exact (ih.trans (List.dropWhile_sublist _)).cons_cons a

end Heads

section Sorted

variable [LinearOrder κ] {key : α → κ} {l : List α}

/-- What follows the run of the first element is what has a greater key. -/
theorem mem_after_run {a b : α} (hsorted : (a :: l).Pairwise fun a b => key a ≤ key b) :
    b ∈ l.dropWhile (fun b => key b = key a) ↔ b ∈ l ∧ key a < key b := by
  rw [List.pairwise_cons] at hsorted
  induction l with
  | nil => simp
  | cons c l ih =>
      rw [List.forall_mem_cons, List.pairwise_cons] at hsorted
      rw [List.dropWhile_cons]
      split
      case isTrue heq =>
        rw [ih ⟨hsorted.1.2, hsorted.2.2⟩, List.mem_cons]
        refine ⟨fun ⟨hb, hlt⟩ => ⟨Or.inr hb, hlt⟩, fun ⟨hb, hlt⟩ => ⟨hb.resolve_left ?_, hlt⟩⟩
        rintro rfl
        exact hlt.ne (of_decide_eq_true heq).symm
      case isFalse hne =>
        have hlt : key a < key c :=
          lt_of_le_of_ne hsorted.1.1 fun heq => hne (decide_eq_true heq.symm)
        refine ⟨fun hb => ⟨hb, ?_⟩, fun h => h.1⟩
        rcases List.mem_cons.mp hb with rfl | hb
        · exact hlt
        · exact lt_of_lt_of_le hlt (hsorted.2.1 b hb)

/-- The heads of a sorted list have increasing keys. -/
theorem heads_sorted (hsorted : l.Pairwise fun a b => key a ≤ key b) :
    (heads key l).Pairwise fun a b => key a < key b := by
  induction l using heads.induct key with
  | case1 => simp
  | case2 a l ih =>
      rw [heads_cons, List.pairwise_cons]
      refine ⟨fun b hb => ((mem_after_run hsorted).mp ((heads_sublist key _).mem hb)).2, ?_⟩
      exact ih ((List.pairwise_cons.mp hsorted).2.sublist (List.dropWhile_sublist _))

/-- The heads of a list that is sorted by key, and by rank within a key, are the elements of least
rank of their keys. -/
theorem mem_heads [LinearOrder ι] {rank : α → ι}
    (hsorted : l.Pairwise fun a b => key a ≤ key b)
    (hrank : l.Pairwise fun a b => key a = key b → rank a < rank b) {a : α} :
    a ∈ heads key l ↔ a ∈ l ∧ ∀ b ∈ l, key b = key a → rank a ≤ rank b := by
  induction l using heads.induct key with
  | case1 => simp
  | case2 first l ih =>
      have hdrop : (l.dropWhile fun b => key b = key first).Sublist l := List.dropWhile_sublist _
      have hrest := ih ((List.pairwise_cons.mp hsorted).2.sublist hdrop)
        ((List.pairwise_cons.mp hrank).2.sublist hdrop)
      have hfirst := (List.pairwise_cons.mp hsorted).1
      rw [heads_cons, List.mem_cons, hrest, mem_after_run hsorted]
      constructor
      · rintro (rfl | ⟨⟨ha, hgreater⟩, hleast⟩)
        · refine ⟨List.mem_cons_self, fun b hb hkey => ?_⟩
          rcases List.mem_cons.mp hb with rfl | hb
          · exact le_rfl
          · exact ((List.pairwise_cons.mp hrank).1 b hb hkey.symm).le
        · refine ⟨List.mem_cons_of_mem _ ha, fun b hb hkey => ?_⟩
          rcases List.mem_cons.mp hb with rfl | hb
          · exact absurd hkey hgreater.ne
          · exact hleast b ((mem_after_run hsorted).mpr ⟨hb, hkey ▸ hgreater⟩) hkey
      · rintro ⟨ha, hleast⟩
        rcases List.mem_cons.mp ha with rfl | ha
        · exact Or.inl rfl
        · have hne : key first ≠ key a := fun hkey =>
            absurd ((List.pairwise_cons.mp hrank).1 a ha hkey)
              (not_lt.mpr (hleast first List.mem_cons_self hkey))
          exact Or.inr ⟨⟨ha, lt_of_le_of_ne (hfirst a ha) hne⟩, fun b hb =>
            hleast b (List.mem_cons_of_mem _ (hdrop.mem hb))⟩

end Sorted

end CatalogApi.ByKey
