import Mathlib.Data.List.Induction
import Mathlib.Data.List.Sort

/-!
# Greedy families

The greedy family of a list: each element that conflicts with none of those picked before it.
`greedy_eq_iff` compares the families of two conflict tests, one of which finds every conflict of
the other.
-/

namespace CatalogApi.Greedy

variable {α : Type*} {conflict rule : α → α → Bool} {l : List α} {a b : α}

/-- The elements of the list that conflict with none picked before them, after those in
`picked`. -/
def greedyFrom (conflict : α → α → Bool) (picked : List α) : List α → List α
  | [] => picked
  | a :: l =>
      if picked.any (conflict a) then greedyFrom conflict picked l
      else greedyFrom conflict (picked ++ [a]) l

/-- The greedy family of a list. -/
def greedy (conflict : α → α → Bool) (l : List α) : List α := greedyFrom conflict [] l

theorem greedy_from_append (picked l l' : List α) :
    greedyFrom conflict picked (l ++ l') =
      greedyFrom conflict (greedyFrom conflict picked l) l' := by
  induction l generalizing picked with
  | nil => rfl
  | cons a l ih =>
      rw [List.cons_append, greedyFrom, greedyFrom]
      split
      · exact ih picked
      · exact ih (picked ++ [a])

/-- The family grows by an element that conflicts with none of it. -/
theorem greedy_append (l : List α) (a : α) :
    greedy conflict (l ++ [a]) =
      if (greedy conflict l).any (conflict a) then greedy conflict l
      else greedy conflict l ++ [a] := by
  rw [greedy, greedy_from_append, ← greedy, greedyFrom]
  rfl

theorem greedy_sublist (l : List α) : (greedy conflict l).Sublist l := by
  induction l using List.reverseRecOn with
  | nil => exact List.Sublist.refl _
  | append_singleton l a ih =>
      rw [greedy_append]
      split
      · exact ih.trans (List.sublist_append_left l [a])
      · exact ih.append (List.Sublist.refl [a])

/-- No element of the family conflicts with one picked before it. -/
theorem greedy_pairwise (l : List α) :
    (greedy conflict l).Pairwise fun earlier later => conflict later earlier = false := by
  induction l using List.reverseRecOn with
  | nil => exact List.Pairwise.nil
  | append_singleton l a ih =>
      rw [greedy_append]
      split
      · exact ih
      · rename_i hnone
        refine List.pairwise_append.mpr ⟨ih, List.pairwise_singleton _ _, ?_⟩
        intro earlier hearlier later hlater
        obtain rfl := List.mem_singleton.mp hlater
        simpa using fun hc => hnone (List.any_eq_true.mpr ⟨earlier, hearlier, hc⟩)

/-- An element that is left out conflicts with one that is picked and comes before it. -/
theorem greedy_maximal {R : α → α → Prop} (hsorted : l.Pairwise R) (ha : a ∈ l)
    (hnot : a ∉ greedy conflict l) : ∃ b ∈ greedy conflict l, R b a ∧ conflict a b := by
  induction l using List.reverseRecOn with
  | nil => exact absurd ha List.not_mem_nil
  | append_singleton l c ih =>
      obtain ⟨hl, -, hlast⟩ := List.pairwise_append.mp hsorted
      rw [greedy_append] at hnot ⊢
      rcases List.mem_append.mp ha with hin | hin
      · have hleft : a ∉ greedy conflict l := by
          split at hnot
          · exact hnot
          · exact fun hmem => hnot (List.mem_append_left _ hmem)
        obtain ⟨b, hb, hbefore, hc⟩ := ih hl hin hleft
        refine ⟨b, ?_, hbefore, hc⟩
        split
        · exact hb
        · exact List.mem_append_left _ hb
      · obtain rfl := List.mem_singleton.mp hin
        split at hnot
        · rename_i hany
          obtain ⟨b, hb, hc⟩ := List.any_eq_true.mp hany
          rw [if_pos hany]
          exact ⟨b, hb, hlast b ((greedy_sublist l).subset hb) a (List.mem_singleton.mpr rfl), hc⟩
        · exact absurd (List.mem_append_right _ (List.mem_singleton.mpr rfl)) hnot

/-- A test that finds every conflict of the rule picks the family of the rule exactly when it finds
no conflict within that family. -/
theorem greedy_eq_iff (hfinds : ∀ a b, rule a b → conflict a b) (l : List α) :
    greedy conflict l = greedy rule l ↔
      (greedy rule l).Pairwise fun earlier later => conflict later earlier = false := by
  constructor
  · intro heq
    rw [← heq]
    exact greedy_pairwise l
  · intro hpairwise
    induction l using List.reverseRecOn with
    | nil => rfl
    | append_singleton l a ih =>
        rw [greedy_append] at hpairwise
        rw [greedy_append, greedy_append]
        split at hpairwise
        · rename_i hany
          obtain ⟨b, hb, hc⟩ := List.any_eq_true.mp hany
          have hfound : (greedy rule l).any (conflict a) :=
            List.any_eq_true.mpr ⟨b, hb, hfinds a b hc⟩
          rw [ih hpairwise, if_pos hfound, if_pos hany]
        · rename_i hnone
          obtain ⟨hl, -, hlast⟩ := List.pairwise_append.mp hpairwise
          have hfree : ¬(greedy rule l).any (conflict a) := by
            intro hany
            obtain ⟨b, hb, hc⟩ := List.any_eq_true.mp hany
            have hno := hlast b hb a (List.mem_singleton.mpr rfl)
            rw [hc] at hno
            exact absurd hno (by simp)
          rw [ih hl, if_neg hfree, if_neg hnone]

end CatalogApi.Greedy
