import Mathlib.Data.List.MinMax
import Mathlib.Data.List.Sort
import Mathlib.Data.Prod.Lex

/-!
# Stable sorting and minima by a key

A sort with a key function, a first minimum by a key function, and the distinct elements of a list
by first occurrence. When the key tells the elements of a list apart, neither the sort nor the
minimum depends on the order of the list (`sort_by_eq_of_perm`, `first_by_eq_of_perm`).
-/

namespace CatalogApi.ByKey

variable {α κ : Type} {key : α → κ} {l l' : List α}

/-- The key tells the elements of the list apart. -/
def Separates (key : α → κ) (l : List α) : Prop :=
  ∀ a ∈ l, ∀ b ∈ l, key a = key b → a = b

theorem Separates.mono (h : Separates key l') (hsub : ∀ a ∈ l, a ∈ l') : Separates key l :=
  fun a ha b hb heq => h a (hsub a ha) b (hsub b hb) heq

theorem Separates.of_perm (h : Separates key l) (hperm : l.Perm l') : Separates key l' :=
  h.mono fun _ ha => hperm.mem_iff.mpr ha

variable [LinearOrder κ]

/-- The list in increasing order of the key; equal keys keep their order. -/
def sortBy (key : α → κ) (l : List α) : List α :=
  l.insertionSort fun a b => key a ≤ key b

/-- The first element with the least key. -/
def firstBy (key : α → κ) (l : List α) : Option α :=
  l.argmin key

theorem sort_by_perm (key : α → κ) (l : List α) : (sortBy key l).Perm l :=
  List.perm_insertionSort _ l

@[simp]
theorem mem_sort_by {a : α} : a ∈ sortBy key l ↔ a ∈ l :=
  (sort_by_perm key l).mem_iff

@[simp]
theorem length_sort_by : (sortBy key l).length = l.length :=
  (sort_by_perm key l).length_eq

theorem sort_by_nodup (h : l.Nodup) : (sortBy key l).Nodup :=
  (sort_by_perm key l).symm.nodup h

@[simp]
theorem sort_by_eq_nil : sortBy key l = [] ↔ l = [] := by
  rw [← List.length_eq_zero_iff, length_sort_by, List.length_eq_zero_iff]

theorem sort_by_sorted (key : α → κ) (l : List α) :
    (sortBy key l).Pairwise fun a b => key a ≤ key b := by
  have htotal : Std.Total fun a b : α => key a ≤ key b := ⟨fun a b => le_total (key a) (key b)⟩
  have htrans : IsTrans α fun a b => key a ≤ key b := ⟨fun _ _ _ => le_trans⟩
  exact List.pairwise_insertionSort _ l

/-- A sort by a key that tells the elements apart does not depend on their order. -/
theorem sort_by_eq_of_perm (h : l.Perm l') (hkey : Separates key l) :
    sortBy key l = sortBy key l' := by
  refine List.Perm.eq_of_pairwise ?_ (sort_by_sorted key l) (sort_by_sorted key l')
    (((sort_by_perm key l).trans h).trans (sort_by_perm key l').symm)
  intro a b ha hb hab hba
  have hb' : b ∈ l := h.mem_iff.mpr (mem_sort_by.mp hb)
  exact hkey a (mem_sort_by.mp ha) b hb' (le_antisymm hab hba)

/-- A change that keeps the key of every element commutes with the sort. -/
theorem sort_by_map {f : α → α} (hkey : ∀ a ∈ l, key (f a) = key a) :
    sortBy key (l.map f) = (sortBy key l).map f := by
  refine (List.map_insertionSort _ _ f l fun a ha b hb => ?_).symm
  rw [hkey a ha, hkey b hb]

theorem first_by_mem {a : α} (h : firstBy key l = some a) : a ∈ l :=
  List.argmin_mem h

theorem first_by_le {a b : α} (h : firstBy key l = some a) (hb : b ∈ l) : key a ≤ key b :=
  List.le_of_mem_argmin hb h

@[simp]
theorem first_by_eq_none : firstBy key l = none ↔ l = [] :=
  List.argmin_eq_none

/-- A minimum by a key that tells the elements apart does not depend on their order. -/
theorem first_by_eq_of_perm (h : l.Perm l') (hkey : Separates key l) :
    firstBy key l = firstBy key l' := by
  cases hfirst : firstBy key l with
  | none =>
      rw [first_by_eq_none] at hfirst
      subst hfirst
      rw [List.nil_perm.mp h]
      rfl
  | some a =>
      cases hfirst' : firstBy key l' with
      | none =>
          rw [first_by_eq_none] at hfirst'
          subst hfirst'
          rw [List.perm_nil.mp h] at hfirst
          cases hfirst
      | some b =>
          have ha := first_by_mem hfirst
          have hb : b ∈ l := h.mem_iff.mpr (first_by_mem hfirst')
          have hle := first_by_le hfirst hb
          have hge := first_by_le hfirst' (h.mem_iff.mp ha)
          rw [hkey a ha b hb (le_antisymm hle hge)]

/-- A search that at most one element meets does not depend on the order of the list. -/
theorem find_eq_of_perm {p : α → Bool} (h : l.Perm l')
    (hone : ∀ a ∈ l, ∀ b ∈ l, p a → p b → a = b) : l.find? p = l'.find? p := by
  cases hfind : l.find? p with
  | none =>
      refine (List.find?_eq_none.mpr fun a ha => ?_).symm
      exact List.find?_eq_none.mp hfind a (h.mem_iff.mpr ha)
  | some a =>
      have ha := List.mem_of_find?_eq_some hfind
      cases hfind' : l'.find? p with
      | none => exact absurd (List.find?_some hfind) (List.find?_eq_none.mp hfind' a (h.mem_iff.mp ha))
      | some b =>
          have hb := h.mem_iff.mpr (List.mem_of_find?_eq_some hfind')
          rw [hone a ha b hb (List.find?_some hfind) (List.find?_some hfind')]

/-! ## Distinct elements by first occurrence -/

section Distinct

variable [BEq α] [LawfulBEq α]

theorem nodup_erase_dups (l : List α) : l.eraseDups.Nodup := by
  induction hlen : l.length using Nat.strong_induction_on generalizing l with
  | _ n ih =>
      cases l with
      | nil => exact List.nodup_nil
      | cons a l =>
          rw [List.eraseDups_cons, List.nodup_cons]
          constructor
          · simp
          · refine ih _ ?_ _ rfl
            rw [← hlen]
            exact Nat.lt_succ_of_le (List.length_filter_le _ l)

theorem erase_dups_perm (h : l.Perm l') : l.eraseDups.Perm l'.eraseDups := by
  refine (List.perm_ext_iff_of_nodup (nodup_erase_dups l) (nodup_erase_dups l')).mpr fun a => ?_
  rw [List.mem_eraseDups, List.mem_eraseDups, h.mem_iff]

end Distinct

section SortedSet

variable {β : Type} [LinearOrder β]

/-- The distinct elements in increasing order. -/
def sortedSet (l : List β) : List β := sortBy id l.eraseDups

@[simp]
theorem mem_sorted_set {l : List β} {a : β} : a ∈ sortedSet l ↔ a ∈ l := by
  rw [sortedSet, mem_sort_by, List.mem_eraseDups]

theorem sorted_set_nodup (l : List β) : (sortedSet l).Nodup :=
  sort_by_nodup (nodup_erase_dups l)

/-- The elements alone decide the sorted set. -/
theorem sorted_set_congr {l l' : List β} (h : ∀ a, a ∈ l ↔ a ∈ l') : sortedSet l = sortedSet l' := by
  refine sort_by_eq_of_perm ?_ fun a _ b _ heq => heq
  refine (List.perm_ext_iff_of_nodup (nodup_erase_dups l) (nodup_erase_dups l')).mpr fun a => ?_
  rw [List.mem_eraseDups, List.mem_eraseDups, h]

end SortedSet

/-- Only one element of a list contributes to a count over all of them. -/
theorem count_flat_map_of_unique {α β : Type} {f : α → List β} {p : β → Bool} {l : List α} {a : α}
    (hnodup : l.Nodup) (ha : a ∈ l) (hother : ∀ b ∈ l, b ≠ a → ∀ x ∈ f b, ¬p x) :
    (l.flatMap f).countP p = (f a).countP p := by
  obtain ⟨first, last, rfl⟩ := List.append_of_mem ha
  rw [List.nodup_append, List.nodup_cons] at hnodup
  obtain ⟨-, ⟨hlast, -⟩, hfirst⟩ := hnodup
  have hnone : ∀ rest : List α, (∀ b ∈ rest, b ∈ first ++ a :: last ∧ b ≠ a) →
      (rest.flatMap f).countP p = 0 := by
    intro rest hrest
    refine List.countP_eq_zero.mpr fun x hx => ?_
    obtain ⟨b, hb, hxb⟩ := List.mem_flatMap.mp hx
    exact hother b (hrest b hb).1 (hrest b hb).2 x hxb
  have hzero := hnone first fun b hb =>
    ⟨List.mem_append_left _ hb, hfirst b hb a List.mem_cons_self⟩
  have hzero' := hnone last fun b hb =>
    ⟨List.mem_append_right _ (List.mem_cons_of_mem _ hb), fun heq => hlast (heq ▸ hb)⟩
  rw [List.flatMap_append, List.flatMap_cons, List.countP_append, List.countP_append, hzero, hzero',
    Nat.zero_add, Nat.add_zero]

/-- A list falls apart into its groups by key, over distinct keys that cover it. -/
theorem flat_map_filter_perm {ι : Type} [DecidableEq ι] (group : α → ι) {keys : List ι}
    (hnodup : keys.Nodup) (l : List α) (hcover : ∀ a ∈ l, group a ∈ keys) :
    (keys.flatMap fun k => l.filter fun a => group a = k).Perm l := by
  induction keys generalizing l with
  | nil =>
      have hnil : l = [] := List.eq_nil_iff_forall_not_mem.mpr fun a ha =>
        absurd (hcover a ha) List.not_mem_nil
      rw [hnil]
      exact List.Perm.refl _
  | cons k keys ih =>
      rw [List.nodup_cons] at hnodup
      have hrest : (keys.flatMap fun k' => l.filter fun a => group a = k') =
          keys.flatMap fun k' => (l.filter fun a => ¬group a = k).filter fun a => group a = k' := by
        refine List.flatMap_congr fun k' hk' => ?_
        rw [List.filter_filter]
        refine List.filter_congr fun a _ => ?_
        by_cases hkey : group a = k'
        · have hne : k' ≠ k := fun heq => hnodup.1 (heq ▸ hk')
          simp [hkey, hne]
        · simp [hkey]
      rw [List.flatMap_cons, hrest]
      refine ((ih hnodup.2 (l.filter fun a => ¬group a = k) ?_).append_left _).trans ?_
      · intro a ha
        obtain ⟨hmem, hne⟩ := List.mem_filter.mp ha
        exact (List.mem_cons.mp (hcover a hmem)).resolve_left (of_decide_eq_true hne)
      · simpa using List.filter_append_perm (fun a => decide (group a = k)) l

/-! ## What a list leaves out -/

section Diff

variable [BEq α] [LawfulBEq α]

theorem append_diff_left (l rest : List α) : (l ++ rest).diff l = rest := by
  induction l with
  | nil => rfl
  | cons a l ih => rw [List.cons_append, List.diff_cons, List.erase_cons_head, ih]

theorem diff_eq_self {l l' : List α} (h : ∀ a ∈ l', a ∉ l) : l.diff l' = l := by
  induction l' with
  | nil => rfl
  | cons a l' ih =>
      rw [List.diff_cons, List.erase_of_not_mem (h a List.mem_cons_self)]
      exact ih fun b hb => h b (List.mem_cons_of_mem a hb)

/-- What is left of a list when a part of it, and nothing else of it, is taken away. -/
theorem length_diff_of_perm {members taken rest nodes other : List α}
    (hmembers : members.Perm (taken ++ rest)) (hnodes : nodes.Perm (taken ++ other))
    (hother : ∀ a ∈ other, a ∉ members) : (members.diff nodes).length = rest.length := by
  have hrest : ∀ a ∈ other, a ∉ rest := fun a ha hmem =>
    hother a ha (hmembers.mem_iff.mpr (List.mem_append_right _ hmem))
  rw [(hmembers.diff hnodes).length_eq, List.diff_append, append_diff_left, diff_eq_self hrest]

end Diff

end CatalogApi.ByKey
