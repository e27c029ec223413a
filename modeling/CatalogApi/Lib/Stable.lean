import CatalogApi.Lib.ByKey

/-!
# What a stable sort reads of its input

The sort keeps the elements of one key in the order of the input (`filter_sort_by_class`), and these
classes alone decide it (`sort_by_congr`). So a permutation shows in the result exactly where it
shows in a class.
-/

namespace CatalogApi.ByKey

variable {α β κ : Type} [LinearOrder κ] {key : α → κ} {l l' : List α}

/-- The elements of one key keep their order. -/
theorem filter_sort_by_class (key : α → κ) (l : List α) (k : κ) :
    ((sortBy key l).filter fun a => key a = k) = l.filter fun a => key a = k := by
  induction l with
  | nil => rfl
  | cons a l ih =>
      have hcons : sortBy key (a :: l) =
          (sortBy key l).takeWhile (fun b => ¬key a ≤ key b) ++
            a :: (sortBy key l).dropWhile fun b => ¬key a ≤ key b :=
        List.insertionSort_cons_eq_take_drop _ a l
      have hsplit : ((sortBy key l).takeWhile fun b => ¬key a ≤ key b) ++
          ((sortBy key l).dropWhile fun b => ¬key a ≤ key b) = sortBy key l :=
        List.takeWhile_append_dropWhile
      by_cases hk : key a = k
      · have hbefore : ((sortBy key l).takeWhile fun b => ¬key a ≤ key b).filter
            (fun b => key b = k) = [] := by
          refine List.filter_eq_nil_iff.mpr fun b hb heq => ?_
          have hlt := List.all_eq_true.mp List.all_takeWhile b hb
          rw [decide_eq_true_eq] at hlt heq
          exact hlt (hk.trans heq.symm).le
        rw [hcons, List.filter_append, List.filter_cons_of_pos (by rw [decide_eq_true_eq]; exact hk),
          List.filter_cons_of_pos (by rw [decide_eq_true_eq]; exact hk), hbefore, List.nil_append,
          ← ih, ← hsplit, List.filter_append, hsplit, hbefore, List.nil_append]
      · rw [hcons, List.filter_append, List.filter_cons_of_neg (by rw [decide_eq_true_eq]; exact hk),
          List.filter_cons_of_neg (by rw [decide_eq_true_eq]; exact hk), ← List.filter_append, hsplit,
          ih]

/-- A sorted list is decided by its classes. -/
theorem eq_of_classes (hl : l.Pairwise fun a b => key a ≤ key b)
    (hl' : l'.Pairwise fun a b => key a ≤ key b)
    (hclass : ∀ k, (l.filter fun a => key a = k) = l'.filter fun a => key a = k) : l = l' := by
  have hmem : ∀ a, a ∈ l ↔ a ∈ l' := by
    intro a
    have ha := congrArg (fun c => a ∈ c) (hclass (key a))
    simpa using ha
  induction l generalizing l' with
  | nil => exact (List.eq_nil_iff_forall_not_mem.mpr fun a ha => by simpa using (hmem a).mpr ha).symm
  | cons a l ih =>
      cases l' with
      | nil => exact absurd ((hmem a).mp List.mem_cons_self) List.not_mem_nil
      | cons b l' =>
          rw [List.pairwise_cons] at hl hl'
          have hab : key a = key b := by
            refine le_antisymm ?_ ?_
            · rcases List.mem_cons.mp ((hmem b).mpr List.mem_cons_self) with rfl | hb
              · exact le_rfl
              · exact hl.1 b hb
            · rcases List.mem_cons.mp ((hmem a).mp List.mem_cons_self) with rfl | ha
              · exact le_rfl
              · exact hl'.1 a ha
          have hhead := hclass (key a)
          rw [List.filter_cons_of_pos (by simp), List.filter_cons_of_pos (by simp [hab])] at hhead
          obtain ⟨rfl, -⟩ := List.cons_eq_cons.mp hhead
          have hrest : ∀ k, (l.filter fun c => key c = k) = l'.filter fun c => key c = k := by
            intro k
            have hk := hclass k
            rw [List.filter_cons, List.filter_cons] at hk
            split at hk
            · exact (List.cons_eq_cons.mp hk).2
            · exact hk
          rw [ih hl.2 hl'.2 hrest fun c => ?_]
          have hc := congrArg (fun kept => c ∈ kept) (hrest (key c))
          simpa using hc

/-- The classes decide the sort. -/
theorem sort_by_congr (hclass : ∀ k, (l.filter fun a => key a = k) = l'.filter fun a => key a = k) :
    sortBy key l = sortBy key l' := by
  refine eq_of_classes (sort_by_sorted key l) (sort_by_sorted key l') fun k => ?_
  rw [filter_sort_by_class, filter_sort_by_class, hclass k]

/-- What holds between an element and those after it still does within a key. -/
theorem sort_by_stable {R : α → α → Prop} (key : α → κ) (h : l.Pairwise R) :
    (sortBy key l).Pairwise fun a b => key a = key b → R a b := by
  refine List.pairwise_iff_forall_sublist.mpr fun {a b} hpair hkey => ?_
  have hclass : [a, b].Sublist ((sortBy key l).filter fun c => key c = key a) := by
    have hall : ([a, b].filter fun c => key c = key a) = [a, b] := by simp [hkey]
    rw [← hall]
    exact hpair.filter fun c => key c = key a
  rw [filter_sort_by_class] at hclass
  exact List.pairwise_iff_forall_sublist.mp h (hclass.trans List.filter_sublist)

/-- A sort of what is already sorted that way. -/
theorem sort_sorted (key : α → κ) (l : List α) : sortBy key (sortBy key l) = sortBy key l :=
  sort_by_congr fun k => filter_sort_by_class key l k

/-- A selection commutes with the sort. -/
theorem filter_sort_by (p : α → Bool) (l : List α) :
    (sortBy key l).filter p = sortBy key (l.filter p) := by
  refine eq_of_classes ((sort_by_sorted key l).filter p) (sort_by_sorted key _) fun k => ?_
  rw [filter_sort_by_class, List.filter_comm, filter_sort_by_class, List.filter_comm]

/-- A change of elements that has the key commutes with the sort. -/
theorem map_sort_by {f : α → β} {order : β → κ} (hkey : ∀ a, order (f a) = key a) (l : List α) :
    (sortBy key l).map f = sortBy order (l.map f) := by
  refine List.map_insertionSort _ _ f l fun a _ b _ => ?_
  rw [hkey a, hkey b]

/-- The first element of a class that meets the predicate. -/
theorem find_sort_by (key : α → κ) (p : α → Bool) (l : List α) (k : κ) :
    ((sortBy key l).find? fun a => key a = k ∧ p a) = l.find? fun a => key a = k ∧ p a := by
  have hclass : (fun a => decide (key a = k ∧ p a)) =
      fun a => decide (decide (key a = k) = true ∧ p a = true) := by
    simp
  rw [hclass, ← List.find?_filter, ← List.find?_filter, filter_sort_by_class]

/-- The first element that meets a predicate, when a least one of them is known. -/
theorem find_sort_by_least {p : α → Bool} {a : α} (ha : a ∈ l) (hpa : p a)
    (hleast : ∀ b ∈ l, p b → key a ≤ key b) :
    (sortBy key l).find? p = l.find? fun b => key b = key a ∧ p b := by
  rw [← find_sort_by]
  cases hfound : (sortBy key l).find? p with
  | none => exact absurd hpa (List.find?_eq_none.mp hfound a (mem_sort_by.mpr ha))
  | some b =>
      obtain ⟨hpb, first, last, hsplit, hfirst⟩ := List.find?_eq_some_iff_append.mp hfound
      have hb : b ∈ l := mem_sort_by.mp (hsplit ▸ List.mem_append_right _ List.mem_cons_self)
      have hba : key b ≤ key a := by
        have hsorted := sort_by_sorted key l
        rw [hsplit, List.pairwise_append, List.pairwise_cons] at hsorted
        have hmem : a ∈ first ++ b :: last := hsplit ▸ mem_sort_by.mpr ha
        rcases List.mem_append.mp hmem with hmem | hmem
        · have hnot := hfirst a hmem
          rw [hpa] at hnot
          cases hnot
        · rcases List.mem_cons.mp hmem with rfl | hmem
          · exact le_rfl
          · exact hsorted.2.1.1 a hmem
      refine (List.find?_eq_some_iff_append.mpr ⟨?_, first, last, hsplit, fun c hc => ?_⟩).symm
      · rw [decide_eq_true_eq]
        exact ⟨le_antisymm hba (hleast b hb hpb), hpb⟩
      · have hnot := hfirst c hc
        rw [Bool.not_eq_true'] at hnot
        simp [hnot]

/-- The keys of the sorted list do not depend on the order. -/
theorem keys_of_perm (h : l.Perm l') : (sortBy key l).map key = (sortBy key l').map key := by
  refine List.Perm.eq_of_pairwise (fun _ _ _ _ => le_antisymm) ?_ ?_ ?_
  · exact List.pairwise_map.mpr (sort_by_sorted key l)
  · exact List.pairwise_map.mpr (sort_by_sorted key l')
  · exact (((sort_by_perm key l).trans h).trans (sort_by_perm key l').symm).map key

/-! ## Permutations that do not show -/

theorem min_of_perm {l l' : List κ} (h : l.Perm l') : l.min? = l'.min? := by
  refine Option.ext fun a => ?_
  rw [List.min?_eq_some_iff, List.min?_eq_some_iff, h.mem_iff]
  simp only [h.mem_iff]

/-- A selection whose elements are all equal does not depend on the order. -/
theorem filter_eq_of_perm {p : α → Bool} (h : l.Perm l')
    (hone : ∀ a ∈ l, ∀ b ∈ l, p a → p b → a = b) : l.filter p = l'.filter p := by
  have hany : ∀ kept : List α, kept.Pairwise fun _ _ => True :=
    fun kept => List.pairwise_of_forall fun _ _ => trivial
  refine List.Perm.eq_of_pairwise ?_ (hany _) (hany _) (h.filter p)
  intro a b ha hb _ _
  obtain ⟨ha, hpa⟩ := List.mem_filter.mp ha
  obtain ⟨hb, hpb⟩ := List.mem_filter.mp hb
  exact hone a ha b (h.mem_iff.mpr hb) hpa hpb

/-- The first value found does not depend on the order when all values found agree. -/
theorem find_some_of_perm {f : α → Option β} (h : l.Perm l')
    (hone : ∀ a ∈ l, ∀ b ∈ l, ∀ x y, f a = some x → f b = some y → x = y) :
    l.findSome? f = l'.findSome? f := by
  cases hfound : l.findSome? f with
  | none =>
      refine (List.findSome?_eq_none_iff.mpr fun a ha => ?_).symm
      exact List.findSome?_eq_none_iff.mp hfound a (h.mem_iff.mpr ha)
  | some x =>
      obtain ⟨a, ha, hax⟩ := List.exists_of_findSome?_eq_some hfound
      cases hfound' : l'.findSome? f with
      | none =>
          have hnone := List.findSome?_eq_none_iff.mp hfound' a (h.mem_iff.mp ha)
          rw [hax] at hnone
          cases hnone
      | some y =>
          obtain ⟨b, hb, hby⟩ := List.exists_of_findSome?_eq_some hfound'
          rw [hone a ha b (h.mem_iff.mpr hb) x y hax hby]

/-- A value found at one element, and no other value anywhere. -/
theorem find_some_eq {f : α → Option β} {a : α} {x : β} (ha : a ∈ l) (hx : f a = some x)
    (hone : ∀ b ∈ l, ∀ y, f b = some y → y = x) : l.findSome? f = some x := by
  cases hfound : l.findSome? f with
  | none =>
      have hnone := List.findSome?_eq_none_iff.mp hfound a ha
      rw [hx] at hnone
      cases hnone
  | some y =>
      obtain ⟨b, hb, hby⟩ := List.exists_of_findSome?_eq_some hfound
      rw [hone b hb y hby]

/-- A selection, read off the whole list. -/
theorem flat_map_filter (p : α → Bool) (f : α → List β) (l : List α) :
    (l.filter p).flatMap f = l.flatMap fun a => if p a then f a else [] := by
  induction l with
  | nil => rfl
  | cons a l ih =>
      cases hp : p a with
      | true => rw [List.filter_cons_of_pos hp, List.flatMap_cons, List.flatMap_cons, ih, if_pos hp]
      | false =>
          rw [List.filter_cons_of_neg (by rw [hp]; nofun), List.flatMap_cons, ih,
            if_neg (by rw [hp]; nofun), List.nil_append]

/-! ## One element brought to the front -/

section Front

variable [DecidableEq α]

/-- The list with this element first. -/
def front (a : α) (l : List α) : List α := a :: l.erase a

theorem front_perm {a : α} (ha : a ∈ l) : l.Perm (front a l) := List.perm_cons_erase ha

theorem filter_front_of_neg {p : α → Bool} {a : α} (hp : p a = false) (l : List α) :
    (front a l).filter p = l.filter p := by
  rw [front, List.filter_cons_of_neg (by rw [hp]; nofun)]
  induction l with
  | nil => rfl
  | cons b l ih =>
      by_cases hb : b = a
      · rw [hb, List.erase_cons_head, List.filter_cons_of_neg (by rw [hp]; nofun)]
      · rw [List.erase_cons_tail (by simpa using hb), List.filter_cons, List.filter_cons, ih]

theorem filter_front_of_pos {p : α → Bool} {a : α} (hp : p a) (l : List α) :
    (front a l).filter p = a :: (l.erase a).filter p :=
  List.filter_cons_of_pos hp

end Front

end CatalogApi.ByKey
