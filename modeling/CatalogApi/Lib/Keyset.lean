import CatalogApi.Lib.Stable

/-!
# Keyset pagination

A page is the first keys after a cursor, and its last key is the next cursor. A walk that stops at
an empty page and a walk that stops at a page that is not full both read every key after the cursor
once, in order (`pages_flatten`, `served_flatten`). A client that follows the next cursor of a
service reads what the service makes of the pages of the second walk (`walk_iff`).
-/

namespace CatalogApi.Keyset

open ByKey

variable {κ β : Type} [LinearOrder κ]

/-- The keys after the cursor, in order. -/
def after (keys : List κ) (cursor : κ) : List κ :=
  (sortBy id keys).filter (cursor < ·)

/-- `WHERE key > $cursor ORDER BY key LIMIT $limit`. -/
def pageAfter (keys : List κ) (cursor : κ) (limit : Nat) : List κ :=
  (after keys cursor).take limit

/-- The cursor of the page after this one, and `none` for the last page. -/
def nextAfter (page : List κ) (limit : Nat) : Option κ :=
  if page.length = limit then page.getLast? else none

theorem mem_after {keys : List κ} {cursor key : κ} :
    key ∈ after keys cursor ↔ key ∈ keys ∧ cursor < key := by
  rw [after, List.mem_filter, mem_sort_by, decide_eq_true_eq]

theorem after_sorted {keys : List κ} (hnodup : keys.Nodup) (cursor : κ) :
    (after keys cursor).Pairwise (· < ·) := by
  have hle : (sortBy id keys).Pairwise (· ≤ ·) := sort_by_sorted id keys
  have hne : (sortBy id keys).Pairwise (· ≠ ·) := sort_by_nodup hnodup
  refine List.Pairwise.filter _ ?_
  exact (hle.and hne).imp fun ⟨hab, hdiffer⟩ => lt_of_le_of_ne hab hdiffer

/-- After a cursor below all keys stand all keys. -/
theorem after_least {keys : List κ} {cursor : κ} (h : ∀ key ∈ keys, cursor < key) :
    after keys cursor = sortBy id keys :=
  List.filter_eq_self.mpr fun key hkey => decide_eq_true (h key (mem_sort_by.mp hkey))

/-- The keys after a later cursor are among those after an earlier one. -/
theorem after_after {keys : List κ} {cursor later : κ} (h : cursor < later) :
    after keys later = (after keys cursor).filter (later < ·) := by
  rw [after, after, List.filter_filter]
  refine List.filter_congr fun key _ => ?_
  by_cases hkey : later < key
  · simp [hkey, h.trans hkey]
  · simp [hkey]

theorem last_mem_after {keys : List κ} {cursor last : κ} {limit : Nat}
    (hlast : (pageAfter keys cursor limit).getLast? = some last) : last ∈ after keys cursor :=
  List.mem_of_mem_take (List.mem_of_getLast? hlast)

/-- Fewer keys stand after the last key of a page. -/
theorem after_last_lt {keys : List κ} {cursor last : κ} {limit : Nat}
    (hlast : (pageAfter keys cursor limit).getLast? = some last) :
    (after keys last).length < (after keys cursor).length := by
  have hmem := last_mem_after hlast
  rw [after_after (mem_after.mp hmem).2]
  exact List.length_filter_lt_length_iff_exists.mpr ⟨last, hmem, by simp⟩

/-- After the last key of a page stands what the page leaves out. -/
theorem after_last {keys : List κ} (hnodup : keys.Nodup) {cursor last : κ} {limit : Nat}
    (hlast : (pageAfter keys cursor limit).getLast? = some last) :
    after keys last = (after keys cursor).drop limit := by
  obtain ⟨front, hpage⟩ := List.getLast?_eq_some_iff.mp hlast
  have hall : after keys cursor = front ++ [last] ++ (after keys cursor).drop limit := by
    rw [← hpage, pageAfter, List.take_append_drop]
  have hsorted := after_sorted hnodup cursor
  rw [hall, List.append_assoc, List.pairwise_append] at hsorted
  obtain ⟨-, hrest, hfront⟩ := hsorted
  rw [List.singleton_append, List.pairwise_cons] at hrest
  have hbefore : front.filter (last < ·) = [] := by
    refine List.filter_eq_nil_iff.mpr fun key hkey => ?_
    have hlt := hfront key hkey last (by simp)
    simp [hlt.le]
  have hbehind : ((after keys cursor).drop limit).filter (last < ·) =
      (after keys cursor).drop limit :=
    List.filter_eq_self.mpr fun key hkey => decide_eq_true (hrest.1 key hkey)
  calc after keys last = (after keys cursor).filter (last < ·) :=
        after_after (mem_after.mp (last_mem_after hlast)).2
    _ = (front ++ [last] ++ (after keys cursor).drop limit).filter (last < ·) := by rw [← hall]
    _ = (after keys cursor).drop limit := by
        rw [List.filter_append, List.filter_append, hbefore, hbehind]
        simp

/-- Above the key at an index of a list whose keys rise stands the rest of the list. -/
theorem filter_above {α : Type} {key : α → κ} {xs : List α}
    (hrises : xs.Pairwise fun a b => key a < key b) {n : Nat} {last : α}
    (hlast : xs[n]? = some last) : xs.filter (fun a => key last < key a) = xs.drop (n + 1) := by
  obtain ⟨hless, hget⟩ := List.getElem?_eq_some_iff.mp hlast
  have hsplit : xs = xs.take n ++ last :: xs.drop (n + 1) := by
    rw [← hget, ← List.drop_eq_getElem_cons hless, List.take_append_drop]
  rw [hsplit, List.pairwise_append, List.pairwise_cons] at hrises
  obtain ⟨-, ⟨hafter, -⟩, hbefore⟩ := hrises
  have hfront : (xs.take n).filter (fun a => key last < key a) = [] := by
    refine List.filter_eq_nil_iff.mpr fun a ha hlt => ?_
    exact lt_asymm (hbefore a ha last List.mem_cons_self) (of_decide_eq_true hlt)
  have hrest : (xs.drop (n + 1)).filter (fun a => key last < key a) = xs.drop (n + 1) :=
    List.filter_eq_self.mpr fun a ha => decide_eq_true (hafter a ha)
  calc xs.filter (fun a => key last < key a)
      = (xs.take n ++ last :: xs.drop (n + 1)).filter (fun a => key last < key a) := by
        rw [← hsplit]
    _ = xs.drop (n + 1) := by
        rw [List.filter_append, hfront, List.filter_cons, hrest, if_neg (by simp), List.nil_append]

/-! ## Walking the pages -/

/-- The pages up to an empty one, each after the last key of the page before. -/
def pages (keys : List κ) (limit : Nat) (cursor : κ) : List (List κ) :=
  match _hlast : (pageAfter keys cursor limit).getLast? with
  | none => []
  | some last => pageAfter keys cursor limit :: pages keys limit last
termination_by (after keys cursor).length
decreasing_by exact after_last_lt _hlast

omit [LinearOrder κ] in
theorem next_after_last {page : List κ} {limit : Nat} {last : κ}
    (h : nextAfter page limit = some last) : page.getLast? = some last := by
  rw [nextAfter] at h
  split at h
  · exact h
  · cases h

/-- The pages up to one that is not full, each after the last key of the page before. -/
def served (keys : List κ) (limit : Nat) (cursor : κ) : List (List κ) :=
  match _hnext : nextAfter (pageAfter keys cursor limit) limit with
  | none => [pageAfter keys cursor limit]
  | some last => pageAfter keys cursor limit :: served keys limit last
termination_by (after keys cursor).length
decreasing_by exact after_last_lt (next_after_last _hnext)

/-- The results a client reads that follows the next cursor until there is none. -/
inductive Walk (fetch : κ → Option (β × Option κ)) : κ → List β → Prop
  | last {cursor : κ} {result : β} (h : fetch cursor = some (result, none)) :
      Walk fetch cursor [result]
  | more {cursor next : κ} {result : β} {results : List β}
      (h : fetch cursor = some (result, some next)) (rest : Walk fetch next results) :
      Walk fetch cursor (result :: results)

variable {keys : List κ} {limit : Nat} {cursor : κ}

theorem served_of_none (h : nextAfter (pageAfter keys cursor limit) limit = none) :
    served keys limit cursor = [pageAfter keys cursor limit] := by
  rw [served]
  split
  case h_1 => rfl
  case h_2 last hlast => exact absurd (h.symm.trans hlast) (by simp)

theorem served_of_some {last : κ} (h : nextAfter (pageAfter keys cursor limit) limit = some last) :
    served keys limit cursor = pageAfter keys cursor limit :: served keys limit last := by
  rw [served]
  split
  case h_1 hnone => exact absurd (hnone.symm.trans h) (by simp)
  case h_2 last' hlast =>
    rw [h, Option.some.injEq] at hlast
    rw [hlast]

/-- The pages hold every key after the cursor once, in order. -/
theorem pages_flatten (hnodup : keys.Nodup) (hlimit : 0 < limit) (cursor : κ) :
    (pages keys limit cursor).flatten = after keys cursor := by
  fun_induction pages keys limit cursor with
  | case1 cursor hlast =>
      have hnil : pageAfter keys cursor limit = [] := List.getLast?_eq_none_iff.mp hlast
      rcases List.take_eq_nil_iff.mp hnil with hzero | hafter
      · omega
      · exact hafter.symm
  | case2 cursor last hlast ih =>
      rw [List.flatten_cons, ih, after_last hnodup hlast, pageAfter, List.take_append_drop]

/-- The pages of a service hold every key after the cursor once, in order. -/
theorem served_flatten (hnodup : keys.Nodup) (hlimit : 0 < limit) (cursor : κ) :
    (served keys limit cursor).flatten = after keys cursor := by
  fun_induction served keys limit cursor with
  | case1 cursor hnext =>
      have hshort : (pageAfter keys cursor limit).length ≠ limit := by
        intro hfull
        rw [nextAfter, if_pos hfull, List.getLast?_eq_none_iff] at hnext
        rw [hnext, List.length_nil] at hfull
        omega
      rw [List.flatten_singleton]
      refine List.take_of_length_le (Nat.le_of_lt (Nat.lt_of_not_le fun hle => hshort ?_))
      rw [pageAfter, List.length_take, Nat.min_eq_left hle]
  | case2 cursor last hnext ih =>
      rw [List.flatten_cons, ih, after_last hnodup (next_after_last hnext), pageAfter,
        List.take_append_drop]

/-- Only the last page of a service can be empty. -/
theorem served_ne_nil (cursor : κ) : ∀ page ∈ (served keys limit cursor).dropLast, page ≠ [] := by
  fun_induction served keys limit cursor with
  | case1 cursor hnext => simp
  | case2 cursor last hnext ih =>
      intro page hpage
      have hne : served keys limit last ≠ [] := by
        rw [served]
        split <;> simp
      rw [List.dropLast_cons_of_ne_nil hne, List.mem_cons] at hpage
      rcases hpage with rfl | hpage
      · intro hnil
        have hlast := next_after_last hnext
        rw [hnil] at hlast
        cases hlast
      · exact ih page hpage

/-- The client reads what the service makes of its pages, when it makes something of each. -/
theorem walk_iff {fetch : κ → Option (β × Option κ)} {serve : List κ → Option β}
    (hfetch : ∀ cursor, fetch cursor = (serve (pageAfter keys cursor limit)).map fun result =>
      (result, nextAfter (pageAfter keys cursor limit) limit)) (cursor : κ) (results : List β) :
    Walk fetch cursor results ↔ (served keys limit cursor).mapM serve = some results := by
  constructor
  · intro hwalk
    induction hwalk with
    | last h =>
        rw [hfetch, Option.map_eq_some_iff] at h
        obtain ⟨result, hserve, heq⟩ := h
        rw [Prod.mk.injEq] at heq
        rw [served_of_none heq.2, List.mapM_cons, List.mapM_nil, hserve, heq.1]
        rfl
    | more h rest ih =>
        rw [hfetch, Option.map_eq_some_iff] at h
        obtain ⟨result, hserve, heq⟩ := h
        rw [Prod.mk.injEq] at heq
        rw [served_of_some heq.2, List.mapM_cons, hserve, ih, heq.1]
        rfl
  · intro hresults
    fun_induction served keys limit cursor generalizing results with
    | case1 cursor hnext =>
        rw [List.mapM_cons, List.mapM_nil] at hresults
        obtain ⟨result, hserve, hrest⟩ := Option.bind_eq_some_iff.mp hresults
        obtain rfl : [result] = results := by simpa using hrest
        refine .last ?_
        rw [hfetch, hserve, hnext, Option.map_some]
    | case2 cursor last hnext ih =>
        rw [List.mapM_cons] at hresults
        obtain ⟨result, hserve, hrest⟩ := Option.bind_eq_some_iff.mp hresults
        obtain ⟨rest, hmap, heq⟩ := Option.bind_eq_some_iff.mp hrest
        obtain rfl : result :: rest = results := by simpa using heq
        refine .more ?_ (ih rest hmap)
        rw [hfetch, hserve, hnext, Option.map_some]

/-! ## Serving the elements of the pages -/

variable {α : Type} {serve : α → Option β}

theorem map_m_cons (a : α) (l : List α) : (a :: l).mapM serve =
    (serve a).bind fun result => (l.mapM serve).bind fun results => some (result :: results) := by
  rw [List.mapM_cons]
  rfl

/-- All elements are served exactly when each of them is. -/
theorem map_m_eq_some {l : List α} {results : List β} :
    l.mapM serve = some results ↔ l.map serve = results.map some := by
  induction l generalizing results with
  | nil => cases results <;> simp
  | cons a l ih =>
      rw [map_m_cons, List.map_cons]
      constructor
      · intro h
        obtain ⟨result, hserve, hrest⟩ := Option.bind_eq_some_iff.mp h
        obtain ⟨rest, hmap, heq⟩ := Option.bind_eq_some_iff.mp hrest
        rw [← Option.some.inj heq, List.map_cons, hserve, ih.mp hmap]
      · intro h
        cases results with
        | nil => cases h
        | cons result results =>
            rw [List.map_cons, List.cons.injEq] at h
            rw [h.1, ih.mpr h.2]
            rfl

theorem map_m_of_is_some {l : List α} (h : ∀ a ∈ l, (serve a).isSome = true) :
    l.mapM serve = some (l.filterMap serve) := by
  induction l with
  | nil => rfl
  | cons a l ih =>
      rw [List.forall_mem_cons] at h
      obtain ⟨result, hresult⟩ := Option.isSome_iff_exists.mp h.1
      rw [map_m_cons, ih h.2, List.filterMap_cons, hresult]
      rfl

theorem map_m_congr {serve' : α → Option β} {l : List α} (h : ∀ a ∈ l, serve a = serve' a) :
    l.mapM serve = l.mapM serve' := by
  induction l with
  | nil => rfl
  | cons a l ih =>
      rw [List.forall_mem_cons] at h
      rw [map_m_cons, map_m_cons, h.1, ih h.2]

theorem map_m_append (l rest : List α) : (l ++ rest).mapM serve =
    (l.mapM serve).bind fun results => (rest.mapM serve).map (results ++ ·) := by
  induction l with
  | nil => simp
  | cons a l ih =>
      rw [List.cons_append, map_m_cons, map_m_cons, ih]
      cases serve a with
      | none => rfl
      | some result =>
          cases l.mapM serve with
          | none => rfl
          | some results => cases rest.mapM serve <;> rfl

/-- Serving page by page serves what the pages hold. -/
theorem map_m_flatten (pages : List (List α)) :
    (pages.mapM fun page : List α => page.mapM serve).map List.flatten = pages.flatten.mapM serve := by
  induction pages with
  | nil => rfl
  | cons page pages ih =>
      rw [map_m_cons, List.flatten_cons, map_m_append, ← ih]
      cases page.mapM serve with
      | none => rfl
      | some results => cases pages.mapM fun page : List α => page.mapM serve <;> rfl

end CatalogApi.Keyset
