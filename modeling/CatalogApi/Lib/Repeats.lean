import CatalogApi.Lib.ByKey
import CatalogApi.Lib.Table
import Mathlib.GroupTheory.Perm.Basic

/-!
# Lists with repeated keys

`keepLast` is a list with only the last row of each key, in the place of the first, and `latest`
is the last value a list of rows gives for an optional field. A list read through a function that
drops the repeated keys is the list without the repeats. The last section extends a pairing of
new names to a renaming of all of them.
-/

namespace CatalogApi.Repeats

open Table

section Rows

variable {Row Key Value : Type*} [BEq Key] [LawfulBEq Key] [DecidableEq Key]

/-- The rows with only the last one of each key, in the place of the first. -/
def keepLast (key : Row → Key) (rows : List Row) : List Row :=
  (rows.map key).eraseDups.filterMap (lookup key rows.reverse)

/-- The last value given for a field. -/
def latest (field : Row → Option Value) (rows : List Row) : Option Value :=
  rows.reverse.findSome? field

theorem latest_append (field : Row → Option Value) (rows : List Row) (row : Row) :
    latest field (rows ++ [row]) = (field row).or (latest field rows) := by
  rw [latest, List.reverse_append, List.reverse_singleton, List.singleton_append,
    List.findSome?_cons]
  cases field row <;> rfl

theorem latest_cons (field : Row → Option Value) (row : Row) (rows : List Row) :
    latest field (row :: rows) = (latest field rows).or (field row) := by
  rw [latest, List.reverse_cons, List.findSome?_append]
  congr 1
  cases h : field row <;> simp [h]

omit [BEq Key] [LawfulBEq Key] in
/-- The last row with a key, looked up from the end, is the last of the rows with that key. -/
theorem lookup_reverse (key : Row → Key) (rows : List Row) (k : Key) :
    lookup key rows.reverse k = (rows.filter fun row => key row = k).getLast? := by
  induction rows with
  | nil => rfl
  | cons row rows ih =>
      rw [List.reverse_cons, lookup_append, ih, lookup_singleton]
      by_cases hk : key row = k
      · rw [List.filter_cons_of_pos (by simpa using hk), if_pos hk, List.getLast?_cons]
        cases (rows.filter fun row => key row = k).getLast? <;> rfl
      · rw [List.filter_cons_of_neg (by simpa using hk), if_neg hk, Option.or_none]

omit [BEq Key] [LawfulBEq Key] in
theorem lookup_reverse_filter (key : Row → Key) (rows : List Row) {k other : Key}
    (hne : k ≠ other) :
    lookup key (rows.filter fun row => key row ≠ other).reverse k = lookup key rows.reverse k := by
  rw [lookup_reverse, lookup_reverse, List.filter_filter]
  congr 1
  refine List.filter_congr fun row _ => ?_
  by_cases hk : key row = k <;> simp [hk, hne]

theorem keep_last_cons (key : Row → Key) (row : Row) (rows : List Row) :
    keepLast key (row :: rows) =
      ((rows.filter fun other => key other = key row).getLast?).getD row ::
        keepLast key (rows.filter fun other => key other ≠ key row) := by
  have hhead : lookup key (row :: rows).reverse (key row) =
      some (((rows.filter fun other => key other = key row).getLast?).getD row) := by
    rw [List.reverse_cons, lookup_append, lookup_reverse, lookup_singleton, if_pos rfl]
    cases (rows.filter fun other => key other = key row).getLast? <;> rfl
  have hkeys : (rows.map key).filter (fun k => !k == key row) =
      (rows.filter fun other => key other ≠ key row).map key := by
    rw [List.filter_map]
    congr 1
    refine List.filter_congr fun other _ => ?_
    by_cases h : key other = key row <;> simp [h]
  rw [keepLast, List.map_cons, List.eraseDups_cons, List.filterMap_cons_some hhead, hkeys, keepLast]
  congr 1
  refine List.filterMap_congr fun k hk => ?_
  have hmem : k ∈ (rows.filter fun other => key other ≠ key row).map key :=
    List.mem_eraseDups.mp hk
  have hne : k ≠ key row := by
    obtain ⟨other, hother, rfl⟩ := List.mem_map.mp hmem
    simpa using (List.mem_filter.mp hother).2
  rw [List.reverse_cons, lookup_append, lookup_singleton, if_neg hne.symm, Option.or_none,
    lookup_reverse_filter key rows hne]

theorem map_keep_last (key : Row → Key) (rows : List Row) :
    (keepLast key rows).map key = (rows.map key).eraseDups := by
  have hfound : ∀ k ∈ (rows.map key).eraseDups,
      (lookup key rows.reverse k).map key = some k := by
    intro k hk
    obtain ⟨row, hrow, hkey⟩ := List.mem_map.mp (List.mem_eraseDups.mp hk)
    cases hlook : lookup key rows.reverse k with
    | none => exact absurd hkey (lookup_none.mp hlook row (List.mem_reverse.mpr hrow))
    | some found => rw [Option.map_some, (lookup_mem hlook).2]
  rw [keepLast, List.map_filterMap]
  calc (rows.map key).eraseDups.filterMap (fun k => (lookup key rows.reverse k).map key)
      = (rows.map key).eraseDups.filterMap some := List.filterMap_congr hfound
    _ = (rows.map key).eraseDups := List.filterMap_some

theorem mem_keep_last {key : Row → Key} {rows : List Row} {row : Row} :
    row ∈ keepLast key rows ↔
      (rows.filter fun other => key other = key row).getLast? = some row := by
  rw [keepLast, List.mem_filterMap]
  constructor
  · rintro ⟨k, -, hk⟩
    obtain rfl := (lookup_mem hk).2
    rwa [lookup_reverse] at hk
  · intro hlast
    refine ⟨key row, ?_, by rw [lookup_reverse, hlast]⟩
    have hmem := List.mem_of_getLast? hlast
    exact List.mem_eraseDups.mpr (List.mem_map.mpr ⟨row, List.mem_of_mem_filter hmem, rfl⟩)

omit [DecidableEq Key] in
/-- Keys read through a function that drops the repeated ones are read once each. -/
theorem filter_map_erase_dups {read : Key → Option Value} {keys : List Key}
    (h : ∀ k, 1 < keys.count k → read k = none) :
    keys.filterMap read = keys.eraseDups.filterMap read := by
  induction hlength : keys.length using Nat.strong_induction_on generalizing keys with
  | _ n ih =>
      cases keys with
      | nil => rfl
      | cons k keys =>
          have hrest : ∀ j, 1 < (keys.filter fun other => !other == k).count j → read j = none :=
            fun j hj => h j (Nat.lt_of_lt_of_le hj ((List.filter_sublist.count_le j).trans
              (List.count_le_count_cons)))
          have hshort : (keys.filter fun other => !other == k).length < n := by
            rw [← hlength, List.length_cons]
            exact Nat.lt_succ_of_le (List.length_filter_le _ _)
          have hdropped : keys.filterMap read =
              (keys.filter fun other => !other == k).filterMap read := by
            by_cases hk : k ∈ keys
            · have hnone : read k = none := h k (by
                rw [List.count_cons_self]
                exact Nat.succ_lt_succ (List.count_pos_iff.mpr hk))
              rw [List.filterMap_filter]
              refine List.filterMap_congr fun j _ => ?_
              by_cases hj : j = k <;> simp [hj, hnone]
            · have hsame : keys.filter (fun other => !other == k) = keys :=
                List.filter_eq_self.mpr fun j hj => by
                  have hne : j ≠ k := fun heq => hk (heq ▸ hj)
                  simpa using hne
              rw [hsame]
          rw [List.eraseDups_cons, List.filterMap_cons, List.filterMap_cons, hdropped,
            ih _ hshort hrest rfl]

omit [DecidableEq Key] in
/-- A key that occurs twice is found before and among the rest. -/
theorem split_of_repeated {keys : List Key} {k : Key} (h : 1 < keys.count k) :
    ∃ first rest, keys = first ++ k :: rest ∧ k ∈ rest := by
  obtain ⟨first, rest, rfl, hfirst⟩ :=
    List.eq_append_cons_of_mem (List.count_pos_iff.mp (Nat.lt_of_succ_lt h))
  rw [List.count_append, List.count_cons_self, List.count_eq_zero_of_not_mem hfirst] at h
  exact ⟨first, rest, rfl, List.count_pos_iff.mp (by omega)⟩

end Rows

/-! ## Renamings -/

/-- New names can be renamed to any others of the same number, the old ones kept. -/
theorem exists_renaming {old : Nat} {names others : List Nat} (hnames : names.Nodup)
    (hothers : others.Nodup) (hlength : names.length = others.length)
    (hnew : ∀ name ∈ names, old ≤ name) (hfree : ∀ name ∈ others, old ≤ name) :
    ∃ rename : Equiv.Perm Nat, (∀ name < old, rename name = name) ∧
      names.map rename = others := by
  induction names generalizing others with
  | nil => exact ⟨Equiv.refl Nat, fun _ _ => rfl, (List.length_eq_zero_iff.mp hlength.symm).symm⟩
  | cons name names ih =>
      cases others with
      | nil => simp at hlength
      | cons other others =>
          obtain ⟨hname, hnames⟩ := List.nodup_cons.mp hnames
          obtain ⟨hother, hothers⟩ := List.nodup_cons.mp hothers
          obtain ⟨rename, hkeep, hmap⟩ := ih hnames hothers (Nat.succ.inj hlength)
            (fun n hn => hnew n (List.mem_cons_of_mem _ hn))
            (fun n hn => hfree n (List.mem_cons_of_mem _ hn))
          have hold : old ≤ name := hnew name List.mem_cons_self
          refine ⟨rename.trans (Equiv.swap (rename name) other), fun n hn => ?_, ?_⟩
          · have hfirst : n ≠ rename name := fun heq =>
              absurd (rename.injective ((hkeep n hn).trans heq)) (Nat.ne_of_lt (hn.trans_le hold))
            have hsecond : n ≠ other :=
              Nat.ne_of_lt (hn.trans_le (hfree other List.mem_cons_self))
            rw [Equiv.trans_apply, hkeep n hn, Equiv.swap_apply_of_ne_of_ne hfirst hsecond]
          · rw [List.map_cons, Equiv.trans_apply, Equiv.swap_apply_left, ← hmap]
            congr 1
            refine List.map_congr_left fun n hn => ?_
            have hfirst : rename n ≠ rename name := fun heq =>
              hname (rename.injective heq ▸ hn)
            have hsecond : rename n ≠ other := fun heq =>
              hother (hmap ▸ heq ▸ List.mem_map_of_mem hn)
            rw [Equiv.trans_apply, Equiv.swap_apply_of_ne_of_ne hfirst hsecond]

end CatalogApi.Repeats
