import CatalogApi.Taste.Projection

/-!
# What a taste projection says

The projection lists exactly the genres, styles and masters that some item carries, each with the
summary of the items that carry it (`build_taste_projection_spec`). No item is lost between the
masters and the masterless.
-/

namespace CatalogApi.Taste

open ByKey Strata Groups

variable {τ : Type} [LinearOrder τ] (instant : String → Option τ)

/-! ## The variables after the loop -/

theorem foldl_fold (items : List HeldItem) (state : Fold τ) :
    items.foldl (foldItem instant) state =
      { total := items.foldl (Bucket.add instant) state.total
        genres := items.foldl (fun d item => fileNames instant item.genres d item) state.genres
        styles := items.foldl (fun d item => fileNames instant item.styles d item) state.styles
        noGenre := state.noGenre + items.countP (·.genres.isEmpty)
        genreOnly := state.genreOnly +
          items.countP fun item => !item.genres.isEmpty && item.styles.isEmpty
        masterless := state.masterless + items.countP (·.masterId.isNone)
        masters := items.foldl (fileMaster instant) state.masters } := by
  have hcount : ∀ (n : Nat) (p : HeldItem → Bool) (item : HeldItem) (rest : List HeldItem),
      (if p item then n + 1 else n) + rest.countP p = n + (item :: rest).countP p := by
    intro n p item rest
    cases h : p item with
    | true => simp [h]; omega
    | false => simp [h]
  induction items generalizing state with
  | nil => rfl
  | cons item items ih =>
      rw [List.foldl_cons, ih, foldItem]
      simp only [hcount _ (fun item : HeldItem => item.genres.isEmpty),
        hcount _ (fun item : HeldItem => item.masterId.isNone),
        hcount _ (fun item : HeldItem => !item.genres.isEmpty && item.styles.isEmpty)]
      rfl

/-- The buckets of the names that the items carry. -/
def nameBuckets (names : HeldItem → List String) (items : List HeldItem) :
    Dict String (Bucket τ) :=
  items.foldl (fun d item => fileNames instant (names item) d item) Dict.empty

/-- The buckets of the masters that the items have. -/
def masterBuckets (items : List HeldItem) : Dict String (Bucket τ) :=
  items.foldl (fileMaster instant) Dict.empty

theorem get_name_buckets (names : HeldItem → List String) (items : List HeldItem)
    (name : String) : (nameBuckets instant names items).get? name =
      if items.any fun item => name ∈ names item then
        some (bucketOf instant (items.filter fun item => name ∈ names item))
      else none := by
  have hfiltered : (items.filter fun item => name ∈ (names item).eraseDups) =
      items.filter fun item => name ∈ names item :=
    List.filter_congr fun item _ => by simp
  have hget := get_file_all (fun _ : HeldItem => (emptyBucket : Bucket τ)) (Bucket.add instant)
    (fun item => nodup_erase_dups (names item)) items name
  rw [hfiltered] at hget
  refine hget.trans ?_
  by_cases hany : items.any fun item => name ∈ names item
  · have hne : (items.filter fun item => name ∈ names item) ≠ [] := by
      obtain ⟨item, hitem, hname⟩ := List.any_eq_true.mp hany
      exact List.ne_nil_of_mem (List.mem_filter.mpr ⟨hitem, hname⟩)
    rw [if_pos hany, folded_of_ne_nil hne emptyBucket fun _ _ => rfl, foldl_add]
  · rw [if_neg hany, folded_eq_none, List.filter_eq_nil_iff]
    intro item hitem hname
    exact hany (List.any_eq_true.mpr ⟨item, hitem, hname⟩)

private theorem toList_nodup (id : Option String) : id.toList.Nodup := by
  cases id with
  | none => simp
  | some id => simp

theorem get_master_buckets (items : List HeldItem) (master : String) :
    (masterBuckets instant items).get? master =
      if items.any fun item => item.masterId = some master then
        some (masterOf instant (items.filter fun item => item.masterId = some master))
      else none := by
  have hfiltered : (items.filter fun item => master ∈ item.masterId.toList) =
      items.filter fun item => item.masterId = some master :=
    List.filter_congr fun item _ => by simp
  have hget := get_file_all (fun _ : HeldItem => (emptyBucket : Bucket τ))
    (Bucket.addMaster instant) (fun item : HeldItem => toList_nodup item.masterId) items master
  rw [hfiltered] at hget
  refine hget.trans ?_
  by_cases hany : items.any fun item => item.masterId = some master
  · have hne : (items.filter fun item => item.masterId = some master) ≠ [] := by
      obtain ⟨item, hitem, hmaster⟩ := List.any_eq_true.mp hany
      exact List.ne_nil_of_mem (List.mem_filter.mpr ⟨hitem, hmaster⟩)
    rw [if_pos hany, folded_of_ne_nil hne emptyBucket fun _ _ => rfl, foldl_add_master]
  · rw [if_neg hany, folded_eq_none, List.filter_eq_nil_iff]
    intro item hitem hmaster
    exact hany (List.any_eq_true.mpr ⟨item, hitem, hmaster⟩)

/-! ## The entries -/

/-- The summary of some items, without the loop. -/
def summary (items : List HeldItem) : Counts := (bucketOf instant items).counts

/-- The entry of a genre or style, when some item carries it. -/
def nameEntry (names : HeldItem → List String) (items : List HeldItem) (name : String) :
    Option NameEntry :=
  if items.any fun item => name ∈ names item then
    some { id := name, counts := summary instant (items.filter fun item => name ∈ names item) }
  else none

/-- The entry of a master, when some item has it. -/
def masterEntry (items : List HeldItem) (master : String) : Option MasterEntry :=
  if items.any fun item => item.masterId = some master then
    let held := items.filter fun item => item.masterId = some master
    some { id := master
           year := (held.filterMap (·.masterYear)).getLast?
           genres := sortedSet (held.flatMap (·.genres))
           styles := sortedSet (held.flatMap (·.styles))
           counts := summary instant held }
  else none

/-- The totals of some items, without the loop. -/
def totalsOf (items : List HeldItem) : Totals where
  items := items.length
  owned := items.countP (·.owned)
  wanted := items.countP (·.wanted)
  wantedOwned := items.countP fun item => item.owned && item.wanted
  masterlessItems := items.countP (·.masterId.isNone)
  genreOnlyItems := items.countP fun item => !item.genres.isEmpty && item.styles.isEmpty
  unplacedItems := items.countP (·.genres.isEmpty)

/-- The order of genres and styles: most held first, then by name. -/
def rankOf (entry : NameEntry) : Int ×ₗ String := toLex (-(entry.counts.items : Int), entry.id)

theorem build_taste_projection_eq (items : List HeldItem) :
    buildTasteProjection instant items =
      { totals := totalsOf items
        recordedAt := (bucketOf instant items).recordedAt
        genres := ranked (nameBuckets instant (·.genres) items)
        styles := ranked (nameBuckets instant (·.styles) items)
        masters := masterEntries (masterBuckets instant items) } := by
  unfold buildTasteProjection
  rw [foldl_fold]
  simp only [emptyFold, foldl_add, Nat.zero_add]
  rfl

theorem ranked_lists (names : HeldItem → List String) (items : List HeldItem) :
    Lists (·.id) rankOf (nameEntry instant names items)
      (ranked (nameBuckets instant names items)) := by
  refine Lists.of_sorted _ _ _ (fun _ => rfl) (fun _ => rfl) fun name => ?_
  rw [get_name_buckets, nameEntry]
  split
  · rfl
  · rfl

theorem master_entries_lists (items : List HeldItem) :
    Lists (·.id) (fun entry => idKey entry.id) (masterEntry instant items)
      (masterEntries (masterBuckets instant items)) := by
  refine Lists.of_sorted _ _ _ (fun _ => rfl) (fun _ => rfl) fun master => ?_
  rw [get_master_buckets, masterEntry]
  split
  · rfl
  · rfl

/-- Every item is counted under its one master or among those without. -/
theorem masters_partition (items : List HeldItem) :
    ((buildTasteProjection instant items).masters.map (·.counts.items)).sum +
      (buildTasteProjection instant items).totals.masterlessItems = items.length := by
  have hlists := master_entries_lists instant items
  rw [build_taste_projection_eq]
  have hitems : ∀ entry ∈ masterEntries (masterBuckets instant items), entry.counts.items =
      (items.filter fun item => item.masterId = some entry.id).length := by
    intro entry hentry
    have heq := (hlists.exact entry).mp hentry
    rw [masterEntry] at heq
    split at heq
    · exact (congrArg (·.counts.items) (Option.some.inj heq)).symm
    · cases heq
  have hless : items.countP (·.masterId.isNone) =
      (items.filter fun item => item.masterId = none).length := by
    rw [List.countP_eq_length_filter]
    refine congrArg List.length (List.filter_congr fun item _ => ?_)
    cases item.masterId with
    | none => rfl
    | some master => rfl
  -- the masters listed are all that an item carries, so no item is left out
  have hsum := sum_lengths hlists.once (·.masterId) items fun item hitem master hmaster => by
    have hany : items.any fun other => other.masterId = some master :=
      List.any_eq_true.mpr ⟨item, hitem, decide_eq_true hmaster⟩
    obtain ⟨entry, hentry⟩ : ∃ entry, masterEntry instant items master = some entry := by
      rw [masterEntry, if_pos hany]
      exact ⟨_, rfl⟩
    have hid : entry.id = master := by
      rw [masterEntry, if_pos hany] at hentry
      cases hentry
      rfl
    exact List.mem_map.mpr ⟨entry, (hlists.exact entry).mpr (hid ▸ hentry), hid⟩
  rw [List.map_map] at hsum
  rw [List.map_congr_left hitems, ← hsum]
  exact congrArg _ hless

end CatalogApi.Taste
