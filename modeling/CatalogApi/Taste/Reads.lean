import CatalogApi.Taste.Summary
import Mathlib.Algebra.BigOperators.Group.List.Basic
import Mathlib.Data.List.ReduceOption

/-!
# The reads of a taste projection

`get_taste_projection` folds one row per release and edge type into one item per release, in
whatever order the graph returns the rows and the values collected in them. A projection does not
depend on that order (`get_taste_projection_perm`).
-/

namespace CatalogApi.Taste

open ByKey Strata Groups

/-- A row of `_TASTE_PROJECTION`, its times as `_recorded` renders them. -/
structure TasteRow where
  id : String
  kind : String
  edges : Nat
  recorded : List (Option String)
  masterId : Option String
  masterYear : Option Int
  genres : List String
  styles : List String

/-- The fields a release's first row sets. -/
def heldDefault (row : TasteRow) : HeldItem :=
  { releaseId := row.id, ownedEdges := 0, wantedEdges := 0, ownedAt := [], wantedAt := [],
    masterId := row.masterId, masterYear := row.masterYear, genres := row.genres,
    styles := row.styles }

/-- What each row of a release adds. -/
def addRow (item : HeldItem) (row : TasteRow) : HeldItem :=
  if row.kind = "COLLECTED" then
    { item with
      ownedEdges := item.ownedEdges + row.edges
      ownedAt := item.ownedAt ++ row.recorded.reduceOption }
  else
    { item with
      wantedEdges := item.wantedEdges + row.edges
      wantedAt := item.wantedAt ++ row.recorded.reduceOption }

/-- The loop of `get_taste_projection`. -/
def heldItems (rows : List TasteRow) : Dict String HeldItem :=
  rows.foldl (fun held row => file heldDefault addRow [row.id] held row) Dict.empty

/-- `get_taste_projection`. -/
def getTasteProjection {τ : Type} [LinearOrder τ] (instant : String → Option τ)
    (rows : List TasteRow) : Projection :=
  buildTasteProjection instant ((heldItems rows).entries.map (·.2))

/-! ## Items that say the same -/

/-- An item with its values in order. -/
def HeldItem.normal (item : HeldItem) : HeldItem :=
  { item with
    ownedAt := sortBy id item.ownedAt
    wantedAt := sortBy id item.wantedAt
    genres := sortedSet item.genres
    styles := sortedSet item.styles }

/-- The same items but for the order of the items and of what each collects. -/
def Same (items items' : List HeldItem) : Prop :=
  (items.map (·.normal)).Perm (items'.map (·.normal))

section Same

variable {items items' : List HeldItem}

section

variable (h : Same items items') (p : HeldItem → Bool) (hp : ∀ item, p item.normal = p item)
include h p hp

theorem Same.filter : Same (items.filter p) (items'.filter p) := by
  have hmap : ∀ l : List HeldItem, (l.filter p).map (·.normal) = (l.map (·.normal)).filter p := by
    intro l
    rw [List.filter_map]
    exact congrArg _ (List.filter_congr fun item _ => (hp item).symm)
  rw [Same, hmap, hmap]
  exact List.Perm.filter p h

theorem Same.count_p : items.countP p = items'.countP p := by
  have hmap : ∀ l : List HeldItem, (l.map (·.normal)).countP p = l.countP p := by
    intro l
    rw [List.countP_map]
    exact List.countP_congr fun item _ => by simp [hp]
  rw [← hmap items, ← hmap items']
  exact List.Perm.countP_eq p h

theorem Same.any : items.any p = items'.any p := by
  have hpos : ∀ l : List HeldItem, l.any p = decide (0 < l.countP p) := by
    intro l
    rw [Bool.eq_iff_iff, List.any_eq_true, decide_eq_true_iff, List.countP_pos_iff]
  rw [hpos, hpos, h.count_p p hp]

end

theorem Same.length (h : Same items items') : items.length = items'.length := by
  simpa using h.length_eq

/-- What the items list, collected. -/
theorem Same.flat_map {β : Type} (h : Same items items') (f : HeldItem → List β)
    (hf : ∀ item, (f item).Perm (f item.normal)) :
    (items.flatMap f).Perm (items'.flatMap f) := by
  have hmap : ∀ l : List HeldItem, (l.flatMap f).Perm ((l.map (·.normal)).flatMap f) := by
    intro l
    rw [List.flatMap_map]
    exact List.Perm.flatMap_left l fun item _ => hf item
  exact (hmap items).trans ((h.flatMap_right f).trans (hmap items').symm)

/-- What the items name, collected. -/
theorem Same.mem_flat_map {β : Type} (h : Same items items') (f : HeldItem → List β)
    (hf : ∀ item b, b ∈ f item.normal ↔ b ∈ f item) (b : β) :
    b ∈ items.flatMap f ↔ b ∈ items'.flatMap f := by
  have hmap : ∀ l : List HeldItem, b ∈ l.flatMap f ↔ b ∈ (l.map (·.normal)).flatMap f := by
    intro l
    simp [List.mem_flatMap, hf]
  rw [hmap items, hmap items']
  exact (h.flatMap_right f).mem_iff

end Same

variable {τ : Type} [LinearOrder τ] (instant : String → Option τ)

/-! ## Times, years and ids that leave no choice -/

/-- Every time recorded for the items. -/
def recordedTexts (items : List HeldItem) : List String :=
  items.flatMap fun item => item.ownedAt ++ item.wantedAt

/-- One text for each instant, one year for each master, and ids written in one way. -/
structure Steady (items : List HeldItem) : Prop where
  times : ∀ text ∈ recordedTexts items, ∀ other ∈ recordedTexts items, ∀ moment,
    instant text = some moment → instant other = some moment → text = other
  years : ∀ item ∈ items, ∀ other ∈ items, item.masterId.isSome →
    item.masterId = other.masterId → item.masterYear = other.masterYear
  ids : ∀ item ∈ items, ∀ master, item.masterId = some master → Canonical master

omit [LinearOrder τ] in
theorem Steady.mono {items items' : List HeldItem} (h : Steady instant items')
    (hsub : ∀ item ∈ items, item ∈ items') : Steady instant items where
  times text htext other hother := by
    have hmem : ∀ text ∈ recordedTexts items, text ∈ recordedTexts items' := by
      intro text htext
      obtain ⟨item, hitem, hmem⟩ := List.mem_flatMap.mp htext
      exact List.mem_flatMap.mpr ⟨item, hsub item hitem, hmem⟩
    exact h.times text (hmem text htext) other (hmem other hother)
  years item hitem other hother := h.years item (hsub item hitem) other (hsub other hother)
  ids item hitem := h.ids item (hsub item hitem)

omit [LinearOrder τ] in
/-- Stamped texts are told apart by their instants. -/
theorem separates_dated {items : List HeldItem} (h : Steady instant items)
    (texts : HeldItem → List String)
    (htexts : ∀ item, ∀ text ∈ texts item, text ∈ item.ownedAt ++ item.wantedAt) :
    Separates (·.1) (items.flatMap fun item => dated instant (texts item)) := by
  have hread : ∀ pair ∈ items.flatMap fun item => dated instant (texts item),
      pair.2 ∈ recordedTexts items ∧ instant pair.2 = some pair.1 := by
    intro pair hpair
    obtain ⟨item, hitem, hmem⟩ := List.mem_flatMap.mp hpair
    obtain ⟨text, htext, hmap⟩ := List.mem_filterMap.mp hmem
    obtain ⟨moment, hmoment, rfl⟩ := Option.map_eq_some_iff.mp hmap
    exact ⟨List.mem_flatMap.mpr ⟨item, hitem, htexts item text htext⟩, hmoment⟩
  intro pair hpair other hother heq
  obtain ⟨hmem, hat⟩ := hread pair hpair
  obtain ⟨hmem', hat'⟩ := hread other hother
  have heq' : pair.1 = other.1 := heq
  exact Prod.ext heq' (h.times _ hmem _ hmem' pair.1 hat (heq' ▸ hat'))

omit [LinearOrder τ] in
theorem dated_perm {texts texts' : List String} (h : texts.Perm texts') :
    (dated instant texts).Perm (dated instant texts') :=
  h.filterMap _

theorem state_span_congr {items items' : List HeldItem} (h : Same items items')
    (hsteady : Steady instant items) (texts : HeldItem → List String) (edges : HeldItem → Nat)
    (htexts : ∀ item, ∀ text ∈ texts item, text ∈ item.ownedAt ++ item.wantedAt)
    (hnormal : ∀ item, (texts item).Perm (texts item.normal))
    (hedges : ∀ item, edges item.normal = edges item) :
    stateSpan instant texts edges items = stateSpan instant texts edges items' := by
  have hstamped := h.flat_map (fun item => dated instant (texts item)) fun item =>
    dated_perm instant (hnormal item)
  have hkey := separates_dated instant hsteady texts htexts
  have hundated : (items.map fun item => edges item - (dated instant (texts item)).length).Perm
      (items'.map fun item => edges item - (dated instant (texts item)).length) := by
    have hsingle := h.flat_map (fun item => [edges item - (dated instant (texts item)).length])
      fun item => by rw [hedges, (dated_perm instant (hnormal item)).length_eq]
    rw [List.map_eq_flatMap, List.map_eq_flatMap]
    exact hsingle
  rw [stateSpan, stateSpan, spanOf, spanOf, first_by_eq_of_perm hstamped hkey,
    last_by_eq_of_perm hstamped hkey, hundated.sum_eq]

theorem bucket_of_congr {items items' : List HeldItem} (h : Same items items')
    (hsteady : Steady instant items) : bucketOf instant items = bucketOf instant items' := by
  have howned : stateSpan instant (·.ownedAt) (·.ownedEdges) (items.filter (·.owned)) =
      stateSpan instant (·.ownedAt) (·.ownedEdges) (items'.filter (·.owned)) :=
    state_span_congr instant (h.filter (·.owned) fun _ => rfl)
      (hsteady.mono instant fun _ hitem => (List.mem_filter.mp hitem).1) _ _
      (fun _ _ htext => List.mem_append_left _ htext) (fun _ => (sort_by_perm id _).symm)
      fun _ => rfl
  have hwanted : stateSpan instant (·.wantedAt) (·.wantedEdges) (items.filter (·.wanted)) =
      stateSpan instant (·.wantedAt) (·.wantedEdges) (items'.filter (·.wanted)) :=
    state_span_congr instant (h.filter (·.wanted) fun _ => rfl)
      (hsteady.mono instant fun _ hitem => (List.mem_filter.mp hitem).1) _ _
      (fun _ _ htext => List.mem_append_right _ htext) (fun _ => (sort_by_perm id _).symm)
      fun _ => rfl
  rw [bucketOf, bucketOf, howned, hwanted, h.length, h.count_p (·.owned) fun _ => rfl,
    h.count_p (·.wanted) fun _ => rfl,
    h.count_p (fun item => item.owned && item.wanted) fun _ => rfl]

theorem name_entry_congr {items items' : List HeldItem} (h : Same items items')
    (hsteady : Steady instant items) (names : HeldItem → List String)
    (hnames : ∀ item name, name ∈ names item.normal ↔ name ∈ names item) :
    nameEntry instant names items = nameEntry instant names items' := by
  funext name
  have hp : ∀ item : HeldItem, decide (name ∈ names item.normal) = decide (name ∈ names item) :=
    fun item => decide_eq_decide.mpr (hnames item name)
  rw [nameEntry, nameEntry, h.any _ hp, summary, summary,
    bucket_of_congr instant (h.filter _ hp)
      (hsteady.mono instant fun _ hitem => (List.mem_filter.mp hitem).1)]

/-- The year of one master's items, whichever comes last. -/
theorem year_congr {items items' : List HeldItem} (h : Same items items')
    (hone : ∀ item ∈ items, ∀ other ∈ items, item.masterYear = other.masterYear) :
    (items.filterMap (·.masterYear)).getLast? = (items'.filterMap (·.masterYear)).getLast? := by
  have hperm : (items.filterMap (·.masterYear)).Perm (items'.filterMap (·.masterYear)) := by
    have hflat := h.flat_map (fun item => item.masterYear.toList) fun _ => List.Perm.refl _
    simpa [List.flatMap_def, List.filterMap_eq_flatMap_toList] using hflat
  have hall : ∀ year ∈ items.filterMap (·.masterYear), ∀ other ∈ items.filterMap (·.masterYear),
      year = other := by
    intro year hyear other hother
    obtain ⟨item, hitem, hread⟩ := List.mem_filterMap.mp hyear
    obtain ⟨item', hitem', hread'⟩ := List.mem_filterMap.mp hother
    rw [hone item hitem item' hitem', hread'] at hread
    exact (Option.some.inj hread).symm
  rw [hperm.eq_of_pairwise (fun a b ha hb _ _ => hall a ha b (hperm.mem_iff.mpr hb))
    (List.pairwise_of_forall_mem_list fun a ha b hb => hall a ha b hb)
    (List.pairwise_of_forall_mem_list fun a ha b hb =>
      hall a (hperm.mem_iff.mpr ha) b (hperm.mem_iff.mpr hb))]

theorem master_entry_congr {items items' : List HeldItem} (h : Same items items')
    (hsteady : Steady instant items) :
    masterEntry instant items = masterEntry instant items' := by
  funext master
  have hheld := h.filter (fun item => item.masterId = some master) fun _ => rfl
  have hyear := year_congr hheld fun item hitem other hother => by
    obtain ⟨hitem, hmaster⟩ := List.mem_filter.mp hitem
    obtain ⟨hother, hmaster'⟩ := List.mem_filter.mp hother
    have heq : item.masterId = some master := of_decide_eq_true hmaster
    have heq' : other.masterId = some master := of_decide_eq_true hmaster'
    exact hsteady.years item hitem other hother (by rw [heq]; rfl) (heq.trans heq'.symm)
  have hgenres := sorted_set_congr (hheld.mem_flat_map (·.genres) fun _ _ => mem_sorted_set)
  have hstyles := sorted_set_congr (hheld.mem_flat_map (·.styles) fun _ _ => mem_sorted_set)
  rw [masterEntry, masterEntry, h.any (fun item => item.masterId = some master) fun _ => rfl]
  simp only [hyear, hgenres, hstyles, summary, bucket_of_congr instant hheld
    (hsteady.mono instant fun _ hitem => (List.mem_filter.mp hitem).1)]

theorem rank_separates {items : List HeldItem} {names : HeldItem → List String}
    {entries : List NameEntry}
    (h : Lists (·.id) rankOf (nameEntry instant names items) entries) :
    Separates rankOf entries := by
  intro entry hentry other hother heq
  have hid : entry.id = other.id := (Prod.ext_iff.mp (toLex_inj.mp heq)).2
  have hread := (h.exact entry).mp hentry
  rw [hid, (h.exact other).mp hother] at hread
  exact (Option.some.inj hread).symm

theorem id_separates {items : List HeldItem} {entries : List MasterEntry}
    (h : Lists (·.id) (fun entry => idKey entry.id) (masterEntry instant items) entries)
    (hsteady : Steady instant items) : Separates (fun entry => idKey entry.id) entries := by
  have hcanonical : ∀ entry ∈ entries, Canonical entry.id := by
    intro entry hentry
    have hread := (h.exact entry).mp hentry
    rw [masterEntry] at hread
    split at hread
    next hany =>
      obtain ⟨item, hitem, hmaster⟩ := List.any_eq_true.mp hany
      exact hsteady.ids item hitem entry.id (of_decide_eq_true hmaster)
    · cases hread
  intro entry hentry other hother heq
  have hid := id_key_inj (hcanonical entry hentry) (hcanonical other hother) heq
  have hread := (h.exact entry).mp hentry
  rw [hid, (h.exact other).mp hother] at hread
  exact (Option.some.inj hread).symm

theorem mem_genres_normal (item : HeldItem) (name : String) :
    name ∈ item.normal.genres ↔ name ∈ item.genres :=
  mem_sorted_set

theorem mem_styles_normal (item : HeldItem) (name : String) :
    name ∈ item.normal.styles ↔ name ∈ item.styles :=
  mem_sorted_set

private theorem isEmpty_sorted_set (l : List String) : (sortedSet l).isEmpty = l.isEmpty := by
  rw [Bool.eq_iff_iff, List.isEmpty_iff, List.isEmpty_iff, List.eq_nil_iff_forall_not_mem,
    List.eq_nil_iff_forall_not_mem]
  simp

theorem totals_congr {items items' : List HeldItem} (h : Same items items') :
    totalsOf items = totalsOf items' := by
  have hgenres : ∀ item : HeldItem, item.normal.genres.isEmpty = item.genres.isEmpty :=
    fun item => isEmpty_sorted_set item.genres
  have hstyles : ∀ item : HeldItem, item.normal.styles.isEmpty = item.styles.isEmpty :=
    fun item => isEmpty_sorted_set item.styles
  rw [totalsOf, totalsOf, h.length, h.count_p (·.owned) fun _ => rfl,
    h.count_p (·.wanted) fun _ => rfl,
    h.count_p (fun item => item.owned && item.wanted) fun _ => rfl,
    h.count_p (·.masterId.isNone) fun _ => rfl,
    h.count_p (fun item => !item.genres.isEmpty && item.styles.isEmpty) fun item => by
      rw [hgenres, hstyles],
    h.count_p (·.genres.isEmpty) hgenres]

/-- Items that say the same have the same projection. -/
theorem build_taste_projection_congr {items items' : List HeldItem} (h : Same items items')
    (hsteady : Steady instant items) :
    buildTasteProjection instant items = buildTasteProjection instant items' := by
  have hgenres := ranked_lists instant (·.genres) items
  have hstyles := ranked_lists instant (·.styles) items
  have hmasters := master_entries_lists instant items
  have hgenres' := ranked_lists instant (·.genres) items'
  have hstyles' := ranked_lists instant (·.styles) items'
  have hmasters' := master_entries_lists instant items'
  rw [← name_entry_congr instant h hsteady _ mem_genres_normal] at hgenres'
  rw [← name_entry_congr instant h hsteady _ mem_styles_normal] at hstyles'
  rw [← master_entry_congr instant h hsteady] at hmasters'
  rw [build_taste_projection_eq, build_taste_projection_eq, totals_congr h,
    bucket_of_congr instant h hsteady, hgenres.eq hgenres' (rank_separates instant hgenres),
    hstyles.eq hstyles' (rank_separates instant hstyles),
    hmasters.eq hmasters' (id_separates instant hmasters hsteady)]

/-! ## The order of the rows -/

/-- A row of a `COLLECTED` edge. -/
def TasteRow.collected (row : TasteRow) : Bool := row.kind = "COLLECTED"

/-- The times a row records. -/
def TasteRow.texts (row : TasteRow) : List String := row.recorded.reduceOption

theorem foldl_add_row (rows : List TasteRow) (item : HeldItem) : rows.foldl addRow item =
    { item with
      ownedEdges := item.ownedEdges + ((rows.filter (·.collected)).map (·.edges)).sum
      ownedAt := item.ownedAt ++ (rows.filter (·.collected)).flatMap (·.texts)
      wantedEdges := item.wantedEdges + ((rows.filter (!·.collected)).map (·.edges)).sum
      wantedAt := item.wantedAt ++ (rows.filter (!·.collected)).flatMap (·.texts) } := by
  induction rows generalizing item with
  | nil => simp
  | cons row rows ih =>
      rw [List.foldl_cons, ih, addRow]
      by_cases hkind : row.kind = "COLLECTED"
      · have hrow : row.collected = true := decide_eq_true hkind
        rw [if_pos hkind]
        simp [hrow, TasteRow.texts, Nat.add_assoc]
      · have hrow : row.collected = false := decide_eq_false hkind
        rw [if_neg hkind]
        simp [hrow, TasteRow.texts, Nat.add_assoc]

/-- The rows of one release read one node; one text for each instant, one year for each master,
and ids written in one way. -/
structure SteadyRows (rows : List TasteRow) : Prop where
  node : ∀ row ∈ rows, ∀ other ∈ rows, row.id = other.id →
    row.masterId = other.masterId ∧ row.masterYear = other.masterYear ∧
      (∀ name, name ∈ row.genres ↔ name ∈ other.genres) ∧
      ∀ name, name ∈ row.styles ↔ name ∈ other.styles
  times : ∀ text ∈ rows.flatMap (·.texts), ∀ other ∈ rows.flatMap (·.texts), ∀ moment,
    instant text = some moment → instant other = some moment → text = other
  years : ∀ row ∈ rows, ∀ other ∈ rows, row.masterId.isSome →
    row.masterId = other.masterId → row.masterYear = other.masterYear
  ids : ∀ row ∈ rows, ∀ master, row.masterId = some master → Canonical master

theorem get_held_items (rows : List TasteRow) (id : String) : (heldItems rows).get? id =
    folded heldDefault addRow (rows.filter fun row => row.id = id) := by
  have hget := get_file_all heldDefault addRow (fun row : TasteRow => List.nodup_singleton row.id)
    rows id
  have hfiltered : (rows.filter fun row => id ∈ [row.id]) = rows.filter fun row => row.id = id :=
    List.filter_congr fun row _ => by simp [eq_comm]
  rw [hfiltered] at hget
  exact hget

/-- An item's master is one of the rows', and so are its times. -/
theorem held_item_reads {rows : List TasteRow} {item : HeldItem}
    (h : item ∈ (heldItems rows).entries.map (·.2)) :
    (∃ row ∈ rows, item.masterId = row.masterId ∧ item.masterYear = row.masterYear) ∧
      ∀ text ∈ item.ownedAt ++ item.wantedAt, text ∈ rows.flatMap (·.texts) := by
  obtain ⟨⟨id, held⟩, hentry, rfl⟩ := List.mem_map.mp h
  rw [Dict.mem_iff, get_held_items] at hentry
  have hgroup : ∀ row ∈ rows.filter fun row => row.id = id, row ∈ rows :=
    fun row hrow => (List.mem_filter.mp hrow).1
  cases hrows : rows.filter fun row => row.id = id with
  | nil =>
      rw [hrows] at hentry
      cases hentry
  | cons first rest =>
      rw [hrows] at hentry hgroup
      rw [folded, foldl_add_row] at hentry
      cases hentry
      refine ⟨⟨first, hgroup first List.mem_cons_self, rfl, rfl⟩, fun text htext => ?_⟩
      simp only [heldDefault, List.nil_append, List.mem_append, List.mem_flatMap,
        List.mem_filter] at htext
      obtain ⟨row, ⟨hrow, -⟩, htext⟩ | ⟨row, ⟨hrow, -⟩, htext⟩ := htext
      · exact List.mem_flatMap.mpr ⟨row, hgroup row hrow, htext⟩
      · exact List.mem_flatMap.mpr ⟨row, hgroup row hrow, htext⟩

omit [LinearOrder τ] in
theorem SteadyRows.steady {rows : List TasteRow} (h : SteadyRows instant rows) :
    Steady instant ((heldItems rows).entries.map (·.2)) where
  times text htext other hother := by
    have hread : ∀ text ∈ recordedTexts ((heldItems rows).entries.map (·.2)),
        text ∈ rows.flatMap (·.texts) := by
      intro text htext
      obtain ⟨item, hitem, hmem⟩ := List.mem_flatMap.mp htext
      exact (held_item_reads hitem).2 text hmem
    exact h.times text (hread text htext) other (hread other hother)
  years item hitem other hother hsome heq := by
    obtain ⟨row, hrow, hmaster, hyear⟩ := (held_item_reads hitem).1
    obtain ⟨row', hrow', hmaster', hyear'⟩ := (held_item_reads hother).1
    rw [hyear, hyear']
    exact h.years row hrow row' hrow' (hmaster ▸ hsome) (by rw [← hmaster, heq, hmaster'])
  ids item hitem master hmaster := by
    obtain ⟨row, hrow, hread, -⟩ := (held_item_reads hitem).1
    exact h.ids row hrow master (hread ▸ hmaster)

/-- The rows of one release make the same item in any order. -/
theorem folded_normal_congr {rows rows' : List TasteRow} (hperm : rows.Perm rows')
    (hnode : ∀ row ∈ rows, ∀ other ∈ rows, row.id = other.id ∧
      row.masterId = other.masterId ∧ row.masterYear = other.masterYear ∧
      (∀ name, name ∈ row.genres ↔ name ∈ other.genres) ∧
      ∀ name, name ∈ row.styles ↔ name ∈ other.styles) :
    (folded heldDefault addRow rows).map (·.normal) =
      (folded heldDefault addRow rows').map (·.normal) := by
  have hsorted : ∀ p : TasteRow → Bool,
      sortBy id ((rows.filter p).flatMap (·.texts)) =
        sortBy id ((rows'.filter p).flatMap (·.texts)) := fun p =>
    sort_by_eq_of_perm ((hperm.filter p).flatMap_right _) fun _ _ _ _ heq => heq
  have hsum : ∀ p : TasteRow → Bool, ((rows.filter p).map (·.edges)).sum =
      ((rows'.filter p).map (·.edges)).sum := fun p => ((hperm.filter p).map _).sum_eq
  cases hrows : rows with
  | nil =>
      rw [hrows] at hperm
      rw [List.nil_perm.mp hperm]
  | cons row rest =>
      cases hrows' : rows' with
      | nil =>
          rw [hrows, hrows'] at hperm
          cases List.perm_nil.mp hperm
      | cons row' rest' =>
          have hrow : row ∈ rows := hrows ▸ List.mem_cons_self
          have hrow' : row' ∈ rows := hperm.mem_iff.mpr (hrows' ▸ List.mem_cons_self)
          -- the first row differs, but all rows read the same node
          obtain ⟨hid, hmaster, hyear, hgenres, hstyles⟩ := hnode row hrow row' hrow'
          rw [folded, folded, foldl_add_row, foldl_add_row, ← hrows, ← hrows']
          simp only [Option.map_some, HeldItem.normal, heldDefault, List.nil_append, hsorted, hsum,
            hid, hmaster, hyear, sorted_set_congr hgenres, sorted_set_congr hstyles]

/-- The order in which the graph returns rows does not show in a projection. -/
theorem get_taste_projection_perm {rows rows' : List TasteRow} (hperm : rows.Perm rows')
    (h : SteadyRows instant rows) :
    getTasteProjection instant rows = getTasteProjection instant rows' := by
  refine build_taste_projection_congr instant ?_ h.steady
  show (((heldItems rows).entries.map (·.2)).map (·.normal)).Perm
    (((heldItems rows').entries.map (·.2)).map (·.normal))
  rw [List.map_map, List.map_map]
  refine values_perm HeldItem.normal fun id => ?_
  rw [get_held_items, get_held_items]
  refine folded_normal_congr (hperm.filter _) fun row hrow other hother => ?_
  obtain ⟨hrow, hid⟩ := List.mem_filter.mp hrow
  obtain ⟨hother, hid'⟩ := List.mem_filter.mp hother
  have heq : row.id = other.id := (of_decide_eq_true hid).trans (of_decide_eq_true hid').symm
  exact ⟨heq, h.node row hrow other hother heq⟩

/-- The seconds of two instants that stand in another order as texts than in time. -/
def twoInstants (text : String) : Option Int :=
  if text = "2020-01-01T00:00:00-08:00" then some 1577865600
  else if text = "2020-01-01T06:00:00+00:00" then some 1577858400 else none

/-- A release owned twice and wanted once, and another one wanted. -/
def twoReleases : List TasteRow :=
  [{ id := "1", kind := "COLLECTED", edges := 2, masterId := some "7", masterYear := some 1969,
     recorded := [some "2020-01-01T00:00:00-08:00", none], genres := ["Rock"], styles := [] },
   { id := "1", kind := "WANTS", edges := 1, masterId := some "7", masterYear := some 1969,
     recorded := [some "2020-01-01T06:00:00+00:00"], genres := ["Rock"], styles := [] },
   { id := "2", kind := "WANTS", edges := 1, masterId := none, masterYear := none,
     recorded := [], genres := ["Rock", "Jazz"], styles := ["Fusion"] }]

theorem two_releases_perm :
    getTasteProjection twoInstants twoReleases =
      getTasteProjection twoInstants twoReleases.reverse :=
  get_taste_projection_perm twoInstants (List.reverse_perm twoReleases).symm
    { node := by simp [twoReleases]
      times := by
        intro text htext other hother moment hat hat'
        have hmem : ∀ text ∈ twoReleases.flatMap (·.texts),
            text = "2020-01-01T00:00:00-08:00" ∨ text = "2020-01-01T06:00:00+00:00" := by
          simp [twoReleases, TasteRow.texts, List.reduceOption]
        obtain rfl | rfl := hmem text htext
        · obtain rfl | rfl := hmem other hother
          · rfl
          · simp [twoInstants] at hat hat'
            omega
        · obtain rfl | rfl := hmem other hother
          · simp [twoInstants] at hat hat'
            omega
          · rfl
      years := by simp [twoReleases]
      ids := by
        intro row hrow master hmaster
        have hseven : master = "7" := by
          simp only [twoReleases, List.mem_cons, List.not_mem_nil, or_false] at hrow
          obtain rfl | rfl | rfl := hrow
          · exact (Option.some.inj hmaster).symm
          · exact (Option.some.inj hmaster).symm
          · cases hmaster
        subst hseven
        decide }

end CatalogApi.Taste
