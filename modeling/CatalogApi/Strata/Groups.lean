import CatalogApi.Strata.Ladder
import Mathlib.Data.List.Perm.Basic

/-!
# The groups of a built ladder

What `_Ladder.__init__` establishes for every catalog (`build_well_formed`): each master has one
credit and at least one item, the credit order lists the root first and every credit with
something under it once, and the credits partition the items (`WellFormed.partition`).
-/

namespace CatalogApi.Strata

open ByKey

/-- The groups of a ladder agree with its items. -/
structure Ladder.WellFormed (ladder : Ladder) : Prop where
  /-- The root is the first credit. -/
  order_root : ladder.creditOrder = ladder.root :: ladder.creditOrder.drop 1
  order_nodup : ladder.creditOrder.Nodup
  /-- Every credit with a master or a lane is in the order. -/
  masters_ordered : ∀ {credit masterId}, masterId ∈ ladder.mastersByCredit credit →
    credit ∈ ladder.creditOrder
  lane_ordered : ∀ {credit item}, item ∈ ladder.masterless credit → credit ∈ ladder.creditOrder
  /-- A master is under its credit and no other. -/
  mem_masters : ∀ {credit masterId}, masterId ∈ ladder.mastersByCredit credit ↔
    masterId ∈ ladder.masterIds ∧ ladder.masterCredit masterId = credit
  masters_nodup : ∀ credit, (ladder.mastersByCredit credit).Nodup
  masterIds_nodup : ladder.masterIds.Nodup
  mem_items : ∀ {masterId item}, item ∈ ladder.itemsByMaster masterId ↔
    item ∈ ladder.items ∧ item.release.masterId = some masterId
  mem_lane : ∀ {credit item}, item ∈ ladder.masterless credit ↔
    item ∈ ladder.items ∧ item.release.masterId = none ∧ item.credit = credit
  mem_masterIds : ∀ {masterId}, masterId ∈ ladder.masterIds ↔
    ladder.itemsByMaster masterId ≠ []
  /-- The credits hold every item, each once. -/
  partition : (ladder.creditOrder.flatMap ladder.creditItems).Perm ladder.items

/-- Distinct items stay distinct in the groups of the masters and of the lanes. -/
theorem Ladder.WellFormed.groups_nodup {ladder : Ladder} (h : ladder.WellFormed)
    (hitems : ladder.items.Nodup) :
    (∀ masterId, (ladder.itemsByMaster masterId).Nodup) ∧
      ∀ lane, (ladder.masterless lane).Nodup := by
  have hcredits := (List.nodup_flatMap.mp (h.partition.symm.nodup hitems)).1
  constructor
  · intro masterId
    by_cases hnil : ladder.itemsByMaster masterId = []
    · rw [hnil]
      exact List.nodup_nil
    · have hmaster := h.mem_masters.mpr ⟨h.mem_masterIds.mpr hnil, rfl⟩
      have hmasters := (List.nodup_append.mp (hcredits _ (h.masters_ordered hmaster))).1
      exact (List.nodup_flatMap.mp hmasters).1 masterId hmaster
  · intro lane
    by_cases hnil : ladder.masterless lane = []
    · rw [hnil]
      exact List.nodup_nil
    · obtain ⟨item, hitem⟩ := List.exists_mem_of_ne_nil _ hnil
      exact (List.nodup_append.mp (hcredits _ (h.lane_ordered hitem))).2.1

section Build

variable {catalog : Catalog} {marks : Option Marks}

theorem mem_items_under {masterId : String} {item : Item} :
    item ∈ itemsUnder catalog marks masterId ↔
      item ∈ placed catalog marks ∧ item.release.masterId = some masterId := by
  rw [itemsUnder, mem_sort_by, List.mem_filter, decide_eq_true_eq]

theorem mem_items_without {credit : Credit} {item : Item} :
    item ∈ itemsWithout catalog marks credit ↔
      item ∈ placed catalog marks ∧ item.release.masterId = none ∧ item.credit = credit := by
  rw [itemsWithout, mem_sort_by, List.mem_filter, decide_eq_true_eq]

theorem mem_placed_masters {masterId : String} :
    masterId ∈ placedMasters catalog marks ↔
      ∃ item ∈ placed catalog marks, item.release.masterId = some masterId := by
  rw [placedMasters, List.mem_eraseDups, List.mem_filterMap]

theorem mem_placed_lanes {credit : Credit} :
    credit ∈ placedLanes catalog marks ↔
      ∃ item ∈ placed catalog marks, item.release.masterId = none ∧ item.credit = credit := by
  rw [placedLanes, List.mem_eraseDups, List.mem_map]
  simp only [List.mem_filter, decide_eq_true_eq, and_assoc]

theorem mem_masters_under {credit : Credit} {masterId : String} :
    masterId ∈ mastersUnder catalog marks credit ↔
      masterId ∈ placedMasters catalog marks ∧ creditOfMaster catalog masterId = credit := by
  rw [mastersUnder, mem_sort_by, List.mem_filter, decide_eq_true_eq]

theorem placed_masters_nodup : (placedMasters catalog marks).Nodup :=
  nodup_erase_dups _

theorem masters_under_nodup (credit : Credit) : (mastersUnder catalog marks credit).Nodup :=
  sort_by_nodup (placed_masters_nodup.filter _)

theorem placed_credits_nodup : (placedCredits catalog marks).Nodup :=
  nodup_erase_dups _

/-- The credit an item sits under: that of its master, else its own. -/
def homeCredit (catalog : Catalog) (item : Item) : Credit :=
  match item.release.masterId with
  | some masterId => creditOfMaster catalog masterId
  | none => item.credit

theorem home_credit_placed {item : Item} (h : item ∈ placed catalog marks) :
    homeCredit catalog item ∈ placedCredits catalog marks := by
  rw [placedCredits, List.mem_eraseDups, List.mem_append]
  unfold homeCredit
  cases hmaster : item.release.masterId with
  | some masterId =>
      exact Or.inl (List.mem_map_of_mem (mem_placed_masters.mpr ⟨item, h, hmaster⟩))
  | none => exact Or.inr (mem_placed_lanes.mpr ⟨item, h, hmaster, rfl⟩)

theorem mem_credit_order {credit : Credit} :
    credit ∈ (Ladder.build catalog marks).creditOrder ↔
      credit = [catalog.rootId] ∨ credit ∈ placedCredits catalog marks := by
  have horder : (Ladder.build catalog marks).creditOrder = [catalog.rootId] ::
      sortBy (creditKey catalog marks)
        ((placedCredits catalog marks).filter fun credit => credit ≠ [catalog.rootId]) := rfl
  rw [horder, List.mem_cons, mem_sort_by, List.mem_filter, decide_eq_true_eq]
  constructor
  · rintro (h | h)
    · exact Or.inl h
    · exact Or.inr h.1
  · rintro (h | h)
    · exact Or.inl h
    · by_cases hroot : credit = [catalog.rootId]
      · exact Or.inl hroot
      · exact Or.inr ⟨h, hroot⟩

theorem credit_order_nodup : (Ladder.build catalog marks).creditOrder.Nodup := by
  refine List.nodup_cons.mpr ⟨?_, sort_by_nodup (placed_credits_nodup.filter _)⟩
  rw [mem_sort_by, List.mem_filter, decide_eq_true_eq]
  exact fun h => h.2 rfl

/-- The items of one credit are those whose home it is. -/
theorem credit_items_perm (credit : Credit) :
    ((Ladder.build catalog marks).creditItems credit).Perm
      ((placed catalog marks).filter fun item => homeCredit catalog item = credit) := by
  have hsplit := List.filter_append_perm (fun item : Item => item.release.masterId.isSome)
    ((placed catalog marks).filter fun item => homeCredit catalog item = credit)
  refine List.Perm.trans (List.Perm.append ?_ ?_) hsplit
  · -- the items with a master fall apart by master
    have hgroups := flat_map_filter_perm (fun item : Item => item.release.masterId)
      (List.Nodup.map (Option.some_injective String)
        (masters_under_nodup credit : (mastersUnder catalog marks credit).Nodup))
      (((placed catalog marks).filter fun item => homeCredit catalog item = credit).filter
        fun item => item.release.masterId.isSome) ?_
    · refine List.Perm.trans ?_ hgroups
      rw [List.flatMap_map]
      refine List.Perm.flatMap_left _ fun masterId hmaster => ?_
      refine (sort_by_perm _ _).trans (List.Perm.of_eq ?_)
      rw [List.filter_filter, List.filter_filter]
      refine List.filter_congr fun item _ => ?_
      by_cases hitem : item.release.masterId = some masterId
      · have hhome : homeCredit catalog item = credit := by
          rw [homeCredit, hitem]
          exact (mem_masters_under.mp hmaster).2
        simp [hitem, hhome]
      · simp [hitem]
    · intro item hitem
      simp only [List.mem_filter, decide_eq_true_eq] at hitem
      obtain ⟨⟨hplaced, hhome⟩, hsome⟩ := hitem
      obtain ⟨masterId, hmaster⟩ := Option.isSome_iff_exists.mp hsome
      rw [homeCredit, hmaster] at hhome
      rw [hmaster]
      exact List.mem_map_of_mem
        (mem_masters_under.mpr ⟨mem_placed_masters.mpr ⟨item, hplaced, hmaster⟩, hhome⟩)
  · refine (sort_by_perm _ _).trans (List.Perm.of_eq ?_)
    rw [List.filter_filter]
    refine List.filter_congr fun item _ => ?_
    cases hmaster : item.release.masterId with
    | none => simp [homeCredit, hmaster]
    | some masterId => simp

theorem build_partition :
    ((Ladder.build catalog marks).creditOrder.flatMap
      (Ladder.build catalog marks).creditItems).Perm (placed catalog marks) := by
  refine (List.Perm.flatMap_left _ fun credit _ => credit_items_perm credit).trans ?_
  refine flat_map_filter_perm (homeCredit catalog) credit_order_nodup _ fun item hitem => ?_
  exact mem_credit_order.mpr (Or.inr (home_credit_placed hitem))

/-- Every catalog and every marks make a well-formed ladder. -/
theorem build_well_formed (catalog : Catalog) (marks : Option Marks) :
    (Ladder.build catalog marks).WellFormed where
  order_root := rfl
  order_nodup := credit_order_nodup
  masters_ordered := by
    intro credit masterId h
    obtain ⟨hplaced, hcredit⟩ := mem_masters_under.mp h
    refine mem_credit_order.mpr (Or.inr ?_)
    rw [placedCredits, List.mem_eraseDups, List.mem_append]
    exact Or.inl (List.mem_map.mpr ⟨masterId, hplaced, hcredit⟩)
  lane_ordered := by
    intro credit item h
    refine mem_credit_order.mpr (Or.inr ?_)
    rw [placedCredits, List.mem_eraseDups, List.mem_append]
    exact Or.inr (mem_placed_lanes.mpr ⟨item, mem_items_without.mp h⟩)
  mem_masters := mem_masters_under
  masters_nodup := masters_under_nodup
  masterIds_nodup := placed_masters_nodup
  mem_items := mem_items_under
  mem_lane := mem_items_without
  mem_masterIds := by
    intro masterId
    refine mem_placed_masters.trans ?_
    rw [ne_eq, List.eq_nil_iff_forall_not_mem, not_forall_not]
    exact exists_congr fun item => mem_items_under.symm
  partition := build_partition

end Build

end CatalogApi.Strata
