import Mathlib.Data.Finset.Card
import Mathlib.Algebra.Order.Ring.Int

/-!
# Sorted sets

Sorted sets as a key-value server keeps them: each member once, with a score. The operations are
those of the server's commands, and each is known by the scores and the number of members after it.
-/

namespace CatalogApi

/-- Members with their scores, in no particular order. -/
structure SortedSet (Member : Type) where
  entries : List (Member × Int)
  nodup : (entries.map (·.1)).Nodup

namespace SortedSet

variable {Member : Type}

def empty : SortedSet Member := ⟨[], List.nodup_nil⟩

def members (set : SortedSet Member) : List Member := set.entries.map (·.1)

/-- `ZCARD`. -/
def card (set : SortedSet Member) : Nat := set.entries.length

/-- The set without the entries that a test rejects. -/
def keep (test : Member × Int → Bool) (set : SortedSet Member) : SortedSet Member where
  entries := set.entries.filter test
  nodup := set.nodup.sublist (List.filter_sublist.map _)

/-- `ZRANGEBYSCORE` from `-inf`. -/
def upTo (bound : Int) (set : SortedSet Member) : List Member :=
  (set.entries.filter fun entry => entry.2 ≤ bound).map (·.1)

/-- `ZREMRANGEBYSCORE` from `-inf`. -/
def removeUpTo (bound : Int) (set : SortedSet Member) : SortedSet Member :=
  set.keep fun entry => ¬entry.2 ≤ bound

section Members

variable [DecidableEq Member]

/-- `ZSCORE`. -/
def score (set : SortedSet Member) (member : Member) : Option Int :=
  (set.entries.find? fun entry => entry.1 = member).map (·.2)

/-- `ZREM`. -/
def remove (removed : List Member) (set : SortedSet Member) : SortedSet Member :=
  set.keep fun entry => entry.1 ∉ removed

/-- `ZADD`. -/
def add (member : Member) (value : Int) (set : SortedSet Member) : SortedSet Member where
  entries := set.entries.filter (fun entry => entry.1 ≠ member) ++ [(member, value)]
  nodup := by
    rw [List.map_append, List.nodup_append]
    refine ⟨set.nodup.sublist (List.filter_sublist.map _), List.nodup_singleton _, ?_⟩
    intro found hfound last hlast
    obtain ⟨entry, hentry, rfl⟩ := List.mem_map.mp hfound
    rw [List.map_singleton, List.mem_singleton] at hlast
    rw [hlast]
    simpa using (List.mem_filter.mp hentry).2

variable {set : SortedSet Member} {member other : Member} {value bound : Int}

theorem score_eq_some : set.score member = some value ↔ (member, value) ∈ set.entries := by
  rw [score, Option.map_eq_some_iff]
  constructor
  · rintro ⟨entry, hfound, rfl⟩
    have hkey : entry.1 = member := by simpa using List.find?_some hfound
    rw [← hkey]
    exact List.mem_of_find?_eq_some hfound
  · intro hmem
    cases hfound : set.entries.find? fun entry => entry.1 = member with
    | none => exact absurd (List.find?_eq_none.mp hfound _ hmem) (by simp)
    | some entry =>
        have hkey : entry.1 = member := by simpa using List.find?_some hfound
        refine ⟨entry, rfl, ?_⟩
        rw [List.inj_on_of_nodup_map set.nodup (List.mem_of_find?_eq_some hfound) hmem hkey]

theorem mem_members : member ∈ set.members ↔ ∃ value, set.score member = some value := by
  rw [members, List.mem_map]
  constructor
  · rintro ⟨⟨found, value⟩, hmem, rfl⟩
    exact ⟨value, score_eq_some.mpr hmem⟩
  · rintro ⟨value, hscore⟩
    exact ⟨(member, value), score_eq_some.mp hscore, rfl⟩

theorem score_eq_none : set.score member = none ↔ member ∉ set.members := by
  rw [mem_members, Option.eq_none_iff_forall_ne_some, not_exists]

theorem is_some_score : (set.score member).isSome = true ↔ member ∈ set.members := by
  rw [Option.isSome_iff_exists, mem_members]

theorem score_keep {test : Member × Int → Bool} :
    (set.keep test).score member = (set.score member).filter fun value => test (member, value) := by
  refine Option.ext fun value => ?_
  rw [score_eq_some, keep, List.mem_filter, ← score_eq_some, Option.filter_eq_some_iff]

theorem score_remove (removed : List Member) :
    (set.remove removed).score member = if member ∈ removed then none else set.score member := by
  rw [remove, score_keep]
  split
  · rename_i hmem
    cases set.score member with
    | none => rfl
    | some value => simp [hmem]
  · rename_i hmem
    cases set.score member with
    | none => rfl
    | some value => simp [hmem]

theorem score_remove_up_to :
    (set.removeUpTo bound).score member = (set.score member).filter fun value => bound < value := by
  rw [removeUpTo, score_keep]
  refine congrFun (congrArg Option.filter (funext fun value => ?_)) _
  simp

theorem mem_up_to :
    member ∈ set.upTo bound ↔ ∃ value, set.score member = some value ∧ value ≤ bound := by
  rw [upTo, List.mem_map]
  constructor
  · rintro ⟨⟨found, value⟩, hmem, rfl⟩
    obtain ⟨hentry, hle⟩ := List.mem_filter.mp hmem
    exact ⟨value, score_eq_some.mpr hentry, by simpa using hle⟩
  · rintro ⟨value, hscore, hle⟩
    refine ⟨(member, value), List.mem_filter.mpr ⟨score_eq_some.mp hscore, ?_⟩, rfl⟩
    simpa using hle

theorem score_add :
    (set.add member value).score other = if other = member then some value else set.score other := by
  split
  · rename_i hsame
    rw [hsame, score_eq_some]
    exact List.mem_append.mpr (Or.inr (List.mem_singleton.mpr rfl))
  · rename_i hother
    refine Option.ext fun found => ?_
    rw [score_eq_some, score_eq_some, add, List.mem_append, List.mem_filter, List.mem_singleton,
      Prod.mk.injEq]
    simp [hother]

/-! ## Members as finite sets -/

@[simp] theorem card_members (set : SortedSet Member) :
    set.members.toFinset.card = set.card := by
  rw [members, List.toFinset_card_of_nodup set.nodup, List.length_map, card]

theorem members_add :
    (set.add member value).members.toFinset = insert member set.members.toFinset := by
  ext other
  rw [List.mem_toFinset, ← is_some_score, score_add, Finset.mem_insert, List.mem_toFinset,
    ← is_some_score]
  split
  · rename_i hsame
    simp [hsame]
  · rename_i hother
    simp [hother]

theorem members_congr {first second : SortedSet Member}
    (h : ∀ member, first.score member = second.score member) :
    first.members.toFinset = second.members.toFinset := by
  ext member
  rw [List.mem_toFinset, List.mem_toFinset, ← is_some_score, ← is_some_score, h member]

theorem card_congr {first second : SortedSet Member}
    (h : ∀ member, first.score member = second.score member) : first.card = second.card := by
  rw [← card_members, ← card_members, members_congr h]

theorem card_add_ne_zero (set : SortedSet Member) (member : Member) (value : Int) :
    (set.add member value).card ≠ 0 := by
  rw [← card_members, members_add]
  exact Finset.card_ne_zero_of_mem (Finset.mem_insert_self member _)

theorem members_remove (removed : List Member) :
    (set.remove removed).members.toFinset = set.members.toFinset \ removed.toFinset := by
  ext other
  rw [List.mem_toFinset, ← is_some_score, score_remove, Finset.mem_sdiff, List.mem_toFinset,
    List.mem_toFinset, ← is_some_score]
  split
  · rename_i hmem
    simp [hmem]
  · rename_i hmem
    simp [hmem]

/-- `ZREM` replies 1 for a member. -/
theorem card_remove (h : member ∈ set.members) : set.card - (set.remove [member]).card = 1 := by
  rw [← List.mem_toFinset] at h
  have hpos := Finset.card_pos.mpr ⟨member, h⟩
  rw [← card_members set, ← card_members, members_remove, List.toFinset_cons, List.toFinset_nil,
    insert_empty_eq, Finset.sdiff_singleton_eq_erase, Finset.card_erase_of_mem h]
  omega

theorem members_keep_subset (test : Member × Int → Bool) :
    (set.keep test).members.toFinset ⊆ set.members.toFinset := by
  intro other hother
  rw [List.mem_toFinset] at hother ⊢
  exact (List.filter_sublist.map _).subset hother

theorem card_eq_zero : set.card = 0 ↔ ∀ member, set.score member = none := by
  rw [← card_members, Finset.card_eq_zero, Finset.eq_empty_iff_forall_notMem]
  refine forall_congr' fun member => ?_
  rw [List.mem_toFinset, score_eq_none]

end Members

/-! ## The lightest member -/

section Lightest

variable [LT Member] [DecidableLT Member]

/-- The entry with the lower score, or of two with one score the lower member. -/
def lighter (entry best : Member × Int) : Member × Int :=
  if entry.2 < best.2 ∨ entry.2 = best.2 ∧ entry.1 < best.1 then entry else best

/-- `ZRANGE 0 0 WITHSCORES`. -/
def lightest (set : SortedSet Member) : Option (Member × Int) :=
  set.entries.foldr (fun entry best => some (best.elim entry (lighter entry))) none

/-- The running minimum has the least score. -/
theorem lightest_entries (entries : List (Member × Int)) :
    match entries.foldr (fun entry best => some (best.elim entry (lighter entry))) none with
    | none => entries = []
    | some best => best ∈ entries ∧ ∀ entry ∈ entries, best.2 ≤ entry.2 := by
  induction entries with
  | nil => rfl
  | cons entry entries ih =>
      rw [List.foldr_cons]
      generalize entries.foldr (fun entry best => some (best.elim entry (lighter entry))) none =
        best at ih ⊢
      cases best with
      | none =>
          obtain rfl : entries = [] := ih
          exact ⟨List.mem_singleton.mpr rfl, fun other hother => by
            rw [List.mem_singleton.mp hother]
            exact le_rfl⟩
      | some best =>
          obtain ⟨hmem, hleast⟩ := ih
          change lighter entry best ∈ entry :: entries ∧
            ∀ other ∈ entry :: entries, (lighter entry best).2 ≤ other.2
          rw [lighter]
          split
          · rename_i hlt
            refine ⟨List.mem_cons_self, fun other hother => ?_⟩
            rcases List.mem_cons.mp hother with rfl | hother
            · exact le_rfl
            · have hbest := hleast other hother
              omega
          · rename_i hge
            refine ⟨List.mem_cons_of_mem _ hmem, fun other hother => ?_⟩
            rcases List.mem_cons.mp hother with rfl | hother
            · omega
            · exact hleast other hother

theorem lightest_eq_none {set : SortedSet Member} (h : set.lightest = none) : set.card = 0 := by
  have hentries := lightest_entries set.entries
  rw [lightest] at h
  rw [h] at hentries
  exact List.length_eq_zero_iff.mpr hentries

theorem lightest_eq_some [DecidableEq Member] {set : SortedSet Member} {best : Member × Int}
    (h : set.lightest = some best) :
    set.score best.1 = some best.2 ∧
      ∀ member value, set.score member = some value → best.2 ≤ value := by
  have hentries := lightest_entries set.entries
  rw [lightest] at h
  rw [h] at hentries
  exact ⟨score_eq_some.mpr hentries.1, fun member value hscore =>
    hentries.2 _ (score_eq_some.mp hscore)⟩

end Lightest

end SortedSet

end CatalogApi
