import CatalogApi.Strata.Focus
import CatalogApi.Strata.Groups

/-!
# Ids and cursors as text

On a catalog whose ids are digits (`Catalog.Valid`) a credit is recovered from its id, and a
credit and a label are recovered from a cursor (`parse_credit_id`, `parse_credit_label`), so ids
of different entries differ.
-/

namespace CatalogApi.Strata

open Text

/-- The catalogs the graph returns: digit ids, every Discogs credit holds the root, and the
Discogs ids are distinct. -/
structure Catalog.Valid (catalog : Catalog) : Prop where
  root : isDigit catalog.rootId
  ids : ∀ release ∈ catalog.releases, release.provider = .discogs → isDigit release.id
  masters : ∀ release ∈ catalog.releases, ∀ masterId, release.masterId = some masterId →
    isDigit masterId
  credits : ∀ release ∈ catalog.releases, release.provider = .discogs →
    catalog.rootId ∈ release.credit ∧ ∀ artist ∈ release.credit, isDigit artist
  distinct : ((catalog.releases.filter fun release => release.provider = .discogs).map
    (·.id)).Nodup

/-! ## Labels -/

theorem nat_digits {n : Nat} {c : Char} (h : c ∈ (Nat.repr n).toList) : c.isDigit := by
  rw [Nat.repr, String.toList_ofList] at h
  exact Nat.isDigit_of_mem_toDigits (by decide) (by decide) h

/-- The decimal form of an integer holds digits and a minus sign only. -/
theorem to_string_int_chars {n : Int} {c : Char} (h : c ∈ (toString n).toList) :
    c = '-' ∨ c.isDigit := by
  rw [Int.toString_eq_repr] at h
  cases n with
  | ofNat n => exact Or.inr (nat_digits h)
  | negSucc n =>
      rw [Int.repr, String.toList_append, List.mem_append] at h
      rcases h with h | h
      · exact Or.inl (List.mem_singleton.mp h)
      · exact Or.inr (nat_digits h)

/-- A decade label holds no colon. -/
theorem decade_lacks_colon (year : Option Int) : Lacks ':' (decade year) := by
  cases year with
  | none => decide
  | some year =>
      intro h
      rw [decade, String.toList_append, List.mem_append] at h
      rcases h with h | h
      · rcases to_string_int_chars h with h | h
        · cases h
        · cases h
      · exact absurd h (by decide)

theorem decade_ne_empty (year : Option Int) : decade year ≠ "" := by
  cases year with
  | none => decide
  | some year =>
      intro h
      have hlen := congrArg (·.toList.length) h
      simp [decade] at hlen

/-- No decade is labelled like the bucket of all masters. -/
theorem decade_ne_all (year : Option Int) : decade year ≠ all := by
  cases year with
  | none => decide
  | some year =>
      intro h
      have hlast := congrArg (·.toList.getLast?) h
      simp [decade, all] at hlast

/-! ## Credits -/

/-- A credit of digit ids, with at least one. -/
structure PlainCredit (credit : Credit) : Prop where
  ne_nil : credit ≠ []
  digits : ∀ artist ∈ credit, isDigit artist

theorem PlainCredit.lacks {credit : Credit} (h : PlainCredit credit) {c : Char}
    (hc : c.isDigit = false) : ∀ artist ∈ credit, Lacks c artist :=
  fun artist hartist => is_digit_lacks (h.digits artist hartist) hc

theorem PlainCredit.join_lacks {credit : Credit} (h : PlainCredit credit) :
    Lacks ':' (join '+' credit) :=
  lacks_join (by decide) (h.lacks (by decide))

theorem PlainCredit.join_ne_empty {credit : Credit} (h : PlainCredit credit) :
    join '+' credit ≠ "" := by
  intro hempty
  have hsplit := split_join h.ne_nil (h.lacks (by decide : ('+').isDigit = false))
  rw [hempty] at hsplit
  have hone : split '+' "" = [""] := by decide
  rw [hone] at hsplit
  have hdigit := h.digits "" (hsplit ▸ List.mem_singleton.mpr rfl)
  exact is_digit_ne_empty hdigit rfl

theorem credit_id_join (credit : Credit) : creditId credit = join ':' ["c", join '+' credit] := by
  rw [creditId, ← String.toList_inj, to_list_join, String.toList_append]
  simp [List.intercalate_cons_cons]

theorem credit_label_join (credit : Credit) (label : String) :
    creditId credit ++ ":" ++ label = join ':' ["c", join '+' credit, label] := by
  rw [creditId, ← String.toList_inj, to_list_join]
  simp [List.intercalate_cons_cons]

namespace Ladder

/-- A credit is recovered from its id. -/
theorem parse_credit_id {credit : Credit} (h : PlainCredit credit) :
    parseCredit (creditId credit) = (some credit, none) := by
  have hsplit : split ':' (creditId credit) = ["c", join '+' credit] := by
    rw [credit_id_join]
    refine split_join (List.cons_ne_nil _ _) fun part hpart => ?_
    simp only [List.mem_cons, List.not_mem_nil, or_false] at hpart
    rcases hpart with rfl | rfl
    · decide
    · exact h.join_lacks
  rw [parseCredit, hsplit]
  dsimp only
  rw [if_neg (by simp [h.join_ne_empty]), split_join h.ne_nil (h.lacks (by decide))]

/-- A credit and a label are recovered from a cursor. -/
theorem parse_credit_label {credit : Credit} (h : PlainCredit credit) {label : String}
    (hlabel : Lacks ':' label) :
    parseCredit (creditId credit ++ ":" ++ label) = (some credit, some label) := by
  have hsplit : split ':' (creditId credit ++ ":" ++ label) =
      ["c", join '+' credit, label] := by
    rw [credit_label_join]
    refine split_join (List.cons_ne_nil _ _) fun part hpart => ?_
    simp only [List.mem_cons, List.not_mem_nil, or_false] at hpart
    rcases hpart with rfl | rfl | rfl
    · decide
    · exact h.join_lacks
    · exact hlabel
  rw [parseCredit, hsplit]
  dsimp only
  rw [if_neg (by simp [h.join_ne_empty]), split_join h.ne_nil (h.lacks (by decide))]

end Ladder

theorem credit_id_inj {credit credit' : Credit} (h : PlainCredit credit)
    (h' : PlainCredit credit') (heq : creditId credit = creditId credit') : credit = credit' := by
  have hparse := Ladder.parse_credit_id h
  rw [heq, Ladder.parse_credit_id h'] at hparse
  exact (Option.some.inj (congrArg Prod.fst hparse)).symm

theorem credit_label_inj {credit credit' : Credit} (h : PlainCredit credit)
    (h' : PlainCredit credit') {label label' : String} (hlabel : Lacks ':' label)
    (hlabel' : Lacks ':' label')
    (heq : creditId credit ++ ":" ++ label = creditId credit' ++ ":" ++ label') :
    credit = credit' ∧ label = label' := by
  have hparse := Ladder.parse_credit_label h hlabel
  rw [heq, Ladder.parse_credit_label h' hlabel'] at hparse
  exact ⟨(Option.some.inj (congrArg Prod.fst hparse)).symm,
    (Option.some.inj (congrArg Prod.snd hparse)).symm⟩

/-- A credit alone is no credit with a label. -/
theorem credit_ne_label {credit credit' : Credit} (h : PlainCredit credit)
    (h' : PlainCredit credit') {label : String} (hlabel : Lacks ':' label) :
    creditId credit ≠ creditId credit' ++ ":" ++ label := by
  intro heq
  have hparse := Ladder.parse_credit_id h
  rw [heq, Ladder.parse_credit_label h' hlabel] at hparse
  cases congrArg Prod.snd hparse

theorem credit_id_ne_other {credit : Credit} (h : PlainCredit credit) :
    creditId credit ≠ otherCredits := by
  intro heq
  have hparse := Ladder.parse_credit_id h
  have hother : Ladder.parseCredit otherCredits = (some ["other"], none) := by decide
  rw [heq, hother] at hparse
  obtain rfl := Option.some.inj (congrArg Prod.fst hparse)
  exact absurd (h.digits "other" (List.mem_singleton.mpr rfl)) (by decide)

/-! ## The names of a built ladder -/

/-- The ids of a ladder are digits. -/
structure Ladder.Named (ladder : Ladder) : Prop where
  masters : ∀ masterId ∈ ladder.masterIds, isDigit masterId
  credits : ∀ credit ∈ ladder.creditOrder, PlainCredit credit

section Build

variable {catalog : Catalog} {marks : Option Marks}

theorem place_release {release : Release} {item : Item}
    (h : place catalog marks release = some item) : item.release = release := by
  unfold place at h
  dsimp only at h
  split at h
  · obtain rfl := Option.some.inj h
    rfl
  · split at h
    · obtain rfl := Option.some.inj h
      rfl
    · cases h

/-- An item is placed from a release of the catalog, under its own credit when it has no
master. -/
theorem placed_release {item : Item} (h : item ∈ placed catalog marks) :
    item.release ∈ catalog.releases ∧
      (item.release.provider = .discogs ∧ item.credit = item.release.credit ∨
        ∃ masterId release, item.release.masterId = some masterId ∧
          original catalog masterId = some release) := by
  obtain ⟨release, hrelease, hplace⟩ := List.mem_filterMap.mp h
  unfold place at hplace
  dsimp only at hplace
  cases hprovider : release.provider with
  | discogs =>
      rw [hprovider] at hplace
      obtain rfl := Option.some.inj hplace
      exact ⟨hrelease, Or.inl ⟨hprovider, rfl⟩⟩
  | musicbrainz =>
      rw [hprovider] at hplace
      dsimp only at hplace
      cases hfound : release.masterId.bind (original catalog) with
      | none =>
          rw [hfound] at hplace
          cases hplace
      | some found =>
          rw [hfound] at hplace
          obtain rfl := Option.some.inj hplace
          obtain ⟨masterId, hmaster, horiginal⟩ := Option.bind_eq_some_iff.mp hfound
          exact ⟨hrelease, Or.inr ⟨masterId, found, hmaster, horiginal⟩⟩

/-- An item is determined by its release. -/
theorem placed_eq {item other : Item} (hitem : item ∈ placed catalog marks)
    (hother : other ∈ placed catalog marks) (h : item.release = other.release) :
    item = other := by
  obtain ⟨release, -, hplace⟩ := List.mem_filterMap.mp hitem
  obtain ⟨release', -, hplace'⟩ := List.mem_filterMap.mp hother
  rw [place_release hplace, place_release hplace'] at h
  rw [h, hplace'] at hplace
  exact (Option.some.inj hplace).symm

theorem original_mem {masterId : String} {release : Release}
    (h : original catalog masterId = some release) :
    release ∈ catalog.releases ∧ release.provider = .discogs ∧
      release.masterId = some masterId := by
  have hmem := ByKey.first_by_mem h
  rw [byMaster, List.mem_filter, decide_eq_true_eq] at hmem
  exact hmem

/-- Every placed master has an original. -/
theorem placed_original {masterId : String} (h : masterId ∈ placedMasters catalog marks) :
    ∃ release, original catalog masterId = some release := by
  obtain ⟨item, hitem, hmaster⟩ := mem_placed_masters.mp h
  obtain ⟨hrelease, ⟨hprovider, -⟩ | ⟨other, release, hother, horiginal⟩⟩ := placed_release hitem
  · cases horiginal : original catalog masterId with
    | some release => exact ⟨release, rfl⟩
    | none =>
        rw [original, ByKey.first_by_eq_none] at horiginal
        have hmem : item.release ∈ byMaster catalog masterId := by
          rw [byMaster, List.mem_filter, decide_eq_true_eq]
          exact ⟨hrelease, hprovider, hmaster⟩
        rw [horiginal] at hmem
        cases hmem
  · rw [hmaster] at hother
    obtain rfl := Option.some.inj hother
    exact ⟨release, horiginal⟩

theorem Catalog.Valid.plain_credit (hcatalog : catalog.Valid) {release : Release}
    (hrelease : release ∈ catalog.releases) (hprovider : release.provider = .discogs) :
    PlainCredit release.credit := by
  obtain ⟨hroot, hdigits⟩ := hcatalog.credits release hrelease hprovider
  exact ⟨List.ne_nil_of_mem hroot, hdigits⟩

theorem build_named (hcatalog : catalog.Valid) (marks : Option Marks) :
    (Ladder.build catalog marks).Named where
  masters := by
    intro masterId h
    obtain ⟨item, hitem, hmaster⟩ := mem_placed_masters.mp h
    exact hcatalog.masters item.release (placed_release hitem).1 masterId hmaster
  credits := by
    intro credit h
    rcases mem_credit_order.mp h with rfl | h
    · refine ⟨List.cons_ne_nil _ _, fun artist hartist => ?_⟩
      rw [List.mem_singleton.mp hartist]
      exact hcatalog.root
    · rw [placedCredits, List.mem_eraseDups, List.mem_append] at h
      rcases h with h | h
      · obtain ⟨masterId, hplaced, rfl⟩ := List.mem_map.mp h
        obtain ⟨release, horiginal⟩ := placed_original hplaced
        obtain ⟨hrelease, hprovider, -⟩ := original_mem horiginal
        rw [creditOfMaster, horiginal]
        exact hcatalog.plain_credit hrelease hprovider
      · obtain ⟨item, hitem, hmaster, rfl⟩ := mem_placed_lanes.mp h
        obtain ⟨hrelease, ⟨hprovider, hcredit⟩ | ⟨masterId, -, hsome, -⟩⟩ := placed_release hitem
        · rw [hcredit]
          exact hcatalog.plain_credit hrelease hprovider
        · rw [hmaster] at hsome
          cases hsome

end Build

end CatalogApi.Strata
