import CatalogApi.Lib.Counters
import CatalogApi.Lib.Groups
import CatalogApi.Lib.Slices
import Mathlib.Data.String.Basic

/-!
# Reports on an extraction

The violations of an extraction as the dashboard shows them (`extraction_analysis.py`): the summary
by rule, severity and entity type, the pages behind an entry of it, and the comparison of two
versions. The pages of a filter list what it admits, each once, and as many violations as the
summary counts (`summary_pages`); a comparison looks the same from either side (`compare_mirrored`).
-/

namespace CatalogApi.Extraction

open ByKey Counters

/-- A record of `violations.jsonl`, with the entity type of its directory; a key that is absent is
`none`. The record id stands for what is only passed on. -/
structure Violation where
  recordId : String
  entityType : String
  severity : Option String
  rule : Option String

/-- `violation.get("severity", "unknown")`. -/
def Violation.severityOf (violation : Violation) : String := violation.severity.getD "unknown"

/-- `violation.get("rule", "unknown")`. -/
def Violation.ruleOf (violation : Violation) : String := violation.rule.getD "unknown"

/-- A triple of texts in the order of tuples. -/
def Triple := String ×ₗ String ×ₗ String

instance : LinearOrder Triple := inferInstanceAs (LinearOrder (String ×ₗ String ×ₗ String))

def triple (first second third : String) : Triple := toLex (first, toLex (second, third))

theorem triple_inj {first second third first' second' third' : String} :
    triple first second third = triple first' second' third' ↔
      first = first' ∧ second = second' ∧ third = third' := by
  show toLex (first, toLex (second, third)) = toLex (first', toLex (second', third')) ↔ _
  rw [toLex_inj, Prod.mk.injEq, toLex_inj, Prod.mk.injEq]

/-- A loop that counts by a key. -/
def countBy {V : Type} [LinearOrder V] (key : Violation → V) (violations : List Violation) :
    Dict V Nat :=
  violations.foldl (fun counts violation => bump counts (key violation) 1) .empty

theorem count_by_counts {V : Type} [LinearOrder V] (key : Violation → V)
    (violations : List Violation) : Counts (countBy key violations) (violations.map key) := by
  induction violations using List.reverseRecOn with
  | nil => exact counts_empty
  | append_singleton violations violation ih =>
      rw [countBy, List.foldl_concat, List.map_append]
      have hbump := counts_bump ih Nat.one_pos (key violation)
      exact hbump.of_perm List.perm_append_comm

/-! ## The summary -/

/-- The counts of one entity type. -/
structure EntityEntry where
  total : Nat
  errors : Nat
  warnings : Nat

/-- One more violation of an entity type. -/
def EntityEntry.add (entry : EntityEntry) (violation : Violation) : EntityEntry where
  total := entry.total + 1
  errors := if violation.severityOf = "error" then entry.errors + 1 else entry.errors
  warnings :=
    if violation.severityOf = "error" then entry.warnings
    else if violation.severityOf = "warning" then entry.warnings + 1 else entry.warnings

/-- An entry of `by_rule`. -/
structure RuleEntry where
  rule : String
  entityType : String
  severity : String
  count : Nat

/-- What `_build_violation_summary` returns. -/
structure Summary where
  total : Nat
  bySeverity : Dict String Nat
  byEntity : Dict String EntityEntry
  byRule : List RuleEntry

/-- The key of `rule_key_counts`. -/
def ruleKey (violation : Violation) : Triple :=
  triple violation.ruleOf violation.entityType violation.severityOf

/-- An item of `rule_key_counts` as an entry. -/
def ruleEntry (item : Triple × Nat) : RuleEntry where
  rule := (ofLex item.1).1
  entityType := (ofLex (ofLex item.1).2).1
  severity := (ofLex (ofLex item.1).2).2
  count := item.2

/-- `_build_violation_summary`. -/
def buildViolationSummary (violations : List Violation) : Summary where
  total := violations.length
  bySeverity := countBy (·.severityOf) violations
  byEntity := violations.foldl
    (fun entries violation =>
      Groups.file (fun _ => ⟨0, 0, 0⟩) EntityEntry.add [violation.entityType] entries violation)
    .empty
  byRule := (sortBy (fun item => toLex item) (countBy ruleKey violations).entries).map ruleEntry

/-! ## The pages -/

/-- `_ViolationFilters`. -/
structure ViolationFilters where
  entityType : Option String
  severity : Option String
  rule : Option String

/-- `_ViolationFilters.apply`. -/
def ViolationFilters.apply (filters : ViolationFilters) (violations : List Violation) :
    List Violation :=
  violations.filter fun violation =>
    (filters.entityType = none ∨ some violation.entityType = filters.entityType) ∧
      (filters.severity = none ∨ violation.severity = filters.severity) ∧
      (filters.rule = none ∨ violation.rule = filters.rule)

/-- `_Page`. -/
structure Page where
  number : Nat
  size : Nat

/-- `_Page.slice`. -/
def Page.slice {α : Type} (page : Page) (items : List α) : List α :=
  (items.drop ((page.number - 1) * page.size)).take page.size

/-- `_violations_response`. -/
structure ViolationsResponse where
  violations : List Violation
  page : Nat
  pageSize : Nat
  totalItems : Nat
  totalPages : Nat

/-- `_violations_response`, with the page count rounded up. -/
def violationsResponse (violations : List Violation) (page : Page) : ViolationsResponse where
  violations := page.slice violations
  page := page.number
  pageSize := page.size
  totalItems := violations.length
  totalPages := max 1 (Slices.pageCount violations.length page.size)

/-- The pages of a filter, from the first to the last that a response names. -/
def allPages (violations : List Violation) (filters : ViolationFilters) (size : Nat) :
    List Violation :=
  (List.range (violationsResponse (filters.apply violations) ⟨1, size⟩).totalPages).flatMap fun n =>
    (violationsResponse (filters.apply violations) ⟨n + 1, size⟩).violations

theorem all_pages_eq (violations : List Violation) (filters : ViolationFilters) {size : Nat}
    (hsize : 0 < size) : allPages violations filters size = filters.apply violations := by
  have hpages : allPages violations filters size =
      (List.range (max 1 (Slices.pageCount (filters.apply violations).length size))).flatMap
        fun n => Slices.slice (filters.apply violations) n size := rfl
  rw [hpages]
  by_cases hzero : Slices.pageCount (filters.apply violations).length size = 0
  · have hnil : (filters.apply violations).length = 0 := by
      by_contra hne
      have hpos := Slices.page_count_pos (Nat.pos_of_ne_zero hne) hsize
      omega
    rw [List.length_eq_zero_iff.mp hnil, Slices.slices_take, List.take_nil]
  · rw [max_eq_right (Nat.one_le_iff_ne_zero.mpr hzero), Slices.slices_flatten _ hsize]

/-- The filters behind an entry of `by_rule`. -/
def RuleEntry.filters (entry : RuleEntry) : ViolationFilters where
  entityType := some entry.entityType
  severity := some entry.severity
  rule := some entry.rule

theorem mem_by_rule {violations : List Violation} {entry : RuleEntry} :
    entry ∈ (buildViolationSummary violations).byRule ↔
      triple entry.rule entry.entityType entry.severity ∈ violations.map ruleKey ∧
        entry.count = (violations.map ruleKey).count
          (triple entry.rule entry.entityType entry.severity) := by
  have hcounts := count_by_counts ruleKey violations
  show entry ∈ (sortBy _ _).map ruleEntry ↔ _
  rw [List.mem_map]
  constructor
  · rintro ⟨⟨key, n⟩, hitem, rfl⟩
    exact (hcounts key n).mp (mem_sort_by.mp hitem)
  · intro h
    exact ⟨(triple entry.rule entry.entityType entry.severity, entry.count),
      mem_sort_by.mpr ((hcounts _ _).mpr h), rfl⟩

/-- Every violation names its rule and its severity. -/
def Complete (violations : List Violation) : Prop :=
  ∀ violation ∈ violations, violation.severity.isSome ∧ violation.rule.isSome

instance (violations : List Violation) : Decidable (Complete violations) :=
  inferInstanceAs (Decidable (∀ violation ∈ violations, _))

theorem length_filters {violations : List Violation} (h : Complete violations) (entry : RuleEntry) :
    (entry.filters.apply violations).length =
      (violations.map ruleKey).count (triple entry.rule entry.entityType entry.severity) := by
  rw [List.count, List.countP_map, ViolationFilters.apply, ← List.countP_eq_length_filter]
  refine List.countP_congr fun violation hviolation => ?_
  obtain ⟨hseverity, hrule⟩ := h violation hviolation
  obtain ⟨severity, hseverity⟩ := Option.isSome_iff_exists.mp hseverity
  obtain ⟨rule, hrule⟩ := Option.isSome_iff_exists.mp hrule
  simp [RuleEntry.filters, ruleKey, triple_inj, Violation.ruleOf, Violation.severityOf, hseverity,
    hrule]
  tauto

theorem foldl_add_entity (held : List Violation) : held.foldl EntityEntry.add ⟨0, 0, 0⟩ =
    ⟨held.length, held.countP fun violation => violation.severityOf = "error",
      held.countP fun violation => violation.severityOf = "warning"⟩ := by
  induction held using List.reverseRecOn with
  | nil => rfl
  | append_singleton held violation ih =>
      rw [List.foldl_concat, ih]
      by_cases herror : violation.severityOf = "error"
      · simp [EntityEntry.add, herror]
      · by_cases hwarning : violation.severityOf = "warning"
        · simp [EntityEntry.add, hwarning]
        · simp [EntityEntry.add, herror, hwarning]

theorem get_by_entity (violations : List Violation) (entityType : String) :
    (buildViolationSummary violations).byEntity.get? entityType =
      let held := violations.filter fun violation => violation.entityType = entityType
      if held = [] then none
      else some ⟨held.length, held.countP fun violation => violation.severityOf = "error",
        held.countP fun violation => violation.severityOf = "warning"⟩ := by
  have hget := Groups.get_file_one (⟨0, 0, 0⟩ : EntityEntry) EntityEntry.add
    (fun violation : Violation => violation.entityType) violations entityType
  rw [foldl_add_entity] at hget
  exact hget

/-- The pages of a filter list what it admits, each violation once and in order. The summary has an
entry for each rule, entity type and severity that occur, in order and each once; behind an entry
are as many violations as it counts, and the entries count every violation. The severities and the
entity types are counted beside them. -/
theorem summary_pages (violations : List Violation) (h : Complete violations) {size : Nat}
    (hsize : 0 < size) :
    (∀ filters : ViolationFilters, allPages violations filters size = filters.apply violations) ∧
    (∀ entry ∈ (buildViolationSummary violations).byRule,
      0 < entry.count ∧ (allPages violations entry.filters size).length = entry.count) ∧
    (buildViolationSummary violations).byRule =
      (tally (violations.map ruleKey)).map ruleEntry ∧
    ((buildViolationSummary violations).byRule.map (·.count)).sum = violations.length ∧
    Counts (buildViolationSummary violations).bySeverity (violations.map (·.severityOf)) ∧
    ∀ entityType, (buildViolationSummary violations).byEntity.get? entityType =
      let held := violations.filter fun violation => violation.entityType = entityType
      if held = [] then none
      else some ⟨held.length, held.countP fun violation => violation.severityOf = "error",
        held.countP fun violation => violation.severityOf = "warning"⟩ := by
  have hitems : (buildViolationSummary violations).byRule =
      (tally (violations.map ruleKey)).map ruleEntry :=
    congrArg (List.map ruleEntry) (count_by_counts ruleKey violations).items
  refine ⟨fun filters => all_pages_eq violations filters hsize, fun entry hentry => ?_, hitems, ?_,
    count_by_counts (·.severityOf) violations, get_by_entity violations⟩
  · obtain ⟨hmem, hcount⟩ := mem_by_rule.mp hentry
    rw [all_pages_eq violations entry.filters hsize, length_filters h, hcount]
    exact ⟨List.count_pos_iff.mpr hmem, rfl⟩
  · rw [hitems, tally, List.map_map, List.map_map]
    have hsum := sum_all (violations.map ruleKey)
    rw [List.length_map] at hsum
    exact hsum

/-- Two releases without a year and an artist without a name. -/
def threeViolations : List Violation :=
  [⟨"17", "releases", some "warning", some "year-missing"⟩,
    ⟨"4", "artists", some "error", some "name-missing"⟩,
    ⟨"23", "releases", some "warning", some "year-missing"⟩]

theorem three_violations_pages :
    (allPages threeViolations ⟨some "releases", some "warning", some "year-missing"⟩ 1).length = 2 ∧
      (buildViolationSummary threeViolations).byEntity.get? "releases" = some ⟨2, 0, 2⟩ := by
  have hcomplete : Complete threeViolations := by decide
  obtain ⟨-, hentries, -, -, -, hentity⟩ :=
    summary_pages threeViolations hcomplete Nat.one_pos
  refine ⟨(hentries ⟨"year-missing", "releases", "warning", 2⟩ ?_).2, hentity "releases"⟩
  exact mem_by_rule.mpr ⟨by decide, by decide⟩

/-! ## The comparison of two versions -/

/-- `direction`. -/
inductive Direction where
  | improved | worsened | unchanged
  deriving DecidableEq

/-- The direction of a change of counts. -/
def directionOf (countA countB : Nat) : Direction :=
  if countA = 0 then .worsened
  else if countB = 0 then .improved
  else if countB < countA then .improved
  else if countA < countB then .worsened
  else .unchanged

/-- An element of `details`: `key` is its rule, severity and entity type. -/
structure Detail where
  key : Triple
  countA : Nat
  countB : Nat
  direction : Direction

/-- `summary`. -/
structure Totals where
  improved : Nat
  worsened : Nat
  unchanged : Nat
  newRules : Nat
  removedRules : Nat

/-- The key of `_count_violations`. -/
def compareKey (violation : Violation) : Triple :=
  triple violation.ruleOf violation.severityOf violation.entityType

/-- One more detail in the totals. -/
def Totals.add (totals : Totals) (detail : Detail) : Totals where
  improved := if detail.direction = .improved then totals.improved + 1 else totals.improved
  worsened := if detail.direction = .worsened then totals.worsened + 1 else totals.worsened
  unchanged := if detail.direction = .unchanged then totals.unchanged + 1 else totals.unchanged
  newRules := if detail.countA = 0 then totals.newRules + 1 else totals.newRules
  removedRules :=
    if detail.countA ≠ 0 ∧ detail.countB = 0 then totals.removedRules + 1 else totals.removedRules

/-- The detail of a key. -/
def detailOf (countsA countsB : Dict Triple Nat) (key : Triple) : Detail :=
  let countA := (countsA.get? key).getD 0
  let countB := (countsB.get? key).getD 0
  { key, countA, countB, direction := directionOf countA countB }

/-- `_compare_violation_counts`. -/
def compareViolationCounts (countsA countsB : Dict Triple Nat) : Totals × List Detail :=
  (sortedSet (Counters.keys countsA ++ Counters.keys countsB)).foldl (fun state key =>
    let detail := detailOf countsA countsB key
    (state.1.add detail, state.2 ++ [detail])) (⟨0, 0, 0, 0, 0⟩, [])

/-- The comparison of `compare_versions`. -/
def compareVersions (violationsA violationsB : List Violation) : Totals × List Detail :=
  compareViolationCounts (countBy compareKey violationsA) (countBy compareKey violationsB)

/-- What counts a change, from the other side. -/
def Direction.mirror : Direction → Direction
  | improved => worsened
  | worsened => improved
  | unchanged => unchanged

/-- A detail from the other side. -/
def Detail.mirror (detail : Detail) : Detail where
  key := detail.key
  countA := detail.countB
  countB := detail.countA
  direction := detail.direction.mirror

/-- Totals from the other side. -/
def Totals.mirror (totals : Totals) : Totals where
  improved := totals.worsened
  worsened := totals.improved
  unchanged := totals.unchanged
  newRules := totals.removedRules
  removedRules := totals.newRules

/-- The totals of details, without the loop. -/
def totalsOf (details : List Detail) : Totals where
  improved := details.countP fun detail => detail.direction = .improved
  worsened := details.countP fun detail => detail.direction = .worsened
  unchanged := details.countP fun detail => detail.direction = .unchanged
  newRules := details.countP fun detail => detail.countA = 0
  removedRules := details.countP fun detail => detail.countA ≠ 0 ∧ detail.countB = 0

theorem totals_of_concat (details : List Detail) (detail : Detail) :
    totalsOf (details ++ [detail]) = (totalsOf details).add detail := by
  have hcount : ∀ p : Detail → Prop, ∀ [DecidablePred p],
      (details ++ [detail]).countP (fun detail => p detail) =
        if p detail then details.countP (fun detail => p detail) + 1
        else details.countP fun detail => p detail := by
    intro p _
    by_cases hp : p detail
    · simp [hp]
    · simp [hp]
  simp only [totalsOf, Totals.add, hcount]

/-- The totals of mirrored details are mirrored. -/
theorem totals_of_mirror {details : List Detail}
    (h : ∀ detail ∈ details, 0 < detail.countA + detail.countB) :
    totalsOf (details.map (·.mirror)) = (totalsOf details).mirror := by
  have hcount : ∀ p q : Detail → Bool, (∀ detail ∈ details, p detail.mirror = q detail) →
      (details.map (·.mirror)).countP p = details.countP q := by
    intro p q hpq
    rw [List.countP_map]
    exact List.countP_congr fun detail hdetail => by simp [hpq detail hdetail]
  have himproved := hcount (·.direction = .improved) (·.direction = .worsened) fun detail _ => by
    cases hd : detail.direction <;> simp [Detail.mirror, Direction.mirror, hd]
  have hworsened := hcount (·.direction = .worsened) (·.direction = .improved) fun detail _ => by
    cases hd : detail.direction <;> simp [Detail.mirror, Direction.mirror, hd]
  have hunchanged := hcount (·.direction = .unchanged) (·.direction = .unchanged) fun detail _ => by
    cases hd : detail.direction <;> simp [Detail.mirror, Direction.mirror, hd]
  have hnew := hcount (·.countA = 0) (fun detail => detail.countA ≠ 0 ∧ detail.countB = 0)
    fun detail hdetail => by
      have hpos := h detail hdetail
      refine decide_eq_decide.mpr ?_
      show detail.countB = 0 ↔ _
      omega
  have hremoved := hcount (fun detail => detail.countA ≠ 0 ∧ detail.countB = 0) (·.countA = 0)
    fun detail hdetail => by
      have hpos := h detail hdetail
      refine decide_eq_decide.mpr ?_
      show detail.countB ≠ 0 ∧ detail.countA = 0 ↔ _
      omega
  rw [totalsOf, himproved, hworsened, hunchanged, hnew, hremoved]
  rfl

theorem compare_counts_eq (countsA countsB : Dict Triple Nat) :
    compareViolationCounts countsA countsB =
      let details := (sortedSet (Counters.keys countsA ++ Counters.keys countsB)).map
        (detailOf countsA countsB)
      (totalsOf details, details) := by
  rw [compareViolationCounts]
  generalize sortedSet (Counters.keys countsA ++ Counters.keys countsB) = keys
  induction keys using List.reverseRecOn with
  | nil => rfl
  | append_singleton keys key ih =>
      rw [List.foldl_concat, ih]
      simp only [List.map_append, List.map_cons, List.map_nil, totals_of_concat]

section Versions

variable (violationsA violationsB : List Violation)

/-- The keys of either version, in order. -/
def comparedKeys : List Triple :=
  sortedSet (violationsA.map compareKey ++ violationsB.map compareKey)

/-- The detail of a key, from the violations. -/
def detailAt (key : Triple) : Detail where
  key := key
  countA := (violationsA.map compareKey).count key
  countB := (violationsB.map compareKey).count key
  direction := directionOf ((violationsA.map compareKey).count key)
    ((violationsB.map compareKey).count key)

theorem compare_versions_eq : compareVersions violationsA violationsB =
    (totalsOf ((comparedKeys violationsA violationsB).map (detailAt violationsA violationsB)),
      (comparedKeys violationsA violationsB).map (detailAt violationsA violationsB)) := by
  have hA := count_by_counts compareKey violationsA
  have hB := count_by_counts compareKey violationsB
  have hkeys : sortedSet (Counters.keys (countBy compareKey violationsA) ++
      Counters.keys (countBy compareKey violationsB)) = comparedKeys violationsA violationsB :=
    sorted_set_congr fun key => by
      rw [List.mem_append, List.mem_append, hA.mem_keys, hB.mem_keys]
  have hdetail : detailOf (countBy compareKey violationsA) (countBy compareKey violationsB) =
      detailAt violationsA violationsB := by
    funext key
    simp only [detailOf, detailAt, hA.get, hB.get]
  rw [compareVersions, compare_counts_eq, hkeys, hdetail]

/-- A compared key is counted on some side, so the direction is that of the counts. -/
theorem direction_iff {detail : Detail}
    (h : detail ∈ (compareVersions violationsA violationsB).2) :
    (detail.direction = .improved ↔ detail.countB < detail.countA) ∧
      (detail.direction = .worsened ↔ detail.countA < detail.countB) ∧
      (detail.direction = .unchanged ↔ detail.countA = detail.countB) ∧
      0 < detail.countA + detail.countB := by
  rw [compare_versions_eq] at h
  obtain ⟨key, hkey, rfl⟩ := List.mem_map.mp h
  have hpos : 0 < (violationsA.map compareKey).count key +
      (violationsB.map compareKey).count key := by
    rw [comparedKeys, mem_sorted_set, List.mem_append] at hkey
    rcases hkey with hkey | hkey
    · have hcount := List.count_pos_iff.mpr hkey
      omega
    · have hcount := List.count_pos_iff.mpr hkey
      omega
  show (directionOf _ _ = _ ↔ _) ∧ (directionOf _ _ = _ ↔ _) ∧ (directionOf _ _ = _ ↔ _) ∧ 0 < _
  simp only [detailAt]
  unfold directionOf
  refine ⟨?_, ?_, ?_, hpos⟩
  · split_ifs <;> simp <;> omega
  · split_ifs <;> simp <;> omega
  · split_ifs <;> simp <;> omega

theorem detail_at_mirror {key : Triple} (h : key ∈ comparedKeys violationsA violationsB) :
    detailAt violationsB violationsA key = (detailAt violationsA violationsB key).mirror := by
  have hmem : detailAt violationsA violationsB key ∈
      (compareVersions violationsA violationsB).2 := by
    rw [compare_versions_eq]
    exact List.mem_map_of_mem h
  obtain ⟨himproved, hworsened, hunchanged, -⟩ := direction_iff violationsA violationsB hmem
  have hmem' : detailAt violationsB violationsA key ∈
      (compareVersions violationsB violationsA).2 := by
    rw [compare_versions_eq]
    refine List.mem_map_of_mem ?_
    rw [comparedKeys, mem_sorted_set, List.mem_append] at h ⊢
    exact h.symm
  obtain ⟨himproved', hworsened', hunchanged', -⟩ := direction_iff violationsB violationsA hmem'
  have hdirection : (detailAt violationsB violationsA key).direction =
      (detailAt violationsA violationsB key).direction.mirror := by
    cases hd : (detailAt violationsA violationsB key).direction with
    | improved => exact hworsened'.mpr (himproved.mp hd)
    | worsened => exact himproved'.mpr (hworsened.mp hd)
    | unchanged => exact hunchanged'.mpr (hunchanged.mp hd).symm
  rw [Detail.mirror, ← hdirection]
  rfl

end Versions

/-- A comparison has a detail for each rule, severity and entity type of either version, in order
and each once, with the counts of both and the direction between them; its totals are those of its
details, which count every violation; and it looks the same from the other side. -/
theorem compare_mirrored (violationsA violationsB : List Violation) :
    (compareVersions violationsA violationsB).2 =
      (comparedKeys violationsA violationsB).map (detailAt violationsA violationsB) ∧
    (∀ detail ∈ (compareVersions violationsA violationsB).2,
      (detail.direction = .improved ↔ detail.countB < detail.countA) ∧
        (detail.direction = .worsened ↔ detail.countA < detail.countB) ∧
        (detail.direction = .unchanged ↔ detail.countA = detail.countB) ∧
        0 < detail.countA + detail.countB) ∧
    (compareVersions violationsA violationsB).1 =
      totalsOf (compareVersions violationsA violationsB).2 ∧
    ((compareVersions violationsA violationsB).2.map (·.countA)).sum = violationsA.length ∧
    ((compareVersions violationsA violationsB).2.map (·.countB)).sum = violationsB.length ∧
    compareVersions violationsB violationsA =
      ((compareVersions violationsA violationsB).1.mirror,
        (compareVersions violationsA violationsB).2.map (·.mirror)) := by
  have hnodup : (comparedKeys violationsA violationsB).Nodup := sorted_set_nodup _
  refine ⟨by rw [compare_versions_eq], fun detail hdetail =>
    direction_iff violationsA violationsB hdetail, by rw [compare_versions_eq], ?_, ?_, ?_⟩
  · rw [compare_versions_eq, List.map_map]
    have hsum := sum_counts hnodup fun a (ha : a ∈ violationsA.map compareKey) =>
      mem_sorted_set.mpr (List.mem_append_left _ ha)
    rw [List.length_map] at hsum
    exact hsum
  · rw [compare_versions_eq, List.map_map]
    have hsum := sum_counts hnodup fun a (ha : a ∈ violationsB.map compareKey) =>
      mem_sorted_set.mpr (List.mem_append_right _ ha)
    rw [List.length_map] at hsum
    exact hsum
  · have hkeys : comparedKeys violationsB violationsA = comparedKeys violationsA violationsB :=
      sorted_set_congr fun key => by
        rw [List.mem_append, List.mem_append]
        exact or_comm
    have hdetails : (comparedKeys violationsB violationsA).map (detailAt violationsB violationsA) =
        ((comparedKeys violationsA violationsB).map (detailAt violationsA violationsB)).map
          (·.mirror) := by
      rw [hkeys, List.map_map]
      exact List.map_congr_left fun key hkey => detail_at_mirror violationsA violationsB hkey
    have hpos : ∀ detail ∈ (comparedKeys violationsA violationsB).map
        (detailAt violationsA violationsB), 0 < detail.countA + detail.countB := by
      intro detail hdetail
      refine (@direction_iff violationsA violationsB detail ?_).2.2.2
      rw [compare_versions_eq]
      exact hdetail
    -- a detail that counted nothing on either side would be new from both
    rw [compare_versions_eq violationsB violationsA, hdetails, totals_of_mirror hpos,
      compare_versions_eq]

end CatalogApi.Extraction
