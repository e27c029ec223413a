import CatalogApi.Lib.ByKey
import CatalogApi.Lib.Updates
import CatalogApi.Lib.WeightedMean
import Mathlib.Algebra.Order.Field.Rat
import Mathlib.Data.String.Basic

/-!
# The rarity composite

`api/rarity/core.py` from the tiers on, `api/rarity/families` and `score_release` of
`api/rarity/composite.py`: a weighted mean of the signals that are present, with the weights
renormalised over them. Signals and weights are exact rationals. A module's queries, and what of a
release no module reads, are left out.
-/

namespace CatalogApi.Rarity

open ByKey WeightedMean

/-! ## Tiers -/

/-- The tier labels. -/
inductive Tier where
  | ultraRare | rare | scarce | uncommon | common

/-- The place of a tier, from the common one up. -/
def Tier.rank : Tier → Nat
  | .ultraRare => 4
  | .rare => 3
  | .scarce => 2
  | .uncommon => 1
  | .common => 0

/-- `RARITY_TIERS`. -/
def rarityTiers : List (ℚ × Tier) :=
  [(80, .ultraRare), (60, .rare), (40, .scarce), (20, .uncommon), (0, .common)]

/-- The tier of the first threshold that the score reaches. -/
def reachedTier (tiers : List (ℚ × Tier)) (score : ℚ) : Tier :=
  ((tiers.find? fun tier => score ≥ tier.1).map (·.2)).getD .common

/-- `compute_rarity_tier`. -/
def computeRarityTier (score : ℚ) : Tier := reachedTier rarityTiers score

/-- Thresholds whose tiers go down read a higher score no lower. -/
theorem reached_tier_mono {tiers : List (ℚ × Tier)}
    (hdown : tiers.Pairwise fun upper lower => lower.2.rank ≤ upper.2.rank) {score score' : ℚ}
    (hle : score ≤ score') : (reachedTier tiers score).rank ≤ (reachedTier tiers score').rank := by
  unfold reachedTier
  induction tiers with
  | nil => exact le_rfl
  | cons tier tiers ih =>
      obtain ⟨hfirst, hrest⟩ := List.pairwise_cons.mp hdown
      by_cases hreached : tier.1 ≤ score
      · simp [hreached, hreached.trans hle]
      · by_cases hreached' : tier.1 ≤ score'
        · simp only [List.find?_cons, ge_iff_le, hreached, hreached', decide_false, decide_true,
            Option.map_some, Option.getD_some]
          cases hfind : tiers.find? fun tier => tier.1 ≤ score with
          | none => exact Nat.zero_le _
          | some found => exact hfirst found (List.mem_of_find?_eq_some hfind)
        · simpa only [List.find?_cons, ge_iff_le, hreached, hreached', decide_false] using ih hrest

theorem compute_rarity_tier_mono {score score' : ℚ} (h : score ≤ score') :
    (computeRarityTier score).rank ≤ (computeRarityTier score').rank :=
  reached_tier_mono (by decide) h

/-! ## Weights and composition -/

/-- `CORE_SIGNAL_WEIGHTS`. -/
def coreSignalWeights : Dict String ℚ where
  entries := [("label_catalog", 10 / 100), ("medium_rarity", 10 / 100),
    ("temporal_scarcity", 20 / 100), ("graph_isolation", 15 / 100),
    ("collection_prevalence", 20 / 100)]
  nodup := by decide

/-- The names of the signals that have a weight, sorted. -/
def presentNames (signals weights : Dict String ℚ) : List String :=
  sortBy id (signals.keys.filter fun name => (weights.get? name).isSome)

/-- `weights[name]` and `signals[name]`, of a name that is there. -/
def at? (mapping : Dict String ℚ) (name : String) : ℚ := (mapping.get? name).getD 0

theorem present_nodup (signals weights : Dict String ℚ) : (presentNames signals weights).Nodup :=
  sort_by_nodup (signals.nodup.filter _)

/-- `effective_weights`, of the keys of the signals. -/
def effectiveWeights (signals weights : Dict String ℚ) : Dict String ℚ :=
  let present := presentNames signals weights
  let total := (present.map (at? weights)).sum
  if total ≤ 0 then .empty
  else .ofKeys present (present_nodup signals weights) fun name => at? weights name / total

/-- `compose`. -/
def compose (signals weights : Dict String ℚ) : ℚ :=
  let applied := effectiveWeights signals weights
  if applied.entries = [] then 0
  else ((sortBy id applied.keys).map fun name => at? applied name * at? signals name).sum

/-! ## Family modules -/

/-- What a module reads of a release: its families and the rows of the family queries. -/
structure ReleaseContext where
  families : List String
  facts : Dict String (Dict String (Option Int))

/-- A family extension module. -/
structure FamilySignals where
  moduleId : String
  weights : Dict String ℚ
  appliesTo : List String → Bool
  signals : ReleaseContext → Dict String ℚ

/-- `_REGISTRY`: the module object of each family, objects told apart by `ι`. -/
structure Registry (ι : Type) where
  families : Dict String ι
  object : ι → FamilySignals

variable {ι : Type} [DecidableEq ι]

/-- `distinct_modules`. -/
def Registry.distinctModules (registry : Registry ι) : List ι :=
  (registry.families.entries.map (·.2)).eraseDups

/-- `modules_for`. -/
def Registry.modulesFor (registry : Registry ι) (families : List String) : List ι :=
  (families.filterMap registry.families.get?).eraseDups.filter fun m =>
    (registry.object m).appliesTo families

/-- `module_weights`. -/
def Registry.moduleWeights (registry : Registry ι) : Dict String (Dict String ℚ) :=
  registry.distinctModules.foldl (fun declared m =>
    declared.set (registry.object m).moduleId (registry.object m).weights) .empty

/-- `compute_pressing_scarcity_score`. -/
def computePressingScarcityScore (pressingCount : Int) : ℚ :=
  if pressingCount ≤ 0 then 90
  else if pressingCount = 1 then 100
  else if pressingCount = 2 then 85
  else if pressingCount ≤ 5 then 60
  else if pressingCount ≤ 10 then 35
  else 10

/-- `GROOVED_FAMILIES`. -/
def groovedFamilies : List String := ["vinyl", "shellac", "grooved_other"]

/-- `GroovedSignals`. -/
def groovedSignals : FamilySignals where
  moduleId := "grooved"
  weights := ⟨[("pressing_scarcity", 25 / 100)], List.nodup_singleton _⟩
  appliesTo families := families.any fun family => family ∈ groovedFamilies
  signals releaseCtx :=
    let row := (releaseCtx.facts.get? "grooved_pressing").getD .empty
    let pressingCount := ((row.get? "pressing_count").getD none).getD 0
    ⟨[("pressing_scarcity", computePressingScarcityScore pressingCount)], List.nodup_singleton _⟩

/-- The installed modules. -/
def installed : Registry Unit where
  families := .ofKeys groovedFamilies (by decide) fun _ => ()
  object _ := groovedSignals

/-! ## Scoring a release -/

/-- One release's composite score and the evidence behind it. -/
structure RarityScore where
  score : ℚ
  tier : Tier
  signals : Dict String ℚ
  familySignals : Dict String (Dict String ℚ)
  weights : Dict String ℚ

/-- The mappings that the loop over the modules fills. -/
structure Composition where
  signals : Dict String ℚ
  weights : Dict String ℚ
  familySignals : Dict String (Dict String ℚ)

/-- One module of the loop. -/
def Composition.add (releaseCtx : ReleaseContext) (composition : Composition)
    (m : FamilySignals) : Composition :=
  let contributed := m.signals releaseCtx
  if contributed.entries = [] then composition
  else
    { signals := composition.signals.update contributed
      weights := composition.weights.update m.weights
      familySignals := composition.familySignals.set m.moduleId contributed }

/-- The mappings after the loop. -/
def composition (registry : Registry ι) (releaseCtx : ReleaseContext)
    (coreSignals : Dict String ℚ) : Composition :=
  (registry.modulesFor releaseCtx.families).foldl
    (fun composition m => composition.add releaseCtx (registry.object m))
    { signals := coreSignals, weights := coreSignalWeights, familySignals := .empty }

/-- `score_release`. -/
def scoreRelease (registry : Registry ι) (releaseCtx : ReleaseContext)
    (coreSignals : Dict String ℚ) : RarityScore :=
  let composed := composition registry releaseCtx coreSignals
  let score := compose composed.signals composed.weights
  { score := score
    tier := computeRarityTier score
    signals := composed.signals
    familySignals := composed.familySignals
    weights := effectiveWeights composed.signals composed.weights }

/-! ## The composition as a weighted mean -/

theorem mem_present {signals weights : Dict String ℚ} {name : String} :
    name ∈ presentNames signals weights ↔
      (∃ value, signals.get? name = some value) ∧ ∃ weight, weights.get? name = some weight := by
  rw [presentNames, mem_sort_by, List.mem_filter, Dict.mem_keys, Option.isSome_iff_exists]

theorem at_of_get {mapping : Dict String ℚ} {name : String} {value : ℚ}
    (h : mapping.get? name = some value) : at? mapping name = value := by
  rw [at?, h, Option.getD_some]

/-- The present names are decided by which names have a signal and which have a weight. -/
theorem present_congr {signals signals' weights weights' : Dict String ℚ}
    (h : ∀ name, name ∈ presentNames signals weights ↔ name ∈ presentNames signals' weights') :
    presentNames signals weights = presentNames signals' weights' := by
  refine sort_by_eq_of_perm ?_ fun _ _ _ _ heq => heq
  refine (List.perm_ext_iff_of_nodup (signals.nodup.filter _) (signals'.nodup.filter _)).mpr ?_
  intro name
  simpa only [presentNames, mem_sort_by, Dict.keys] using h name

/-- Every declared weight is positive. -/
def Positive (weights : Dict String ℚ) : Prop :=
  ∀ name weight, weights.get? name = some weight → 0 < weight

section Mean

variable {signals weights : Dict String ℚ} (hpositive : Positive weights)
  (hpresent : presentNames signals weights ≠ [])
include hpositive

theorem present_weight_pos {name : String} (h : name ∈ presentNames signals weights) :
    0 < at? weights name := by
  obtain ⟨-, weight, hweight⟩ := mem_present.mp h
  rw [at_of_get hweight]
  exact hpositive name weight hweight

include hpresent

theorem total_pos : 0 < total (at? weights) (presentNames signals weights) := by
  refine List.sum_pos _ (List.forall_mem_map.mpr fun name hname => ?_) ?_
  · exact present_weight_pos hpositive hname
  · simpa using hpresent

theorem effective_weights_eq : effectiveWeights signals weights =
    .ofKeys (presentNames signals weights) (present_nodup signals weights) fun name =>
      at? weights name / total (at? weights) (presentNames signals weights) :=
  if_neg (not_le_of_gt (total_pos hpositive hpresent))

theorem get_effective {name : String} {weight : ℚ} :
    (effectiveWeights signals weights).get? name = some weight ↔
      name ∈ presentNames signals weights ∧
        at? weights name / total (at? weights) (presentNames signals weights) = weight := by
  rw [effective_weights_eq hpositive hpresent, Dict.get_of_keys]
  simp

theorem at_effective {name : String} (h : name ∈ presentNames signals weights) :
    at? (effectiveWeights signals weights) name =
      at? weights name / total (at? weights) (presentNames signals weights) :=
  at_of_get ((get_effective hpositive hpresent).mpr ⟨h, rfl⟩)

theorem at_effective_of_absent {name : String} (h : name ∉ presentNames signals weights) :
    at? (effectiveWeights signals weights) name = 0 := by
  rw [effective_weights_eq hpositive hpresent, at?, Dict.get_of_keys, if_neg h, Option.getD_none]

/-- The composed score adds up the present signals by their effective weights. -/
theorem compose_eq_sum : compose signals weights = ((presentNames signals weights).map fun name =>
    at? (effectiveWeights signals weights) name * at? signals name).sum := by
  have hkeys : (effectiveWeights signals weights).keys = presentNames signals weights := by
    rw [effective_weights_eq hpositive hpresent, Dict.keys_of_keys]
  have hne : (effectiveWeights signals weights).entries ≠ [] := fun hnil =>
    hpresent (by rw [← hkeys, Dict.keys, hnil, List.map_nil])
  rw [compose, if_neg hne, hkeys]
  exact ((sort_by_perm (id : String → String) (presentNames signals weights)).map _).sum_eq

/-- The composed score is the weighted mean of the present signals. -/
theorem compose_eq_mean : compose signals weights =
    mean (at? weights) (at? signals) (presentNames signals weights) := by
  rw [compose_eq_sum hpositive hpresent, mean, div_eq_mul_inv, ← List.sum_map_mul_right]
  refine congrArg List.sum (List.map_congr_left fun name hname => ?_)
  rw [at_effective hpositive hpresent hname, div_eq_mul_inv, mul_right_comm]

theorem effective_pos {name : String} {weight : ℚ}
    (h : (effectiveWeights signals weights).get? name = some weight) : 0 < weight := by
  obtain ⟨hname, rfl⟩ := (get_effective hpositive hpresent).mp h
  exact div_pos (present_weight_pos hpositive hname) (total_pos hpositive hpresent)

theorem effective_sum : ((presentNames signals weights).map
    (at? (effectiveWeights signals weights))).sum = 1 := by
  have hdiv : (presentNames signals weights).map (at? (effectiveWeights signals weights)) =
      (presentNames signals weights).map fun name =>
        at? weights name * (total (at? weights) (presentNames signals weights))⁻¹ :=
    List.map_congr_left fun name hname => by
      rw [at_effective hpositive hpresent hname, div_eq_mul_inv]
  rw [hdiv, List.sum_map_mul_right]
  exact mul_inv_cancel₀ (total_pos hpositive hpresent).ne'

/-- The values of the effective weights sum to one. -/
theorem effective_entries_sum :
    ((effectiveWeights signals weights).entries.map (·.2)).sum = 1 := by
  have hvalues : (effectiveWeights signals weights).entries.map (·.2) =
      (presentNames signals weights).map (at? (effectiveWeights signals weights)) := by
    refine Eq.trans ?_ (List.map_congr_left fun name hname =>
      (at_effective hpositive hpresent hname).symm)
    rw [effective_weights_eq hpositive hpresent, Dict.ofKeys, List.map_map]
    rfl
  rw [hvalues, effective_sum hpositive hpresent]

/-- The score lies between two of the present signals. -/
theorem compose_between : ∃ low ∈ presentNames signals weights,
    ∃ high ∈ presentNames signals weights,
      at? signals low ≤ compose signals weights ∧ compose signals weights ≤ at? signals high := by
  obtain ⟨first, hfirst⟩ := List.exists_mem_of_ne_nil _ hpresent
  have hnonneg : ∀ name ∈ presentNames signals weights, 0 ≤ at? weights name := fun name hname =>
    (present_weight_pos hpositive hname).le
  have htotal := total_pos hpositive hpresent
  rw [compose_eq_mean hpositive hpresent]
  obtain ⟨low, hlow⟩ : ∃ low, low ∈ (presentNames signals weights).argmin (at? signals) :=
    Option.ne_none_iff_exists'.mp (mt List.argmin_eq_none.mp hpresent)
  obtain ⟨high, hhigh⟩ : ∃ high, high ∈ (presentNames signals weights).argmax (at? signals) :=
    Option.ne_none_iff_exists'.mp (mt List.argmax_eq_none.mp hpresent)
  refine ⟨low, List.argmin_mem hlow, high, List.argmax_mem hhigh, ?_, ?_⟩
  · exact le_mean hnonneg htotal fun name hname => List.le_of_mem_argmin hname hlow
  · exact mean_le hnonneg htotal fun name hname => List.le_of_mem_argmax hname hhigh

end Mean

/-- The mappings decide the score by the weighted signals alone; it grows with each of them. -/
theorem compose_le {signals signals' weights weights' : Dict String ℚ}
    (hpositive : Positive weights)
    (hweights : ∀ name weight, weights.get? name = some weight ↔ weights'.get? name = some weight)
    (hup : ∀ name weight, weights.get? name = some weight → ∀ value,
      signals.get? name = some value → ∃ value', value ≤ value' ∧ signals'.get? name = some value')
    (hdown : ∀ name weight, weights.get? name = some weight → ∀ value',
      signals'.get? name = some value' → ∃ value, signals.get? name = some value)
    (hpresent : presentNames signals weights ≠ []) :
    compose signals weights ≤ compose signals' weights' := by
  have hsame : presentNames signals weights = presentNames signals' weights' := by
    refine present_congr fun name => ?_
    rw [mem_present, mem_present]
    constructor
    · rintro ⟨⟨value, hvalue⟩, weight, hweight⟩
      obtain ⟨value', -, hvalue'⟩ := hup name weight hweight value hvalue
      exact ⟨⟨value', hvalue'⟩, weight, (hweights name weight).mp hweight⟩
    · rintro ⟨⟨value', hvalue'⟩, weight, hweight⟩
      have hheld := (hweights name weight).mpr hweight
      exact ⟨hdown name weight hheld value' hvalue', weight, hheld⟩
  have hweight : at? weights = at? weights' :=
    funext fun name => congrArg (Option.getD · 0) (Option.ext (hweights name))
  have hpositive' : Positive weights' := fun name weight h =>
    hpositive name weight ((hweights name weight).mpr h)
  rw [compose_eq_mean hpositive hpresent, compose_eq_mean hpositive' (hsame ▸ hpresent), ← hweight,
    ← hsame]
  refine mean_mono (fun name hname => (present_weight_pos hpositive hname).le) fun name hname => ?_
  obtain ⟨⟨value, hvalue⟩, weight, hheld⟩ := mem_present.mp hname
  obtain ⟨value', hle, hvalue'⟩ := hup name weight hheld value hvalue
  rwa [at_of_get hvalue, at_of_get hvalue']

/-- Mappings that agree on the weights and on the weighted signals give one score. -/
theorem compose_congr {signals signals' weights weights' : Dict String ℚ}
    (hpositive : Positive weights)
    (hweights : ∀ name weight, weights.get? name = some weight ↔ weights'.get? name = some weight)
    (hsignals : ∀ name weight, weights.get? name = some weight → ∀ value,
      signals.get? name = some value ↔ signals'.get? name = some value)
    (hpresent : presentNames signals weights ≠ []) (hpresent' : presentNames signals' weights' ≠ []) :
    compose signals weights = compose signals' weights' := by
  refine le_antisymm ?_ ?_
  · refine compose_le hpositive hweights ?_ ?_ hpresent
    · exact fun name weight hweight value hvalue =>
        ⟨value, le_rfl, (hsignals name weight hweight value).mp hvalue⟩
    · exact fun name weight hweight value hvalue =>
        ⟨value, (hsignals name weight hweight value).mpr hvalue⟩
  · refine compose_le (fun name weight hweight =>
      hpositive name weight ((hweights name weight).mpr hweight))
      (fun name weight => (hweights name weight).symm) ?_ ?_ hpresent'
    · exact fun name weight hweight value hvalue => ⟨value, le_rfl,
        (hsignals name weight ((hweights name weight).mpr hweight) value).mpr hvalue⟩
    · exact fun name weight hweight value hvalue =>
        ⟨value, (hsignals name weight ((hweights name weight).mpr hweight) value).mp hvalue⟩

end CatalogApi.Rarity
