import CatalogApi.Rarity.Composite
import Mathlib.Tactic.NormNum

/-!
# The breakdown of a rarity score

`_family_signals` and `_format_breakdown` of `api/routers/rarity.py`: the weights of a stored row
are collected again from its family signals and renormalised. `composite_replayed` says that the
score is a weighted mean and that the breakdown of a row of that scoring adds up to it. A stored row
names its modules by their ids, so two modules of one id are not told apart (`shared_id_lost`).
-/

namespace CatalogApi.Rarity

open ByKey WeightedMean

/-! ## The router -/

/-- A value of a stored module: a number, or anything else. -/
inductive StoredSignal where
  | number (score : ℚ)
  | other

/-- A value of the stored family signals: an object, or anything else. -/
inductive StoredModule where
  | object (signals : Dict String StoredSignal)
  | other

/-- What the router reads of a row: its numeric columns, and `family_signals` when it is an
object. -/
structure RarityRow where
  columns : String → Option ℚ
  familySignals : Option (Dict String StoredModule)

/-- `float(score)` of a number. -/
def StoredSignal.score? : StoredSignal → Option ℚ
  | .number score => some score
  | .other => none

/-- The scores of a stored module. -/
def StoredModule.signals? : StoredModule → Option (Dict String ℚ)
  | .object signals => some (signals.filterMap fun _ signal => signal.score?)
  | .other => none

variable {ι : Type} [DecidableEq ι]

/-- The family signals of the flat columns of a row. -/
def recoveredSignals (registry : Registry ι) (row : RarityRow) : Dict String (Dict String ℚ) :=
  registry.moduleWeights.filterMap fun _ weights =>
    let contributed := weights.filterMap fun name _ => row.columns name
    if contributed.entries = [] then none else some contributed

/-- `_family_signals`. -/
def familySignals (registry : Registry ι) (row : RarityRow) : Dict String (Dict String ℚ) :=
  match row.familySignals with
  | some stored =>
      if stored.entries = [] then recoveredSignals registry row
      else stored.filterMap fun _ m => m.signals?
  | none => recoveredSignals registry row

/-- The weights that the registered module of an id declares. -/
def declaredWeights (registry : Registry ι) (moduleId : String) : Dict String ℚ :=
  (registry.moduleWeights.get? moduleId).getD .empty

/-- The signals of a row. -/
def rowSignals (registry : Registry ι) (row : RarityRow) : Dict String ℚ :=
  (coreSignalWeights.filterMap fun name _ => row.columns name).updateAll
    ((familySignals registry row).entries.map (·.2))

/-- The declared weights of a row. -/
def rowWeights (registry : Registry ι) (row : RarityRow) : Dict String ℚ :=
  coreSignalWeights.updateAll
    ((familySignals registry row).entries.map fun entry => declaredWeights registry entry.1)

/-- A signal of the breakdown. -/
structure Reported where
  score : ℚ
  weight : ℚ

/-- `_format_breakdown`. -/
def formatBreakdown (registry : Registry ι) (row : RarityRow) : Dict String Reported :=
  let signals := rowSignals registry row
  let applied := effectiveWeights signals (rowWeights registry row)
  let breakdown := signals.filterMap fun name score => some ⟨score, at? applied name⟩
  match row.columns "format_rarity" with
  | some score => breakdown.set "format_rarity" ⟨score, 0⟩
  | none => breakdown

/-! ## A scoring -/

/-- What a release is scored from. -/
structure Scoring (ι : Type) where
  registry : Registry ι
  releaseCtx : ReleaseContext
  coreSignals : Dict String ℚ

namespace Scoring

variable (x : Scoring ι)

/-- The signals of a module. -/
def contributed (m : ι) : Dict String ℚ := (x.registry.object m).signals x.releaseCtx

/-- The modules that contribute. -/
def contributing : List ι :=
  (x.registry.modulesFor x.releaseCtx.families).filter fun m => (x.contributed m).entries ≠ []

/-- The score of the release. -/
def scored : RarityScore := scoreRelease x.registry x.releaseCtx x.coreSignals

/-- The weight declared for a name. -/
def Weighs (name : String) (weight : ℚ) : Prop :=
  coreSignalWeights.get? name = some weight ∨
    ∃ m ∈ x.contributing, (x.registry.object m).weights.get? name = some weight

/-- The signal of a name. -/
def Signals (name : String) (value : ℚ) : Prop :=
  x.coreSignals.get? name = some value ∨
    ∃ m ∈ x.contributing, (x.contributed m).get? name = some value

/-- A name that a module declares or contributes. -/
def Names (m : ι) (name : String) : Prop :=
  name ∈ (x.registry.object m).weights.keys ∨ name ∈ (x.contributed m).keys

/-- The declared weights are positive, and the names of a module are neither another's nor the
core's. -/
structure Distinct : Prop where
  positive : ∀ m ∈ x.contributing, Positive (x.registry.object m).weights
  apart : ∀ m ∈ x.contributing, ∀ m' ∈ x.contributing, ∀ name,
    x.Names m name → x.Names m' name → m = m'
  core : ∀ m ∈ x.contributing, ∀ name, x.Names m name →
    name ∉ coreSignalWeights.keys ∧ name ∉ x.coreSignals.keys ∧ name ≠ "format_rarity"

/-- A registered module is found by its id. -/
def DistinctIds : Prop :=
  ∀ m ∈ x.registry.distinctModules, ∀ m' ∈ x.registry.distinctModules,
    (x.registry.object m).moduleId = (x.registry.object m').moduleId → m = m'

/-- The core has a signal. -/
def Cored : Prop := ∃ name ∈ coreSignalWeights.keys, name ∈ x.coreSignals.keys

variable {x : Scoring ι}

/-! ## The loop over the modules -/

omit [DecidableEq ι] in
theorem composition_eq (modules : List ι) (start : Composition) :
    let contributing := modules.filter fun m => (x.contributed m).entries ≠ []
    let composed := modules.foldl (fun composition m =>
      composition.add x.releaseCtx (x.registry.object m)) start
    composed.signals = start.signals.updateAll (contributing.map x.contributed) ∧
      composed.weights =
        start.weights.updateAll (contributing.map fun m => (x.registry.object m).weights) ∧
      composed.familySignals = contributing.foldl (fun d m =>
        d.set (x.registry.object m).moduleId (x.contributed m)) start.familySignals := by
  induction modules generalizing start with
  | nil => exact ⟨rfl, rfl, rfl⟩
  | cons m modules ih =>
      rw [List.foldl_cons]
      by_cases hnone : (x.contributed m).entries = []
      · have hkept : start.add x.releaseCtx (x.registry.object m) = start := if_pos hnone
        rw [hkept, List.filter_cons_of_neg (by simpa using hnone)]
        exact ih start
      · have hadded : start.add x.releaseCtx (x.registry.object m) =
            { signals := start.signals.update (x.contributed m)
              weights := start.weights.update (x.registry.object m).weights
              familySignals :=
                start.familySignals.set (x.registry.object m).moduleId (x.contributed m) } :=
          if_neg hnone
        rw [hadded, List.filter_cons_of_pos (by simpa using hnone)]
        exact ih _

section

variable {m : ι} (h : x.Distinct) (hm : m ∈ x.contributing)
include h hm

theorem Distinct.apart_signals {m' : ι} (hm' : m' ∈ x.contributing) :
    Dict.Consistent (x.contributed m) (x.contributed m') := by
  intro name value value' hvalue hvalue'
  obtain rfl := h.apart m hm m' hm' name (Or.inr (Dict.mem_keys.mpr ⟨value, hvalue⟩))
    (Or.inr (Dict.mem_keys.mpr ⟨value', hvalue'⟩))
  exact Option.some.inj (hvalue.symm.trans hvalue')

theorem Distinct.apart_weights {m' : ι} (hm' : m' ∈ x.contributing) :
    Dict.Consistent (x.registry.object m).weights (x.registry.object m').weights := by
  intro name weight weight' hweight hweight'
  obtain rfl := h.apart m hm m' hm' name (Or.inl (Dict.mem_keys.mpr ⟨weight, hweight⟩))
    (Or.inl (Dict.mem_keys.mpr ⟨weight', hweight'⟩))
  exact Option.some.inj (hweight.symm.trans hweight')

theorem Distinct.core_weights :
    Dict.Consistent coreSignalWeights (x.registry.object m).weights := fun name weight weight' hcore
    hweight => absurd (Dict.mem_keys.mpr ⟨weight, hcore⟩)
      (h.core m hm name (Or.inl (Dict.mem_keys.mpr ⟨weight', hweight⟩))).1

theorem Distinct.core_signals :
    Dict.Consistent x.coreSignals (x.contributed m) := fun name value value' hcore hvalue =>
  absurd (Dict.mem_keys.mpr ⟨value, hcore⟩)
    (h.core m hm name (Or.inr (Dict.mem_keys.mpr ⟨value', hvalue⟩))).2.1

end

/-- The weights that the composition reads. -/
theorem weighs_iff (h : x.Distinct) {name : String} {weight : ℚ} :
    (composition x.registry x.releaseCtx x.coreSignals).weights.get? name = some weight ↔
      x.Weighs name weight := by
  rw [composition, (composition_eq _ _).2.1]
  refine (Dict.get_update_all_iff (List.forall_mem_map.mpr fun m hm => h.core_weights hm)
    (List.forall_mem_map.mpr fun m hm => List.forall_mem_map.mpr fun m' hm' =>
      h.apart_weights hm hm') name weight).trans ?_
  simp only [List.mem_map, exists_exists_and_eq_and, Weighs, contributing]

/-- The signals that the composition reads. -/
theorem signals_iff (h : x.Distinct) {name : String} {value : ℚ} :
    (composition x.registry x.releaseCtx x.coreSignals).signals.get? name = some value ↔
      x.Signals name value := by
  rw [composition, (composition_eq _ _).1]
  refine (Dict.get_update_all_iff (List.forall_mem_map.mpr fun m hm => h.core_signals hm)
    (List.forall_mem_map.mpr fun m hm => List.forall_mem_map.mpr fun m' hm' =>
      h.apart_signals hm hm') name value).trans ?_
  simp only [List.mem_map, exists_exists_and_eq_and, Signals, contributing]

/-- A contributing module is registered. -/
theorem contributing_registered {m : ι} (h : m ∈ x.contributing) :
    m ∈ x.registry.distinctModules := by
  have hmodule := List.mem_of_mem_filter (List.mem_of_mem_filter h)
  rw [List.mem_eraseDups, List.mem_filterMap] at hmodule
  obtain ⟨family, -, hfamily⟩ := hmodule
  exact List.mem_eraseDups.mpr (List.mem_map.mpr ⟨_, Dict.mem_of_get hfamily, rfl⟩)

/-- The stored family signals of an id are those of its module. -/
theorem family_iff (h : x.DistinctIds) {moduleId : String} {signals : Dict String ℚ} :
    x.scored.familySignals.get? moduleId = some signals ↔
      ∃ m ∈ x.contributing, (x.registry.object m).moduleId = moduleId ∧
        x.contributed m = signals := by
  have hsame : ∀ m ∈ x.contributing, ∀ m' ∈ x.contributing,
      (x.registry.object m).moduleId = (x.registry.object m').moduleId →
        x.contributed m = x.contributed m' := by
    intro m hm m' hm' heq
    rw [h m (contributing_registered hm) m' (contributing_registered hm') heq]
  have hcomposed : x.scored.familySignals = x.contributing.foldl (fun d m =>
      d.set (x.registry.object m).moduleId (x.contributed m)) .empty := by
    rw [scored, scoreRelease, composition]
    exact (composition_eq _ _).2.2
  rw [hcomposed, Dict.get_set_all_iff hsame, Dict.get_empty]
  simp

/-- The weights declared for the id of a registered module are its own. -/
theorem declared_weights_eq (h : x.DistinctIds) {m : ι} (hm : m ∈ x.registry.distinctModules) :
    declaredWeights x.registry (x.registry.object m).moduleId = (x.registry.object m).weights := by
  have hsame : ∀ m ∈ x.registry.distinctModules, ∀ m' ∈ x.registry.distinctModules,
      (x.registry.object m).moduleId = (x.registry.object m').moduleId →
        (x.registry.object m).weights = (x.registry.object m').weights := by
    intro m hm m' hm' heq
    rw [h m hm m' hm' heq]
  have hget : x.registry.moduleWeights.get? (x.registry.object m).moduleId =
      some (x.registry.object m).weights :=
    (Dict.get_set_all_iff hsame _ _ _).mpr (Or.inl ⟨m, hm, rfl, rfl⟩)
  rw [declaredWeights, hget, Option.getD_some]

/-! ## A stored row of the scoring -/

/-- Family signals as a JSON column holds them: the same names and numbers, in any order. -/
def StoredAs : Option (Dict String ℚ) → Option StoredModule → Prop
  | none, stored => stored = none
  | some signals, stored => ∃ held, stored = some (.object held) ∧
      ∀ name, held.get? name = (signals.get? name).map .number

/-- A row that carries the core signals and the family signals of the scoring, and no flat column
of a module when there are none. -/
structure Carries (x : Scoring ι) (row : RarityRow) : Prop where
  core : ∀ name ∈ coreSignalWeights.keys, row.columns name = x.coreSignals.get? name
  stored : ∃ stored, row.familySignals = some stored ∧
    ∀ moduleId, StoredAs (x.scored.familySignals.get? moduleId) (stored.get? moduleId)
  flat : x.scored.familySignals.entries = [] → ∀ m ∈ x.registry.distinctModules,
    ∀ name ∈ (x.registry.object m).weights.keys, row.columns name = none

/-- What a stored module is read as. -/
theorem read_stored {signals : Dict String ℚ} {stored : Option StoredModule}
    (h : StoredAs (some signals) stored) :
    ∃ held, stored.bind StoredModule.signals? = some held ∧
      ∀ name, held.get? name = signals.get? name := by
  obtain ⟨held, rfl, hheld⟩ := h
  refine ⟨_, rfl, fun name => ?_⟩
  rw [Dict.get_filter_map, hheld]
  cases signals.get? name <;> rfl

/-- Without contributing modules nothing is recovered either. -/
theorem recovered_eq_nil {row : RarityRow} (hflat : ∀ m ∈ x.registry.distinctModules,
    ∀ name ∈ (x.registry.object m).weights.keys, row.columns name = none) :
    (recoveredSignals x.registry row).entries = [] := by
  refine Dict.entries_eq_nil.mpr fun moduleId => ?_
  rw [recoveredSignals, Dict.get_filter_map, Option.bind_eq_none_iff]
  intro weights hweights
  obtain ⟨m, hm, hregistered⟩ : ∃ m ∈ x.registry.distinctModules,
      (x.registry.object m).weights = weights :=
    Dict.exists_of_get_set_all hweights
  refine if_pos (Dict.entries_eq_nil.mpr fun name => ?_)
  rw [Dict.get_filter_map, Option.bind_eq_none_iff]
  intro weight hweight
  exact hflat m hm name (Dict.mem_keys.mpr ⟨weight, hregistered ▸ hweight⟩)

/-- The family signals that the router reads are those of the contributing modules. -/
theorem read_family {row : RarityRow} (h : Carries x row) (hids : x.DistinctIds) :
    (∀ m ∈ x.contributing, ∃ signals,
      ((x.registry.object m).moduleId, signals) ∈ (familySignals x.registry row).entries ∧
        ∀ name, signals.get? name = (x.contributed m).get? name) ∧
      ∀ entry ∈ (familySignals x.registry row).entries, ∃ m ∈ x.contributing,
        (x.registry.object m).moduleId = entry.1 ∧
          ∀ name, entry.2.get? name = (x.contributed m).get? name := by
  obtain ⟨stored, hstored, has⟩ := h.stored
  by_cases hnone : x.scored.familySignals.entries = []
  · have hread := Dict.entries_eq_nil.mp hnone
    have hempty : stored.entries = [] := by
      refine Dict.entries_eq_nil.mpr fun moduleId => ?_
      have hat := has moduleId
      rwa [hread moduleId] at hat
    have hfamily : (familySignals x.registry row).entries = [] := by
      rw [familySignals, hstored]
      dsimp only
      rw [if_pos hempty]
      exact recovered_eq_nil (h.flat hnone)
    rw [hfamily]
    refine ⟨fun m hm => ?_, fun _ hentry => absurd hentry List.not_mem_nil⟩
    have hget := (family_iff hids).mpr ⟨m, hm, rfl, rfl⟩
    rw [hread] at hget
    exact absurd hget.symm (Option.some_ne_none _)
  · have hne : stored.entries ≠ [] := by
      intro hempty
      refine hnone (Dict.entries_eq_nil.mpr fun moduleId => ?_)
      have hat := has moduleId
      rw [Dict.entries_eq_nil.mp hempty] at hat
      cases hscored : x.scored.familySignals.get? moduleId with
      | none => rfl
      | some signals =>
          rw [hscored] at hat
          obtain ⟨held, hheld, -⟩ := hat
          exact absurd hheld.symm (Option.some_ne_none _)
    have hfamily : familySignals x.registry row = stored.filterMap fun _ m => m.signals? := by
      rw [familySignals, hstored]
      exact if_neg hne
    rw [hfamily]
    constructor
    · intro m hm
      have hat := has (x.registry.object m).moduleId
      rw [(family_iff hids).mpr ⟨m, hm, rfl, rfl⟩] at hat
      obtain ⟨held, hheld, hsame⟩ := read_stored hat
      exact ⟨held, Dict.mem_of_get ((Dict.get_filter_map _ _ _).trans hheld), hsame⟩
    · rintro ⟨moduleId, signals⟩ hentry
      have hget := Dict.get_of_mem hentry
      rw [Dict.get_filter_map] at hget
      have hat := has moduleId
      cases hscored : x.scored.familySignals.get? moduleId with
      | none =>
          rw [hscored] at hat
          rw [hat, Option.bind_none] at hget
          exact absurd hget.symm (Option.some_ne_none _)
      | some contributed =>
          rw [hscored] at hat
          obtain ⟨held, hheld, hsame⟩ := read_stored hat
          obtain rfl := Option.some.inj (hheld.symm.trans hget)
          obtain ⟨m, hm, hid, rfl⟩ := (family_iff hids).mp hscored
          exact ⟨m, hm, hid, hsame⟩

/-- The signals of the breakdown are the weighted core signals and the family signals. -/
theorem row_signals_iff {row : RarityRow} (h : Carries x row) (hdistinct : x.Distinct)
    (hids : x.DistinctIds) {name : String} {value : ℚ} :
    (rowSignals x.registry row).get? name = some value ↔
      (name ∈ coreSignalWeights.keys ∧ x.coreSignals.get? name = some value) ∨
        ∃ m ∈ x.contributing, (x.contributed m).get? name = some value := by
  obtain ⟨hheld, hread⟩ := read_family h hids
  have hcore : ∀ {name value}, (coreSignalWeights.filterMap fun name _ =>
      row.columns name).get? name = some value ↔
        name ∈ coreSignalWeights.keys ∧ x.coreSignals.get? name = some value := by
    intro name value
    rw [Dict.get_filter_map, Option.bind_eq_some_iff, Dict.mem_keys]
    constructor
    · rintro ⟨weight, hweight, hcolumn⟩
      rw [h.core name (Dict.mem_keys.mpr ⟨weight, hweight⟩)] at hcolumn
      exact ⟨⟨weight, hweight⟩, hcolumn⟩
    · rintro ⟨⟨weight, hweight⟩, hcolumn⟩
      rw [← h.core name (Dict.mem_keys.mpr ⟨weight, hweight⟩)] at hcolumn
      exact ⟨weight, hweight, hcolumn⟩
  rw [rowSignals, Dict.get_update_all_iff, hcore]
  · refine or_congr_right ⟨?_, ?_⟩
    · rintro ⟨signals, hsignals, hvalue⟩
      obtain ⟨entry, hentry, rfl⟩ := List.mem_map.mp hsignals
      obtain ⟨m, hm, -, hsame⟩ := hread entry hentry
      exact ⟨m, hm, (hsame name).symm.trans hvalue⟩
    · rintro ⟨m, hm, hvalue⟩
      obtain ⟨signals, hsignals, hsame⟩ := hheld m hm
      exact ⟨signals, List.mem_map.mpr ⟨_, hsignals, rfl⟩, (hsame name).trans hvalue⟩
  · refine List.forall_mem_map.mpr fun entry hentry k v v' hv hv' => ?_
    obtain ⟨m, hm, -, hsame⟩ := hread entry hentry
    exact hdistinct.core_signals hm k v v' (hcore.mp hv).2 ((hsame k).symm.trans hv')
  · refine List.forall_mem_map.mpr fun entry hentry => List.forall_mem_map.mpr fun entry' hentry' k v
      v' hv hv' => ?_
    obtain ⟨m, hm, -, hsame⟩ := hread entry hentry
    obtain ⟨m', hm', -, hsame'⟩ := hread entry' hentry'
    exact hdistinct.apart_signals hm hm' k v v' ((hsame k).symm.trans hv)
      ((hsame' k).symm.trans hv')

/-- The weights collected again are those of the scoring. -/
theorem row_weights_iff {row : RarityRow} (h : Carries x row) (hdistinct : x.Distinct)
    (hids : x.DistinctIds) {name : String} {weight : ℚ} :
    (rowWeights x.registry row).get? name = some weight ↔ x.Weighs name weight := by
  obtain ⟨hheld, hread⟩ := read_family h hids
  have hdeclared : ∀ entry ∈ (familySignals x.registry row).entries, ∃ m ∈ x.contributing,
      declaredWeights x.registry entry.1 = (x.registry.object m).weights := by
    intro entry hentry
    obtain ⟨m, hm, hid, -⟩ := hread entry hentry
    exact ⟨m, hm, hid ▸ declared_weights_eq hids (contributing_registered hm)⟩
  rw [rowWeights, Dict.get_update_all_iff, Weighs]
  · refine or_congr_right ⟨?_, ?_⟩
    · rintro ⟨weights, hweights, hweight⟩
      obtain ⟨entry, hentry, rfl⟩ := List.mem_map.mp hweights
      obtain ⟨m, hm, hsame⟩ := hdeclared entry hentry
      exact ⟨m, hm, hsame ▸ hweight⟩
    · rintro ⟨m, hm, hweight⟩
      obtain ⟨signals, hsignals, -⟩ := hheld m hm
      refine ⟨_, List.mem_map.mpr ⟨_, hsignals, rfl⟩, ?_⟩
      dsimp only
      rwa [declared_weights_eq hids (contributing_registered hm)]
  · refine List.forall_mem_map.mpr fun entry hentry => ?_
    obtain ⟨m, hm, hsame⟩ := hdeclared entry hentry
    rw [hsame]
    exact hdistinct.core_weights hm
  · refine List.forall_mem_map.mpr fun entry hentry => List.forall_mem_map.mpr fun entry' hentry' =>
      ?_
    obtain ⟨m, hm, hsame⟩ := hdeclared entry hentry
    obtain ⟨m', hm', hsame'⟩ := hdeclared entry' hentry'
    rw [hsame, hsame']
    exact hdistinct.apart_weights hm hm'

/-! ## The breakdown adds up -/

/-- A sum over a list is a sum over the elements that add something. -/
theorem sum_filter_of_zero {α : Type} {p : α → Bool} {f : α → ℚ} {l : List α}
    (h : ∀ a ∈ l, ¬p a → f a = 0) : ((l.filter p).map f).sum = (l.map f).sum := by
  induction l with
  | nil => rfl
  | cons a l ih =>
      have hrest := ih fun b hb => h b (List.mem_cons_of_mem _ hb)
      by_cases hp : p a
      · rw [List.filter_cons_of_pos hp, List.map_cons, List.map_cons, List.sum_cons, List.sum_cons,
          hrest]
      · rw [List.filter_cons_of_neg hp, List.map_cons, List.sum_cons, hrest,
          h a List.mem_cons_self hp, zero_add]

/-- A sum over the entries of the signals, of a term that is zero at a name without a weight. -/
theorem sum_entries {signals weights : Dict String ℚ} {f : String → ℚ}
    (hzero : ∀ name, name ∉ presentNames signals weights → f name = 0) :
    (signals.entries.map fun entry => f entry.1).sum =
      ((presentNames signals weights).map f).sum := by
  have hperm := (sort_by_perm (id : String → String)
    (signals.keys.filter fun name => (weights.get? name).isSome)).map f
  rw [presentNames, hperm.sum_eq, sum_filter_of_zero, Dict.keys, List.map_map]
  · rfl
  · intro name hname hnot
    refine hzero name fun hpresent => hnot ?_
    exact Option.isSome_iff_exists.mpr (mem_present.mp hpresent).2

/-- The entries of a breakdown and what they add up to. -/
theorem sum_breakdown {signals weights : Dict String ℚ} (hpositive : Positive weights)
    (hpresent : presentNames signals weights ≠ []) :
    let reported : Dict String Reported := signals.filterMap fun name score =>
      some ⟨score, at? (effectiveWeights signals weights) name⟩
    (reported.entries.map fun entry => entry.2.score * entry.2.weight).sum =
        compose signals weights ∧
      (reported.entries.map fun entry => entry.2.weight).sum = 1 := by
  intro reported
  have hentries : reported.entries = signals.entries.map fun entry =>
      (entry.1, (⟨entry.2, at? (effectiveWeights signals weights) entry.1⟩ : Reported)) := by
    rw [← List.filterMap_eq_map]
    rfl
  have habsent : ∀ name, name ∉ presentNames signals weights →
      at? (effectiveWeights signals weights) name = 0 := fun name hname =>
    at_effective_of_absent hpositive hpresent hname
  rw [hentries, List.map_map, List.map_map]
  constructor
  · have hscores : (signals.entries.map fun entry =>
        entry.2 * at? (effectiveWeights signals weights) entry.1) =
        signals.entries.map fun entry =>
          at? (effectiveWeights signals weights) entry.1 * at? signals entry.1 :=
      List.map_congr_left fun entry hentry => by
        rw [at_of_get (Dict.get_of_mem hentry), mul_comm]
    have hsum : (signals.entries.map fun entry =>
        at? (effectiveWeights signals weights) entry.1 * at? signals entry.1).sum =
        compose signals weights := by
      rw [compose_eq_sum hpositive hpresent]
      exact sum_entries fun name hname => mul_eq_zero_of_left (habsent name hname) _
    exact (congrArg List.sum hscores).trans hsum
  · exact (sum_entries habsent).trans (effective_sum hpositive hpresent)

/-! ## The composite -/

/-- A signal with a weight. -/
def Weighted (x : Scoring ι) (value : ℚ) : Prop :=
  ∃ name weight, x.Weighs name weight ∧ x.Signals name value

/-- The same weights, and the same weighted signals at no lower values. -/
structure Below (x x' : Scoring ι) : Prop where
  weights : ∀ name weight, x.Weighs name weight ↔ x'.Weighs name weight
  up : ∀ name weight, x.Weighs name weight → ∀ value, x.Signals name value →
    ∃ value', value ≤ value' ∧ x'.Signals name value'
  down : ∀ name weight, x.Weighs name weight → ∀ value', x'.Signals name value' →
    ∃ value, x.Signals name value

/-- The same weights and the same weighted signals, whatever the order of the mappings and whatever
signals have no weight. -/
structure Rearranged (x x' : Scoring ι) : Prop where
  weights : ∀ name weight, x.Weighs name weight ↔ x'.Weighs name weight
  signals : ∀ name weight, x.Weighs name weight → ∀ value,
    x.Signals name value ↔ x'.Signals name value

/-- The breakdown of a row adds up to the score. -/
structure Replays (x : Scoring ι) (row : RarityRow) : Prop where
  score : ((formatBreakdown x.registry row).entries.map fun entry =>
    entry.2.score * entry.2.weight).sum = x.scored.score
  weights : ((formatBreakdown x.registry row).entries.map fun entry => entry.2.weight).sum = 1

/-- The score of a release is a weighted mean of its weighted signals, and the breakdown of its row
replays it. -/
structure Composite (x : Scoring ι) : Prop where
  names : ∀ name, (∃ weight, x.scored.weights.get? name = some weight) ↔
    (∃ value, x.Signals name value) ∧ ∃ weight, x.Weighs name weight
  positive : Positive x.scored.weights
  sum : (x.scored.weights.entries.map (·.2)).sum = 1
  between : ∃ low high, x.Weighted low ∧ x.Weighted high ∧
    low ≤ x.scored.score ∧ x.scored.score ≤ high
  monotone : ∀ x' : Scoring ι, x'.Distinct → x.Below x' → x.scored.score ≤ x'.scored.score
  unchanged : ∀ x' : Scoring ι, x'.Distinct → x.Rearranged x' → x'.scored.score = x.scored.score
  tier : x.scored.tier = computeRarityTier x.scored.score
  tiers : ∀ score score', score ≤ score' →
    (computeRarityTier score).rank ≤ (computeRarityTier score').rank
  replay : ∀ row, x.Carries row → x.Replays row

theorem core_positive : Positive coreSignalWeights := by
  intro name weight hweight
  have hmem := Dict.mem_of_get hweight
  simp only [coreSignalWeights, List.mem_cons, Prod.mk.injEq, List.not_mem_nil, or_false] at hmem
  rcases hmem with ⟨-, rfl⟩ | ⟨-, rfl⟩ | ⟨-, rfl⟩ | ⟨-, rfl⟩ | ⟨-, rfl⟩ <;> norm_num

theorem Distinct.weighs_pos (h : x.Distinct) {name : String} {weight : ℚ}
    (hweight : x.Weighs name weight) : 0 < weight := by
  rcases hweight with hweight | ⟨m, hm, hweight⟩
  · exact core_positive name weight hweight
  · exact h.positive m hm name weight hweight

/-- A cored mapping of the scoring's weights has a present signal. -/
theorem present_of_cored (h : x.Cored) {signals weights : Dict String ℚ}
    (hweights : ∀ name weight, weights.get? name = some weight ↔ x.Weighs name weight)
    (hsignals : ∀ name value, name ∈ coreSignalWeights.keys →
      x.coreSignals.get? name = some value → signals.get? name = some value) :
    presentNames signals weights ≠ [] := by
  obtain ⟨name, hcore, hname⟩ := h
  obtain ⟨value, hvalue⟩ := Dict.mem_keys.mp hname
  obtain ⟨weight, hweight⟩ := Dict.mem_keys.mp hcore
  exact List.ne_nil_of_mem (mem_present.mpr ⟨⟨value, hsignals name value hcore hvalue⟩, weight,
    (hweights name weight).mpr (Or.inl hweight)⟩)

theorem score_mono {x' : Scoring ι} (hcored : x.Cored) (hdistinct : x.Distinct)
    (hdistinct' : x'.Distinct) (h : x.Below x') : x.scored.score ≤ x'.scored.score := by
  refine compose_le ?_ ?_ ?_ ?_ ?_
  · exact fun name weight hweight => hdistinct.weighs_pos ((weighs_iff hdistinct).mp hweight)
  · exact fun name weight => (weighs_iff hdistinct).trans
      ((h.weights name weight).trans (weighs_iff hdistinct').symm)
  · intro name weight hweight value hvalue
    obtain ⟨value', hle, hvalue'⟩ := h.up name weight ((weighs_iff hdistinct).mp hweight) value
      ((signals_iff hdistinct).mp hvalue)
    exact ⟨value', hle, (signals_iff hdistinct').mpr hvalue'⟩
  · intro name weight hweight value' hvalue'
    obtain ⟨value, hvalue⟩ := h.down name weight ((weighs_iff hdistinct).mp hweight) value'
      ((signals_iff hdistinct').mp hvalue')
    exact ⟨value, (signals_iff hdistinct).mpr hvalue⟩
  · exact present_of_cored hcored (fun name weight => weighs_iff hdistinct)
      fun name value _ hvalue => (signals_iff hdistinct).mpr (Or.inl hvalue)

theorem score_congr {x' : Scoring ι} (hcored : x.Cored) (hdistinct : x.Distinct)
    (hdistinct' : x'.Distinct) (h : x.Rearranged x') : x.scored.score = x'.scored.score := by
  refine compose_congr ?_ ?_ ?_ ?_ ?_
  · exact fun name weight hweight => hdistinct.weighs_pos ((weighs_iff hdistinct).mp hweight)
  · exact fun name weight => (weighs_iff hdistinct).trans
      ((h.weights name weight).trans (weighs_iff hdistinct').symm)
  · exact fun name weight hweight value => (signals_iff hdistinct).trans
      ((h.signals name weight ((weighs_iff hdistinct).mp hweight) value).trans
        (signals_iff hdistinct').symm)
  · exact present_of_cored hcored (fun name weight => weighs_iff hdistinct)
      fun name value _ hvalue => (signals_iff hdistinct).mpr (Or.inl hvalue)
  · obtain ⟨name, hcore, hname⟩ := hcored
    obtain ⟨value, hvalue⟩ := Dict.mem_keys.mp hname
    obtain ⟨weight, hweight⟩ := Dict.mem_keys.mp hcore
    have hsignal := (h.signals name weight (Or.inl hweight) value).mp (Or.inl hvalue)
    have hweighs := (h.weights name weight).mp (Or.inl hweight)
    exact List.ne_nil_of_mem (mem_present.mpr ⟨⟨value, (signals_iff hdistinct').mpr hsignal⟩,
      weight, (weighs_iff hdistinct').mpr hweighs⟩)

/-- The breakdown of a row of the scoring adds up to its score. -/
theorem replays_of_carries (hcored : x.Cored) (hdistinct : x.Distinct) (hids : x.DistinctIds)
    {row : RarityRow} (h : x.Carries row) : x.Replays row := by
  have hweights : ∀ name weight, (rowWeights x.registry row).get? name = some weight ↔
      x.Weighs name weight := fun name weight => row_weights_iff h hdistinct hids
  have hpositive : Positive (rowWeights x.registry row) := fun name weight hweight =>
    hdistinct.weighs_pos ((hweights name weight).mp hweight)
  have hpresent : presentNames (rowSignals x.registry row) (rowWeights x.registry row) ≠ [] :=
    present_of_cored hcored hweights fun name value hcore hvalue =>
      (row_signals_iff h hdistinct hids).mpr (Or.inl ⟨hcore, hvalue⟩)
  obtain ⟨hscore, hsum⟩ := sum_breakdown hpositive hpresent
  have hcomposed : compose (rowSignals x.registry row) (rowWeights x.registry row) =
      x.scored.score := by
    refine compose_congr hpositive (fun name weight => ?_) (fun name weight hweight value => ?_)
      hpresent (present_of_cored hcored (fun name weight => weighs_iff hdistinct)
        fun name value _ hvalue => (signals_iff hdistinct).mpr (Or.inl hvalue))
    · rw [hweights, weighs_iff hdistinct]
    · rw [row_signals_iff h hdistinct hids, signals_iff hdistinct, Signals]
      refine or_congr_left (and_iff_right_of_imp fun hcore => ?_)
      rcases (hweights name weight).mp hweight with hname | ⟨m, hm, hname⟩
      · exact Dict.mem_keys.mpr ⟨weight, hname⟩
      · have hnot := (hdistinct.core m hm name (Or.inl (Dict.mem_keys.mpr ⟨weight, hname⟩))).2.1
        exact absurd (Dict.mem_keys.mpr ⟨value, hcore⟩) hnot
  have habsent : (rowSignals x.registry row).get? "format_rarity" = none := by
    refine Option.eq_none_iff_forall_ne_some.mpr fun value hvalue => ?_
    rcases (row_signals_iff h hdistinct hids).mp hvalue with ⟨hcore, -⟩ | ⟨m, hm, hvalue⟩
    · exact absurd hcore (by decide)
    · exact (hdistinct.core m hm _ (Or.inr (Dict.mem_keys.mpr ⟨value, hvalue⟩))).2.2 rfl
  constructor
  · rw [formatBreakdown, ← hcomposed, ← hscore]
    cases row.columns "format_rarity" with
    | none => rfl
    | some score =>
        rw [Dict.set_of_absent (by rw [Dict.get_filter_map, habsent, Option.bind_none])]
        simp
  · rw [formatBreakdown, ← hsum]
    cases row.columns "format_rarity" with
    | none => rfl
    | some score =>
        rw [Dict.set_of_absent (by rw [Dict.get_filter_map, habsent, Option.bind_none])]
        simp

/-- With modules told apart by their ids, the rarity composite is a weighted mean on one scale and
its breakdown replays it. -/
theorem composite_replayed (x : Scoring ι) (hcored : x.Cored) (hdistinct : x.Distinct)
    (hids : x.DistinctIds) : x.Composite := by
  have hpositive : Positive (composition x.registry x.releaseCtx x.coreSignals).weights :=
    fun name weight hweight => hdistinct.weighs_pos ((weighs_iff hdistinct).mp hweight)
  have hpresent : presentNames (composition x.registry x.releaseCtx x.coreSignals).signals
      (composition x.registry x.releaseCtx x.coreSignals).weights ≠ [] :=
    present_of_cored hcored (fun name weight => weighs_iff hdistinct)
      fun name value _ hvalue => (signals_iff hdistinct).mpr (Or.inl hvalue)
  have hweighted : ∀ name ∈ presentNames
      (composition x.registry x.releaseCtx x.coreSignals).signals
      (composition x.registry x.releaseCtx x.coreSignals).weights,
      x.Weighted (at? (composition x.registry x.releaseCtx x.coreSignals).signals name) := by
    intro name hname
    obtain ⟨⟨value, hvalue⟩, weight, hweight⟩ := mem_present.mp hname
    rw [at_of_get hvalue]
    exact ⟨name, weight, (weighs_iff hdistinct).mp hweight, (signals_iff hdistinct).mp hvalue⟩
  exact
    { names := fun name => by
        simp only [← weighs_iff hdistinct, ← signals_iff hdistinct]
        rw [← mem_present]
        constructor
        · rintro ⟨weight, hweight⟩
          exact ((get_effective hpositive hpresent).mp hweight).1
        · exact fun hname => ⟨_, (get_effective hpositive hpresent).mpr ⟨hname, rfl⟩⟩
      positive := fun name weight hweight => effective_pos hpositive hpresent hweight
      sum := effective_entries_sum hpositive hpresent
      between := by
        obtain ⟨low, hlow, high, hhigh, hle, hge⟩ := compose_between hpositive hpresent
        exact ⟨_, _, hweighted low hlow, hweighted high hhigh, hle, hge⟩
      monotone := fun x' hdistinct' h => score_mono hcored hdistinct hdistinct' h
      unchanged := fun x' hdistinct' h => (score_congr hcored hdistinct hdistinct' h).symm
      tier := rfl
      tiers := fun _ _ h => compute_rarity_tier_mono h
      replay := fun row h => replays_of_carries hcored hdistinct hids h }

/-- A record on vinyl with four known pressings. -/
def vinylRecord : Scoring Unit where
  registry := installed
  releaseCtx :=
    { families := ["vinyl"]
      facts := ⟨[("grooved_pressing", ⟨[("pressing_count", some 4)], List.nodup_singleton _⟩)],
        List.nodup_singleton _⟩ }
  coreSignals := ⟨[("label_catalog", 60), ("medium_rarity", 40), ("temporal_scarcity", 30),
    ("graph_isolation", 50), ("collection_prevalence", 70)], by decide⟩

/-- The composite of a record on vinyl, with its pressing signal. -/
theorem vinyl_record_composite : vinylRecord.Composite := by
  refine composite_replayed vinylRecord ⟨"label_catalog", by decide, by decide⟩ ?_ ?_
  · constructor
    · intro m _ name weight hweight
      have hmem := Dict.mem_of_get hweight
      obtain ⟨-, rfl⟩ := Prod.mk.inj (List.mem_singleton.mp hmem)
      norm_num
    · exact fun _ _ _ _ _ _ _ => rfl
    · intro m _ name hname
      have hpressing : name = "pressing_scarcity" := by
        rcases hname with hname | hname
        · exact List.mem_singleton.mp hname
        · exact List.mem_singleton.mp hname
      subst hpressing
      decide
  · exact fun _ _ _ _ _ => rfl

/-- A module of the id `edition` with one signal. -/
def editionModule (second : Bool) : FamilySignals where
  moduleId := "edition"
  weights := ⟨[(if second then "second" else "first", 1)], List.nodup_singleton _⟩
  appliesTo _ := true
  signals _ := ⟨[(if second then "second" else "first", if second then 100 else 0)],
    List.nodup_singleton _⟩

/-- A release of two families whose modules have one id. -/
def sharedId : Scoring Bool where
  registry := ⟨⟨[("a", false), ("b", true)], by decide⟩, editionModule⟩
  releaseCtx := ⟨["a", "b"], .empty⟩
  coreSignals := ⟨[("label_catalog", 0)], List.nodup_singleton _⟩

/-- Its row. -/
def sharedRow : RarityRow where
  columns name := if name = "label_catalog" then some 0 else none
  familySignals := some ⟨[("edition", .object ⟨[("second", .number 100)], List.nodup_singleton _⟩)],
    List.nodup_singleton _⟩

theorem shared_names {m : Bool} {name : String} (h : sharedId.Names m name) :
    name = if m then "second" else "first" := by
  rcases h with h | h
  · exact List.mem_singleton.mp h
  · exact List.mem_singleton.mp h

theorem shared_distinct : sharedId.Distinct := by
  constructor
  · intro m _ name weight hweight
    obtain ⟨-, rfl⟩ := Prod.mk.inj (List.mem_singleton.mp (Dict.mem_of_get hweight))
    exact one_pos
  · intro m _ m' _ name hname hname'
    have heq := (shared_names hname).symm.trans (shared_names hname')
    revert heq
    cases m <;> cases m' <;> decide
  · intro m _ name hname
    rw [shared_names hname]
    cases m <;> decide

theorem shared_carries : sharedId.Carries sharedRow := by
  have hfamily : sharedId.scored.familySignals =
      ⟨[("edition", ⟨[("second", 100)], List.nodup_singleton _⟩)], List.nodup_singleton _⟩ := by
    decide +kernel
  constructor
  · decide +kernel
  · refine ⟨_, rfl, fun moduleId => ?_⟩
    rw [hfamily]
    by_cases hedition : moduleId = "edition"
    · subst hedition
      refine ⟨_, rfl, fun name => ?_⟩
      by_cases hsecond : name = "second"
      · subst hsecond
        rfl
      · simp [Dict.get?, Ne.symm hsecond]
    · simp [Dict.get?, Ne.symm hedition, StoredAs]
  · rw [hfamily]
    exact fun hnil => absurd hnil (List.cons_ne_nil _ _)

/-- Two modules of one id leave only the second one's signal in the row, so its breakdown does not
add up to the score. -/
theorem shared_id_lost : ¬∀ (x : Scoring Bool) (row : RarityRow), x.Cored → x.Distinct →
    x.Carries row → x.Replays row := by
  intro h
  have hscore := (h sharedId sharedRow ⟨"label_catalog", by decide, by decide⟩ shared_distinct
    shared_carries).score
  revert hscore
  decide +kernel

end Scoring

end CatalogApi.Rarity
