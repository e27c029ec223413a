import CatalogApi.Lib.Groups
import Mathlib.Data.String.Basic

/-!
# Samples of a rule

What the dashboard shows of a rule (`_build_prompt_contexts` of `extraction_analysis.py`). The
samples of a rule are the first records that break it, each once and with all its violations of the
rule (`prompt_contexts_sampled`); where they are few enough, the samples show every violation.
-/

namespace CatalogApi.Extraction

open ByKey

/-- A violation as a prompt reads it; a key that is absent is `none`. -/
structure Flag where
  recordId : Option String
  entityType : String
  severity : Option String
  rule : Option String
  field : Option String
  fieldValue : Option String
  value : Option String

/-- `_RuleSelection`. -/
structure RuleSelection where
  rule : String
  entityType : String

/-- An element of `violations` of a sample record. -/
structure SampleViolation where
  rule : String
  field : String
  fieldValue : String

/-- An element of `sample_records`; the files are what `_load_record_files` returned. -/
structure SampleRecord (F : Type) where
  recordId : String
  violations : List SampleViolation
  files : F

/-- An element of what `_build_prompt_contexts` returns. -/
structure PromptContext (F : Type) where
  rule : String
  entityType : String
  severity : String
  totalViolations : Nat
  sampleRecords : List (SampleRecord F)

/-- `_MAX_PROMPT_CONTEXT_SAMPLES`. -/
def maxPromptContextSamples : Nat := 5

/-- `matching`. -/
def matching (violations : List Flag) (sel : RuleSelection) : List Flag :=
  violations.filter fun v => v.rule = some sel.rule ∧ v.entityType = sel.entityType

/-- `v.get("record_id", "")`. -/
def Flag.rid (v : Flag) : String := v.recordId.getD ""

/-- A violation as a sample shows it. -/
def Flag.shown (v : Flag) : SampleViolation where
  rule := v.rule.getD ""
  field := v.field.getD ""
  fieldValue := v.fieldValue.getD (v.value.getD "")

section Samples

variable {F : Type} (loadRecordFiles : String → String → F)

/-- The sample of a record id. -/
def sampleOf (sel : RuleSelection) (matched : List Flag) (rid : String) : SampleRecord F where
  recordId := rid
  violations := (matched.filter fun m => m.recordId = some rid).map Flag.shown
  files := loadRecordFiles sel.entityType rid

/-- The loop over the matching violations, with `seen_ids` and the samples so far. -/
def sampleLoop (sel : RuleSelection) (matched : List Flag) :
    List Flag → List String → List (SampleRecord F) → List (SampleRecord F)
  | [], _, samples => samples
  | v :: rest, seenIds, samples =>
      if v.rid ∈ seenIds then sampleLoop sel matched rest seenIds samples
      else
        let samples := samples ++ [sampleOf loadRecordFiles sel matched v.rid]
        if maxPromptContextSamples ≤ samples.length then samples
        else sampleLoop sel matched rest (v.rid :: seenIds) samples

/-- One iteration of the loop over the rules. -/
def promptContext (violations : List Flag) (sel : RuleSelection) : PromptContext F where
  rule := sel.rule
  entityType := sel.entityType
  severity := ((matching violations sel).head?.bind (·.severity)).getD "unknown"
  totalViolations := (matching violations sel).length
  sampleRecords :=
    sampleLoop loadRecordFiles sel (matching violations sel) (matching violations sel) [] []

/-- `_build_prompt_contexts`. -/
def buildPromptContexts (violations : List Flag) (rules : List RuleSelection) :
    List (PromptContext F) :=
  rules.map (promptContext loadRecordFiles violations)

/-- The loop adds the ids it has not seen, each once, up to the number of samples. -/
theorem sample_loop_eq (sel : RuleSelection) (matched rest : List Flag) (seenIds : List String)
    {samples : List (SampleRecord F)} (hroom : samples.length < maxPromptContextSamples) :
    sampleLoop loadRecordFiles sel matched rest seenIds samples =
      samples ++ (((rest.map Flag.rid).filter (· ∉ seenIds)).eraseDups.take
        (maxPromptContextSamples - samples.length)).map (sampleOf loadRecordFiles sel matched) := by
  induction rest generalizing seenIds samples with
  | nil => simp [sampleLoop]
  | cons v rest ih =>
      rw [sampleLoop, List.map_cons]
      by_cases hseen : v.rid ∈ seenIds
      · rw [if_pos hseen, ih seenIds hroom, List.filter_cons_of_neg (by simpa using hseen)]
      · rw [if_neg hseen, List.filter_cons_of_pos (by simpa using hseen), List.eraseDups_cons]
        -- the ids left after this one are those unseen with it among the seen
        have hrest : ((rest.map Flag.rid).filter (· ∉ seenIds)).filter (fun rid => !rid == v.rid) =
            (rest.map Flag.rid).filter (· ∉ v.rid :: seenIds) := by
          rw [List.filter_filter]
          exact List.filter_congr fun rid _ => Bool.eq_iff_iff.mpr (by simp)
        rw [hrest]
        have hlength : (samples ++ [sampleOf loadRecordFiles sel matched v.rid]).length =
            samples.length + 1 := by simp
        obtain ⟨left, hleft⟩ : ∃ left, maxPromptContextSamples - samples.length = left + 1 :=
          ⟨maxPromptContextSamples - samples.length - 1, by omega⟩
        rw [hleft, List.take_succ_cons, List.map_cons]
        dsimp only
        by_cases hfull : maxPromptContextSamples ≤
            (samples ++ [sampleOf loadRecordFiles sel matched v.rid]).length
        · have hzero : left = 0 := by omega
          rw [if_pos hfull, hzero, List.take_zero, List.map_nil]
        · have hmore : maxPromptContextSamples -
              (samples ++ [sampleOf loadRecordFiles sel matched v.rid]).length = left := by omega
          rw [if_neg hfull, ih _ (by omega), hmore, List.append_assoc, List.singleton_append]

/-- The record ids of violations, each once in the order they come. -/
def recordIds (matched : List Flag) : List String := (matched.map Flag.rid).eraseDups

theorem samples_eq (violations : List Flag) (sel : RuleSelection) :
    (promptContext loadRecordFiles violations sel).sampleRecords =
      ((recordIds (matching violations sel)).take maxPromptContextSamples).map
        (sampleOf loadRecordFiles sel (matching violations sel)) := by
  have hloop := sample_loop_eq loadRecordFiles sel (matching violations sel)
    (matching violations sel) [] (show ([] : List (SampleRecord F)).length < _ from Nat.succ_pos 4)
  have hall : ((matching violations sel).map Flag.rid).filter (· ∉ ([] : List String)) =
      (matching violations sel).map Flag.rid := List.filter_eq_self.mpr fun _ _ => by simp
  rw [hall, List.nil_append, List.length_nil, Nat.sub_zero] at hloop
  exact hloop

/-- Where every violation names its record and the samples are all its records, they show every
violation. -/
theorem shown_perm {violations : List Flag} {sel : RuleSelection}
    (hnamed : ∀ v ∈ matching violations sel, v.recordId.isSome)
    (hfew : (recordIds (matching violations sel)).length ≤ maxPromptContextSamples) :
    ((promptContext loadRecordFiles violations sel).sampleRecords.flatMap (·.violations)).Perm
      ((matching violations sel).map Flag.shown) := by
  have hperm := flat_map_filter_perm Flag.rid
    (nodup_erase_dups ((matching violations sel).map Flag.rid)) (matching violations sel)
    fun v hv => List.mem_eraseDups.mpr (List.mem_map_of_mem hv)
  have hsample : ∀ rid, (sampleOf loadRecordFiles sel (matching violations sel) rid).violations =
      ((matching violations sel).filter fun v => v.rid = rid).map Flag.shown := by
    intro rid
    refine congrArg (List.map Flag.shown) (List.filter_congr fun v hv => ?_)
    obtain ⟨id, hid⟩ := Option.isSome_iff_exists.mp (hnamed v hv)
    simp [Flag.rid, hid]
  rw [samples_eq, List.take_of_length_le hfew, List.flatMap_map]
  simp only [hsample]
  rw [← List.map_flatMap]
  exact hperm.map Flag.shown

/-- The context of a rule: its samples are the first records that break the rule, each once, with
the violations of the rule that name the record. -/
structure Sampled (violations : List Flag) (sel : RuleSelection) (context : PromptContext F) :
    Prop where
  rule : context.rule = sel.rule
  entityType : context.entityType = sel.entityType
  total : context.totalViolations =
    violations.countP fun v => v.rule = some sel.rule ∧ v.entityType = sel.entityType
  samples : context.sampleRecords =
    ((recordIds (matching violations sel)).take maxPromptContextSamples).map
      (sampleOf loadRecordFiles sel (matching violations sel))
  once : (context.sampleRecords.map (·.recordId)).Nodup
  few : context.sampleRecords.length ≤ maxPromptContextSamples
  all : (∀ v ∈ matching violations sel, v.recordId.isSome) →
    (recordIds (matching violations sel)).length ≤ maxPromptContextSamples →
      (context.sampleRecords.flatMap (·.violations)).Perm
        ((matching violations sel).map Flag.shown)

theorem prompt_context_sampled (violations : List Flag) (sel : RuleSelection) :
    Sampled loadRecordFiles violations sel (promptContext loadRecordFiles violations sel) where
  rule := rfl
  entityType := rfl
  total := List.countP_eq_length_filter.symm
  samples := samples_eq loadRecordFiles violations sel
  once := by
    have hid : ((·.recordId) ∘ sampleOf loadRecordFiles sel (matching violations sel)) = id := rfl
    rw [samples_eq, List.map_map, hid, List.map_id]
    exact (nodup_erase_dups _).sublist (List.take_sublist _ _)
  few := by
    rw [samples_eq, List.length_map]
    exact List.length_take_le _ _
  all := shown_perm loadRecordFiles

/-- There is one context for each rule asked for, in order, with at most five samples; if these are
all the records that break the rule, and every violation names its record, then the samples show
every violation. -/
theorem prompt_contexts_sampled (violations : List Flag) (rules : List RuleSelection) :
    List.Forall₂ (Sampled loadRecordFiles violations) rules
      (buildPromptContexts loadRecordFiles violations rules) := by
  rw [buildPromptContexts, List.forall₂_map_right_iff]
  exact List.forall₂_same.mpr fun sel _ => prompt_context_sampled loadRecordFiles violations sel

end Samples

end CatalogApi.Extraction
