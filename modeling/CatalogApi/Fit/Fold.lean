import CatalogApi.Fit.Collection

/-!
# What the fold holds

Each accumulator of `fold_collection` read at one value: the sets hold what some release carries,
the counts how many releases carry a value, and the title index the title of the last release and
the lowest id of all releases with a key. All of them but the titles read alike for two orders of
the rows.
-/

namespace CatalogApi.Fit

open Folds ByKey

variable {titleText : String → String} {releases releases' : List Release}

/-! ## One accumulator of the loop -/

section Accumulators

/-- An accumulator that each step updates from itself is a loop of its own. -/
theorem folded_field {α : Type} (field : Folding → α) (step : α → Release → α)
    (hstep : ∀ folding release, step (field folding) release =
      field (foldRelease titleText folding release)) (releases : List Release) :
    field (folded titleText releases) = releases.foldl step (field emptyFolding) :=
  (List.foldl_hom field hstep).symm

theorem mem_folded_set {field : Folding → Finset String} {values : Release → List String}
    (hempty : field emptyFolding = ∅) (hstep : ∀ folding release,
      field (foldRelease titleText folding release) = field folding ∪ (values release).toFinset)
    (value : String) :
    value ∈ field (folded titleText releases) ↔ ∃ release ∈ releases, value ∈ values release := by
  have hloop : ∀ (releases : List Release) (start : Finset String),
      value ∈ releases.foldl (fun set release => set ∪ (values release).toFinset) start ↔
        value ∈ start ∨ ∃ release ∈ releases, value ∈ values release := by
    intro releases
    induction releases with
    | nil => simp
    | cons release releases ih =>
        intro start
        rw [List.foldl_cons, ih, Finset.mem_union, List.mem_toFinset, or_assoc]
        simp
  rw [folded_field field (fun set release => set ∪ (values release).toFinset)
    fun folding release => (hstep folding release).symm, hloop, hempty]
  simp

/-- How many releases carry a value. -/
def carrying (values : Release → List String) (releases : List Release) (value : String) : Nat :=
  releases.countP fun release => value ∈ values release

theorem get_count_values (counts : Dict String Nat) (values : List String) (value : String) :
    (countValues counts values).get? value =
      if value ∈ values then some ((counts.get? value).getD 0 + 1) else counts.get? value := by
  rw [countValues, get_set_each (fun held => held.getD 0 + 1) (nodup_erase_dups values)]
  simp only [List.mem_eraseDups]

/-- A folded counter counts the releases that carry the value. -/
theorem get_folded_count {field : Folding → Dict String Nat} {values : Release → List String}
    (hempty : field emptyFolding = .empty) (hstep : ∀ folding release,
      field (foldRelease titleText folding release) = countValues (field folding) (values release))
    (value : String) :
    (field (folded titleText releases)).get? value =
      if 0 < carrying values releases value then some (carrying values releases value)
      else none := by
  have hloop : ∀ (releases : List Release) (start : Option Nat),
      releases.foldl (fun held release =>
        if value ∈ values release then some (held.getD 0 + 1) else held) start =
        if 0 < carrying values releases value then
          some (start.getD 0 + carrying values releases value) else start := by
    intro releases
    induction releases with
    | nil => intro start; rfl
    | cons release releases ih =>
        intro start
        rw [List.foldl_cons, ih]
        by_cases hvalue : value ∈ values release
        · have hcount : carrying values (release :: releases) value =
              carrying values releases value + 1 := List.countP_cons_of_pos (by simpa using hvalue)
          rw [if_pos hvalue, hcount, if_pos (Nat.succ_pos _), Option.getD_some]
          split
          · congr 1
            omega
          · congr 1
            omega
        · have hcount : carrying values (release :: releases) value =
              carrying values releases value := List.countP_cons_of_neg (by simpa using hvalue)
          rw [if_neg hvalue, hcount]
  rw [folded_field field (fun counts release => countValues counts (values release))
    fun folding release => (hstep folding release).symm,
    @get_foldl _ _ _ _ _ (fun value held release =>
      if value ∈ values release then some (held.getD 0 + 1) else held)
      fun d release k => get_count_values d (values release) k, hempty, Dict.get_empty, hloop]
  simp

theorem get_join_values (mapping : Dict String (Finset String)) (genres values : List String)
    (genre : String) :
    (joinValues mapping genres values).get? genre =
      if genre ∈ genres then some ((mapping.get? genre).getD ∅ ∪ values.toFinset)
      else mapping.get? genre := by
  rw [joinValues, get_set_each (fun held => held.getD ∅ ∪ values.toFinset)
    (nodup_erase_dups genres)]
  simp only [List.mem_eraseDups]

/-- The title and the lowest id of a key, as the loop reads them. -/
theorem get_add_titles (titles : Dict String String) (release : Release) (key : String) :
    (addTitles titleText titles release).get? key =
      if key ∈ titleKeys titleText release then release.title else titles.get? key := by
  unfold addTitles
  cases htitle : release.title with
  | none => simp [titleKeys, htitle]
  | some title =>
      exact @get_set_idem _ _ _ (fun _ => title) (fun _ => rfl) _ titles key

theorem get_add_title_releases (ids : Dict String String) (release : Release) (key : String) :
    (addTitleReleases titleText ids release).get? key =
      if key ∈ titleKeys titleText release then
        some (min ((ids.get? key).getD release.releaseId) release.releaseId)
      else ids.get? key :=
  @get_set_idem _ _ _ (fun held => min (held.getD release.releaseId) release.releaseId)
    (fun held => by simp) _ ids key

end Accumulators

end CatalogApi.Fit
