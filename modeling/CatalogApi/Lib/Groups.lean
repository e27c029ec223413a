import CatalogApi.Lib.Folds
import CatalogApi.Lib.Updates
import Mathlib.Algebra.Ring.Nat

/-!
# Rows filed by name

A loop that files each row under every name the row carries, with a value started by the first row
of a name and changed by each (`file`). What is held at a name in the end is the loop over that
name's rows alone (`get_file_all`), and names that each row carries at most one of divide the rows
among them (`sum_lengths`).
-/

namespace CatalogApi.Groups

open ByKey

variable {κ V Row : Type} [DecidableEq κ]

/-- `d.setdefault(name, start(row))` for each name, changed by the row. -/
def file (start : Row → V) (add : V → Row → V) (names : List κ) (d : Dict κ V) (row : Row) :
    Dict κ V :=
  names.foldl (fun d name => d.set name (add ((d.get? name).getD (start row)) row)) d

theorem get_file (start : Row → V) (add : V → Row → V) {names : List κ} (h : names.Nodup)
    (d : Dict κ V) (row : Row) (k : κ) : (file start add names d row).get? k =
      if k ∈ names then some (add ((d.get? k).getD (start row)) row) else d.get? k :=
  Folds.get_set_each (fun held => add (held.getD (start row)) row) h d k

/-- The value a list of rows of one name leaves. -/
def folded (start : Row → V) (add : V → Row → V) : List Row → Option V
  | [] => none
  | row :: rows => some ((row :: rows).foldl add (start row))

theorem folded_eq_none {start : Row → V} {add : V → Row → V} {rows : List Row} :
    folded start add rows = none ↔ rows = [] := by
  cases rows with
  | nil => simp [folded]
  | cons row rows => simp [folded]

theorem folded_of_ne_nil {start : Row → V} {add : V → Row → V} {rows : List Row}
    (h : rows ≠ []) (value : V) (hstart : ∀ row ∈ rows, start row = value) :
    folded start add rows = some (rows.foldl add value) := by
  cases rows with
  | nil => exact absurd rfl h
  | cons row rows => rw [folded, hstart row List.mem_cons_self]

private theorem foldl_held (start : Row → V) (add : V → Row → V) (p : Row → Prop)
    [DecidablePred p] (rows : List Row) (v : V) :
    rows.foldl (fun held row => if p row then some (add (held.getD (start row)) row) else held)
      (some v) = some ((rows.filter fun row => p row).foldl add v) := by
  induction rows generalizing v with
  | nil => rfl
  | cons row rows ih =>
      by_cases hp : p row
      · simp [hp, ih]
      · simp [hp, ih]

private theorem foldl_empty (start : Row → V) (add : V → Row → V) (p : Row → Prop)
    [DecidablePred p] (rows : List Row) :
    rows.foldl (fun held row => if p row then some (add (held.getD (start row)) row) else held)
      none = folded start add (rows.filter fun row => p row) := by
  induction rows with
  | nil => rfl
  | cons row rows ih =>
      by_cases hp : p row
      · simp [hp, foldl_held, folded]
      · simp [hp, ih]

/-- What is held at a name is the loop over the rows that carry it. -/
theorem get_file_all (start : Row → V) (add : V → Row → V) {names : Row → List κ}
    (hnames : ∀ row, (names row).Nodup) (rows : List Row) (k : κ) :
    (rows.foldl (fun d row => file start add (names row) d row) Dict.empty).get? k =
      folded start add (rows.filter fun row => k ∈ names row) := by
  let effect : κ → Option V → Row → Option V := fun k held row =>
    if k ∈ names row then some (add (held.getD (start row)) row) else held
  have hstep : ∀ d row k, (file start add (names row) d row).get? k = effect k (d.get? k) row :=
    fun d row k => get_file start add (hnames row) d row k
  rw [Folds.get_foldl hstep, Dict.get_empty]
  exact foldl_empty start add (fun row => k ∈ names row) rows

/-- Where each row carries one name, and values start alike, a name holds the loop over its rows. -/
theorem get_file_one (start : V) (add : V → Row → V) (name : Row → κ) (rows : List Row) (k : κ) :
    (rows.foldl (fun d row => file (fun _ => start) add [name row] d row) Dict.empty).get? k =
      if (rows.filter fun row => name row = k) = [] then none
      else some ((rows.filter fun row => name row = k).foldl add start) := by
  have hget := get_file_all (fun _ => start) add
    (fun row => List.nodup_singleton (name row)) rows k
  have hfiltered : (rows.filter fun row => k ∈ [name row]) =
      rows.filter fun row => name row = k :=
    List.filter_congr fun row _ => by simp [eq_comm]
  rw [hget, hfiltered]
  by_cases hnil : (rows.filter fun row => name row = k) = []
  · rw [if_pos hnil, hnil]
    rfl
  · rw [if_neg hnil]
    exact folded_of_ne_nil hnil start fun _ _ => rfl

/-- Maps whose values look alike under `f` have the same values under `f`. -/
theorem values_perm {W : Type} {d other : Dict κ V} (f : V → W)
    (h : ∀ k, (d.get? k).map f = (other.get? k).map f) :
    (d.entries.map fun entry => f entry.2).Perm (other.entries.map fun entry => f entry.2) := by
  have hmem : ∀ (d : Dict κ V) (pair : κ × W),
      pair ∈ d.entries.map (fun entry => (entry.1, f entry.2)) ↔
        (d.get? pair.1).map f = some pair.2 := by
    intro d pair
    rw [List.mem_map, Option.map_eq_some_iff]
    constructor
    · rintro ⟨entry, hentry, rfl⟩
      exact ⟨entry.2, Dict.mem_iff.mp hentry, rfl⟩
    · rintro ⟨v, hv, hpair⟩
      exact ⟨(pair.1, v), Dict.mem_iff.mpr hv, by rw [hpair]⟩
  have hnodup : ∀ d : Dict κ V, (d.entries.map fun entry => (entry.1, f entry.2)).Nodup := by
    intro d
    refine List.Nodup.of_map (·.1) ?_
    rw [List.map_map]
    exact d.nodup
  have hperm : (d.entries.map fun entry => (entry.1, f entry.2)).Perm
      (other.entries.map fun entry => (entry.1, f entry.2)) := by
    refine (List.perm_ext_iff_of_nodup (hnodup d) (hnodup other)).mpr fun pair => ?_
    rw [hmem, hmem, h]
  simpa [Function.comp_def] using hperm.map (·.2)

/-- A list of the entries there are, each once and in the order of a key. -/
structure Lists {ε κ' : Type} [LE κ'] (name : ε → κ) (key : ε → κ') (entry : κ → Option ε)
    (entries : List ε) : Prop where
  exact : ∀ e, e ∈ entries ↔ entry (name e) = some e
  once : (entries.map name).Nodup
  ordered : entries.Pairwise fun e e' => key e ≤ key e'

omit [DecidableEq κ] in
/-- A key that tells the entries apart leaves one such list. -/
theorem Lists.eq {ε κ' : Type} [LinearOrder κ'] {name : ε → κ} {key : ε → κ'}
    {entry : κ → Option ε} {entries entries' : List ε} (h : Lists name key entry entries)
    (h' : Lists name key entry entries') (hkey : Separates key entries) : entries = entries' := by
  have hperm : entries.Perm entries' := by
    refine (List.perm_ext_iff_of_nodup (List.Nodup.of_map _ h.once)
      (List.Nodup.of_map _ h'.once)).mpr fun e => ?_
    rw [h.exact, h'.exact]
  refine hperm.eq_of_pairwise ?_ h.ordered h'.ordered
  intro e e' he he' hle hge
  exact hkey e he e' (hperm.mem_iff.mpr he') (le_antisymm hle hge)

/-- The sorted items of a map, one entry each, list the entries there are. -/
theorem Lists.of_sorted {ε κ' : Type} [LinearOrder κ'] {name : ε → κ} {key : ε → κ'}
    {entry : κ → Option ε} (d : Dict κ V) (make : κ × V → ε) (by_ : κ × V → κ')
    (hname : ∀ pair, name (make pair) = pair.1) (hkey : ∀ pair, key (make pair) = by_ pair)
    (hentry : ∀ k, entry k = (d.get? k).map fun v => make (k, v)) :
    Lists name key entry ((sortBy by_ d.entries).map make) where
  exact e := by
    rw [List.mem_map, hentry, Option.map_eq_some_iff]
    constructor
    · rintro ⟨⟨k, v⟩, hmem, rfl⟩
      rw [mem_sort_by, Dict.mem_iff] at hmem
      rw [hname]
      exact ⟨v, hmem, rfl⟩
    · rintro ⟨v, hv, he⟩
      exact ⟨(name e, v), mem_sort_by.mpr (Dict.mem_iff.mpr hv), he⟩
  once := by
    rw [List.map_map]
    have hfst : (name ∘ make) = fun pair => pair.1 := funext hname
    rw [hfst]
    exact ((sort_by_perm by_ d.entries).map _).nodup_iff.mpr d.nodup
  ordered := by
    rw [List.pairwise_map]
    refine (sort_by_sorted by_ d.entries).imp fun hle => ?_
    rw [hkey, hkey]
    exact hle

/-- Rows with at most one name each are counted once over the names, and the others not at all. -/
theorem sum_lengths {keys : List κ} (hkeys : keys.Nodup) (name : Row → Option κ) (rows : List Row)
    (hcover : ∀ row ∈ rows, ∀ k, name row = some k → k ∈ keys) :
    (keys.map fun k => (rows.filter fun row => name row = some k).length).sum +
      (rows.filter fun row => name row = none).length = rows.length := by
  have hnodup : (keys.map some ++ [none]).Nodup := by
    rw [List.nodup_append]
    refine ⟨hkeys.map (Option.some_injective κ), List.nodup_singleton _, ?_⟩
    intro a ha b hb heq
    obtain ⟨k, -, rfl⟩ := List.mem_map.mp ha
    rw [List.mem_singleton] at hb
    subst hb
    cases heq
  have hperm := flat_map_filter_perm name hnodup rows fun row hrow => by
    cases hname : name row with
    | none => simp
    | some k => simp [hcover row hrow k hname]
  have hlength := hperm.length_eq
  rw [List.flatMap_append, List.length_append, List.length_flatMap, List.map_map] at hlength
  simpa [Function.comp_def] using hlength

end CatalogApi.Groups
