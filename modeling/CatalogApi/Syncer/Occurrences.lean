import CatalogApi.Lib.Repeats
import CatalogApi.Syncer.Page
import Mathlib.Data.List.Induction

/-!
# The upserts of a page that repeats a key

The upserts of a page run tuple by tuple, so a key that occurs more than once is written once per
occurrence. `named_row_upserts` says which row a key is left with, and `upserts_keep_last` when
these rows are those of the batch that keeps the last occurrence of each key in the place of the
first: when no `COALESCE` column takes its value from an earlier occurrence. A tuple with a NULL
instance id is always inserted, and never conflicts.
-/

namespace CatalogApi.Syncer

open Table Repeats

variable {Format Media : Type} {env : Env Format Media} {rows : List (CollectionRow Format Media)}

/-- The tuples of a batch with one key. -/
def occurrences (batch : List (BatchParams Format Media)) (key : Key) :
    List (BatchParams Format Media) :=
  batch.filter fun p => p.key = key

/-- The user's rows that an upsert can conflict with. -/
def namedRows (userId : Nat) (rows : List (CollectionRow Format Media)) :
    List (CollectionRow Format Media) :=
  rows.filter fun row => row.userId = userId ∧ row.instanceId ≠ none

/-- The row an upsert of this key would update. -/
def namedRow (userId : Nat) (rows : List (CollectionRow Format Media)) (key : Key) :
    Option (CollectionRow Format Media) :=
  lookup CollectionRow.key (namedRows userId rows) key

/-- A batch of one user in which a repeated key has an instance id. -/
structure PageBatch (env : Env Format Media) (batch : List (BatchParams Format Media)) : Prop where
  user : ∀ p ∈ batch, p.userId = env.userId
  named : ∀ p ∈ batch, p.instanceId = none → (occurrences batch p.key).length ≤ 1

/-- One upsert of the table, with the id the proposed row has drawn. -/
def upsertAs (env : Env Format Media) (rows : List (CollectionRow Format Media))
    (entry : Nat × BatchParams Format Media) : List (CollectionRow Format Media) :=
  upsert (conflicts entry.2) (updateRow entry.2 (env.resolveAliases entry.2.releaseId))
    (insertRow entry.1 entry.2 (env.resolveAliases entry.2.releaseId)) rows

theorem upserts_tagged (env : Env Format Media) (batch : List (BatchParams Format Media))
    (db : Db Format Media) :
    (batch.foldl (upsertCollection env) db).userCollections =
      ((List.range' db.nextId batch.length).zip batch).foldl (upsertAs env) db.userCollections ∧
    (batch.foldl (upsertCollection env) db).nextId = db.nextId + batch.length := by
  induction batch generalizing db with
  | nil => exact ⟨rfl, rfl⟩
  | cons p batch ih =>
      obtain ⟨hrows, hnext⟩ := ih (upsertCollection env db p)
      rw [List.foldl_cons, List.length_cons, List.range'_succ, List.zip_cons_cons, List.foldl_cons]
      refine ⟨hrows, hnext.trans ?_⟩
      simp only [upsertCollection]
      omega

/-! ## One upsert -/

theorem conflicts_key {params : BatchParams Format Media} {row : CollectionRow Format Media}
    (h : conflicts params row) : row.key = params.key := by
  obtain ⟨-, hrelease, -, hinstance⟩ := h
  simp [CollectionRow.key, BatchParams.key, hrelease, hinstance]

theorem named_rows_upsert {tag : Nat} {params : BatchParams Format Media}
    (huser : params.userId = env.userId) (hinstance : params.instanceId ≠ none) :
    namedRows env.userId (upsertAs env rows (tag, params)) =
      upsertAs env (namedRows env.userId rows) (tag, params) := by
  refine filter_upsert (fun row _ hc => ?_) (fun _ _ => rfl) ?_
  · have hrow : row.userId = env.userId ∧ row.instanceId ≠ none :=
      ⟨hc.1.trans huser, hc.2.2.2 ▸ hinstance⟩
    simpa using hrow
  · exact decide_eq_true ⟨huser, hinstance⟩

theorem named_rows_insert {tag : Nat} {params : BatchParams Format Media}
    (hinstance : params.instanceId = none) :
    namedRows env.userId (upsertAs env rows (tag, params)) = namedRows env.userId rows := by
  refine filter_not_upsert (fun row _ hc => absurd hinstance hc.2.2.1) (fun _ _ => rfl) ?_
  simp [insertRow, hinstance]

theorem named_row_upsert {tag : Nat} {params : BatchParams Format Media}
    (huser : params.userId = env.userId) (hinstance : params.instanceId ≠ none) (key : Key) :
    namedRow env.userId (upsertAs env rows (tag, params)) key =
      if key = params.key then
        some ((namedRow env.userId rows params.key).elim
          (insertRow tag params (env.resolveAliases params.releaseId))
          (updateRow params (env.resolveAliases params.releaseId)))
      else namedRow env.userId rows key := by
  have hconflict : ∀ row ∈ namedRows env.userId rows,
      conflicts params row ↔ CollectionRow.key row = params.key := by
    intro row hrow
    have huserRow : row.userId = env.userId := by
      simpa using (of_decide_eq_true (List.mem_filter.mp hrow).2).1
    rw [conflicts_iff huser hinstance, and_iff_right huserRow]
  have hupdate : ∀ row ∈ namedRows env.userId rows, CollectionRow.key
      (updateRow params (env.resolveAliases params.releaseId) row) = row.key := fun _ _ => rfl
  have hfresh : CollectionRow.key (insertRow tag params
      (env.resolveAliases params.releaseId)) = params.key := rfl
  rw [namedRow, named_rows_upsert huser hinstance]
  exact lookup_upsert hconflict hupdate hfresh key

theorem upsert_present {tag : Nat} {params : BatchParams Format Media}
    (huser : params.userId = env.userId) (hinstance : params.instanceId ≠ none) :
    ∃ row ∈ upsertAs env rows (tag, params), row.userId = env.userId ∧ row.key = params.key := by
  have hfound := @named_row_upsert _ _ env rows tag params huser hinstance params.key
  rw [if_pos rfl] at hfound
  obtain ⟨hmem, hkey⟩ := lookup_mem hfound
  obtain ⟨hrow, hmine⟩ := List.mem_filter.mp hmem
  exact ⟨_, hrow, (of_decide_eq_true hmine).1, hkey⟩

/-- An upsert leaves the rows of the other keys. -/
theorem named_row_upsert_ne {entry : Nat × BatchParams Format Media}
    (huser : entry.2.userId = env.userId) {key : Key} (hkey : key ≠ entry.2.key) :
    namedRow env.userId (upsertAs env rows entry) key = namedRow env.userId rows key := by
  obtain ⟨tag, params⟩ := entry
  by_cases hinstance : params.instanceId = none
  · rw [namedRow, named_rows_insert hinstance, namedRow]
  · rw [named_row_upsert huser hinstance, if_neg hkey]

theorem unique_named_upsert {entry : Nat × BatchParams Format Media}
    (huser : entry.2.userId = env.userId)
    (h : UniqueKey CollectionRow.key (namedRows env.userId rows)) :
    UniqueKey CollectionRow.key (namedRows env.userId (upsertAs env rows entry)) := by
  obtain ⟨tag, params⟩ := entry
  by_cases hinstance : params.instanceId = none
  · rwa [named_rows_insert hinstance]
  · rw [named_rows_upsert huser hinstance]
    refine unique_upsert h (fun _ _ => rfl) fun hnone row hrow hkey => hnone row hrow ?_
    have huserRow : row.userId = env.userId := by
      simpa using (of_decide_eq_true (List.mem_filter.mp hrow).2).1
    exact (conflicts_iff huser hinstance).mpr ⟨huserRow, hkey⟩

theorem unique_named_upserts {entries : List (Nat × BatchParams Format Media)}
    (huser : ∀ entry ∈ entries, entry.2.userId = env.userId)
    (h : UniqueKey CollectionRow.key (namedRows env.userId rows)) :
    UniqueKey CollectionRow.key (namedRows env.userId (entries.foldl (upsertAs env) rows)) := by
  induction entries generalizing rows with
  | nil => exact h
  | cons entry entries ih =>
      exact ih (fun e he => huser e (List.mem_cons_of_mem _ he))
        (unique_named_upsert (huser entry List.mem_cons_self) h)

/-! ## The occurrences of one key -/

/-- A row after its tuples. -/
def settle (env : Env Format Media) (ps : List (BatchParams Format Media))
    (row : CollectionRow Format Media) : CollectionRow Format Media :=
  ps.foldl (fun row p => updateRow p (env.resolveAliases p.releaseId) row) row

theorem settle_key (env : Env Format Media) (row : CollectionRow Format Media) {key : Key}
    (hkey : row.key = key) (ps : List (BatchParams Format Media)) :
    (settle env ps row).key = key := by
  induction ps generalizing row with
  | nil => exact hkey
  | cons p ps ih => exact ih _ hkey

/-- A column that keeps the stored value where it is given none ends as the last tuple alone would
leave it. -/
def Kept {Value : Type} (field : BatchParams Format Media → Option Value) (stored : Option Value)
    (ps : List (BatchParams Format Media)) (last : BatchParams Format Media) : Prop :=
  field last ≠ none ∨ latest field ps = none ∨ latest field ps = stored

theorem kept_iff {Value : Type} {field : BatchParams Format Media → Option Value}
    {stored : Option Value} {ps : List (BatchParams Format Media)}
    {last : BatchParams Format Media} (hlast : ps.getLast? = some last) :
    Kept field stored ps last ↔ (latest field ps).or stored = (field last).or stored := by
  obtain ⟨first, rfl⟩ := List.getLast?_eq_some_iff.mp hlast
  rw [Kept, latest_append]
  cases hfield : field last with
  | some value => simp
  | none => cases latest field first <;> simp

/-- The three `COALESCE` columns of a tuple that keeps its row's values. -/
structure KeptAll (stored : Option (CollectionRow Format Media))
    (ps : List (BatchParams Format Media)) (last : BatchParams Format Media) : Prop where
  formats : Kept (·.formats) (stored.bind (·.formats)) ps last
  dateAdded : Kept (·.dateAdded) (stored.bind (·.dateAdded)) ps last
  metadata : Kept (·.metadata) (stored.bind (·.metadata)) ps last

/-- Tuples of one key leave what the last of them writes, and for a `COALESCE` column the latest
value any of them gives. -/
theorem settle_append (first : List (BatchParams Format Media)) (last : BatchParams Format Media)
    (hrelease : ∀ p ∈ first, p.releaseId = last.releaseId) (row : CollectionRow Format Media) :
    settle env (first ++ [last]) row =
      { updateRow last (env.resolveAliases last.releaseId) row with
        formats := (latest (·.formats) (first ++ [last])).or row.formats
        dateAdded := (latest (·.dateAdded) (first ++ [last])).or row.dateAdded
        metadata := (latest (·.metadata) (first ++ [last])).or row.metadata } := by
  induction first using List.reverseRecOn generalizing last with
  | nil => simp [settle, updateRow, latest]
  | append_singleton first p ih =>
      have hp : p.releaseId = last.releaseId :=
        hrelease p (List.mem_append_right _ (List.mem_singleton.mpr rfl))
      have hprevious := ih p fun q hq =>
        (hrelease q (List.mem_append_left _ hq)).trans hp.symm
      rw [settle, List.foldl_append, List.foldl_cons, List.foldl_nil, ← settle, hprevious]
      simp only [updateRow, latest_append _ (first ++ [p]), Option.or_assoc, hp]
      cases env.resolveAliases last.releaseId <;> rfl

theorem settle_kept {ps : List (BatchParams Format Media)} {last : BatchParams Format Media}
    {row : CollectionRow Format Media} (hlast : ps.getLast? = some last)
    (hrelease : ∀ p ∈ ps, p.releaseId = last.releaseId) (hkept : KeptAll (some row) ps last) :
    settle env ps row = updateRow last (env.resolveAliases last.releaseId) row := by
  have hformats := (kept_iff hlast).mp hkept.formats
  have hdate := (kept_iff hlast).mp hkept.dateAdded
  have hmetadata := (kept_iff hlast).mp hkept.metadata
  obtain ⟨first, rfl⟩ := List.getLast?_eq_some_iff.mp hlast
  rw [settle_append first last fun p hp => hrelease p (List.mem_append_left _ hp)]
  simp only [Option.bind_some] at hformats hdate hmetadata
  rw [hformats, hdate, hmetadata]
  rfl

/-! ## The table after the upserts -/

/-- Once a key has its row, its tuples can be written first, and the other tuples after them. -/
theorem upserts_present {entries : List (Nat × BatchParams Format Media)} {key : Key}
    (hkey : key.2 ≠ none) (huser : ∀ entry ∈ entries, entry.2.userId = env.userId)
    (hpresent : ∃ row ∈ rows, row.userId = env.userId ∧ row.key = key) :
    entries.foldl (upsertAs env) rows =
      (entries.filter fun entry => entry.2.key ≠ key).foldl (upsertAs env)
        (rows.map fun row => if row.userId = env.userId ∧ row.key = key then
          settle env (occurrences (entries.map (·.2)) key) row else row) := by
  induction entries generalizing rows with
  | nil =>
      refine ((List.map_congr_left fun row _ => ?_).trans (List.map_id' rows)).symm
      exact ite_self _
  | cons entry entries ih =>
      obtain ⟨tag, p⟩ := entry
      have hp : p.userId = env.userId := huser _ List.mem_cons_self
      have hrest : ∀ entry ∈ entries, entry.2.userId = env.userId := fun e he =>
        huser e (List.mem_cons_of_mem _ he)
      rw [List.foldl_cons]
      by_cases hpk : p.key = key
      · -- the tuple updates the row of the key
        have hinstance : p.instanceId ≠ none := fun hnone => hkey (hpk ▸ hnone)
        have hconflict : ∀ row : CollectionRow Format Media,
            conflicts p row ↔ row.userId = env.userId ∧ row.key = key := fun row => by
          rw [conflicts_iff hp hinstance, hpk]
        have hupdated : upsertAs env rows (tag, p) = rows.map fun row =>
            if row.userId = env.userId ∧ row.key = key then
              updateRow p (env.resolveAliases p.releaseId) row else row := by
          unfold upsertAs upsert
          rw [if_pos (by simpa only [hconflict] using hpresent)]
          refine List.map_congr_left fun row _ => ?_
          simp only [hconflict]
        obtain ⟨row, hrow, hmine⟩ := hpresent
        rw [hupdated, ih hrest ⟨_, List.mem_map_of_mem hrow, by rw [if_pos hmine]; exact hmine⟩,
          List.filter_cons_of_neg (by simpa using hpk), List.map_map]
        congr 1
        refine List.map_congr_left fun other _ => ?_
        have hoccurs : occurrences (((tag, p) :: entries).map (·.2)) key =
            p :: occurrences (entries.map (·.2)) key :=
          List.filter_cons_of_pos (by simpa using hpk)
        rw [hoccurs, Function.comp_apply]
        by_cases hother : other.userId = env.userId ∧ other.key = key
        · have hupdatedOther : (updateRow p (env.resolveAliases p.releaseId) other).userId =
              env.userId ∧ (updateRow p (env.resolveAliases p.releaseId) other).key = key := hother
          rw [if_pos hother, if_pos hupdatedOther, if_pos hother]
          rfl
        · rw [if_neg hother, if_neg hother, if_neg hother]
      · -- the tuple neither sees nor changes the row of the key
        have hoccurs : occurrences (((tag, p) :: entries).map (·.2)) key =
            occurrences (entries.map (·.2)) key := List.filter_cons_of_neg (by simpa using hpk)
        obtain ⟨row, hrow, hmine⟩ := hpresent
        have hkept : row ∈ upsertAs env rows (tag, p) := mem_upsert_of_not hrow fun hc =>
          hpk ((conflicts_key hc).symm.trans hmine.2)
        rw [ih hrest ⟨row, hkept, hmine⟩, List.filter_cons_of_pos (by simpa using hpk),
          List.foldl_cons, hoccurs]
        congr 1
        refine (upsert_map (fun other _ => ?_) (fun other _ hc => ?_) ?_).symm
        · split
          · rename_i hother
            have hsettled : ∀ ps : List (BatchParams Format Media),
                (settle env ps other).key = key := settle_key env other hother.2
            exact ⟨fun hc => absurd ((conflicts_key hc).symm.trans (hsettled _)) hpk,
              fun hc => absurd ((conflicts_key hc).symm.trans hother.2) hpk⟩
          · rfl
        · have hother : other.key ≠ key := fun heq => hpk ((conflicts_key hc).symm.trans heq)
          rw [if_neg fun h => hother h.2]
          exact (if_neg fun h => hother h.2).symm
        · exact (if_neg fun h => hpk h.2).symm

/-- The row a key is inserted with, before its first tuple. -/
def blankRow (tag : Nat) (params : BatchParams Format Media) : CollectionRow Format Media :=
  { insertRow tag params none with formats := none, dateAdded := none, metadata := none }

theorem insert_eq_update {tag : Nat} {first params : BatchParams Format Media}
    (huser : params.userId = first.userId) (hkey : params.key = first.key) (item : Option Nat) :
    insertRow tag params item = updateRow params item (blankRow tag first) := by
  obtain ⟨hrelease, hinstance⟩ := Prod.mk.inj hkey
  simp [insertRow, updateRow, blankRow, huser, hrelease, hinstance]

/-- The first tuple of a key followed by the others of the key is the last one, in the place of
the first. -/
theorem upsert_settled {tag : Nat} {p last : BatchParams Format Media}
    {ps : List (BatchParams Format Media)} (hp : p.userId = env.userId)
    (huser : last.userId = env.userId) (hinstance : p.instanceId ≠ none)
    (hsame : ∀ q ∈ ps, q.key = p.key) (hlast : (p :: ps).getLast? = some last)
    (hunique : UniqueKey CollectionRow.key (namedRows env.userId rows))
    (hkept : KeptAll (namedRow env.userId rows last.key) (p :: ps) last) :
    (upsertAs env rows (tag, p)).map (fun row =>
        if row.userId = env.userId ∧ row.key = p.key then settle env ps row else row) =
      upsertAs env rows (tag, last) := by
  have hkeys : ∀ q ∈ p :: ps, q.key = p.key := List.forall_mem_cons.mpr ⟨rfl, hsame⟩
  have hkey : last.key = p.key := hkeys last (List.mem_of_getLast? hlast)
  have hrelease : ∀ q ∈ p :: ps, q.releaseId = last.releaseId := fun q hq =>
    congrArg Prod.fst ((hkeys q hq).trans hkey.symm)
  have hnamed : last.instanceId ≠ none := by
    have hinstances : last.instanceId = p.instanceId := congrArg Prod.snd hkey
    rwa [hinstances]
  have hconflict : ∀ row : CollectionRow Format Media,
      conflicts p row ↔ row.userId = env.userId ∧ row.key = p.key := fun row =>
    conflicts_iff hp hinstance
  have hconflictLast : ∀ row : CollectionRow Format Media,
      conflicts last row ↔ row.userId = env.userId ∧ row.key = p.key := fun row => by
    rw [conflicts_iff huser hnamed, hkey]
  unfold upsertAs upsert
  simp only [hconflict, hconflictLast]
  split
  · rw [List.map_map]
    refine List.map_congr_left fun row hrow => ?_
    rw [Function.comp_apply]
    by_cases hmine : row.userId = env.userId ∧ row.key = p.key
    · have hupdated : (updateRow p (env.resolveAliases p.releaseId) row).userId = env.userId ∧
          (updateRow p (env.resolveAliases p.releaseId) row).key = p.key := hmine
      have hstored : namedRow env.userId rows last.key = some row := by
        refine lookup_of_mem hunique (List.mem_filter.mpr ⟨hrow, ?_⟩) (hmine.2.trans hkey.symm)
        exact decide_eq_true ⟨hmine.1, fun hnone =>
          hinstance ((congrArg Prod.snd hmine.2).symm.trans hnone)⟩
      rw [hstored] at hkept
      rw [if_pos hmine, if_pos hupdated, if_pos hmine]
      exact settle_kept hlast hrelease hkept
    · rw [if_neg hmine, if_neg hmine, if_neg hmine]
  · rename_i hnone
    have hstored : namedRow env.userId rows last.key = none := by
      refine lookup_none.mpr fun row hrow heq => ?_
      obtain ⟨hmem, hmine⟩ := List.mem_filter.mp hrow
      exact hnone ⟨row, hmem, (of_decide_eq_true hmine).1, heq.trans hkey⟩
    rw [hstored] at hkept
    have hblank : KeptAll (some (blankRow tag p)) (p :: ps) last :=
      ⟨hkept.formats, hkept.dateAdded, hkept.metadata⟩
    rw [List.map_append, List.map_singleton]
    congr 1
    · refine (List.map_congr_left fun row hrow => ?_).trans (List.map_id' rows)
      exact if_neg fun hmine => hnone ⟨row, hrow, hmine⟩
    · have hfresh : (insertRow tag p (env.resolveAliases p.releaseId) :
          CollectionRow Format Media).userId = env.userId ∧
          (insertRow tag p (env.resolveAliases p.releaseId)).key = p.key := ⟨hp, rfl⟩
      rw [if_pos hfresh, insert_eq_update rfl rfl,
        insert_eq_update (huser.trans hp.symm) hkey]
      exact congrArg ([·]) (settle_kept hlast hrelease hblank)

/-- The upserts of a batch leave the rows of the batch with only the last occurrence of each key,
in the place of the first, when every key keeps what its last tuple alone would leave it. A row
that is inserted has the id its first tuple drew. -/
theorem upserts_keep_last {entries : List (Nat × BatchParams Format Media)}
    (hbatch : PageBatch env (entries.map (·.2)))
    (hunique : UniqueKey CollectionRow.key (namedRows env.userId rows))
    (hkept : ∀ last ∈ keepLast BatchParams.key (entries.map (·.2)),
      KeptAll (namedRow env.userId rows last.key) (occurrences (entries.map (·.2)) last.key) last) :
    ∃ tags : List Nat, tags.Sublist (entries.map (·.1)) ∧
      tags.length = (keepLast BatchParams.key (entries.map (·.2))).length ∧
      entries.foldl (upsertAs env) rows =
        (tags.zip (keepLast BatchParams.key (entries.map (·.2)))).foldl (upsertAs env) rows := by
  -- on the length: the later occurrences of the first key leave the batch with it
  induction hlength : entries.length using Nat.strong_induction_on generalizing entries rows with
  | _ n ih =>
      cases entries with
      | nil => exact ⟨[], List.Sublist.refl _, rfl, rfl⟩
      | cons entry entries =>
          obtain ⟨tag, p⟩ := entry
          have hp : p.userId = env.userId := hbatch.user p List.mem_cons_self
          have hrestUser : ∀ e ∈ entries, e.2.userId = env.userId := fun e he =>
            hbatch.user e.2 (List.mem_cons_of_mem _ (List.mem_map_of_mem he))
          rw [List.map_cons, List.map_cons, keep_last_cons]
          set others := entries.filter fun e => e.2.key ≠ p.key with hothers
          have hmapped : (entries.map (·.2)).filter (fun q => q.key ≠ p.key) =
              others.map (·.2) := by rw [hothers, List.filter_map]; rfl
          have hoccurs : ∀ key, key ≠ p.key → occurrences (((tag, p) :: entries).map (·.2)) key =
              occurrences (others.map (·.2)) key := by
            intro key hkey
            rw [← hmapped, occurrences, occurrences, List.filter_filter, List.map_cons,
              List.filter_cons_of_neg (by simpa using hkey.symm)]
            refine List.filter_congr fun q _ => ?_
            by_cases hq : q.key = key <;> simp [hq, hkey]
          have hhere : ∀ q ∈ others.map (·.2), q ∈ entries.map (·.2) ∧ q.key ≠ p.key := by
            intro q hq
            rw [← hmapped] at hq
            simpa using List.mem_filter.mp hq
          have hrest : PageBatch env (others.map (·.2)) := by
            refine ⟨fun q hq => hbatch.user q (List.mem_cons_of_mem _ (hhere q hq).1),
              fun q hq hnone => ?_⟩
            rw [← hoccurs q.key (hhere q hq).2]
            exact hbatch.named q (List.mem_cons_of_mem _ (hhere q hq).1) hnone
          have hshort : others.length < n := by
            rw [← hlength, List.length_cons]
            exact Nat.lt_succ_of_le (List.length_filter_le _ _)
          rw [hmapped]
          rw [List.map_cons, keep_last_cons, hmapped] at hkept
          set last := ((entries.map (·.2)).filter fun q => q.key = p.key).getLast?.getD p
            with hlast
          have hlastOf : (p :: occurrences (entries.map (·.2)) p.key).getLast? = some last := by
            rw [List.getLast?_cons]
            rfl
          have hlastUser : last.userId = env.userId := by
            rcases List.mem_cons.mp (List.mem_of_getLast? hlastOf) with heq | hin
            · rw [heq, hp]
            · exact hbatch.user _ (List.mem_cons_of_mem _ (List.mem_of_mem_filter hin))
          have hlastKey : last.key = p.key := by
            rcases List.mem_cons.mp (List.mem_of_getLast? hlastOf) with heq | hin
            · rw [heq]
            · simpa using (List.mem_filter.mp hin).2
          -- the tuples of the first key, and then the rest
          have hfirst : ((tag, p) :: entries).foldl (upsertAs env) rows =
              others.foldl (upsertAs env) (upsertAs env rows (tag, last)) := by
            rw [List.foldl_cons]
            by_cases hinstance : p.instanceId = none
            · have hcount := hbatch.named p List.mem_cons_self hinstance
              rw [List.map_cons, occurrences, List.filter_cons_of_pos (by simp),
                List.length_cons] at hcount
              have hlone : ((entries.map (·.2)).filter fun q => q.key = p.key) = [] :=
                List.length_eq_zero_iff.mp (Nat.le_zero.mp (Nat.le_of_succ_le_succ hcount))
              have hsame : last = p := by rw [hlast, hlone]; rfl
              have hall : others = entries := by
                rw [hothers]
                refine List.filter_eq_self.mpr fun e he => ?_
                have hnot := List.filter_eq_nil_iff.mp hlone e.2 (List.mem_map_of_mem he)
                simpa using hnot
              rw [hsame, hall]
            · have hhead : KeptAll (namedRow env.userId rows last.key)
                  (p :: occurrences (entries.map (·.2)) p.key) last := by
                have hmine := hkept last List.mem_cons_self
                have hoccur : occurrences (p :: entries.map (·.2)) last.key =
                    p :: occurrences (entries.map (·.2)) p.key := by
                  rw [hlastKey]
                  exact List.filter_cons_of_pos (by simp)
                rwa [hoccur] at hmine
              rw [@upserts_present _ _ env _ entries p.key hinstance hrestUser
                (upsert_present hp hinstance), upsert_settled hp hlastUser hinstance
                (fun q hq => by simpa using (List.mem_filter.mp hq).2) hlastOf hunique hhead]
          obtain ⟨tags, hsub, hcount, hfold⟩ := ih _ hshort hrest
            (@unique_named_upsert _ _ env rows (tag, last) hlastUser hunique) (fun q hq => by
              have hne : q.key ≠ p.key := by
                have hmem := List.mem_of_mem_filter (List.mem_of_getLast? (mem_keep_last.mp hq))
                exact (hhere q hmem).2
              rw [@named_row_upsert_ne _ _ env rows (tag, last) hlastUser q.key (hlastKey ▸ hne),
                ← hoccurs q.key hne]
              exact hkept q (List.mem_cons_of_mem _ hq)) rfl
          refine ⟨tag :: tags, ?_, by rw [List.length_cons, List.length_cons, hcount], ?_⟩
          · exact (hsub.trans (List.filter_sublist.map _)).cons_cons tag
          · rw [hfirst, hfold, List.zip_cons_cons, List.foldl_cons]

/-! ## The row of one key -/

/-- What its tuples make of a key's row. -/
def takeTuples (env : Env Format Media) (stored : Option (CollectionRow Format Media))
    (entries : List (Nat × BatchParams Format Media)) : Option (CollectionRow Format Media) :=
  entries.foldl (fun found entry => some (found.elim
    (insertRow entry.1 entry.2 (env.resolveAliases entry.2.releaseId))
    (updateRow entry.2 (env.resolveAliases entry.2.releaseId)))) stored

theorem named_row_upserts {entries : List (Nat × BatchParams Format Media)} {key : Key}
    (hkey : key.2 ≠ none) (huser : ∀ entry ∈ entries, entry.2.userId = env.userId) :
    namedRow env.userId (entries.foldl (upsertAs env) rows) key =
      takeTuples env (namedRow env.userId rows key)
        (entries.filter fun entry => entry.2.key = key) := by
  induction entries generalizing rows with
  | nil => rfl
  | cons entry entries ih =>
      obtain ⟨tag, p⟩ := entry
      have hp : p.userId = env.userId := huser _ List.mem_cons_self
      rw [List.foldl_cons, ih fun e he => huser e (List.mem_cons_of_mem _ he)]
      by_cases hpk : p.key = key
      · have hinstance : p.instanceId ≠ none := fun hnone => hkey (hpk ▸ hnone)
        rw [List.filter_cons_of_pos (by simpa using hpk), named_row_upsert hp hinstance,
          if_pos hpk.symm, hpk]
        rfl
      · rw [List.filter_cons_of_neg (by simpa using hpk),
          @named_row_upsert_ne _ _ env rows (tag, p) hp key (Ne.symm hpk)]

section Tuples

variable {stored : Option (CollectionRow Format Media)}
  {entries : List (Nat × BatchParams Format Media)}

/-- A `COALESCE` column of the row a key is left with. -/
theorem take_tuples_field {Value : Type} {column : CollectionRow Format Media → Option Value}
    {field : BatchParams Format Media → Option Value}
    (hinsert : ∀ tag p item, column (insertRow tag p item) = field p)
    (hupdate : ∀ p item row, column (updateRow p item row) = (field p).or (column row)) :
    (takeTuples env stored entries).bind column =
      (latest field (entries.map (·.2))).or (stored.bind column) := by
  induction entries generalizing stored with
  | nil => rfl
  | cons entry entries ih =>
      rw [takeTuples, List.foldl_cons, ← takeTuples, ih, List.map_cons, latest_cons, Option.or_assoc]
      cases stored with
      | none => simp [hinsert]
      | some row => simp [hupdate]

/-- The native id of the row a key is left with. -/
theorem take_tuples_item {releaseId : Nat} (hnonempty : entries ≠ [])
    (hrelease : ∀ entry ∈ entries, entry.2.releaseId = releaseId) :
    (takeTuples env stored entries).bind (·.gmItemId) =
      (env.resolveAliases releaseId).or (stored.bind (·.gmItemId)) := by
  induction entries generalizing stored with
  | nil => exact absurd rfl hnonempty
  | cons entry entries ih =>
      have hfirst : entry.2.releaseId = releaseId := hrelease _ List.mem_cons_self
      rw [takeTuples, List.foldl_cons, ← takeTuples]
      cases entries with
      | nil => cases stored <;> simp [takeTuples, insertRow, updateRow, hfirst]
      | cons next entries =>
          rw [ih (by simp) fun e he => hrelease e (List.mem_cons_of_mem _ he)]
          cases hitem : env.resolveAliases releaseId <;> cases stored <;>
            simp [insertRow, updateRow, hfirst, hitem]

/-- The row of a key keeps its id; a new one has the id its first tuple drew. -/
theorem take_tuples_id (hnonempty : entries ≠ []) :
    ∃ row, takeTuples env stored entries = some row ∧
      (∀ old, stored = some old → row.id = old.id) ∧
      (stored = none → row.id ∈ entries.map (·.1)) := by
  induction entries generalizing stored with
  | nil => exact absurd rfl hnonempty
  | cons entry entries ih =>
      rw [takeTuples, List.foldl_cons, ← takeTuples]
      cases entries with
      | nil =>
          cases stored with
          | none => exact ⟨_, rfl, fun _ h => absurd h (by simp), fun _ => by simp [insertRow]⟩
          | some old =>
              refine ⟨_, rfl, fun other h => ?_, fun h => absurd h (by simp)⟩
              obtain rfl := Option.some.inj h
              rfl
      | cons next entries =>
          obtain ⟨row, hrow, hkeep, -⟩ := @ih (some (stored.elim
            (insertRow entry.1 entry.2 (env.resolveAliases entry.2.releaseId))
            (updateRow entry.2 (env.resolveAliases entry.2.releaseId)))) (by simp)
          have hid := hkeep _ rfl
          refine ⟨row, hrow, ?_, ?_⟩
          · rintro old rfl
            exact hid
          · rintro rfl
            rw [hid]
            exact List.mem_cons_self

end Tuples

end CatalogApi.Syncer
