import CatalogApi.CatalogMerge.Transactions

/-!
# What step 7 leaves in the caches

A cached row takes the item that holds its alias now (`refresh_held`) when it names one of the two
merged items, and stays as it is otherwise. So a merge and its revert, with the aliases moved and
moved back around them, leave every cache that agreed with its alias as it was
(`refresh_round_trip`).
-/

namespace CatalogApi.CatalogMerge

/-- The provider, entity kind and external id an alias is for. -/
abbrev AliasKey := String × String × String

def Alias.key (entry : Alias) : AliasKey := (entry.provider, entry.entityKind, entry.externalId)

/-- A current alias of the key names the item. -/
def HeldBy (aliases : List Alias) (key : AliasKey) (item : Nat) : Prop :=
  ∃ entry ∈ aliases, entry.key = key ∧ entry.nativeId = item ∧ entry.validTo = none

/-- The partial unique index of `provider_aliases`: a key is current for one item at most. -/
def SingleHolder (aliases : List Alias) : Prop :=
  ∀ key item other, HeldBy aliases key item → HeldBy aliases key other → item = other

/-- The current aliases of the keys have moved from one item to the other, and no other current
alias has changed. -/
def AliasesMoved (before after : List Alias) (keys : Set AliasKey) (source target : Nat) : Prop :=
  ∀ key item, HeldBy after key item ↔
    (HeldBy before key item ∧ ¬(key ∈ keys ∧ item = source)) ∨
      (item = target ∧ key ∈ keys ∧ HeldBy before key source)

/-! ## Aliases moved and moved back -/

section Moved

variable {before after : List Alias} {source target : Nat}

/-- The keys an item holds. -/
def keysOf (aliases : List Alias) (item : Nat) : Set AliasKey := {key | HeldBy aliases key item}

theorem moved_single (hsingle : SingleHolder before) {keys : Set AliasKey}
    (hmoved : AliasesMoved before after keys source target) : SingleHolder after := by
  intro key item other hitem hother
  rcases (hmoved key item).mp hitem with ⟨hi, hni⟩ | ⟨rfl, hkey, hi⟩ <;>
    rcases (hmoved key other).mp hother with ⟨ho, hno⟩ | ⟨rfl, hkey', ho⟩
  · exact hsingle key item other hi ho
  · exact absurd ⟨hkey', hsingle key item source hi ho⟩ hni
  · exact absurd ⟨hkey, hsingle key other source ho hi⟩ hno
  · rfl

/-- Moving an item's aliases away and back leaves every key with its holder. -/
theorem moved_back (hsingle : SingleHolder before) (hne : source ≠ target)
    {between : List Alias} (hmoved : AliasesMoved before between (keysOf before source) source target)
    {inner : List Alias} (hinner : ∀ key item, HeldBy inner key item ↔ HeldBy between key item)
    (hback : AliasesMoved inner after (keysOf before source) target source) (key : AliasKey)
    (item : Nat) : HeldBy after key item ↔ HeldBy before key item := by
  have hsource : key ∈ keysOf before source ↔ HeldBy before key source := Iff.rfl
  rw [hback key item, hinner, hinner, hmoved key item, hmoved key target, hsource]
  constructor
  · rintro (⟨⟨hitem, -⟩ | ⟨rfl, hkey, -⟩, hnot⟩ | ⟨rfl, hkey, -⟩)
    · exact hitem
    · exact absurd ⟨hkey, rfl⟩ hnot
    · exact hkey
  · intro hitem
    by_cases hkey : HeldBy before key source
    · obtain rfl := hsingle key item source hitem hkey
      exact Or.inr ⟨rfl, hkey, Or.inr ⟨rfl, hkey, hkey⟩⟩
    · exact Or.inl ⟨Or.inl ⟨hitem, fun h => hkey h.1⟩, fun h => hkey h.1⟩

end Moved

/-! ## One cached row -/

/-- The alias a cached row is recomputed from. -/
def cacheKey (cache : CacheTable) (row : CachedRow) : AliasKey :=
  (cache.provider, cache.entityKind, row.key)

section Row

variable {aliases : List Alias} {cache : CacheTable} {items : List Nat} {row : CachedRow}

theorem recompute_row_table (aliases : List Alias) (cache : CacheTable) (items : List Nat)
    (row : CachedRow) : (recomputeRow aliases cache items row).table = row.table := by
  unfold recomputeRow
  split <;> rfl

theorem recompute_row_other (h : row.table ≠ cache.table) :
    recomputeRow aliases cache items row = row := by
  have hnone : recomputeAlias aliases cache items row = none := by
    unfold recomputeAlias
    split
    · rfl
    · exact if_neg fun hcond => h hcond.1
  rw [recomputeRow, hnone]

theorem recompute_row_null (h : row.gmItemId = none) :
    recomputeRow aliases cache items row = row := by
  have hnone : recomputeAlias aliases cache items row = none := by
    rw [recomputeAlias, h]
  rw [recomputeRow, hnone]

theorem recompute_row_elsewhere {item : Nat} (h : row.gmItemId = some item) (hitem : item ∉ items) :
    recomputeRow aliases cache items row = row := by
  have hnone : recomputeAlias aliases cache items row = none := by
    rw [recomputeAlias, h]
    exact if_neg fun hcond => hitem hcond.2
  rw [recomputeRow, hnone]

/-- A row without a current alias is left alone. -/
theorem recompute_row_unheld (h : ∀ item, ¬HeldBy aliases (cacheKey cache row) item) :
    recomputeRow aliases cache items row = row := by
  unfold recomputeRow
  split
  · rename_i entry hentry
    unfold recomputeAlias at hentry
    split at hentry
    · cases hentry
    · split at hentry
      · have hmem := List.mem_of_find?_eq_some hentry
        have hcond := List.find?_some hentry
        rw [decide_eq_true_eq] at hcond
        refine absurd ⟨entry, hmem, ?_, rfl, hcond.2.2.2.1⟩ (h entry.nativeId)
        rw [Alias.key, cacheKey, hcond.1, hcond.2.1, hcond.2.2.1]
      · cases hentry
  · rfl

/-- A row on one of the items takes the holder of its alias. -/
theorem recompute_row_held (hsingle : SingleHolder aliases) (htable : row.table = cache.table)
    {item holder : Nat} (h : row.gmItemId = some item) (hitem : item ∈ items)
    (hheld : HeldBy aliases (cacheKey cache row) holder) :
    recomputeRow aliases cache items row = { row with gmItemId := some holder } := by
  have hkey : ∀ {entry : Alias}, (entry.provider = cache.provider ∧
      entry.entityKind = cache.entityKind ∧ entry.externalId = row.key) ↔
      entry.key = cacheKey cache row := by
    intro entry
    rw [Alias.key, cacheKey, Prod.mk.injEq, Prod.mk.injEq]
  unfold recomputeRow recomputeAlias
  rw [h]
  dsimp only
  rw [if_pos ⟨htable, hitem⟩]
  split
  · rename_i entry hentry
    have hmem := List.mem_of_find?_eq_some hentry
    have hcond := List.find?_some hentry
    rw [decide_eq_true_eq] at hcond
    have hsame := hsingle _ _ _ hheld ⟨entry, hmem,
      hkey.mp ⟨hcond.1, hcond.2.1, hcond.2.2.1⟩, rfl, hcond.2.2.2.1⟩
    rw [hsame]
  · -- no current alias resolves elsewhere, so the holder is the cached item
    rename_i hnone
    obtain ⟨entry, hmem, hentry, rfl, hcurrent⟩ := hheld
    obtain ⟨hprovider, hkind, hexternal⟩ := hkey.mpr hentry
    have hsame := List.find?_eq_none.mp hnone entry hmem
    simp only [hprovider, hkind, hexternal, hcurrent, true_and, decide_eq_true_eq, not_not,
      ne_eq] at hsame
    obtain ⟨table, key, gmItemId⟩ := row
    simp only at h
    rw [h, hsame]

end Row

/-! ## All caches of a kind -/

/-- `recompute_caches` on one cached row. -/
def refresh (aliases : List Alias) (kind : EntityKind) (items : List Nat) (row : CachedRow) :
    CachedRow :=
  (cacheTables kind).foldl (fun row cache => recomputeRow aliases cache items row) row

theorem recompute_caches_eq (kind : EntityKind) (items : List Nat) (db : Db) :
    (recomputeCaches kind items db).1 =
      { db with caches := db.caches.map (refresh db.aliases kind items) } := by
  have hfold : ∀ (tables : List CacheTable) (state : Db × List (String × Nat)),
      (tables.foldl (fun (state : Db × List (String × Nat)) cache =>
        let hits := state.1.caches.filter fun row =>
          (recomputeAlias state.1.aliases cache items row).isSome
        ({ state.1 with caches := state.1.caches.map (recomputeRow state.1.aliases cache items) },
         state.2 ++ [(cache.table, hits.length)])) state).1 =
      { state.1 with caches := state.1.caches.map fun row =>
          tables.foldl (fun row cache => recomputeRow state.1.aliases cache items row) row } := by
    intro tables
    induction tables with
    | nil =>
        intro state
        simp
    | cons cache tables ih =>
        intro state
        rw [List.foldl_cons, ih]
        simp only [List.map_map]
        rfl
  exact hfold (cacheTables kind) (db, [])

theorem cache_tables_nodup (kind : EntityKind) : ((cacheTables kind).map (·.table)).Nodup := by
  cases kind <;> decide

/-- A fold over tables of other names leaves a row alone. -/
theorem refresh_other {aliases : List Alias} {items : List Nat} {row : CachedRow}
    {tables : List CacheTable} (h : ∀ cache ∈ tables, row.table ≠ cache.table) :
    tables.foldl (fun row cache => recomputeRow aliases cache items row) row = row := by
  induction tables with
  | nil => rfl
  | cons cache tables ih =>
      rw [List.foldl_cons, recompute_row_other (h cache List.mem_cons_self)]
      exact ih fun other hother => h other (List.mem_cons_of_mem _ hother)

section Refresh

variable {aliases : List Alias} {kind : EntityKind} {items : List Nat} {row : CachedRow}

/-- A row of a kind's table is recomputed for that table. -/
theorem refresh_eq {cache : CacheTable} (hcache : cache ∈ cacheTables kind)
    (htable : row.table = cache.table) :
    refresh aliases kind items row = recomputeRow aliases cache items row := by
  obtain ⟨first, last, hsplit⟩ := List.append_of_mem hcache
  have hnodup := cache_tables_nodup kind
  rw [hsplit, List.map_append, List.map_cons, List.nodup_append, List.nodup_cons] at hnodup
  obtain ⟨-, ⟨hlast, -⟩, hfirst⟩ := hnodup
  have hbefore : first.foldl (fun row cache => recomputeRow aliases cache items row) row = row :=
    refresh_other fun other hother heq => hfirst other.table (List.mem_map_of_mem hother)
      cache.table List.mem_cons_self (heq.symm.trans htable)
  rw [refresh, hsplit, List.foldl_append, List.foldl_cons, hbefore]
  refine refresh_other fun other hother heq => ?_
  rw [recompute_row_table, htable] at heq
  exact hlast (heq ▸ List.mem_map_of_mem hother)

theorem refresh_untabled (h : ∀ cache ∈ cacheTables kind, row.table ≠ cache.table) :
    refresh aliases kind items row = row :=
  refresh_other h

theorem refresh_held (hsingle : SingleHolder aliases) {cache : CacheTable}
    (hcache : cache ∈ cacheTables kind) (htable : row.table = cache.table) {item holder : Nat}
    (h : row.gmItemId = some item) (hitem : item ∈ items)
    (hheld : HeldBy aliases (cacheKey cache row) holder) :
    refresh aliases kind items row = { row with gmItemId := some holder } := by
  rw [refresh_eq hcache htable, recompute_row_held hsingle htable h hitem hheld]

/-- A row is recomputed only on an item of the pair that has a current alias. -/
theorem refresh_cases (hsingle : SingleHolder aliases) (kind : EntityKind) (items : List Nat)
    (row : CachedRow) :
    refresh aliases kind items row = row ∨
      ∃ item cache holder, row.gmItemId = some item ∧ item ∈ items ∧ cache ∈ cacheTables kind ∧
        row.table = cache.table ∧ HeldBy aliases (cacheKey cache row) holder ∧
        refresh aliases kind items row = { row with gmItemId := some holder } := by
  by_cases htabled : ∀ cache ∈ cacheTables kind, row.table ≠ cache.table
  · exact Or.inl (refresh_untabled htabled)
  · push Not at htabled
    obtain ⟨cache, hcache, htable⟩ := htabled
    cases hitem : row.gmItemId with
    | none => exact Or.inl (by rw [refresh_eq hcache htable, recompute_row_null hitem])
    | some item =>
        by_cases hin : item ∈ items
        · by_cases hheld : ∃ holder, HeldBy aliases (cacheKey cache row) holder
          · obtain ⟨holder, hheld⟩ := hheld
            exact Or.inr ⟨item, cache, holder, rfl, hin, hcache, htable, hheld,
              refresh_held hsingle hcache htable hitem hin hheld⟩
          · push Not at hheld
            exact Or.inl (by rw [refresh_eq hcache htable, recompute_row_unheld hheld])
        · exact Or.inl (by rw [refresh_eq hcache htable, recompute_row_elsewhere hitem hin])

end Refresh

/-! ## Caches that agree with their aliases -/

/-- Every cache of an item's kind agrees with its current alias. -/
def Coherent (db : Db) : Prop :=
  ∀ row ∈ db.caches, ∀ item kind cache holder, row.gmItemId = some item →
    db.kinds item = some kind → cache ∈ cacheTables kind → row.table = cache.table →
    HeldBy db.aliases (cacheKey cache row) holder → holder = item

section Pair

variable {before between : List Alias} {source target : Nat} (hsingle : SingleHolder before)
  (hne : source ≠ target)
  (hmoved : AliasesMoved before between (keysOf before source) source target)
include hsingle hne hmoved

/-- A row that agreed with its alias is recomputed back to what it was. -/
theorem refresh_round_trip {after : List Alias}
    (hafter : ∀ key item, HeldBy after key item ↔ HeldBy before key item) {kind : EntityKind}
    {row : CachedRow}
    (hcoherent : ∀ item ∈ [source, target], ∀ cache holder, row.gmItemId = some item →
      cache ∈ cacheTables kind → row.table = cache.table →
      HeldBy before (cacheKey cache row) holder → holder = item) :
    refresh after kind [source, target] (refresh between kind [source, target] row) = row := by
  have hsingleAfter : SingleHolder after := fun key item other hitem hother =>
    hsingle key item other ((hafter _ _).mp hitem) ((hafter _ _).mp hother)
  have hself : ∀ {item}, row.gmItemId = some item → { row with gmItemId := some item } = row := by
    intro item hitem
    rw [← hitem]
  have hkept : refresh after kind [source, target] row = row := by
    rcases refresh_cases hsingleAfter kind [source, target] row with hsame |
      ⟨item, cache, holder, hitem, hin, hcache, htable, hheld, hrow⟩
    · exact hsame
    · rw [hrow, hcoherent item hin cache holder hitem hcache htable ((hafter _ _).mp hheld)]
      exact hself hitem
  rcases refresh_cases (moved_single hsingle hmoved) kind [source, target] row with hsame | ⟨item, cache, holder, hitem, hin, hcache, htable, hheld, hrow⟩
  · rw [hsame, hkept]
  · rcases (hmoved _ _).mp hheld with ⟨hbefore, -⟩ | ⟨rfl, -, hbefore⟩
    · rw [hrow, hcoherent item hin cache holder hitem hcache htable hbefore, hself hitem, hkept]
    · -- the row followed its alias to the target, and follows it back
      obtain rfl := hcoherent item hin cache source hitem hcache htable hbefore
      have htable' : ({ row with gmItemId := some holder } : CachedRow).table = cache.table :=
        htable
      have hback : refresh after kind [source, holder] { row with gmItemId := some holder } =
          { row with gmItemId := some source } :=
        refresh_held hsingleAfter hcache htable' rfl
          (List.mem_cons_of_mem _ (List.mem_singleton.mpr rfl)) ((hafter _ _).mpr hbefore)
      rw [hrow, hback]
      exact hself hitem

/-- The caches agree with their aliases after a merge as well. -/
theorem coherent_merged {db : Db} (hcoherent : Coherent db) (haliases : db.aliases = before)
    {kind : EntityKind} (hsource : db.kinds source = some kind)
    (htarget : db.kinds target = some kind) {next : Db} (hkinds : next.kinds = db.kinds)
    (hnext : next.aliases = between)
    (hcaches : next.caches = db.caches.map (refresh between kind [source, target])) :
    Coherent next := by
  subst haliases
  have hsingleBetween := moved_single hsingle hmoved
  intro row' hrow' item kind' cache holder hitem hkind hcache htable hheld
  rw [hcaches] at hrow'
  rw [hkinds] at hkind
  rw [hnext] at hheld
  obtain ⟨row, hrow, rfl⟩ := List.mem_map.mp hrow'
  have hpair : ∀ {other}, other ∈ [source, target] → db.kinds other = some kind := by
    intro other hother
    simp only [List.mem_cons, List.not_mem_nil, or_false] at hother
    rcases hother with rfl | rfl
    · exact hsource
    · exact htarget
  rcases refresh_cases hsingleBetween kind [source, target] row with hsame |
    ⟨cached, cache', holder', hcached, hin, hcache', htable', hheld', hnew⟩
  · rw [hsame] at hitem htable hheld
    rcases (hmoved _ _).mp hheld with ⟨hbefore, -⟩ | ⟨rfl, -, hbefore⟩
    · exact hcoherent row hrow item kind' cache holder hitem hkind hcache htable hbefore
    · -- a row on the source whose alias moved has been recomputed
      obtain rfl := hcoherent row hrow item kind' cache source hitem hkind hcache htable hbefore
      obtain rfl : kind = kind' := Option.some.inj (hsource.symm.trans hkind)
      rw [refresh_held hsingleBetween hcache htable hitem List.mem_cons_self hheld] at hsame
      have hcontra := congrArg CachedRow.gmItemId hsame
      rw [hitem] at hcontra
      exact Option.some.inj hcontra
  · rw [hnew] at hitem htable hheld
    obtain rfl : holder' = item := Option.some.inj hitem
    have hholder : db.kinds holder' = some kind := by
      rcases (hmoved _ _).mp hheld' with ⟨hbefore, -⟩ | ⟨rfl, -, -⟩
      · rw [hcoherent row hrow cached kind cache' holder' hcached (hpair hin) hcache' htable'
          hbefore]
        exact hpair hin
      · exact htarget
    obtain rfl : kind = kind' := Option.some.inj (hholder.symm.trans hkind)
    obtain rfl : cache = cache' := List.inj_on_of_nodup_map (cache_tables_nodup kind) hcache hcache'
      (htable.symm.trans htable')
    exact hsingleBetween _ _ _ hheld hheld'

end Pair

end CatalogApi.CatalogMerge
