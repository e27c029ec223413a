import CatalogApi.Search.Results

/-!
# Reading search results page by page

The cap of each branch is twice what the page needs, so a page is a page of all matches in some
order by rank and id (`results_firsts`). Ids are unique within a type only: matches of two types
with one rank and id tie, and every page is a statement of its own that may order them anew. The
pages hold every match once exactly when no such tie stands across a page boundary
(`pages_complete_iff`).
-/

namespace CatalogApi.Search

open ByKey Slices

section Matches

variable {Rank : Type} (query : Query Rank) (catalog : Catalog)

/-- The row of a match. -/
def Query.hit (type : EntityType) (document : Document) : Row Rank :=
  query.row type (query.search.rank (Query.text type document)) document

/-- The rows of all matches of a type. -/
def Query.hitsOf (type : EntityType) : List (Row Rank) :=
  ((catalog type).filter (query.selects type)).map (query.hit type)

/-- The rows of all matches. -/
def Query.hits (types : List EntityType) : List (Row Rank) :=
  types.flatMap (query.hitsOf catalog)

/-- Ids are unique within each entity table. -/
def Catalog.Keyed (catalog : Catalog) : Prop :=
  ∀ type, ((catalog type).map (·.dataId)).Nodup

end Matches

section Places

variable {Rank : Type} {query : Query Rank} {catalog : Catalog}
  {type : EntityType} {types : List EntityType}

/-- What identifies a row. -/
def Row.place (row : Row Rank) : EntityType × String := (row.type, row.id)

theorem mem_hits {row : Row Rank} :
    row ∈ query.hits catalog types ↔ ∃ type ∈ types, ∃ document ∈ catalog type,
      query.selects type document = true ∧ query.hit type document = row := by
  simp only [Query.hits, Query.hitsOf, List.mem_flatMap, List.mem_map, List.mem_filter, and_assoc]

theorem hits_places_nodup (hkeyed : catalog.Keyed) (htypes : types.Nodup) :
    ((query.hits catalog types).map (·.place)).Nodup := by
  rw [Query.hits, List.map_flatMap, List.nodup_flatMap]
  constructor
  · intro type _
    have hids : (((catalog type).filter (query.selects type)).map (·.dataId)).Nodup :=
      (hkeyed type).sublist (List.filter_sublist.map _)
    rw [Query.hitsOf, List.map_map]
    refine hids.of_map.map_on fun document hdocument other hother heq => ?_
    exact List.inj_on_of_nodup_map hids hdocument hother (congrArg Prod.snd heq)
  · refine htypes.imp fun {type other} hne place hplace hother => hne ?_
    simp only [Query.hitsOf, List.map_map, List.mem_map] at hplace hother
    obtain ⟨document, -, rfl⟩ := hplace
    obtain ⟨document', -, heq⟩ := hother
    exact (congrArg Prod.fst heq).symm

theorem hits_nodup (hkeyed : catalog.Keyed) (htypes : types.Nodup) :
    (query.hits catalog types).Nodup :=
  (hits_places_nodup hkeyed htypes).of_map

theorem hits_place_injective (hkeyed : catalog.Keyed) (htypes : types.Nodup) {row other : Row Rank}
    (hrow : row ∈ query.hits catalog types) (hother : other ∈ query.hits catalog types)
    (heq : row.place = other.place) : row = other :=
  List.inj_on_of_nodup_map (hits_places_nodup hkeyed htypes) hrow hother heq

end Places

/-! ## A page of one execution -/

section Joins

variable {Rank : Type} {query : Query Rank} {catalog : Catalog} {type : EntityType}

/-- The row that the join gives an entry of a branch. -/
def entryRow (query : Query Rank) (catalog : Catalog) (type : EntityType)
    (entry : String × Rank) : Row Rank :=
  match (catalog type).find? fun document => document.dataId = entry.1 with
  | some document => query.row type entry.2 document
  | none => ⟨type, entry.1, none, entry.2, "", none, none, none⟩

/-- The document with an id is the only one. -/
theorem filter_id (hkeyed : catalog.Keyed) {document : Document} (hmem : document ∈ catalog type) :
    ((catalog type).filter fun other => other.dataId = document.dataId) = [document] := by
  have hids := hkeyed type
  refine List.perm_singleton.mp ((List.perm_ext_iff_of_nodup (hids.of_map.filter _)
    (List.nodup_singleton _)).mpr fun other => ?_)
  rw [List.mem_filter, decide_eq_true_eq, List.mem_singleton]
  constructor
  · rintro ⟨hother, hid⟩
    exact List.inj_on_of_nodup_map hids hother hmem hid
  · rintro rfl
    exact ⟨hmem, rfl⟩

theorem find_id (hkeyed : catalog.Keyed) {document : Document} (hmem : document ∈ catalog type) :
    ((catalog type).find? fun other => other.dataId = document.dataId) = some document := by
  rw [← List.head?_filter, filter_id hkeyed hmem]
  rfl

/-- The join gives an entry one row. -/
theorem join_entry (hkeyed : catalog.Keyed) {entry : String × Rank}
    (hentry : entry ∈ query.matched type catalog) :
    ((catalog type).filter fun document => document.dataId = entry.1).map
      (query.row type entry.2) = [entryRow query catalog type entry] := by
  obtain ⟨document, hdocument, rfl⟩ := List.mem_map.mp hentry
  have hmem := List.mem_of_mem_filter hdocument
  rw [entryRow, find_id hkeyed hmem, filter_id hkeyed hmem]
  rfl

/-- The rows of the entries are those of the matches. -/
theorem entries_rows (hkeyed : catalog.Keyed) :
    (query.matched type catalog).map (entryRow query catalog type) = query.hitsOf catalog type := by
  rw [Query.matched, List.map_map, Query.hitsOf]
  refine List.map_congr_left fun document hdocument => ?_
  rw [Function.comp_apply, entryRow, find_id hkeyed (List.mem_of_mem_filter hdocument)]
  rfl

theorem entry_row_key (entry : String × Rank) :
    rowKey (entryRow query catalog type entry) = branchKey entry := by
  unfold entryRow
  split
  · rename_i document hfind
    have hid : document.dataId = entry.1 := by simpa using List.find?_some hfind
    rw [rowKey, branchKey, Query.row, hid]
  · rfl

theorem branch_key_injective {entry other : String × Rank} (h : branchKey entry = branchKey other) :
    entry = other := by
  rw [branchKey, branchKey, EmbeddingLike.apply_eq_iff_eq, Prod.mk.injEq,
    EmbeddingLike.apply_eq_iff_eq] at h
  exact Prod.ext h.2 h.1

end Joins

section Branches

variable {Rank : Type} [LinearOrder Rank] {query : Query Rank} {catalog : Catalog}
  {sorts : Sorts Rank} {type : EntityType} {types : List EntityType}
  {κ : Type} [LinearOrder κ] {order : Row Rank → κ}

/-- In one table ids break every tie, so any order by rank and id orders its matches alike. -/
theorem entry_order (horder : ∀ a b : Row Rank, order a ≤ order b → rowKey a ≤ rowKey b)
    {entry other : String × Rank} (h : branchKey entry ≤ branchKey other) :
    order (entryRow query catalog type entry) ≤ order (entryRow query catalog type other) := by
  rcases h.lt_or_eq with hlt | heq
  · by_contra hle
    rw [not_le] at hle
    have hback := horder _ _ hle.le
    rw [entry_row_key, entry_row_key] at hback
    exact absurd hlt (not_lt.mpr hback)
  · rw [branch_key_injective heq]

/-- The rows of a branch are the first matches of the type. -/
theorem entity_firsts (hkeyed : catalog.Keyed) (hlawful : sorts.Lawful)
    (horder : ∀ a b : Row Rank, order a ≤ order b → rowKey a ≤ rowKey b) {n : Nat} (hn : 0 < n) :
    Firsts order n (query.hitsOf catalog type) (entitySelect query sorts catalog n type) := by
  have hsort := hlawful.branch type (query.matched type catalog)
  have htop : Firsts branchKey n (query.matched type catalog)
      ((sorts.branch type (query.matched type catalog)).take n) :=
    (Firsts.take_sorted hsort.sorted).perm hsort.perm (List.Perm.refl _)
  have hrows : entitySelect query sorts catalog n type =
      ((sorts.branch type (query.matched type catalog)).take n).map
        (entryRow query catalog type) := by
    rw [entitySelect, if_neg hn.ne', List.map_eq_flatMap]
    exact List.flatMap_congr fun entry hentry => join_entry hkeyed (htop.mem hentry)
  rw [hrows, ← entries_rows hkeyed]
  exact htop.map fun _ _ _ _ hle => entry_order horder hle

/-- The rows of the union that come first are the first of all matches. -/
theorem results_firsts (hkeyed : catalog.Keyed) (hlawful : sorts.Lawful)
    (horder : ∀ a b : Row Rank, order a ≤ order b → rowKey a ≤ rowKey b) {n m : Nat} (hn : 0 < n)
    (hm : m ≤ n) (hsorted : (sorts.results (types.flatMap
      (entitySelect query sorts catalog n))).Pairwise fun a b => order a ≤ order b) :
    Firsts order m (query.hits catalog types)
      ((sorts.results (types.flatMap (entitySelect query sorts catalog n))).take m) := by
  have hkeeps : Keeps order n (query.hits catalog types)
      (types.flatMap (entitySelect query sorts catalog n)) :=
    Keeps.flat_map fun type _ => (entity_firsts hkeyed hlawful horder hn).keeps
  exact hkeeps.firsts ((Firsts.take_sorted hsorted).perm (hlawful.results _).perm
    (List.Perm.refl _)) hm

omit [LinearOrder Rank] in
/-- A page is a part of the first rows of the union. -/
theorem run_results_eq (htypes : types ≠ []) (limit page : Nat) :
    runResults query sorts catalog types limit (page * limit) =
      .ok (((sorts.results (types.flatMap
        (entitySelect query sorts catalog ((limit + page * limit) * 2)))).take
          (page * limit + limit)).drop (page * limit)) := by
  rw [runResults, buildUnion, if_neg htypes, List.drop_take, Nat.add_sub_cancel_left]
  rfl

/-- A page is that page of all matches in some order. -/
theorem run_results_page (hkeyed : catalog.Keyed) (hlawful : sorts.Lawful) (htypes : types ≠ [])
    {limit : Nat} (hlimit : 0 < limit) (page : Nat) :
    ∃ order, Ordered rowKey (query.hits catalog types) order ∧
      runResults query sorts catalog types limit (page * limit) =
        .ok (slice order page limit) := by
  have hn : 0 < (limit + page * limit) * 2 := by omega
  have hcap : page * limit + limit ≤ (limit + page * limit) * 2 := by omega
  have hsort := hlawful.results
    (types.flatMap (entitySelect query sorts catalog ((limit + page * limit) * 2)))
  have hfirsts : Firsts rowKey (page * limit + limit) (query.hits catalog types) _ :=
    results_firsts hkeyed hlawful (fun _ _ hle => hle) hn hcap hsort.sorted
  obtain ⟨order, hperm, hsorted, htake⟩ :=
    hfirsts.order (hsort.sorted.sublist (List.take_sublist _ _))
  refine ⟨order, ⟨hperm, hsorted⟩, ?_⟩
  rw [run_results_eq htypes, htake, List.drop_take, Nat.add_sub_cancel_left]
  rfl

end Branches

/-! ## Reading all pages -/

section Reading

variable {Rank : Type} [LinearOrder Rank] {query : Query Rank} {catalog : Catalog}
  {types : List EntityType} {limit : Nat} {rows : List (Row Rank)}
  {orders : Nat → List (Row Rank)}

/-- What a client reads: every page up to the first that is shorter than the limit. -/
def Reads (limit : Nat) (pages : Nat → List (Row Rank)) (rows : List (Row Rank)) : Prop :=
  ∃ last, (∀ page < last, limit ≤ (pages page).length) ∧ (pages last).length < limit ∧
    rows = (List.range (last + 1)).flatMap pages

/-- Every match is read once, and the ranks do not increase. -/
structure Complete (query : Query Rank) (catalog : Catalog) (types : List EntityType)
    (rows : List (Row Rank)) : Prop where
  once : (rows.map (·.place)).Nodup
  all : ∀ type id, (type, id) ∈ rows.map (·.place) ↔
    type ∈ types ∧ ∃ document ∈ catalog type, document.dataId = id ∧
      query.selects type document = true
  ranked : rows.Pairwise fun row later => later.rank ≤ row.rank

/-- The reading ends with the page that the number of matches says. -/
theorem reads_iff (hlimit : 0 < limit)
    (horders : ∀ page, Ordered rowKey (query.hits catalog types) (orders page)) :
    Reads limit (fun page => slice (orders page) page limit) rows ↔
      rows = (List.range ((query.hits catalog types).length / limit + 1)).flatMap
        fun page => slice (orders page) page limit := by
  have hlength : ∀ page, (slice (orders page) page limit).length =
      min limit ((query.hits catalog types).length - page * limit) := by
    intro page
    rw [slice, List.length_take, List.length_drop, (horders page).perm.length_eq]
  have hfull : ∀ page, limit ≤ (slice (orders page) page limit).length ↔
      page < (query.hits catalog types).length / limit := by
    intro page
    rw [hlength, Nat.lt_iff_add_one_le, Nat.le_div_iff_mul_le hlimit, Nat.add_one_mul]
    omega
  constructor
  · rintro ⟨last, hbefore, hshort, rfl⟩
    have hge := (hfull last).not.mp (not_le.mpr hshort)
    have hle : last ≤ (query.hits catalog types).length / limit := by
      by_contra hlt
      exact absurd ((hfull _).mp (hbefore _ (not_le.mp hlt))) (lt_irrefl _)
    rw [Nat.le_antisymm hle (not_lt.mp hge)]
  · rintro rfl
    refine ⟨_, fun page hpage => (hfull page).mpr hpage, ?_, rfl⟩
    exact not_le.mp ((hfull _).not.mpr (lt_irrefl _))

omit [LinearOrder Rank] in
theorem mem_hits_places {type : EntityType} {id : String} :
    (type, id) ∈ (query.hits catalog types).map (·.place) ↔
      type ∈ types ∧ ∃ document ∈ catalog type, document.dataId = id ∧
        query.selects type document = true := by
  rw [List.mem_map]
  constructor
  · rintro ⟨row, hrow, hplace⟩
    obtain ⟨kind, hkind, document, hdocument, hselects, rfl⟩ := mem_hits.mp hrow
    obtain ⟨rfl, rfl⟩ := Prod.mk.inj hplace
    exact ⟨hkind, document, hdocument, rfl, hselects⟩
  · rintro ⟨htype, document, hdocument, rfl, hselects⟩
    exact ⟨_, mem_hits.mpr ⟨type, htype, document, hdocument, hselects, rfl⟩, rfl⟩

/-- Whatever the order of each page, the ranks read do not increase. -/
theorem reads_ranked (horders : ∀ page, Ordered rowKey (query.hits catalog types) (orders page))
    (count : Nat) :
    ((List.range count).flatMap fun page => slice (orders page) page limit).Pairwise
      fun row later => later.rank ≤ row.rank := by
  have hkeys := reordered_keys horders count limit
  have hsorted : (((sortBy rowKey (query.hits catalog types)).map rowKey).take
      (count * limit)).Pairwise (· ≤ ·) :=
    (List.pairwise_map.mpr (sort_by_sorted rowKey _)).sublist (List.take_sublist _ _)
  rw [← hkeys, List.pairwise_map] at hsorted
  refine hsorted.imp fun {row later} hle => ?_
  rw [rowKey, rowKey, Prod.Lex.toLex_le_toLex] at hle
  rcases hle with hlt | ⟨heq, -⟩
  · exact OrderDual.toDual_le_toDual.mp hlt.le
  · exact (OrderDual.toDual_inj.mp heq).ge

/-- Pages on which the matches that tie stand together hold every match once. -/
theorem reads_complete (hkeyed : catalog.Keyed) (htypes : types.Nodup) (hlimit : 0 < limit)
    (horders : ∀ page, Ordered rowKey (query.hits catalog types) (orders page))
    (htogether : ∀ hit ∈ query.hits catalog types,
      ahead rowKey (query.hits catalog types) hit / limit =
        (through rowKey (query.hits catalog types) hit - 1) / limit) :
    Complete query catalog types
      ((List.range ((query.hits catalog types).length / limit + 1)).flatMap
        fun page => slice (orders page) page limit) where
  once := by
    have hperm := reordered_perm hlimit (hits_nodup hkeyed htypes) horders htogether
    exact (hperm.map (·.place)).nodup_iff.mpr (hits_places_nodup hkeyed htypes)
  all type id := by
    have hperm := reordered_perm hlimit (hits_nodup hkeyed htypes) horders htogether
    rw [(hperm.map (·.place)).mem_iff, mem_hits_places]
  ranked := reads_ranked horders _

end Reading

/-! ## Executions that order ties apart -/

section Ties

variable {Rank : Type} [LinearOrder Rank] {query : Query Rank} {catalog : Catalog}
  {types : List EntityType} {limit : Nat} {flag : Row Rank → Bool} {hit row other : Row Rank}

def typeIndex : EntityType → Nat
  | .artist => 0
  | .label => 1
  | .master => 2
  | .release => 3

/-- An order by rank and id that breaks ties by a flag, and then by type. -/
def tieKey (flag : Row Rank → Bool) (row : Row Rank) :
    (Rankᵒᵈ ×ₗ String) ×ₗ Bool ×ₗ Nat :=
  toLex (rowKey row, toLex (flag row, typeIndex row.type))

theorem tie_key_row (h : tieKey flag row ≤ tieKey flag other) : rowKey row ≤ rowKey other := by
  rw [tieKey, tieKey, Prod.Lex.toLex_le_toLex] at h
  rcases h with hlt | ⟨heq, -⟩
  · exact hlt.le
  · exact heq.le

/-- Among ties the flag decides. -/
theorem tie_key_lt (h : tieKey flag row ≤ tieKey flag other) (hflag : flag other = false)
    (hrow : flag row = true) : rowKey row < rowKey other := by
  rw [tieKey, tieKey, Prod.Lex.toLex_le_toLex] at h
  rcases h with hlt | ⟨-, hle⟩
  · exact hlt
  · dsimp only at hle
    rw [Prod.Lex.toLex_le_toLex, hflag, hrow] at hle
    rcases hle with hlt | ⟨heq, -⟩
    · cases hlt
    · cases heq

theorem type_index_injective : Function.Injective typeIndex := by
  intro type other h
  cases type with
  | artist => cases other <;> first | rfl | cases h
  | label => cases other <;> first | rfl | cases h
  | master => cases other <;> first | rfl | cases h
  | release => cases other <;> first | rfl | cases h

omit [LinearOrder Rank] in
theorem tie_key_separates (hkeyed : catalog.Keyed) (htypes : types.Nodup) :
    Separates (tieKey flag) (query.hits catalog types) := by
  intro row hrow other hother heq
  rw [tieKey, tieKey, EmbeddingLike.apply_eq_iff_eq, Prod.mk.injEq, EmbeddingLike.apply_eq_iff_eq,
    Prod.mk.injEq, rowKey, rowKey, EmbeddingLike.apply_eq_iff_eq, Prod.mk.injEq] at heq
  obtain ⟨⟨-, hid⟩, -, htype⟩ := heq
  exact hits_place_injective hkeyed htypes hrow hother
    (Prod.ext (type_index_injective htype) hid)

theorem tie_ordered (flag : Row Rank → Bool) (rows : List (Row Rank)) :
    Ordered rowKey rows (sortBy (tieKey flag) rows) :=
  ⟨sort_by_perm _ _, (sort_by_sorted (tieKey flag) rows).imp tie_key_row⟩

/-- The execution that breaks ties by a flag. -/
def tieSorts (flag : Row Rank → Bool) : Sorts Rank :=
  { branch := fun _ => sortBy branchKey, results := sortBy (tieKey flag) }

theorem tie_sorts_lawful : (tieSorts flag).Lawful where
  branch _ _ := ⟨sort_by_perm _ _, sort_by_sorted _ _⟩
  results rows := tie_ordered flag rows

/-- Its pages are those of all matches in its order. -/
theorem tie_page (hkeyed : catalog.Keyed) (htypes : types.Nodup) (hne : types ≠ [])
    (hlimit : 0 < limit) (page : Nat) :
    runResults query (tieSorts flag) catalog types limit (page * limit) =
      .ok (slice (sortBy (tieKey flag) (query.hits catalog types)) page limit) := by
  have hn : 0 < (limit + page * limit) * 2 := by omega
  have hcap : page * limit + limit ≤ (limit + page * limit) * 2 := by omega
  have hsorted := sort_by_sorted (tieKey flag) (types.flatMap
    (entitySelect query (tieSorts flag) catalog ((limit + page * limit) * 2)))
  have hfirsts : Firsts (tieKey flag) (page * limit + limit) (query.hits catalog types) _ :=
    results_firsts hkeyed tie_sorts_lawful (fun _ _ hle => tie_key_row hle) hn hcap hsorted
  have htake := hfirsts.eq_take (hsorted.sublist (List.take_sublist _ _))
    (tie_key_separates hkeyed htypes)
  rw [run_results_eq hne, htake, List.drop_take, Nat.add_sub_cancel_left]
  rfl

/-- An execution that puts a match before its ties has it where the lesser matches end. -/
theorem idx_before_ties (hkeyed : catalog.Keyed) (htypes : types.Nodup)
    (hhit : hit ∈ query.hits catalog types) :
    (sortBy (tieKey fun row => decide (row ≠ hit)) (query.hits catalog types)).idxOf hit =
      ahead rowKey (query.hits catalog types) hit := by
  have hperm := sort_by_perm (tieKey fun row => decide (row ≠ hit)) (query.hits catalog types)
  have hfirst : ∀ row ∈ sortBy (tieKey fun row => decide (row ≠ hit)) (query.hits catalog types),
      row ≠ hit → tieKey (fun row => decide (row ≠ hit)) row ≤
        tieKey (fun row => decide (row ≠ hit)) hit → rowKey row < rowKey hit :=
    fun row _ hne hle => tie_key_lt hle (by simp) (by simpa using hne)
  have hidx := idx_first (sort_by_sorted _ _) (sort_by_nodup (hits_nodup hkeyed htypes))
    (mem_sort_by.mpr hhit) (fun row _ hle => tie_key_row hle) hfirst
  exact hidx.trans (hperm.countP_eq _)

/-- An execution that puts a match behind its ties has it where the greater matches begin. -/
theorem idx_behind_ties (hkeyed : catalog.Keyed) (htypes : types.Nodup)
    (hhit : hit ∈ query.hits catalog types) :
    (sortBy (tieKey fun row => decide (row = hit)) (query.hits catalog types)).idxOf hit =
      through rowKey (query.hits catalog types) hit - 1 := by
  have hperm := sort_by_perm (tieKey fun row => decide (row = hit)) (query.hits catalog types)
  have hlast : ∀ row ∈ sortBy (tieKey fun row => decide (row = hit)) (query.hits catalog types),
      row ≠ hit → tieKey (fun row => decide (row = hit)) hit ≤
        tieKey (fun row => decide (row = hit)) row → rowKey hit < rowKey row :=
    fun row _ hne hle => tie_key_lt hle (by simpa using hne) (by simp)
  have hidx := idx_last (sort_by_sorted _ _) (sort_by_nodup (hits_nodup hkeyed htypes))
    (mem_sort_by.mpr hhit) (fun row _ hle => tie_key_row hle) hlast
  rw [hidx, through, through, hperm.countP_eq]

/-- The flag by which a page misses a match that its ties carry across a boundary: behind them on
the page where it could come first, before them on any other. -/
def missFlag (query : Query Rank) (catalog : Catalog) (types : List EntityType) (limit : Nat)
    (hit : Row Rank) (page : Nat) (row : Row Rank) : Bool :=
  if page = ahead rowKey (query.hits catalog types) hit / limit then decide (row = hit)
  else decide (row ≠ hit)

theorem missed (hkeyed : catalog.Keyed) (htypes : types.Nodup) (hlimit : 0 < limit)
    (hhit : hit ∈ query.hits catalog types)
    (hacross : ahead rowKey (query.hits catalog types) hit / limit ≠
      (through rowKey (query.hits catalog types) hit - 1) / limit) (page : Nat) :
    hit ∉ slice (sortBy (tieKey (missFlag query catalog types limit hit page))
      (query.hits catalog types)) page limit := by
  rw [mem_slice_iff hlimit (sort_by_nodup (hits_nodup hkeyed htypes)) (mem_sort_by.mpr hhit)]
  by_cases hpage : page = ahead rowKey (query.hits catalog types) hit / limit
  · have hflag : missFlag query catalog types limit hit page = fun row => decide (row = hit) := by
      funext row
      rw [missFlag, if_pos hpage]
    rw [hflag, idx_behind_ties hkeyed htypes hhit, hpage]
    exact hacross.symm
  · have hflag : missFlag query catalog types limit hit page = fun row => decide (row ≠ hit) := by
      funext row
      rw [missFlag, if_neg hpage]
    rw [hflag, idx_before_ties hkeyed htypes hhit]
    exact fun heq => hpage heq.symm

end Ties

/-- An artist and a label of one name and one id. -/
def shared : Catalog
  | .artist => [⟨"1", some "Nova", none, none, none, none, none⟩]
  | .label => [⟨"1", some "Nova", none, none, none, none, none⟩]
  | _ => []

/-- The query for their name. -/
def nova : Query Nat :=
  { search := { found := fun text => text = "Nova", rank := fun _ => 1, headline := id,
                yearNumber := fun _ => 0 }
    filters := ⟨none, none, [], [], [], []⟩ }

def novaTypes : List EntityType := [.artist, .label]

def novaArtist : Row Nat := ⟨.artist, "1", some "Nova", 1, "Nova", none, none, none⟩

theorem shared_keyed : shared.Keyed := by
  intro type
  cases type with
  | artist => decide
  | label => decide
  | master => decide
  | release => decide

/-- The execution of each page: the first puts the artist before the label, the others behind. -/
def swapping (page : Nat) : Sorts Nat :=
  tieSorts fun row => if page = 0 then row.type = .label else row.type = .artist

/-- The same artist and label beside two more artists of the name. -/
def spread : Catalog
  | .artist => [⟨"3", some "Nova", none, none, none, none, none⟩,
                ⟨"1", some "Nova", none, none, none, none, none⟩,
                ⟨"2", some "Nova", none, none, none, none, none⟩]
  | .label => [⟨"1", some "Nova", none, none, none, none, none⟩]
  | _ => []

theorem spread_keyed : spread.Keyed := by
  intro type
  cases type with
  | artist => decide
  | label => decide
  | master => decide
  | release => decide

end CatalogApi.Search
