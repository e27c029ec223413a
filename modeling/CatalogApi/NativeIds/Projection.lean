import CatalogApi.Lib.Keyset
import CatalogApi.Lookup.Resolve
import Mathlib.Algebra.Ring.Nat
import Mathlib.Data.Char
import Mathlib.Data.List.Lex

/-!
# The projection of native ids onto the graph

`run_gm_id_projection` of `api/projection.py`: kind by kind, it pages the open Discogs aliases and
sets `gm_id` on the nodes they name. The aliases may change between any two pages. A node then holds
what an alias named at one of the reads, and the nodes of an alias that stood all the time hold its
native id (`run_projects`). Over aliases that do not change the projection ends, and joins the graph
with the aliases (`run_joins`).

Texts are ordered by the collation of the database.
-/

namespace CatalogApi.NativeIds

open ByKey Lookup

/-- `_LABEL_BY_KIND`. -/
def labelByKind : List (String × String) :=
  [("artist", "Artist"), ("label", "Label"), ("master", "Master"), ("release", "Release")]

/-- A node with its label, its `id`, its `gm_id` and its other properties. -/
structure Node (Item Rest : Type) where
  label : String
  id : String
  gmId : Option Item
  rest : Rest

section Job

variable {Item Rest κ : Type} [LinearOrder κ] (collate : String → κ)

/-- The row is an open Discogs alias of the kind. -/
def OpenOfKind (kind : String) (row : AliasRow Item) : Prop :=
  row.provider = "discogs" ∧ row.entityKind = kind ∧ row.validTo = none

instance (kind : String) (row : AliasRow Item) : Decidable (OpenOfKind kind row) :=
  inferInstanceAs (Decidable (_ ∧ _ ∧ _))

/-- `_SELECT_PAGE`. -/
def selectPage (aliases : Aliases Item) (kind cursor : String) (batchSize : Nat) :
    List (AliasRow Item) :=
  (sortBy (fun row => collate row.externalId) (aliases.rows.filter fun row =>
    OpenOfKind kind row ∧ collate cursor < collate row.externalId)).take batchSize

/-- `MATCH (n:label {id: row.id}) SET n.gm_id = row.gm_id`, for one node. -/
def setGmId (label : String) (node : Node Item Rest) (row : AliasRow Item) : Node Item Rest :=
  if node.label = label ∧ node.id = row.externalId then { node with gmId := some row.nativeId }
  else node

/-- The statement of `_set_gm_id_cypher`, row by row. -/
def writePage (label : String) (rows : List (AliasRow Item)) (graph : List (Node Item Rest)) :
    List (Node Item Rest) :=
  rows.foldl (fun graph row => graph.map fun node => setGmId label node row) graph

/-- Where the job stands: the kinds it has not finished, with the cursor and the total of the first
of them, the counts of the others, and the graph. -/
structure Job (Item Rest : Type) where
  kinds : List (String × String)
  cursor : String
  total : Nat
  counts : List (String × Nat)
  graph : List (Node Item Rest)

/-- The job before its first page. -/
def Job.start (graph : List (Node Item Rest)) : Job Item Rest :=
  { kinds := labelByKind, cursor := "", total := 0, counts := [], graph }

/-- The next page is read from the aliases and written. -/
def Job.step (batchSize : Nat) (job : Job Item Rest) (aliases : Aliases Item) : Job Item Rest :=
  match job.kinds with
  | [] => job
  | (kind, label) :: kinds =>
      let rows := selectPage collate aliases kind job.cursor batchSize
      match rows.getLast? with
      | none =>
          { job with
            kinds := kinds
            cursor := ""
            total := 0
            counts := job.counts ++ [(label, job.total)] }
      | some last =>
          { job with
            cursor := last.externalId
            total := job.total + rows.length
            graph := writePage label rows job.graph }

/-- The job over the aliases as they stood at each read. -/
def Job.run (batchSize : Nat) (job : Job Item Rest) (reads : List (Aliases Item)) : Job Item Rest :=
  reads.foldl (Job.step collate batchSize) job

end Job

/-! ## Pages and writes -/

section Pages

variable {Item Rest κ : Type} [LinearOrder κ]

/-- An open Discogs alias of the kind maps the external id to the native id. -/
def Named (aliases : Aliases Item) (kind externalId : String) (native : Item) : Prop :=
  ∃ row ∈ aliases.rows, OpenOfKind kind row ∧ row.externalId = externalId ∧ row.nativeId = native

theorem named_unique {aliases : Aliases Item} {kind externalId : String} {native native' : Item}
    (h : Named aliases kind externalId native) (h' : Named aliases kind externalId native') :
    native = native' := by
  obtain ⟨row, hrow, ⟨hprovider, hkind, hopen⟩, hid, rfl⟩ := h
  obtain ⟨row', hrow', ⟨hprovider', hkind', hopen'⟩, hid', rfl⟩ := h'
  exact aliases.unique row hrow row' hrow' hopen hopen' (hprovider.trans hprovider'.symm)
    (hkind.trans hkind'.symm) (hid.trans hid'.symm)

theorem mem_select_page {collate : String → κ} {aliases : Aliases Item} {kind cursor : String}
    {batchSize : Nat} {row : AliasRow Item}
    (h : row ∈ selectPage collate aliases kind cursor batchSize) :
    row ∈ aliases.rows ∧ OpenOfKind kind row ∧ collate cursor < collate row.externalId := by
  have hrow := List.mem_filter.mp (mem_sort_by.mp (List.mem_of_mem_take h))
  exact ⟨hrow.1, of_decide_eq_true hrow.2⟩

/-- A page holds an alias of each external id from its cursor to its last row. -/
theorem page_covers {collate : String → κ} (hcollate : Function.Injective collate)
    {aliases : Aliases Item} {kind cursor externalId : String} {batchSize : Nat} {native : Item}
    {last : AliasRow Item}
    (hlast : (selectPage collate aliases kind cursor batchSize).getLast? = some last)
    (hnamed : Named aliases kind externalId native)
    (hafter : collate cursor < collate externalId)
    (hupto : collate externalId ≤ collate last.externalId) :
    ∃ row ∈ selectPage collate aliases kind cursor batchSize, row.externalId = externalId := by
  obtain ⟨row, hrow, hopen, rfl, -⟩ := hnamed
  have hmem := List.mem_of_getLast? hlast
  have hall : row ∈ sortBy (fun row => collate row.externalId) (aliases.rows.filter fun row =>
      OpenOfKind kind row ∧ collate cursor < collate row.externalId) :=
    mem_sort_by.mpr (List.mem_filter.mpr ⟨hrow, decide_eq_true ⟨hopen, hafter⟩⟩)
  have hsorted := sort_by_sorted (fun row : AliasRow Item => collate row.externalId)
    (aliases.rows.filter fun row => OpenOfKind kind row ∧ collate cursor < collate row.externalId)
  rw [selectPage] at hmem
  rw [← List.take_append_drop batchSize (sortBy _ _)] at hall hsorted
  rcases List.mem_append.mp hall with hpage | hrest
  · exact ⟨row, hpage, rfl⟩
  · have hle := (List.pairwise_append.mp hsorted).2.2 last hmem row hrest
    exact ⟨last, hmem, hcollate (le_antisymm hle hupto)⟩

/-- Without rows on a page no alias follows the cursor. -/
theorem page_empty {collate : String → κ} {aliases : Aliases Item} {kind cursor externalId : String}
    {batchSize : Nat} (hbatch : 1 ≤ batchSize) {native : Item}
    (hnone : (selectPage collate aliases kind cursor batchSize).getLast? = none)
    (hnamed : Named aliases kind externalId native) : ¬collate cursor < collate externalId := by
  intro hafter
  obtain ⟨row, hrow, hopen, rfl, -⟩ := hnamed
  rcases List.take_eq_nil_iff.mp (List.getLast?_eq_none_iff.mp hnone) with hzero | hempty
  · omega
  · have hmem : row ∈ aliases.rows.filter fun row =>
        OpenOfKind kind row ∧ collate cursor < collate row.externalId :=
      List.mem_filter.mpr ⟨hrow, decide_eq_true ⟨hopen, hafter⟩⟩
    rw [sort_by_eq_nil.mp hempty] at hmem
    cases hmem

theorem write_page_map (label : String) (rows : List (AliasRow Item))
    (graph : List (Node Item Rest)) :
    writePage label rows graph = graph.map fun node => rows.foldl (setGmId label) node := by
  induction rows generalizing graph with
  | nil => exact (List.map_id' graph).symm
  | cons row rows ih =>
      rw [writePage, List.foldl_cons]
      show writePage label rows (graph.map fun node => setGmId label node row) = _
      rw [ih, List.map_map]
      rfl

/-- A page leaves a node as it is, but for the `gm_id` of the nodes with the page's label that a row
names: one of these rows gives it. -/
theorem write_node (label : String) (rows : List (AliasRow Item)) (node : Node Item Rest) :
    (∃ gmId, rows.foldl (setGmId label) node = { node with gmId := gmId }) ∧
      ((rows.foldl (setGmId label) node = node ∧
          (node.label = label → ∀ row ∈ rows, row.externalId ≠ node.id)) ∨
        node.label = label ∧ ∃ row ∈ rows, row.externalId = node.id ∧
          (rows.foldl (setGmId label) node).gmId = some row.nativeId) := by
  induction rows generalizing node with
  | nil => exact ⟨⟨node.gmId, rfl⟩, .inl ⟨rfl, fun _ _ h => by cases h⟩⟩
  | cons row rows ih =>
      rw [List.foldl_cons]
      by_cases hmatch : node.label = label ∧ node.id = row.externalId
      · have hset : setGmId label node row = { node with gmId := some row.nativeId } :=
          if_pos hmatch
        obtain ⟨⟨gmId, hkeep⟩, hlater⟩ := ih { node with gmId := some row.nativeId }
        rw [hset]
        refine ⟨⟨gmId, hkeep⟩, .inr ⟨hmatch.1, ?_⟩⟩
        rcases hlater with ⟨hsame, -⟩ | ⟨-, later, hmem, hid, hgm⟩
        · exact ⟨row, List.mem_cons_self, hmatch.2.symm, by rw [hsame]⟩
        · exact ⟨later, List.mem_cons_of_mem _ hmem, hid, hgm⟩
      · have hset : setGmId label node row = node := if_neg hmatch
        obtain ⟨hkeep, hlater⟩ := ih node
        rw [hset]
        refine ⟨hkeep, ?_⟩
        rcases hlater with ⟨hsame, hnone⟩ | ⟨hlabel, later, hmem, hid, hgm⟩
        · refine .inl ⟨hsame, fun hlabel later hmem => ?_⟩
          rcases List.mem_cons.mp hmem with rfl | hmem
          · exact fun heq => hmatch ⟨hlabel, heq.symm⟩
          · exact hnone hlabel later hmem
        · exact .inr ⟨hlabel, later, List.mem_cons_of_mem _ hmem, hid, hgm⟩

end Pages

/-! ## Aliases that change -/

section Run

variable {Item Rest κ : Type} [LinearOrder κ] {collate : String → κ}

/-- The empty text is the first of the collation, which tells texts apart. -/
structure Collates (collate : String → κ) : Prop where
  injective : Function.Injective collate
  least : ∀ text, collate "" ≤ collate text

theorem Collates.after_empty (h : Collates collate) {text : String} (hne : text ≠ "") :
    collate "" < collate text :=
  lt_of_le_of_ne (h.least text) fun heq => hne (h.injective heq).symm

/-- The external ids that the job is done with. -/
def Passed (collate : String → κ) (kinds : List (String × String)) (cursor : String)
    (entry : String × String) (id : String) : Prop :=
  collate "" < collate id ∧
    (entry ∉ kinds ∨ kinds.head? = some entry ∧ collate id ≤ collate cursor)

/-- A node before the job and after some reads of it. -/
structure Follows (collate : String → κ) (reads : List (Aliases Item))
    (kinds : List (String × String)) (cursor : String) (before after : Node Item Rest) : Prop where
  kept : ∃ gmId, after = { before with gmId := gmId }
  sound : after.gmId = before.gmId ∨ ∃ kind native, (kind, before.label) ∈ labelByKind ∧
    before.id ≠ "" ∧ after.gmId = some native ∧
      ∃ aliases ∈ reads, Named aliases kind before.id native
  complete : ∀ kind native, (kind, before.label) ∈ labelByKind →
    Passed collate kinds cursor (kind, before.label) before.id →
      (∀ aliases ∈ reads, Named aliases kind before.id native) → after.gmId = some native

/-- The nodes of a graph after some reads of the job, and the kinds it still has to read. -/
structure Projects (collate : String → κ) (reads : List (Aliases Item))
    (before : List (Node Item Rest)) (job : Job Item Rest) : Prop where
  kinds : job.kinds <:+ labelByKind
  nodes : List.Forall₂ (Follows collate reads job.kinds job.cursor) before job.graph

theorem kind_of_label {kind kind' label : String} (h : (kind, label) ∈ labelByKind)
    (h' : (kind', label) ∈ labelByKind) : kind = kind' := by
  have hall : ∀ entry ∈ labelByKind, ∀ entry' ∈ labelByKind, entry.2 = entry'.2 →
      entry.1 = entry'.1 := by decide
  exact hall _ h _ h' rfl

variable {reads : List (Aliases Item)} {aliases : Aliases Item} {batchSize : Nat}

theorem Follows.finish {kind label cursor : String} {kinds : List (String × String)}
    {before after : Node Item Rest} (hbatch : 1 ≤ batchSize)
    (hnone : (selectPage collate aliases kind cursor batchSize).getLast? = none)
    (h : Follows collate reads ((kind, label) :: kinds) cursor before after) :
    Follows collate (reads ++ [aliases]) kinds "" before after where
  kept := h.kept
  sound := h.sound.imp id fun ⟨kind, native, hkind, hid, hgm, read, hread, hnamed⟩ =>
    ⟨kind, native, hkind, hid, hgm, read, List.mem_append_left _ hread, hnamed⟩
  complete := by
    intro entryKind native hlabel hpassed hnamed
    obtain ⟨hafter, hdone⟩ := hpassed
    refine h.complete entryKind native hlabel ⟨hafter, ?_⟩ fun read hread =>
      hnamed read (List.mem_append_left _ hread)
    rcases hdone with hnot | ⟨-, hle⟩
    · by_cases hhead : (kind, label) = (entryKind, before.label)
      · have hlast := hnamed aliases (List.mem_append_right _ List.mem_cons_self)
        rw [← (Prod.mk.inj hhead).1] at hlast
        exact .inr ⟨congrArg some hhead, not_lt.mp (page_empty hbatch hnone hlast)⟩
      · exact .inl fun hmem => (List.mem_cons.mp hmem).elim (fun heq => hhead heq.symm) hnot
    · exact absurd hafter (not_lt.mpr hle)

/-- Writing a page moves the projection on to the page's last row. -/
theorem Follows.write {kind label cursor : String} {kinds : List (String × String)}
    {before after : Node Item Rest} (hcollate : Collates collate)
    (hmem : (kind, label) ∈ labelByKind) {last : AliasRow Item}
    (hlast : (selectPage collate aliases kind cursor batchSize).getLast? = some last)
    (h : Follows collate reads ((kind, label) :: kinds) cursor before after) :
    Follows collate (reads ++ [aliases]) ((kind, label) :: kinds) last.externalId before
      ((selectPage collate aliases kind cursor batchSize).foldl (setGmId label) after) := by
  obtain ⟨gm, rfl⟩ := h.kept
  obtain ⟨⟨gmId, hkeep⟩, hwrite⟩ := write_node label
    (selectPage collate aliases kind cursor batchSize) { before with gmId := gm }
  have hrow {row : AliasRow Item} (hmem : row ∈ selectPage collate aliases kind cursor batchSize)
      (hid : row.externalId = before.id) : collate cursor < collate before.id ∧
        Named aliases kind before.id row.nativeId := by
    obtain ⟨hrow, hopen, hafter⟩ := mem_select_page hmem
    exact ⟨hid ▸ hafter, row, hrow, hopen, hid, rfl⟩
  have hread : aliases ∈ reads ++ [aliases] := List.mem_append_right _ List.mem_cons_self
  refine ⟨⟨gmId, hkeep⟩, ?sound, ?complete⟩
  case sound =>
    rcases hwrite with ⟨hsame, -⟩ | ⟨hlabel, row, hpage, hid, hgm⟩
    · rw [hsame]
      exact h.sound.imp id fun ⟨kind, native, hkind, hid, hgm, read, hread, hnamed⟩ =>
        ⟨kind, native, hkind, hid, hgm, read, List.mem_append_left _ hread, hnamed⟩
    · obtain ⟨hafter, hnamed⟩ := hrow hpage hid
      refine .inr ⟨kind, row.nativeId, ?_, ?_, hgm, aliases, hread, hnamed⟩
      · rw [show before.label = label from hlabel]
        exact hmem
      · intro hempty
        rw [hempty] at hafter
        exact absurd hafter (not_lt.mpr (hcollate.least cursor))
  case complete =>
    intro entryKind native hlabel hpassed hnamed
    have hold : Passed collate ((kind, label) :: kinds) cursor (entryKind, before.label)
        before.id → gm = some native := fun hpassed =>
      h.complete entryKind native hlabel hpassed fun read hread =>
        hnamed read (List.mem_append_left _ hread)
    obtain ⟨hafter, hdone⟩ := hpassed
    rcases hdone with hnot | ⟨hhead, hupto⟩
    · rcases hwrite with ⟨hsame, -⟩ | ⟨hsame, -⟩
      · rw [hsame]
        exact hold ⟨hafter, .inl hnot⟩
      · have hlabel' : (entryKind, label) ∈ labelByKind := by
          rw [← show before.label = label from hsame]
          exact hlabel
        refine absurd ?_ hnot
        rw [kind_of_label hlabel' hmem, show before.label = label from hsame]
        exact List.mem_cons_self
    · obtain ⟨rfl, hsame⟩ := Prod.mk.inj (Option.some.inj hhead)
      have hnow := hnamed aliases hread
      rcases hwrite with ⟨hunchanged, hnone⟩ | ⟨-, row, hpage, hid, hgm⟩
      · rw [hunchanged]
        refine hold ⟨hafter, .inr ⟨hhead, not_lt.mp fun hcursor => ?_⟩⟩
        obtain ⟨row, hpage, hid⟩ := page_covers hcollate.injective hlast hnow hcursor hupto
        exact hnone hsame.symm row hpage hid
      · rw [hgm, named_unique hnow (hrow hpage hid).2]

/-- What each read and write of the job preserves. -/
theorem step_projects (hcollate : Collates collate) (hbatch : 1 ≤ batchSize)
    {before : List (Node Item Rest)} {job : Job Item Rest} (h : Projects collate reads before job) :
    Projects collate (reads ++ [aliases]) before (job.step collate batchSize aliases) := by
  have hkinds := h.kinds
  have hnodes := h.nodes
  unfold Job.step
  split
  case h_1 hdone =>
    refine ⟨hkinds, hnodes.imp fun node node' hfollows => ⟨hfollows.kept, ?_, ?_⟩⟩
    · exact hfollows.sound.imp id fun ⟨kind, native, hkind, hid, hgm, read, hread, hnamed⟩ =>
        ⟨kind, native, hkind, hid, hgm, read, List.mem_append_left _ hread, hnamed⟩
    · exact fun kind native hlabel hpassed hnamed => hfollows.complete kind native hlabel hpassed
        fun read hread => hnamed read (List.mem_append_left _ hread)
  case h_2 kind label kinds hjob =>
    rw [hjob] at hkinds hnodes
    dsimp only
    split
    case h_1 hnone =>
      exact ⟨(List.suffix_cons _ _).trans hkinds,
        hnodes.imp fun node node' hfollows => hfollows.finish hbatch hnone⟩
    case h_2 last hlast =>
      have hmem : (kind, label) ∈ labelByKind := hkinds.subset List.mem_cons_self
      refine ⟨hjob ▸ hkinds, ?_⟩
      dsimp only
      rw [hjob, write_page_map, List.forall₂_map_right_iff]
      exact hnodes.imp fun node node' hfollows => hfollows.write hcollate hmem hlast

theorem run_from (hcollate : Collates collate) (hbatch : 1 ≤ batchSize)
    {before : List (Node Item Rest)} {job : Job Item Rest} (h : Projects collate reads before job)
    (more : List (Aliases Item)) :
    Projects collate (reads ++ more) before (job.run collate batchSize more) := by
  induction more generalizing job reads with
  | nil => rwa [List.append_nil]
  | cons aliases more ih =>
      have hone : Projects collate (reads ++ [aliases]) before
          (job.step collate batchSize aliases) := step_projects hcollate hbatch h
      have hmore := ih hone
      rwa [List.append_assoc] at hmore

/-- A node after a run of the job. Its label, id and other properties stay. Its `gm_id` stays, or is
what an open alias named at one of the reads; it is what the alias of its id names when the job is
through with its kind and the alias stood at every read. -/
structure NodeProjected (reads : List (Aliases Item)) (kinds : List (String × String))
    (before after : Node Item Rest) : Prop where
  kept : ∃ gmId, after = { before with gmId := gmId }
  sound : after.gmId = before.gmId ∨ ∃ kind native, (kind, before.label) ∈ labelByKind ∧
    before.id ≠ "" ∧ after.gmId = some native ∧
      ∃ aliases ∈ reads, Named aliases kind before.id native
  complete : ∀ kind native, (kind, before.label) ∈ labelByKind → (kind, before.label) ∉ kinds →
    before.id ≠ "" → (∀ aliases ∈ reads, Named aliases kind before.id native) →
      after.gmId = some native

/-- A job that has read nothing has projected nothing. -/
theorem start_projects (graph : List (Node Item Rest)) :
    Projects collate [] graph (Job.start graph) := by
  refine ⟨List.suffix_refl _, List.forall₂_same.mpr fun node _ => ⟨⟨node.gmId, rfl⟩, .inl rfl, ?_⟩⟩
  rintro kind native hlabel ⟨hafter, hnot | ⟨-, hle⟩⟩ -
  · exact absurd hlabel hnot
  · exact absurd hafter (not_lt.mpr hle)

/-- What a job has projected when it stops, node by node. -/
theorem Projects.nodes_projected (hcollate : Collates collate) {reads : List (Aliases Item)}
    {graph : List (Node Item Rest)} {job : Job Item Rest}
    (h : Projects collate reads graph job) :
    List.Forall₂ (NodeProjected reads job.kinds) graph job.graph := by
  refine h.nodes.imp fun node node' hfollows =>
    ⟨hfollows.kept, hfollows.sound, fun kind native hlabel hdone hid hnamed => ?_⟩
  exact hfollows.complete kind native hlabel ⟨hcollate.after_empty hid, .inl hdone⟩ hnamed

/-- What the job leaves of a graph, however the aliases change between its reads. -/
theorem run_projects (hcollate : Collates collate) (hbatch : 1 ≤ batchSize)
    (reads : List (Aliases Item)) (graph : List (Node Item Rest)) :
    List.Forall₂ (NodeProjected reads ((Job.start graph).run collate batchSize reads).kinds)
      graph ((Job.start graph).run collate batchSize reads).graph :=
  (run_from hcollate hbatch (start_projects graph) reads).nodes_projected hcollate

end Run

/-! ## Aliases that stand -/

section Stand

variable {Item Rest κ : Type} [LinearOrder κ] {collate : String → κ}

/-- The open Discogs aliases of a kind that the job reads. -/
def projected (aliases : Aliases Item) (kind : String) : List (AliasRow Item) :=
  aliases.rows.filter fun row => OpenOfKind kind row ∧ row.externalId ≠ ""

/-- The native id that an alias names for a node. -/
def gmIdOf (aliases : Aliases Item) (node : Node Item Rest) : Option Item :=
  (labelByKind.find? fun entry => entry.2 = node.label).bind fun entry =>
    ((projected aliases entry.1).find? fun row => row.externalId = node.id).map (·.nativeId)

/-- The node with the native id that an alias names, if there is one. -/
def joined (aliases : Aliases Item) (node : Node Item Rest) : Node Item Rest :=
  { node with gmId := (gmIdOf aliases node).orElse fun _ => node.gmId }

/-- The unique index on the open aliases: no two of a kind have one external id. -/
def Indexed (aliases : Aliases Item) : Prop :=
  ∀ kind, ((projected aliases kind).map (·.externalId)).Nodup

/-- The aliases of a kind in the order of the pages. -/
def pageOrder (collate : String → κ) (aliases : Aliases Item) (kind : String) :
    List (AliasRow Item) :=
  sortBy (fun row => collate row.externalId) (projected aliases kind)

theorem page_order_rises (hcollate : Collates collate) {aliases : Aliases Item}
    (hindex : Indexed aliases) (kind : String) :
    (pageOrder collate aliases kind).Pairwise fun a b =>
      collate a.externalId < collate b.externalId := by
  have hnodup : ((pageOrder collate aliases kind).map (·.externalId)).Nodup :=
    ((sort_by_perm _ _).map _).nodup_iff.mpr (hindex kind)
  have hsorted := sort_by_sorted (fun row : AliasRow Item => collate row.externalId)
    (projected aliases kind)
  exact (hsorted.and (List.pairwise_map.mp hnodup)).imp fun ⟨hle, hne⟩ =>
    lt_of_le_of_ne hle fun heq => hne (hcollate.injective heq)

/-- The page after a cursor is cut from the order. -/
theorem select_page_order (hcollate : Collates collate) (aliases : Aliases Item)
    (kind cursor : String) (batchSize : Nat) :
    selectPage collate aliases kind cursor batchSize =
      ((pageOrder collate aliases kind).filter fun row =>
        collate cursor < collate row.externalId).take batchSize := by
  rw [selectPage, pageOrder, filter_sort_by, projected, List.filter_filter]
  refine congrArg (fun rows => (sortBy _ rows).take batchSize) (List.filter_congr fun row _ => ?_)
  rw [← Bool.decide_and]
  refine decide_eq_decide.mpr ⟨fun ⟨hopen, hafter⟩ => ⟨hafter, hopen, fun hempty => ?_⟩,
    fun ⟨hafter, hopen, _⟩ => ⟨hopen, hafter⟩⟩
  rw [hempty] at hafter
  exact absurd (hcollate.least cursor) (not_le.mpr hafter)

/-- The cursor stands after the first `n` aliases of a kind. -/
def CursorAt (order : List (AliasRow Item)) (n : Nat) (cursor : String) : Prop :=
  n = 0 ∧ cursor = "" ∨ 1 ≤ n ∧ ∃ last, order[n - 1]? = some last ∧ last.externalId = cursor

theorem page_at_cursor (hcollate : Collates collate) {aliases : Aliases Item}
    (hindex : Indexed aliases) {kind cursor : String} {n : Nat}
    (hcursor : CursorAt (pageOrder collate aliases kind) n cursor) (batchSize : Nat) :
    selectPage collate aliases kind cursor batchSize =
      ((pageOrder collate aliases kind).drop n).take batchSize := by
  rw [select_page_order hcollate]
  refine congrArg _ ?_
  rcases hcursor with ⟨rfl, rfl⟩ | ⟨hpos, last, hlast, rfl⟩
  · rw [List.drop_zero, List.filter_eq_self]
    intro row hrow
    have hne := of_decide_eq_true (List.mem_filter.mp (mem_sort_by.mp hrow)).2
    exact decide_eq_true (hcollate.after_empty hne.2)
  · have habove := Keyset.filter_above (page_order_rises hcollate hindex kind) hlast
    rwa [Nat.sub_add_cancel hpos] at habove

/-- The aliases that the job has yet to read of its first kind and of the others. -/
def remaining (collate : String → κ) (aliases : Aliases Item) (job : Job Item Rest) : Nat :=
  (job.kinds.map fun entry => (pageOrder collate aliases entry.1).length + 1).sum - job.total

/-- The job over aliases that stand: its cursor is after as many aliases as its total, and the counts
are those of the kinds it is through with. -/
structure Stands (collate : String → κ) (aliases : Aliases Item) (job : Job Item Rest) : Prop where
  cursor : ∀ kind label kinds, job.kinds = (kind, label) :: kinds →
    job.total ≤ (pageOrder collate aliases kind).length ∧
      CursorAt (pageOrder collate aliases kind) job.total job.cursor
  idle : job.kinds = [] → job.total = 0
  counts : job.counts ++ job.kinds.map (fun entry =>
    (entry.2, (pageOrder collate aliases entry.1).length)) =
      labelByKind.map fun entry => (entry.2, (pageOrder collate aliases entry.1).length)

variable {aliases : Aliases Item} {batchSize : Nat}

/-- A step keeps to the aliases, and leaves fewer of them. -/
theorem step_stands (hcollate : Collates collate) (hindex : Indexed aliases)
    (hbatch : 1 ≤ batchSize) {job : Job Item Rest} (h : Stands collate aliases job) :
    Stands collate aliases (job.step collate batchSize aliases) ∧
      (remaining collate aliases (job.step collate batchSize aliases) <
          remaining collate aliases job ∨
        (job.step collate batchSize aliases).kinds = []) := by
  cases hkinds : job.kinds with
  | nil =>
      have hsame : job.step collate batchSize aliases = job := by
        unfold Job.step
        rw [hkinds]
      rw [hsame]
      exact ⟨h, .inr hkinds⟩
  | cons entry kinds =>
      obtain ⟨kind, label⟩ := entry
      obtain ⟨hle, hcursor⟩ := h.cursor kind label kinds hkinds
      have hpage := page_at_cursor hcollate hindex hcursor batchSize
      have hcounts := h.counts
      rw [hkinds] at hcounts
      cases hlast : (selectPage collate aliases kind job.cursor batchSize).getLast? with
      | none =>
          have hstep : job.step collate batchSize aliases =
              { job with kinds := kinds, cursor := "", total := 0,
                         counts := job.counts ++ [(label, job.total)] } := by
            unfold Job.step
            rw [hkinds]
            dsimp only
            rw [hlast]
          have hfull : job.total = (pageOrder collate aliases kind).length := by
            have hempty := List.getLast?_eq_none_iff.mp hlast
            rw [hpage, List.take_eq_nil_iff, List.drop_eq_nil_iff] at hempty
            omega
          rw [hstep]
          refine ⟨⟨fun _ _ _ _ => ⟨Nat.zero_le _, .inl ⟨rfl, rfl⟩⟩, fun _ => rfl, ?_⟩, .inl ?_⟩
          · rw [← hcounts, List.map_cons, List.append_assoc, hfull]
            rfl
          · simp only [remaining, hkinds, List.map_cons, List.sum_cons]
            omega
      | some last =>
          have hstep : job.step collate batchSize aliases =
              { job with
                cursor := last.externalId
                total := job.total + (selectPage collate aliases kind job.cursor batchSize).length
                graph := writePage label (selectPage collate aliases kind job.cursor batchSize)
                  job.graph } := by
            unfold Job.step
            rw [hkinds]
            dsimp only
            rw [hlast]
          have hlength : (selectPage collate aliases kind job.cursor batchSize).length =
              min batchSize ((pageOrder collate aliases kind).length - job.total) := by
            rw [hpage, List.length_take, List.length_drop]
          have hpos : 1 ≤ (selectPage collate aliases kind job.cursor batchSize).length :=
            List.length_pos_of_mem (List.mem_of_getLast? hlast)
          have hat : (pageOrder collate aliases kind)[job.total +
              (selectPage collate aliases kind job.cursor batchSize).length - 1]? = some last := by
            rw [List.getLast?_eq_getElem?, hlength, hpage, List.getElem?_take, if_pos (by omega),
              List.getElem?_drop] at hlast
            rwa [hlength, Nat.add_sub_assoc (by omega)]
          rw [hstep]
          refine ⟨⟨fun kind' label' kinds' hcons => ?_, fun hnil => ?_, ?_⟩, .inl ?_⟩
          · obtain ⟨hhead, -⟩ := List.cons.inj (hkinds.symm.trans hcons)
            obtain ⟨rfl, -⟩ := Prod.mk.inj hhead
            dsimp only
            exact ⟨by omega, .inr ⟨by omega, last, hat, rfl⟩⟩
          · rw [hkinds] at hnil
            cases hnil
          · dsimp only
            rw [hkinds]
            exact hcounts
          · simp only [remaining, hkinds, List.map_cons, List.sum_cons]
            omega

theorem run_done (job : Job Item Rest) (hdone : job.kinds = []) (reads : List (Aliases Item)) :
    job.run collate batchSize reads = job := by
  induction reads with
  | nil => rfl
  | cons aliases reads ih =>
      have hsame : job.step collate batchSize aliases = job := by
        unfold Job.step
        rw [hdone]
      rw [Job.run, List.foldl_cons, hsame]
      exact ih

/-- The job ends, with the counts of all kinds. -/
theorem run_ends (hcollate : Collates collate) (hindex : Indexed aliases) (hbatch : 1 ≤ batchSize)
    {n : Nat} {job : Job Item Rest} (h : Stands collate aliases job)
    (hn : remaining collate aliases job ≤ n) :
    (job.run collate batchSize (List.replicate n aliases)).kinds = [] ∧
      Stands collate aliases (job.run collate batchSize (List.replicate n aliases)) := by
  induction n generalizing job with
  | zero =>
      refine ⟨?_, h⟩
      cases hkinds : job.kinds with
      | nil => exact hkinds
      | cons entry kinds =>
          obtain ⟨kind, label⟩ := entry
          have hle := (h.cursor kind label kinds hkinds).1
          simp only [remaining, hkinds, List.map_cons, List.sum_cons] at hn
          omega
  | succ n ih =>
      rw [List.replicate_succ, Job.run, List.foldl_cons]
      obtain ⟨hstands, hless | hdone⟩ := step_stands hcollate hindex hbatch h
      · exact ih hstands (by omega)
      · have hrun : (job.step collate batchSize aliases).run collate batchSize
            (List.replicate n aliases) = job.step collate batchSize aliases :=
          run_done _ hdone _
        rw [Job.run] at hrun
        rw [hrun]
        exact ⟨hdone, hstands⟩

theorem mem_projected {kind : String} {row : AliasRow Item} (h : row ∈ projected aliases kind) :
    Named aliases kind row.externalId row.nativeId ∧ row.externalId ≠ "" := by
  obtain ⟨hrow, hopen⟩ := List.mem_filter.mp h
  obtain ⟨hopen, hne⟩ := of_decide_eq_true hopen
  exact ⟨⟨row, hrow, hopen, rfl, rfl⟩, hne⟩

/-- The native id for a node is the one that an alias of its kind and id names. -/
theorem gm_id_of_iff {node : Node Item Rest} {native : Item} :
    gmIdOf aliases node = some native ↔
      node.id ≠ "" ∧ ∃ kind, (kind, node.label) ∈ labelByKind ∧
        Named aliases kind node.id native := by
  rw [gmIdOf, Option.bind_eq_some_iff]
  constructor
  · rintro ⟨⟨kind, label⟩, hfind, hrow⟩
    obtain ⟨row, hfound, rfl⟩ := Option.map_eq_some_iff.mp hrow
    have hlabel : label = node.label := by simpa using List.find?_some hfind
    have hid : row.externalId = node.id := by simpa using List.find?_some hfound
    obtain ⟨hnamed, hne⟩ := mem_projected (List.mem_of_find?_eq_some hfound)
    rw [hid] at hnamed hne
    exact ⟨hne, kind, hlabel ▸ List.mem_of_find?_eq_some hfind, hnamed⟩
  · rintro ⟨hne, kind, hlabel, hnamed⟩
    have hsome : (labelByKind.find? fun entry => entry.2 = node.label).isSome = true :=
      List.find?_isSome.mpr ⟨_, hlabel, decide_eq_true rfl⟩
    obtain ⟨⟨kind', label⟩, hfind⟩ := Option.isSome_iff_exists.mp hsome
    have hsame : label = node.label := by simpa using List.find?_some hfind
    have hkind : kind' = kind :=
      kind_of_label (hsame ▸ List.mem_of_find?_eq_some hfind) hlabel
    refine ⟨(kind', label), hfind, ?_⟩
    obtain ⟨row, hrow, hopen, hid, rfl⟩ := hnamed
    have hmem : row ∈ projected aliases kind' :=
      List.mem_filter.mpr ⟨hrow, decide_eq_true ⟨hkind ▸ hopen, hid ▸ hne⟩⟩
    have hsome : ((projected aliases kind').find? fun row => row.externalId = node.id).isSome =
        true := List.find?_isSome.mpr ⟨row, hmem, decide_eq_true hid⟩
    obtain ⟨found, hfound⟩ := Option.isSome_iff_exists.mp hsome
    have hfoundId : found.externalId = node.id := by simpa using List.find?_some hfound
    have hfoundNamed := (mem_projected (List.mem_of_find?_eq_some hfound)).1
    rw [hfoundId, hkind] at hfoundNamed
    rw [hfound, Option.map_some, named_unique hfoundNamed ⟨row, hrow, hopen, hid, rfl⟩]

theorem node_joined {n : Nat} {node node' : Node Item Rest}
    (h : NodeProjected (List.replicate n aliases) [] node node') :
    node' = joined aliases node := by
  obtain ⟨gmId, rfl⟩ := h.kept
  rw [joined]
  refine congrArg (fun gmId => Node.mk node.label node.id gmId node.rest) ?_
  cases hgm : gmIdOf aliases node with
  | some native =>
      obtain ⟨hid, kind, hlabel, hnamed⟩ := gm_id_of_iff.mp hgm
      exact h.complete kind native hlabel List.not_mem_nil hid fun read hread =>
        List.eq_of_mem_replicate hread ▸ hnamed
  | none =>
      rcases h.sound with hsame | ⟨kind, native, hlabel, hid, -, read, hread, hnamed⟩
      · exact hsame
      · rw [List.eq_of_mem_replicate hread] at hnamed
        rw [gm_id_of_iff.mpr ⟨hid, kind, hlabel, hnamed⟩] at hgm
        cases hgm

/-- Over aliases that stand the job ends after one read for each alias and kind at most. It leaves
the graph joined with the aliases, and counts the aliases of each kind. -/
theorem run_joins (hcollate : Collates collate) (hindex : Indexed aliases) (hbatch : 1 ≤ batchSize)
    (graph : List (Node Item Rest)) {n : Nat}
    (hn : (labelByKind.map fun entry => (projected aliases entry.1).length + 1).sum ≤ n) :
    ((Job.start graph).run collate batchSize (List.replicate n aliases)).kinds = [] ∧
      ((Job.start graph).run collate batchSize (List.replicate n aliases)).graph =
        graph.map (joined aliases) ∧
      ((Job.start graph).run collate batchSize (List.replicate n aliases)).counts =
        labelByKind.map fun entry => (entry.2, (projected aliases entry.1).length) := by
  have hlength (kind : String) :
      (pageOrder collate aliases kind).length = (projected aliases kind).length := length_sort_by
  have hstart : Stands collate aliases (Job.start graph) :=
    ⟨fun _ _ _ _ => ⟨Nat.zero_le _, .inl ⟨rfl, rfl⟩⟩, fun _ => rfl, rfl⟩
  have hmeasure : remaining collate aliases (Job.start graph) ≤ n := by
    simp only [remaining, Job.start, hlength]
    exact hn
  obtain ⟨hdone, hstands⟩ := run_ends hcollate hindex hbatch hstart hmeasure
  have hnodes := (run_from hcollate hbatch (start_projects graph)
    (List.replicate n aliases)).nodes_projected hcollate
  refine ⟨hdone, ?_, ?_⟩
  · rw [hdone] at hnodes
    have heq : List.Forall₂ (· = ·) (graph.map (joined aliases))
        ((Job.start graph).run collate batchSize (List.replicate n aliases)).graph :=
      List.forall₂_map_left_iff.mpr (hnodes.imp fun _ _ hnode => (node_joined hnode).symm)
    rw [List.forall₂_eq_eq_eq] at heq
    exact heq.symm
  · have hcounts := hstands.counts
    rw [hdone, List.map_nil, List.append_nil] at hcounts
    rw [hcounts]
    exact List.map_congr_left fun entry _ => by rw [hlength]

end Stand

/-! ## An artist whose alias is renamed -/

theorem one_row_unique (row : AliasRow Nat) : ∀ a ∈ [row], ∀ b ∈ [row], a.validTo = none →
    b.validTo = none → a.provider = b.provider → a.entityKind = b.entityKind →
    a.externalId = b.externalId → a.nativeId = b.nativeId := by
  simp

/-- One alias of an artist. -/
def oneAlias (native : Nat) : Aliases Nat where
  rows := [⟨"discogs", "artist", "45", native, none⟩]
  unique := one_row_unique _

/-- The node of the artist, and one that no alias names. -/
def artists : List (Node Nat Unit) := [⟨"Artist", "45", none, ()⟩, ⟨"Artist", "46", some 3, ()⟩]

theorem collates_chars : Collates String.toList where
  injective := fun _ _ => String.toList_inj.mp
  least := fun text => by
    rw [String.toList_empty]
    exact le_of_not_gt (List.not_lt_nil text.toList)

theorem renamed_projects :
    List.Forall₂ (NodeProjected [oneAlias 7, oneAlias 8]
        ((Job.start artists).run String.toList 10 [oneAlias 7, oneAlias 8]).kinds)
      artists ((Job.start artists).run String.toList 10 [oneAlias 7, oneAlias 8]).graph :=
  run_projects collates_chars (by decide) [oneAlias 7, oneAlias 8] artists

/-- Aliases of artists and of a label, one of them of an artist that is gone. -/
def shelfRows : List (AliasRow Nat) :=
  [⟨"discogs", "artist", "45", 7, none⟩, ⟨"discogs", "artist", "46", 8, none⟩,
    ⟨"discogs", "artist", "47", 9, some 1⟩, ⟨"discogs", "label", "45", 4, none⟩,
    ⟨"musicbrainz", "artist", "46", 5, none⟩]

theorem shelf_rows_unique : ∀ a ∈ shelfRows, ∀ b ∈ shelfRows, a.validTo = none → b.validTo = none →
    a.provider = b.provider → a.entityKind = b.entityKind → a.externalId = b.externalId →
    a.nativeId = b.nativeId := by
  decide

def shelfAliases : Aliases Nat := ⟨shelfRows, shelf_rows_unique⟩

/-- Pages of one row join each node with the alias of its kind and id. -/
theorem shelf_aliases_join :
    ((Job.start artists).run String.toList 1 (List.replicate 7 shelfAliases)).kinds = [] ∧
      ((Job.start artists).run String.toList 1 (List.replicate 7 shelfAliases)).graph =
        artists.map (joined shelfAliases) ∧
      ((Job.start artists).run String.toList 1 (List.replicate 7 shelfAliases)).counts =
        labelByKind.map fun entry => (entry.2, (projected shelfAliases entry.1).length) := by
  have hindex : Indexed shelfAliases := by
    intro kind
    by_cases hartist : "artist" = kind
    · subst hartist
      decide
    by_cases hlabel : "label" = kind
    · subst hlabel
      decide
    have hnone : projected shelfAliases kind = [] := by
      simp [projected, shelfAliases, shelfRows, OpenOfKind, hartist, hlabel]
    rw [hnone]
    exact List.nodup_nil
  exact run_joins collates_chars hindex (by decide) artists (by decide)

end CatalogApi.NativeIds
