import CatalogApi.Lib.Extents
import CatalogApi.Lib.Groups
import CatalogApi.Strata.Catalog

/-!
# The taste projection

A collector's held releases folded to genres, styles and masters (`taste_projection.py`), and what
the fold leaves: at each node the summary of the items that carry it. The reading of a recorded
time, `datetime.fromisoformat` with UTC where the text names no zone, is the parameter `instant`.
Sets of names stand as the lists they were filled from; only their members are read.
-/

namespace CatalogApi.Taste

open ByKey Strata

/-- One release the caller holds. -/
structure HeldItem where
  releaseId : String
  ownedEdges : Nat
  wantedEdges : Nat
  ownedAt : List String
  wantedAt : List String
  masterId : Option String
  masterYear : Option Int
  genres : List String
  styles : List String

/-- `HeldItem.owned`. -/
def HeldItem.owned (item : HeldItem) : Bool := 0 < item.ownedEdges

/-- `HeldItem.wanted`. -/
def HeldItem.wanted (item : HeldItem) : Bool := 0 < item.wantedEdges

variable {τ : Type}

/-- `_Span`. -/
structure Span (τ : Type) where
  first : Option (τ × String)
  last : Option (τ × String)
  undated : Nat

/-- `_Span()`. -/
def emptySpan : Span τ := { first := none, last := none, undated := 0 }

/-- `_Span.as_dict`. -/
structure SpanDict where
  first : Option String
  last : Option String
  undated : Nat

/-- `_Span.as_dict`. -/
def Span.asDict (span : Span τ) : SpanDict where
  first := span.first.map (·.2)
  last := span.last.map (·.2)
  undated := span.undated

/-- `_Bucket`. -/
structure Bucket (τ : Type) where
  owned : Nat
  wanted : Nat
  items : Nat
  both : Nat
  ownedSpan : Span τ
  wantedSpan : Span τ
  year : Option Int
  genres : List String
  styles : List String

/-- `_Bucket()`. -/
def emptyBucket : Bucket τ :=
  { owned := 0, wanted := 0, items := 0, both := 0, ownedSpan := emptySpan,
    wantedSpan := emptySpan, year := none, genres := [], styles := [] }

/-- `_Bucket.state`. -/
def Bucket.state (bucket : Bucket τ) : CollectorState :=
  if bucket.owned ≠ 0 ∧ bucket.wanted ≠ 0 then .wantedOwned
  else if bucket.owned ≠ 0 then .owned else .wanted

/-- The recorded times of the two states. -/
structure RecordedAt where
  owned : Option SpanDict
  wanted : Option SpanDict

/-- `recorded_at` of a bucket. -/
def Bucket.recordedAt (bucket : Bucket τ) : RecordedAt where
  owned := if bucket.owned ≠ 0 then some bucket.ownedSpan.asDict else none
  wanted := if bucket.wanted ≠ 0 then some bucket.wantedSpan.asDict else none

/-- What `_Bucket.counts` returns. -/
structure Counts where
  items : Nat
  owned : Nat
  wanted : Nat
  state : CollectorState
  recordedAt : RecordedAt

/-- `_Bucket.counts`. -/
def Bucket.counts (bucket : Bucket τ) : Counts where
  items := bucket.items
  owned := bucket.owned
  wanted := bucket.wanted
  state := bucket.state
  recordedAt := bucket.recordedAt

/-- A genre's or a style's entry. -/
structure NameEntry where
  id : String
  counts : Counts

/-- A master's entry. -/
structure MasterEntry where
  id : String
  year : Option Int
  genres : List String
  styles : List String
  counts : Counts

/-- The totals of a projection. -/
structure Totals where
  items : Nat
  owned : Nat
  wanted : Nat
  wantedOwned : Nat
  masterlessItems : Nat
  genreOnlyItems : Nat
  unplacedItems : Nat

/-- What `build_taste_projection` returns. -/
structure Projection where
  totals : Totals
  recordedAt : RecordedAt
  genres : List NameEntry
  styles : List NameEntry
  masters : List MasterEntry

/-- The variables of the loop in `build_taste_projection`. -/
structure Fold (τ : Type) where
  genres : Dict String (Bucket τ)
  styles : Dict String (Bucket τ)
  masters : Dict String (Bucket τ)
  total : Bucket τ
  masterless : Nat
  genreOnly : Nat
  noGenre : Nat

/-- The variables before the loop. -/
def emptyFold : Fold τ :=
  { genres := Dict.empty, styles := Dict.empty, masters := Dict.empty, total := emptyBucket,
    masterless := 0, genreOnly := 0, noGenre := 0 }

/-- `_ranked`. -/
def ranked (buckets : Dict String (Bucket τ)) : List NameEntry :=
  (sortBy (fun pair : String × Bucket τ => toLex (-(pair.2.items : Int), pair.1))
    buckets.entries).map fun pair => { id := pair.1, counts := pair.2.counts }

/-- The entries of the masters, in the order of their ids. -/
def masterEntries (buckets : Dict String (Bucket τ)) : List MasterEntry :=
  (sortBy (fun pair : String × Bucket τ => idKey pair.1) buckets.entries).map fun pair =>
    { id := pair.1, year := pair.2.year, genres := sortedSet pair.2.genres,
      styles := sortedSet pair.2.styles, counts := pair.2.counts }

section Build

variable [LinearOrder τ] (instant : String → Option τ)

/-- One turn of the loop in `_Span.add`, with the number of texts read as times. -/
def see (state : Span τ × Nat) (text : String) : Span τ × Nat :=
  match instant text with
  | none => state
  | some moment =>
      ({ state.1 with
          first := some (match state.1.first with
            | none => (moment, text)
            | some held => if moment < held.1 then (moment, text) else held)
          last := some (match state.1.last with
            | none => (moment, text)
            | some held => if held.1 < moment then (moment, text) else held) },
        state.2 + 1)

/-- `_Span.add`. -/
def Span.add (span : Span τ) (recorded : List String) (edges : Nat) : Span τ :=
  let state := recorded.foldl (see instant) (span, 0)
  { state.1 with undated := state.1.undated + (edges - state.2) }

/-- `_Bucket.add`. -/
def Bucket.add (bucket : Bucket τ) (item : HeldItem) : Bucket τ :=
  { bucket with
    items := bucket.items + 1
    owned := if item.owned then bucket.owned + 1 else bucket.owned
    ownedSpan := if item.owned then bucket.ownedSpan.add instant item.ownedAt item.ownedEdges
      else bucket.ownedSpan
    wanted := if item.wanted then bucket.wanted + 1 else bucket.wanted
    wantedSpan := if item.wanted then bucket.wantedSpan.add instant item.wantedAt item.wantedEdges
      else bucket.wantedSpan
    both := if item.owned && item.wanted then bucket.both + 1 else bucket.both }

/-- A master's bucket after one item more. -/
def Bucket.addMaster (bucket : Bucket τ) (item : HeldItem) : Bucket τ :=
  { bucket.add instant item with
    year := item.masterYear.or bucket.year
    genres := bucket.genres ++ item.genres
    styles := bucket.styles ++ item.styles }

/-- An item under each of its genres or styles. -/
def fileNames (names : List String) (buckets : Dict String (Bucket τ)) (item : HeldItem) :
    Dict String (Bucket τ) :=
  Groups.file (fun _ => emptyBucket) (Bucket.add instant) names.eraseDups buckets item

/-- An item under its master, if it has one. -/
def fileMaster (buckets : Dict String (Bucket τ)) (item : HeldItem) : Dict String (Bucket τ) :=
  Groups.file (fun _ => emptyBucket) (Bucket.addMaster instant) item.masterId.toList buckets item

/-- One turn of the loop in `build_taste_projection`. -/
def foldItem (state : Fold τ) (item : HeldItem) : Fold τ where
  total := state.total.add instant item
  genres := fileNames instant item.genres state.genres item
  styles := fileNames instant item.styles state.styles item
  noGenre := if item.genres.isEmpty then state.noGenre + 1 else state.noGenre
  genreOnly := if !item.genres.isEmpty && item.styles.isEmpty then state.genreOnly + 1
    else state.genreOnly
  masterless := if item.masterId.isNone then state.masterless + 1 else state.masterless
  masters := fileMaster instant state.masters item

/-- `build_taste_projection`. -/
def buildTasteProjection (items : List HeldItem) : Projection :=
  let state := items.foldl (foldItem instant) emptyFold
  { totals :=
      { items := state.total.items, owned := state.total.owned, wanted := state.total.wanted,
        wantedOwned := state.total.both, masterlessItems := state.masterless,
        genreOnlyItems := state.genreOnly, unplacedItems := state.noGenre }
    recordedAt := state.total.recordedAt
    genres := ranked state.genres
    styles := ranked state.styles
    masters := masterEntries state.masters }

/-! ## What a bucket holds -/

/-- The texts that are times, with their instants. -/
def dated (texts : List String) : List (τ × String) :=
  texts.filterMap fun text => (instant text).map fun moment => (moment, text)

/-- The span of stamped texts. -/
def spanOf (stamped : List (τ × String)) (undated : Nat) : Span τ where
  first := firstBy (·.1) stamped
  last := lastBy (·.1) stamped
  undated := undated

/-- The loop over edges adds the dated ones. -/
theorem foldl_see (texts : List String) (stamped : List (τ × String)) (undated seen : Nat) :
    texts.foldl (see instant) (spanOf stamped undated, seen) =
      (spanOf (stamped ++ dated instant texts) undated, seen + (dated instant texts).length) := by
  induction texts generalizing stamped seen with
  | nil => simp [dated]
  | cons text texts ih =>
      rw [List.foldl_cons]
      cases hat : instant text with
      | none =>
          have hdated : dated instant (text :: texts) = dated instant texts := by
            simp [dated, hat]
          have hsee : see instant (spanOf stamped undated, seen) text =
              (spanOf stamped undated, seen) := by
            simp [see, hat]
          rw [hdated, hsee, ih]
      | some moment =>
          have hdated : dated instant (text :: texts) = (moment, text) :: dated instant texts := by
            simp [dated, hat]
          have hsee : see instant (spanOf stamped undated, seen) text =
              (spanOf (stamped ++ [(moment, text)]) undated, seen + 1) := by
            simp only [see, hat, spanOf, first_by_concat, last_by_concat]
            -- a span keeps its first and last moment each by itself
            cases firstBy (·.1) stamped with
            | none => cases lastBy (·.1) stamped with
              | none => rfl
              | some last => rfl
            | some first => cases lastBy (·.1) stamped with
              | none => rfl
              | some last => rfl
          rw [hdated, hsee, ih, List.append_assoc, List.singleton_append, List.length_cons]
          simp only [Nat.add_assoc, Nat.add_comm 1]

theorem span_add (stamped : List (τ × String)) (undated : Nat) (texts : List String)
    (edges : Nat) : (spanOf stamped undated).add instant texts edges =
      spanOf (stamped ++ dated instant texts)
        (undated + (edges - (dated instant texts).length)) := by
  rw [Span.add, foldl_see]
  simp [spanOf]

/-- The recorded times of some items in one state: earliest, latest, and edges without one. -/
def stateSpan (texts : HeldItem → List String) (edges : HeldItem → Nat) (items : List HeldItem) :
    Span τ :=
  spanOf (items.flatMap fun item => dated instant (texts item))
    (items.map fun item => edges item - (dated instant (texts item)).length).sum

theorem state_span_concat (texts : HeldItem → List String) (edges : HeldItem → Nat)
    (items : List HeldItem) (item : HeldItem) :
    stateSpan instant texts edges (items ++ [item]) =
      (stateSpan instant texts edges items).add instant (texts item) (edges item) := by
  rw [stateSpan, stateSpan, span_add]
  simp

/-- The bucket that holds some items. -/
def bucketOf (items : List HeldItem) : Bucket τ where
  owned := items.countP (·.owned)
  wanted := items.countP (·.wanted)
  items := items.length
  both := items.countP fun item => item.owned && item.wanted
  ownedSpan := stateSpan instant (·.ownedAt) (·.ownedEdges) (items.filter (·.owned))
  wantedSpan := stateSpan instant (·.wantedAt) (·.wantedEdges) (items.filter (·.wanted))
  year := none
  genres := []
  styles := []

/-- The bucket of a master that holds some items. -/
def masterOf (items : List HeldItem) : Bucket τ :=
  { bucketOf instant items with
    year := (items.filterMap (·.masterYear)).getLast?
    genres := items.flatMap (·.genres)
    styles := items.flatMap (·.styles) }

/-- A bucket of one item more. -/
theorem bucket_of_concat (items : List HeldItem) (item : HeldItem) :
    bucketOf instant (items ++ [item]) = (bucketOf instant items).add instant item := by
  have howned : stateSpan instant (·.ownedAt) (·.ownedEdges)
      ((items ++ [item]).filter (·.owned)) = if item.owned then
        (stateSpan instant (·.ownedAt) (·.ownedEdges) (items.filter (·.owned))).add instant
          item.ownedAt item.ownedEdges
      else stateSpan instant (·.ownedAt) (·.ownedEdges) (items.filter (·.owned)) := by
    rw [List.filter_append]
    cases h : item.owned with
    | true => simp [h, state_span_concat]
    | false => simp [h]
  have hwanted : stateSpan instant (·.wantedAt) (·.wantedEdges)
      ((items ++ [item]).filter (·.wanted)) = if item.wanted then
        (stateSpan instant (·.wantedAt) (·.wantedEdges) (items.filter (·.wanted))).add instant
          item.wantedAt item.wantedEdges
      else stateSpan instant (·.wantedAt) (·.wantedEdges) (items.filter (·.wanted)) := by
    rw [List.filter_append]
    cases h : item.wanted with
    | true => simp [h, state_span_concat]
    | false => simp [h]
  have hcount : ∀ p : HeldItem → Bool, (items ++ [item]).countP p =
      if p item then items.countP p + 1 else items.countP p := by
    intro p
    cases h : p item with
    | true => simp [h]
    | false => simp [h]
  simp only [bucketOf, Bucket.add, howned, hwanted, hcount, List.length_append,
    List.length_singleton]

theorem master_of_concat (items : List HeldItem) (item : HeldItem) :
    masterOf instant (items ++ [item]) = (masterOf instant items).addMaster instant item := by
  have hyear : ((items ++ [item]).filterMap (·.masterYear)).getLast? =
      item.masterYear.or (items.filterMap (·.masterYear)).getLast? := by
    cases h : item.masterYear with
    | none => simp [h]
    | some year => simp [h]
  have hgenres :
      (items ++ [item]).flatMap (·.genres) = items.flatMap (·.genres) ++ item.genres := by
    simp
  have hstyles :
      (items ++ [item]).flatMap (·.styles) = items.flatMap (·.styles) ++ item.styles := by
    simp
  rw [masterOf, bucket_of_concat, hyear, hgenres, hstyles]
  rfl

theorem foldl_add (items : List HeldItem) :
    items.foldl (Bucket.add instant) emptyBucket = bucketOf instant items := by
  induction items using List.reverseRecOn with
  | nil => rfl
  | append_singleton items item ih => rw [List.foldl_concat, ih, bucket_of_concat]

theorem foldl_add_master (items : List HeldItem) :
    items.foldl (Bucket.addMaster instant) emptyBucket = masterOf instant items := by
  induction items using List.reverseRecOn with
  | nil => rfl
  | append_singleton items item ih => rw [List.foldl_concat, ih, master_of_concat]

end Build

end CatalogApi.Taste
