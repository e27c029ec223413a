import CatalogApi.Lib.Keyset
import CatalogApi.Rarity.Cursor

/-!
# The pages of a tier

`get_rarity_tier_page` and `get_rarity_leaderboard` of `api/queries/rarity_queries.py` and
`rarity_leaderboard` of `api/routers/rarity.py`. A client starts at any page and follows the cursors,
with a page size of its choice for each request: what it reads are the rows of the tier from that
page on, each once and in order, and no request fails (`follow_slices`). With one page size the walk
ends (`tier_cursor_walks`).
-/

namespace CatalogApi.Rarity

open ByKey Json CodePoints

/-- A row of `insights.release_rarity`, as the leaderboard reads it. -/
structure TierRow where
  releaseId : Int
  title : Option String
  artistName : Option String
  year : Option Int
  rarityScore : ℚ
  tier : Str
  hiddenGemScore : Option ℚ

/-- The `float` that a `REAL` is read as, and the cast `::real` of a `float`. -/
structure Driver where
  read : ℚ → FloatValue
  real : FloatValue → ℚ

/-- `ORDER BY rarity_score DESC, release_id`. -/
def position (row : TierRow) : ℚᵒᵈ ×ₗ Int :=
  toLex (OrderDual.toDual row.rarityScore, row.releaseId)

/-- `WHERE tier = %(tier)s`. -/
def inTier (table : List TierRow) (tier : Str) : List TierRow :=
  table.filter fun row => row.tier = tier

/-- The row stands after the cursor. -/
def isAfter (driver : Driver) : Option (FloatValue × Int) → TierRow → Bool
  | none, _ => true
  | some (afterScore, afterId), row =>
      row.rarityScore ≤ driver.real afterScore ∧
        (row.rarityScore < driver.real afterScore ∨ afterId < row.releaseId)

/-- `TIER_PAGE_MAX_LIMIT`. -/
def tierPageMaxLimit : Nat := 100

/-- `get_rarity_tier_page`. -/
def getRarityTierPage (driver : Driver) (table : List TierRow) (tier : Str)
    (after : Option (FloatValue × Int)) (limit : Nat) : List TierRow :=
  (sortBy position ((inTier table tier).filter (isAfter driver after))).take
    (max 1 (min limit (tierPageMaxLimit + 1)))

/-- The rows of a leaderboard, of one tier unless it is absent or empty. -/
def leaderboardRows (table : List TierRow) : Option Str → List TierRow
  | some (c :: rest) => inTier table (c :: rest)
  | _ => table

/-- `get_rarity_leaderboard`: the items and the total. -/
def getRarityLeaderboard (table : List TierRow) (page pageSize : Nat) (tier : Option Str) :
    List TierRow × Nat :=
  let rows := leaderboardRows table tier
  (((sortBy position rows).drop ((page - 1) * pageSize)).take pageSize, rows.length)

/-! ## The route -/

/-- An item of the leaderboard. -/
structure ListItem where
  releaseId : Int
  title : String
  artist : String
  year : Option Int
  rarityScore : FloatValue
  tier : Str
  hiddenGemScore : Option FloatValue

/-- `_format_list_item`. -/
def formatListItem (driver : Driver) (row : TierRow) : ListItem where
  releaseId := row.releaseId
  title := row.title.getD ""
  artist := row.artistName.getD ""
  year := row.year
  rarityScore := driver.read row.rarityScore
  tier := row.tier
  hiddenGemScore := row.hiddenGemScore.map driver.read

/-- What the route runs on: Python's floats, the room on its stack, the driver and the table. -/
structure Service where
  floats : Floats
  limit : Nat
  driver : Driver
  table : List TierRow

structure LeaderboardRequest where
  page : Nat
  pageSize : Nat
  tier : Option Str
  cursor : Option Str

/-- What the route refuses with 422, with 400 and its detail, or fails on with 500. -/
inductive RouteError where
  | validation
  | cursorNeedsTier
  | invalidCursor
  | internal
  deriving DecidableEq

structure LeaderboardResponse where
  items : List ListItem
  total : Option Nat
  page : Option Nat
  pageSize : Nat
  nextCursor : Option Str

/-- The bounds of the query parameters. -/
def LeaderboardRequest.accepted (request : LeaderboardRequest) : Bool :=
  1 ≤ request.page ∧ 1 ≤ request.pageSize ∧ request.pageSize ≤ 100 ∧
    request.cursor.all fun cursor => cursor.length ≤ 256

/-- `_tier_cursor_of`. -/
def tierCursorOf (service : Service) (tier : Str) (row : TierRow) : Except Failure Str :=
  encodeTierCursor service.floats tier (service.driver.read row.rarityScore) row.releaseId

/-- The cursor after the last of the rows, when there are rows and more follow. -/
def nextCursor (service : Service) (tier : Str) (rows : List TierRow) (more : Bool) :
    Except RouteError (Option Str) :=
  match rows.getLast?, more with
  | some row, true =>
      match tierCursorOf service tier row with
      | .ok token => .ok (some token)
      | .error _ => .error .internal
  | _, _ => .ok none

/-- The page after a cursor. -/
def cursorResponse (service : Service) (tier : Str) (pageSize : Nat) (after : FloatValue × Int) :
    Except RouteError LeaderboardResponse :=
  let rows := getRarityTierPage service.driver service.table tier (some after) (pageSize + 1)
  let items := rows.take pageSize
  (nextCursor service tier items (pageSize < rows.length)).map fun next =>
    { items := items.map (formatListItem service.driver)
      total := none
      page := none
      pageSize := pageSize
      nextCursor := next }

/-- The page at an offset. -/
def offsetResponse (service : Service) (request : LeaderboardRequest) :
    Except RouteError LeaderboardResponse :=
  let (items, total) :=
    getRarityLeaderboard service.table request.page request.pageSize request.tier
  let next := match request.tier with
    | some (c :: rest) =>
        nextCursor service (c :: rest) items (request.page * request.pageSize < total)
    | _ => .ok none
  next.map fun next =>
    { items := items.map (formatListItem service.driver)
      total := some total
      page := some request.page
      pageSize := request.pageSize
      nextCursor := next }

/-- `rarity_leaderboard`. -/
def rarityLeaderboard (service : Service) (request : LeaderboardRequest) :
    Except RouteError LeaderboardResponse :=
  if request.accepted then
    match request.cursor with
    | none => offsetResponse service request
    | some cursor =>
        match request.tier with
        | some (c :: rest) =>
            match decodeTierCursor service.floats service.limit cursor (c :: rest) with
            | .error .value => .error .invalidCursor
            | .error .recursion => .error .internal
            | .ok after => cursorResponse service (c :: rest) request.pageSize after
        | _ => .error .cursorNeedsTier
  else .error .validation

/-! ## Following the cursors -/

/-- What a client reads after a response, with a page size for each request, as long as there is a
cursor to follow. -/
def follow (service : Service) (tier : Str) :
    LeaderboardResponse → List Nat → Except RouteError (List LeaderboardResponse)
  | _, [] => .ok []
  | response, pageSize :: sizes =>
      match response.nextCursor with
      | none => .ok []
      | some token =>
          match rarityLeaderboard service ⟨1, pageSize, some tier, some token⟩ with
          | .error error => .error error
          | .ok next => (follow service tier next sizes).map (next :: ·)

/-- The rows of a tier, in the order of the leaderboard. -/
def tierOrder (table : List TierRow) (tier : Str) : List TierRow :=
  sortBy position (inTier table tier)

/-- What holds of the table and the driver: ids are unique, and the score of a row in the tier is a
`REAL` that the driver reads exactly and whose `repr` has at most 24 characters. The tier is written
with at most 139 characters. -/
structure Service.Sound (service : Service) (tier : Str) : Prop where
  room : 1 ≤ service.limit
  unique : (service.table.map (·.releaseId)).Nodup
  named : tier ≠ []
  plain : NoSplitPair tier
  brief : (tier.flatMap escapeChar).length ≤ 139
  ids : ∀ row ∈ inTier service.table tier, IsId row.releaseId
  scores : ∀ row ∈ inTier service.table tier,
    inRealRange (service.driver.read row.rarityScore) = true ∧
      service.driver.real (service.driver.read row.rarityScore) = row.rarityScore
  exact : ∀ row ∈ inTier service.table tier,
    Exact service.floats (service.driver.read row.rarityScore) ∧
      ((service.floats.repr (service.driver.read row.rarityScore)).flatMap escapeChar).length ≤ 24

/-! ## The order of a tier -/

section Pages

variable {service : Service} {tier : Str} (h : service.Sound tier)
include h

theorem tier_order_rises :
    (tierOrder service.table tier).Pairwise fun a b => position a < position b := by
  have hids : ((inTier service.table tier).map (·.releaseId)).Nodup :=
    (List.filter_sublist.map _).nodup h.unique
  have hnodup : ((tierOrder service.table tier).map (·.releaseId)).Nodup :=
    ((sort_by_perm _ _).map _).nodup_iff.mpr hids
  have hsorted := sort_by_sorted position (inTier service.table tier)
  refine (hsorted.and (List.pairwise_map.mp hnodup)).imp fun ⟨hle, hne⟩ => ?_
  refine lt_of_le_of_ne hle fun heq => hne ?_
  exact (Prod.mk.inj (toLex_inj.mp heq)).2

omit h in
theorem mem_tier_order {row : TierRow} {n : Nat}
    (hrow : (tierOrder service.table tier)[n]? = some row) : row ∈ inTier service.table tier :=
  mem_sort_by.mp (List.mem_of_getElem? hrow)

omit h in
/-- The cursor at a row admits the rows after it in the order. -/
theorem is_after_row {driver : Driver} {last row : TierRow}
    (hreal : driver.real (driver.read last.rarityScore) = last.rarityScore) :
    isAfter driver (some (driver.read last.rarityScore, last.releaseId)) row =
      decide (position last < position row) := by
  rw [isAfter, hreal, position, position]
  refine decide_eq_decide.mpr ?_
  rw [Prod.Lex.toLex_lt_toLex, OrderDual.toDual_lt_toDual, OrderDual.toDual_inj]
  constructor
  · rintro ⟨hle, hless | hid⟩
    · exact .inl hless
    · exact (lt_or_eq_of_le hle).imp id fun heq => ⟨heq.symm, hid⟩
  · rintro (hless | ⟨heq, hid⟩)
    · exact ⟨hless.le, .inl hless⟩
    · exact ⟨heq.symm.le, .inr hid⟩

/-- The page after a row holds the rows that follow it. -/
theorem tier_page_slice {n : Nat} {last : TierRow}
    (hlast : (tierOrder service.table tier)[n]? = some last) {limit : Nat} (hlimit : 1 ≤ limit)
    (hmax : limit ≤ tierPageMaxLimit + 1) :
    getRarityTierPage service.driver service.table tier
        (some (service.driver.read last.rarityScore, last.releaseId)) limit =
      ((tierOrder service.table tier).drop (n + 1)).take limit := by
  have hreal := (h.scores last (mem_tier_order hlast)).2
  have hfilter : isAfter service.driver
      (some (service.driver.read last.rarityScore, last.releaseId)) =
        fun row => decide (position last < position row) := funext fun row => is_after_row hreal
  rw [getRarityTierPage, Nat.min_eq_left hmax, Nat.max_eq_right hlimit, hfilter,
    ← filter_sort_by]
  exact congrArg _ (Keyset.filter_above (tier_order_rises h) hlast)

/-! ## The cursor after a row -/

/-- The cursor of a row is short enough for the route, and reads back as the row's position. -/
theorem tier_cursor_read {row : TierRow} (hrow : row ∈ inTier service.table tier) :
    ∃ token, tierCursorOf service tier row = .ok token ∧ token.length ≤ 256 ∧
      decodeTierCursor service.floats service.limit token tier =
        .ok (service.driver.read row.rarityScore, row.releaseId) := by
  obtain ⟨hexact, hrepr⟩ := h.exact row hrow
  have hid := h.ids row hrow
  obtain ⟨token, raw, htoken, hraw, hload⟩ := encoded_cursor_loads h.room h.plain hexact hid
  refine ⟨token, htoken, length_cursor hid h.brief hrepr htoken, ?_⟩
  rw [decode_of_loads hraw hload hexact (h.scores row hrow).1 hid, if_pos rfl]

/-- The cursor of a response after the first `n` rows of the tier. -/
def Stands (service : Service) (tier : Str) (n : Nat) (cursor : Option Str) : Prop :=
  if n < (tierOrder service.table tier).length then
    ∃ token last, cursor = some token ∧ (tierOrder service.table tier)[n - 1]? = some last ∧
      tierCursorOf service tier last = .ok token
  else cursor = none

/-- The next cursor stands after the page. -/
theorem next_cursor_stands {n pageSize : Nat} (hsize : 1 ≤ pageSize) {more : Bool}
    (hmore : more = decide (n + pageSize < (tierOrder service.table tier).length)) :
    ∃ next, nextCursor service tier (((tierOrder service.table tier).drop n).take pageSize) more =
        .ok next ∧ Stands service tier (n + pageSize) next := by
  unfold Stands
  by_cases hless : n + pageSize < (tierOrder service.table tier).length
  · rw [decide_eq_true hless] at hmore
    have hlength : (((tierOrder service.table tier).drop n).take pageSize).length = pageSize := by
      rw [List.length_take, List.length_drop]
      omega
    have hindex : n + pageSize - 1 < (tierOrder service.table tier).length := by omega
    have hlast : (((tierOrder service.table tier).drop n).take pageSize).getLast? =
        some ((tierOrder service.table tier)[n + pageSize - 1]) := by
      rw [List.getLast?_eq_getElem?, hlength, List.getElem?_take, if_pos (by omega),
        List.getElem?_drop, ← Nat.add_sub_assoc hsize, List.getElem?_eq_getElem hindex]
    have hget := List.getElem?_eq_getElem hindex
    obtain ⟨token, htoken, -⟩ := tier_cursor_read h (mem_tier_order hget)
    refine ⟨some token, ?_, ?_⟩
    · unfold nextCursor
      rw [hlast, hmore]
      simp only [htoken]
    · rw [if_pos hless]
      exact ⟨token, _, rfl, hget, htoken⟩
  · rw [decide_eq_false hless] at hmore
    refine ⟨none, ?_, by rw [if_neg hless]⟩
    unfold nextCursor
    rw [hmore]
    split
    · rename_i heq
      cases heq
    · rfl

/-! ## Requests -/

/-- A response with the rows from `n` on, at most `pageSize` of them. -/
structure Reads (service : Service) (tier : Str) (n pageSize : Nat)
    (response : LeaderboardResponse) : Prop where
  items : response.items = (((tierOrder service.table tier).drop n).take pageSize).map
    (formatListItem service.driver)
  next : Stands service tier (n + pageSize) response.nextCursor

theorem named_cons : ∃ c rest, tier = c :: rest := List.exists_cons_of_ne_nil h.named

/-- A request with the cursor after `n` rows is answered with the rows that follow. -/
theorem cursor_request {n pageSize : Nat} {token : Str} {last : TierRow} (hpos : 1 ≤ n)
    (hlast : (tierOrder service.table tier)[n - 1]? = some last)
    (htoken : tierCursorOf service tier last = .ok token) (hsize : 1 ≤ pageSize)
    (hmax : pageSize ≤ 100) :
    ∃ response, rarityLeaderboard service ⟨1, pageSize, some tier, some token⟩ = .ok response ∧
      Reads service tier n pageSize response := by
  obtain ⟨token', htoken', hlength, hread⟩ := tier_cursor_read h (mem_tier_order hlast)
  obtain rfl : token' = token := Except.ok.inj (htoken'.symm.trans htoken)
  obtain ⟨c, rest, rfl⟩ := named_cons h
  have hslice := tier_page_slice h hlast (Nat.succ_le_succ (Nat.zero_le pageSize))
    (Nat.succ_le_succ hmax)
  rw [Nat.sub_add_cancel hpos] at hslice
  have hitems : (((tierOrder service.table (c :: rest)).drop n).take (pageSize + 1)).take
      pageSize = ((tierOrder service.table (c :: rest)).drop n).take pageSize := by
    rw [List.take_take, Nat.min_eq_left (Nat.le_succ _)]
  have hmore : decide (pageSize <
      (((tierOrder service.table (c :: rest)).drop n).take (pageSize + 1)).length) =
        decide (n + pageSize < (tierOrder service.table (c :: rest)).length) := by
    rw [List.length_take, List.length_drop]
    refine decide_eq_decide.mpr ?_
    omega
  obtain ⟨next, hnext, hstands⟩ := next_cursor_stands h hsize hmore
  have haccepted : (LeaderboardRequest.mk 1 pageSize (some (c :: rest)) (some token')).accepted =
      true := decide_eq_true ⟨Nat.le_refl 1, hsize, hmax, decide_eq_true hlength⟩
  rw [rarityLeaderboard, if_pos haccepted]
  dsimp only
  rw [hread]
  dsimp only
  rw [cursorResponse, hslice, hitems, hnext]
  exact ⟨_, rfl, rfl, hstands⟩

/-- A request for a page of the tier is answered with the rows at its offset. -/
theorem offset_request {page pageSize : Nat} (hpage : 1 ≤ page) (hsize : 1 ≤ pageSize)
    (hmax : pageSize ≤ 100) :
    ∃ response, rarityLeaderboard service ⟨page, pageSize, some tier, none⟩ = .ok response ∧
      Reads service tier ((page - 1) * pageSize) pageSize response := by
  obtain ⟨c, rest, rfl⟩ := named_cons h
  have hoffset : (page - 1) * pageSize + pageSize = page * pageSize := by
    rw [← Nat.succ_mul, Nat.succ_eq_add_one, Nat.sub_add_cancel hpage]
  have hmore : decide (page * pageSize < (inTier service.table (c :: rest)).length) =
      decide ((page - 1) * pageSize + pageSize <
        (tierOrder service.table (c :: rest)).length) := by
    rw [hoffset, tierOrder, length_sort_by]
  obtain ⟨next, hnext, hstands⟩ := next_cursor_stands h hsize hmore
  have haccepted : (LeaderboardRequest.mk page pageSize (some (c :: rest)) none).accepted =
      true := decide_eq_true ⟨hpage, hsize, hmax, rfl⟩
  rw [rarityLeaderboard, if_pos haccepted]
  dsimp only
  rw [offsetResponse, getRarityLeaderboard, leaderboardRows]
  dsimp only
  rw [← tierOrder, hnext]
  exact ⟨_, rfl, rfl, hstands⟩

omit h in
theorem stands_is_some {n : Nat} {cursor : Option Str} (hstands : Stands service tier n cursor) :
    cursor.isSome = true ↔ n < (tierOrder service.table tier).length := by
  unfold Stands at hstands
  split at hstands
  · rename_i hless
    obtain ⟨token, last, rfl, -⟩ := hstands
    exact ⟨fun _ => hless, fun _ => rfl⟩
  · rename_i hless
    rw [hstands]
    exact ⟨fun hsome => absurd hsome Bool.false_ne_true, fun hlt => absurd hlt hless⟩

/-- Following the cursors from a response reads the rows that follow, each once and in order, until
there are no more. -/
theorem follow_reads {n pageSize : Nat} {response : LeaderboardResponse} (hpos : 1 ≤ pageSize)
    (hreads : Reads service tier n pageSize response) {sizes : List Nat}
    (hsizes : ∀ size ∈ sizes, 1 ≤ size ∧ size ≤ 100) :
    ∃ rest, follow service tier response sizes = .ok rest ∧
      response.items ++ rest.flatMap (·.items) =
        (((tierOrder service.table tier).drop n).take (pageSize + sizes.sum)).map
          (formatListItem service.driver) ∧
      (((response :: rest).getLast (List.cons_ne_nil _ _)).nextCursor.isSome = true ↔
        n + pageSize + sizes.sum < (tierOrder service.table tier).length) := by
  induction sizes generalizing n pageSize response with
  | nil => exact ⟨[], rfl, by simp [hreads.items], stands_is_some hreads.next⟩
  | cons size sizes ih =>
      have hsize := hsizes size List.mem_cons_self
      have hrest := fun s hs => hsizes s (List.mem_cons_of_mem _ hs)
      rw [List.sum_cons]
      by_cases hless : n + pageSize < (tierOrder service.table tier).length
      · have hstands := hreads.next
        rw [Stands, if_pos hless] at hstands
        obtain ⟨token, last, hnext, hlast, htoken⟩ := hstands
        obtain ⟨next, hget, hnextReads⟩ := cursor_request h (by omega) hlast htoken hsize.1 hsize.2
        obtain ⟨more, hfollow, hitems, hdone⟩ := ih hsize.1 hnextReads hrest
        refine ⟨next :: more, ?_, ?_, ?_⟩
        · rw [follow, hnext]
          dsimp only
          rw [hget]
          dsimp only
          rw [hfollow]
          rfl
        · rw [List.flatMap_cons, hitems, hreads.items, ← List.map_append,
            List.take_add (i := pageSize), List.drop_drop]
        · rw [List.getLast_cons_cons, hdone]
          omega
      · have hnone := hreads.next
        rw [Stands, if_neg hless] at hnone
        refine ⟨[], ?_, ?_, ?_⟩
        · rw [follow, hnone]
        · rw [List.flatMap_nil, List.append_nil, hreads.items, List.take_of_length_le,
            List.take_of_length_le]
          · rw [List.length_drop]
            omega
          · rw [List.length_drop]
            omega
        · rw [List.getLast_singleton, hnone]
          refine ⟨fun hsome => absurd hsome Bool.false_ne_true, fun hlt => ?_⟩
          omega

/-- A client that starts at a page of a tier and follows the cursors, with any page sizes, reads the
rows of the tier from that page on, each once and in order; no request fails, and there is a cursor
to follow as long as there are more rows. -/
theorem follow_slices {page pageSize : Nat} (hpage : 1 ≤ page) (hsize : 1 ≤ pageSize)
    (hmax : pageSize ≤ 100) {sizes : List Nat} (hsizes : ∀ size ∈ sizes, 1 ≤ size ∧ size ≤ 100) :
    ∃ first rest,
      rarityLeaderboard service ⟨page, pageSize, some tier, none⟩ = .ok first ∧
      follow service tier first sizes = .ok rest ∧
      first.items ++ rest.flatMap (·.items) =
        (((tierOrder service.table tier).drop ((page - 1) * pageSize)).take
          (pageSize + sizes.sum)).map (formatListItem service.driver) ∧
      (((first :: rest).getLast (List.cons_ne_nil _ _)).nextCursor.isSome = true ↔
        (page - 1) * pageSize + pageSize + sizes.sum <
          (tierOrder service.table tier).length) := by
  obtain ⟨first, hfirst, hreads⟩ := offset_request h hpage hsize hmax
  obtain ⟨rest, hrest, hitems, hdone⟩ := follow_reads h hsize hreads hsizes
  exact ⟨first, rest, hfirst, hrest, hitems, hdone⟩

/-! ## A whole walk -/

omit h in
/-- The responses that a client reads after a response, with one page size, until there is no cursor to
follow. -/
inductive Followed (service : Service) (tier : Str) (pageSize : Nat) :
    LeaderboardResponse → List LeaderboardResponse → Prop
  | ends {response : LeaderboardResponse} (hnone : response.nextCursor = none) :
      Followed service tier pageSize response []
  | next {response next : LeaderboardResponse} {rest : List LeaderboardResponse} {token : Str}
      (hcursor : response.nextCursor = some token)
      (hnext : rarityLeaderboard service ⟨1, pageSize, some tier, some token⟩ = .ok next)
      (hrest : Followed service tier pageSize next rest) :
      Followed service tier pageSize response (next :: rest)

/-- Following the cursors from a response ends, and reads the rows that are left. -/
theorem followed_reads {pageSize : Nat} (hsize : 1 ≤ pageSize) (hmax : pageSize ≤ 100) {n left : Nat}
    (hleft : (tierOrder service.table tier).length - n ≤ left) {response : LeaderboardResponse}
    (hreads : Reads service tier n pageSize response) :
    ∃ rest, Followed service tier pageSize response rest ∧
      response.items ++ rest.flatMap (·.items) =
        ((tierOrder service.table tier).drop n).map (formatListItem service.driver) := by
  induction left generalizing n response with
  | zero =>
      have hnone := hreads.next
      rw [Stands, if_neg (by omega)] at hnone
      refine ⟨[], .ends hnone, ?_⟩
      rw [List.flatMap_nil, List.append_nil, hreads.items, List.drop_of_length_le (by omega),
        List.take_nil]
  | succ left ih =>
      have hstands := hreads.next
      by_cases hless : n + pageSize < (tierOrder service.table tier).length
      · rw [Stands, if_pos hless] at hstands
        obtain ⟨token, last, hcursor, hlast, htoken⟩ := hstands
        obtain ⟨next, hnext, hnextReads⟩ := cursor_request h (by omega) hlast htoken hsize hmax
        obtain ⟨rest, hrest, hitems⟩ := ih (by omega) hnextReads
        refine ⟨next :: rest, .next hcursor hnext hrest, ?_⟩
        rw [List.flatMap_cons, hitems, hreads.items, ← List.map_append, ← List.drop_drop,
          List.take_append_drop]
      · rw [Stands, if_neg hless] at hstands
        refine ⟨[], .ends hstands, ?_⟩
        rw [List.flatMap_nil, List.append_nil, hreads.items, List.take_of_length_le]
        rw [List.length_drop]
        omega

end Pages

/-- A cursor reads back for its tier alone; any text of a request is refused with a `ValueError` or
reads as a position that the query takes; and the walk from any page of a tier ends, and reads the rows
of the tier from that page on, each once, by decreasing score and then by id. -/
theorem tier_cursor_walks (service : Service) (hroom : 259 ≤ service.limit) :
    (∀ tier score releaseId, NoSplitPair tier → Exact service.floats score →
      inRealRange score = true → IsId releaseId →
      ∃ token, encodeTierCursor service.floats tier score releaseId = .ok token ∧
        decodeTierCursor service.floats service.limit token tier = .ok (score, releaseId) ∧
        ∀ other, other ≠ tier →
          decodeTierCursor service.floats service.limit token other = .error .value) ∧
    (∀ token tier, token.length ≤ 256 →
      decodeTierCursor service.floats service.limit token tier = .error .value ∨
        ∃ score releaseId,
          decodeTierCursor service.floats service.limit token tier = .ok (score, releaseId) ∧
            inRealRange score = true ∧ IsId releaseId) ∧
    ∀ tier, service.Sound tier →
      (tierOrder service.table tier).Perm (inTier service.table tier) ∧
      ((tierOrder service.table tier).Pairwise fun a b => position a < position b) ∧
      ∀ page pageSize, 1 ≤ page → 1 ≤ pageSize → pageSize ≤ 100 →
        ∃ first rest,
          rarityLeaderboard service ⟨page, pageSize, some tier, none⟩ = .ok first ∧
          Followed service tier pageSize first rest ∧
          first.items ++ rest.flatMap (·.items) =
            ((tierOrder service.table tier).drop ((page - 1) * pageSize)).map
              (formatListItem service.driver) := by
  refine ⟨?_, ?_, ?_⟩
  · intro tier score releaseId htier hscore hrange hid
    obtain ⟨token, raw, htoken, hraw, hload⟩ :=
      encoded_cursor_loads (show 1 ≤ service.limit by omega) htier hscore hid
    have hdecode := decode_of_loads hraw hload hscore hrange hid
    refine ⟨token, htoken, ?_, fun other hother => ?_⟩
    · rw [hdecode tier, if_pos rfl]
    · rw [hdecode other, if_neg hother]
  · intro token tier hlength
    cases hdecode : decodeTierCursor service.floats service.limit token tier with
    | ok position => exact .inr ⟨position.1, position.2, rfl, (decode_cursor_ok hdecode).1⟩
    | error failure =>
        cases failure with
        | value => exact .inl rfl
        | recursion => exact absurd hdecode (decode_cursor_shallow (by omega))
  · intro tier hsound
    refine ⟨sort_by_perm _ _, tier_order_rises hsound, fun page pageSize hpage hsize hmax => ?_⟩
    obtain ⟨first, hfirst, hreads⟩ := offset_request hsound hpage hsize hmax
    obtain ⟨rest, hrest, hitems⟩ := followed_reads hsound hsize hmax (Nat.le_refl _) hreads
    exact ⟨first, rest, hfirst, hrest, hitems⟩

/-- Three releases with one score. -/
def tied : Service where
  floats := halfFloats
  limit := 1
  driver := { read := .finite, real := fun score => score.number.getD 0 }
  table := [3, 1, 2].map fun id =>
    { releaseId := id, title := some "A", artistName := none, year := none,
      rarityScore := 83 / 2, tier := ofString "common", hiddenGemScore := none }

theorem tied_sound : tied.Sound (ofString "common") where
  room := Nat.le_refl 1
  unique := by decide
  named := by decide
  plain := no_split_string _
  brief := by decide
  ids := by decide
  scores := by
    intro row hrow
    have hscore : row.rarityScore = 83 / 2 := by
      obtain ⟨id, -, rfl⟩ := List.mem_map.mp (List.mem_filter.mp hrow).1
      rfl
    rw [hscore]
    exact ⟨half_in_range, rfl⟩
  exact := by
    intro row hrow
    have hscore : row.rarityScore = 83 / 2 := by
      obtain ⟨id, -, rfl⟩ := List.mem_map.mp (List.mem_filter.mp hrow).1
      rfl
    rw [hscore]
    exact ⟨half_exact, by decide⟩

/-- The two halves of a surrogate pair, as two characters. -/
def splitTier : Str := [0xD83D, 0xDE00]

/-- A tier with a name of 190 characters. -/
def longTier : Str := List.replicate 190 (ord 'x')

/-- Two releases of that tier. -/
def longNamed : Service where
  floats := halfFloats
  limit := 300
  driver := { read := .finite, real := fun score => score.number.getD 0 }
  table := [1, 2].map fun id =>
    { releaseId := id, title := some "A", artistName := none, year := none,
      rarityScore := 83 / 2, tier := longTier, hiddenGemScore := none }

/-- The token of the first of them. -/
def longToken : Option Str := (encodeTierCursor halfFloats longTier halfScore 1).toOption

/-- JSON joins the halves of a pair, so the token of such a tier is refused for the tier itself; and the
token of a tier with a long name is too long for the route that returned it. -/
theorem odd_tiers_refused :
    (∃ token, encodeTierCursor halfFloats splitTier halfScore 11 = .ok token ∧
      decodeTierCursor halfFloats 300 token splitTier = .error .value) ∧
    (rarityLeaderboard longNamed ⟨1, 1, some longTier, none⟩).map (·.nextCursor) = .ok longToken ∧
    longToken.isSome = true ∧
    (rarityLeaderboard longNamed ⟨1, 1, some longTier, longToken⟩).map (·.nextCursor) =
      .error .validation := by
  refine ⟨⟨_, rfl, by decide +kernel⟩, ?_⟩
  decide +kernel

/-- The three releases, and room on the stack for any token. -/
def tiedRoom : Service := { tied with limit := 300 }

theorem tied_room_sound : tiedRoom.Sound (ofString "common") :=
  { room := by decide
    unique := tied_sound.unique
    named := tied_sound.named
    plain := tied_sound.plain
    brief := tied_sound.brief
    ids := tied_sound.ids
    scores := tied_sound.scores
    exact := tied_sound.exact }

/-- One release a page, a walk reads the three releases by id. -/
theorem tied_walk :
    (∃ token, encodeTierCursor halfFloats (ofString "common") halfScore 11 = .ok token ∧
      decodeTierCursor halfFloats 300 token (ofString "common") = .ok (halfScore, 11) ∧
      decodeTierCursor halfFloats 300 token (ofString "rare") = .error .value) ∧
    (decodeTierCursor halfFloats 300 (ofString "abc") (ofString "common") = .error .value ∨
      ∃ score releaseId,
        decodeTierCursor halfFloats 300 (ofString "abc") (ofString "common") =
          .ok (score, releaseId) ∧ inRealRange score = true ∧ IsId releaseId) ∧
    (tierOrder tied.table (ofString "common")).map (·.releaseId) = [1, 2, 3] ∧
    ∃ first rest,
      rarityLeaderboard tiedRoom ⟨1, 1, some (ofString "common"), none⟩ = .ok first ∧
      Followed tiedRoom (ofString "common") 1 first rest ∧
      first.items ++ rest.flatMap (·.items) =
        (tierOrder tied.table (ofString "common")).map (formatListItem tied.driver) := by
  obtain ⟨hround, hany, hwalk⟩ := tier_cursor_walks tiedRoom (by decide)
  refine ⟨?_, hany (ofString "abc") (ofString "common") (by decide), by decide +kernel, ?_⟩
  · obtain ⟨token, htoken, hread, hother⟩ := hround (ofString "common") halfScore 11
      (no_split_string _) half_exact half_in_range (by decide)
    exact ⟨token, htoken, hread, hother _ (by decide)⟩
  · exact (hwalk _ tied_room_sound).2.2 1 1 (Nat.le_refl 1) (Nat.le_refl 1) (by decide)

theorem tied_follow :
    ∃ first rest,
      rarityLeaderboard tied ⟨1, 1, some (ofString "common"), none⟩ = .ok first ∧
      follow tied (ofString "common") first [1, 5] = .ok rest ∧
      first.items ++ rest.flatMap (·.items) =
        (((tierOrder tied.table (ofString "common")).drop ((1 - 1) * 1)).take
          (1 + [1, 5].sum)).map (formatListItem tied.driver) ∧
      (((first :: rest).getLast (List.cons_ne_nil _ _)).nextCursor.isSome = true ↔
        (1 - 1) * 1 + 1 + [1, 5].sum < (tierOrder tied.table (ofString "common")).length) :=
  follow_slices tied_sound (Nat.le_refl 1) (Nat.le_refl 1) (by decide) (by decide)

end CatalogApi.Rarity
