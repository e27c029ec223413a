import CatalogApi.Lib.Updates
import CatalogApi.Lookup.Resolve
import Mathlib.Data.String.Basic

/-!
# The native ids of a request

`api/identity.py`: `native_ids_for_pairs` maps pairs of a kind and an id onto native ids through a
`NativeIdCache`. The aliases may change, and a lookup may fail, between the calls of a request: each
call then looks up what no call asked for before, and answers with what the aliases named when they
were first asked (`cached_response`).
-/

namespace CatalogApi.NativeIds

open ByKey Lookup

/-- `AliasRef`. -/
structure AliasRef where
  provider : String
  entityKind : String
  externalId : String
  deriving DecidableEq

/-- `catalog_kinds()`, and the refs that `AliasRef` accepts. -/
structure Vocabulary where
  catalogKinds : List String
  constructs : AliasRef → Bool

/-- `catalog_ref`. -/
def catalogRef (vocabulary : Vocabulary) (provider entityKind : String)
    (externalId : Option String) : Option AliasRef :=
  if entityKind ∉ vocabulary.catalogKinds then none
  else
    let external := externalId.getD ""
    if external = "" then none
    else
      if vocabulary.constructs ⟨provider, entityKind, external⟩ then
        some ⟨provider, entityKind, external⟩
      else none

section Lookup

variable {Item : Type}

/-- An open row for the ref. -/
def Answers (ref : AliasRef) (row : AliasRow Item) : Prop :=
  row.provider = ref.provider ∧ row.entityKind = ref.entityKind ∧
    row.externalId = ref.externalId ∧ row.validTo = none

instance (ref : AliasRef) (row : AliasRow Item) : Decidable (Answers ref row) :=
  inferInstanceAs (Decidable (_ ∧ _ ∧ _ ∧ _))

/-- The order of the refs in a batch. -/
def refKey (ref : AliasRef) : String ×ₗ String ×ₗ String :=
  toLex (ref.provider, toLex (ref.entityKind, ref.externalId))

/-- `_SELECT_NATIVE_IDS`. -/
def selectNativeIds (aliases : Aliases Item) (refs : List AliasRef) : List (AliasRef × Item) :=
  refs.flatMap fun ref => (aliases.rows.filter fun row => Answers ref row).map fun row =>
    (ref, row.nativeId)

/-- `lookup_native_ids`. -/
def lookupNativeIds (aliases : Aliases Item) (refs : List AliasRef) : Dict AliasRef Item :=
  (selectNativeIds aliases (sortBy refKey refs.eraseDups)).foldl
    (fun found row => found.set row.1 row.2) Dict.empty

/-- `resolve_native_ids`, with the aliases at its lookup unless that fails. -/
def resolveNativeIds (aliases : Option (Aliases Item)) (refs : List AliasRef) :
    Dict AliasRef Item :=
  match aliases with
  | none => Dict.empty
  | some aliases =>
      if refs.eraseDups = [] then Dict.empty else lookupNativeIds aliases refs.eraseDups

/-! ## The cache -/

/-- `NativeIdCache`. -/
structure NativeIdCache (Item : Type) where
  resolved : Dict AliasRef Item
  missing : List AliasRef

/-- `NativeIdCache()`. -/
def NativeIdCache.empty : NativeIdCache Item := ⟨Dict.empty, []⟩

/-- The wanted refs that the cache knows nothing of. -/
def NativeIdCache.unknown (cache : NativeIdCache Item) (wanted : List AliasRef) : List AliasRef :=
  wanted.filter fun ref => (cache.resolved.get? ref).isNone ∧ ref ∉ cache.missing

/-- The cache once it has looked up what it did not know. -/
def NativeIdCache.learn (cache : NativeIdCache Item) (aliases : Option (Aliases Item))
    (wanted : List AliasRef) : NativeIdCache Item :=
  match cache.unknown wanted with
  | [] => cache
  | ref :: refs =>
      let found := resolveNativeIds aliases (ref :: refs)
      { resolved := cache.resolved.update found
        missing := cache.missing ++ (ref :: refs).filter fun ref => (found.get? ref).isNone }

/-- `NativeIdCache.resolve`: the answer. -/
def NativeIdCache.answer (cache : NativeIdCache Item) (aliases : Option (Aliases Item))
    (refs : List AliasRef) : Dict AliasRef Item :=
  (Dict.ofKeys refs.eraseDups (nodup_erase_dups refs) id).filterMap fun ref _ =>
    (cache.learn aliases refs.eraseDups).resolved.get? ref

/-! ## Calls -/

/-- A call of `native_ids_for_pairs`, with the aliases at its lookup unless that fails. -/
structure Call (Item : Type) where
  pairs : List (String × Option String)
  provider : String
  aliases : Option (Aliases Item)

/-- The ref of each pair that has one, under its kind and external id. -/
def Call.refs (vocabulary : Vocabulary) (call : Call Item) : Dict (String × String) AliasRef :=
  (call.pairs.filterMap fun pair => catalogRef vocabulary call.provider pair.1 pair.2).foldl
    (fun refs ref => refs.set (ref.entityKind, ref.externalId) ref) Dict.empty

/-- The refs that a call asks for. -/
def Call.asked (vocabulary : Vocabulary) (call : Call Item) : List AliasRef :=
  (call.refs vocabulary).entries.map (·.2)

/-- What a call answers, what it looks up, and the cache it leaves. -/
structure Response (Item : Type) where
  answers : Dict (String × String) Item
  lookups : List AliasRef
  cache : NativeIdCache Item

/-- `native_ids_for_pairs` with a cache. -/
def nativeIdsForPairs (vocabulary : Vocabulary) (cache : NativeIdCache Item) (call : Call Item) :
    Response Item :=
  let asked := call.asked vocabulary
  if asked = [] then { answers := Dict.empty, lookups := [], cache }
  else
    let resolved := cache.answer call.aliases asked
    { answers := (call.refs vocabulary).filterMap fun _ ref => resolved.get? ref
      lookups := cache.unknown asked.eraseDups
      cache := cache.learn call.aliases asked.eraseDups }

/-- The cache after the calls of a request. -/
def cacheAfter (vocabulary : Vocabulary) (calls : List (Call Item)) : NativeIdCache Item :=
  calls.foldl (fun cache call => (nativeIdsForPairs vocabulary cache call).cache)
    NativeIdCache.empty

/-! ## Lookups -/

/-- The native id that an open alias names for a ref. -/
def nativeOf (aliases : Aliases Item) (ref : AliasRef) : Option Item :=
  (aliases.rows.find? fun row => Answers ref row).map (·.nativeId)

theorem native_of_iff {aliases : Aliases Item} {ref : AliasRef} {native : Item} :
    nativeOf aliases ref = some native ↔
      ∃ row ∈ aliases.rows, Answers ref row ∧ row.nativeId = native := by
  rw [nativeOf, Option.map_eq_some_iff]
  constructor
  · rintro ⟨row, hfind, rfl⟩
    exact ⟨row, List.mem_of_find?_eq_some hfind, by simpa using List.find?_some hfind, rfl⟩
  · rintro ⟨row, hrow, hanswers, rfl⟩
    have hsome : (aliases.rows.find? fun row => Answers ref row).isSome = true :=
      List.find?_isSome.mpr ⟨row, hrow, decide_eq_true hanswers⟩
    obtain ⟨found, hfound⟩ := Option.isSome_iff_exists.mp hsome
    have hfoundAnswers : Answers ref found := by simpa using List.find?_some hfound
    refine ⟨found, hfound, ?_⟩
    exact aliases.unique found (List.mem_of_find?_eq_some hfound) row hrow
      hfoundAnswers.2.2.2 hanswers.2.2.2 (hfoundAnswers.1.trans hanswers.1.symm)
      (hfoundAnswers.2.1.trans hanswers.2.1.symm)
      (hfoundAnswers.2.2.1.trans hanswers.2.2.1.symm)

theorem mem_select {aliases : Aliases Item} {refs : List AliasRef} {ref : AliasRef}
    {native : Item} : (ref, native) ∈ selectNativeIds aliases refs ↔
      ref ∈ refs ∧ nativeOf aliases ref = some native := by
  rw [selectNativeIds, List.mem_flatMap, native_of_iff]
  constructor
  · rintro ⟨other, hother, hrow⟩
    obtain ⟨row, hfiltered, heq⟩ := List.mem_map.mp hrow
    obtain ⟨rfl, rfl⟩ := Prod.mk.inj heq
    obtain ⟨hmem, hanswers⟩ := List.mem_filter.mp hfiltered
    exact ⟨hother, row, hmem, of_decide_eq_true hanswers, rfl⟩
  · rintro ⟨href, row, hmem, hanswers, rfl⟩
    exact ⟨ref, href, List.mem_map.mpr ⟨row, List.mem_filter.mpr
      ⟨hmem, decide_eq_true hanswers⟩, rfl⟩⟩

theorem get_lookup (aliases : Aliases Item) (refs : List AliasRef) (ref : AliasRef) :
    (lookupNativeIds aliases refs).get? ref =
      if ref ∈ refs then nativeOf aliases ref else none := by
  refine Option.ext fun native => ?_
  rw [lookupNativeIds, Dict.get_set_all_iff]
  · rw [ite_eq_iff, Dict.get_empty]
    simp only [reduceCtorEq, and_false, or_false]
    constructor
    · rintro ⟨⟨other, found⟩, hmem, rfl, rfl⟩
      obtain ⟨href, hnative⟩ := mem_select.mp hmem
      exact ⟨List.mem_eraseDups.mp (mem_sort_by.mp href), hnative⟩
    · rintro ⟨href, hnative⟩
      exact ⟨(ref, native), mem_select.mpr
        ⟨mem_sort_by.mpr (List.mem_eraseDups.mpr href), hnative⟩, rfl, rfl⟩
  · rintro ⟨a, v⟩ ha ⟨b, w⟩ hb heq
    obtain rfl : a = b := heq
    have hvalue := (mem_select.mp ha).2.symm.trans (mem_select.mp hb).2
    exact Option.some.inj hvalue

theorem get_resolve (aliases : Option (Aliases Item)) (refs : List AliasRef) (ref : AliasRef) :
    (resolveNativeIds aliases refs).get? ref =
      if ref ∈ refs then aliases.bind fun aliases => nativeOf aliases ref else none := by
  cases aliases with
  | none => rw [resolveNativeIds, Dict.get_empty, Option.bind_none, ite_self]
  | some aliases =>
      rw [resolveNativeIds]
      split
      case isTrue hempty =>
        have hnot : ref ∉ refs := fun hmem => by
          rw [← List.mem_eraseDups, hempty] at hmem
          cases hmem
        rw [Dict.get_empty, if_neg hnot]
      case isFalse =>
        rw [get_lookup]
        simp only [List.mem_eraseDups]
        rfl

/-! ## What the cache holds -/

/-- What the aliases name for a ref, and nothing when the lookup fails. -/
def foundIn (aliases : Option (Aliases Item)) (ref : AliasRef) : Option Item :=
  aliases.bind fun aliases => nativeOf aliases ref

theorem mem_unknown {cache : NativeIdCache Item} {wanted : List AliasRef} {ref : AliasRef} :
    ref ∈ cache.unknown wanted ↔
      ref ∈ wanted ∧ cache.resolved.get? ref = none ∧ ref ∉ cache.missing := by
  rw [NativeIdCache.unknown, List.mem_filter, decide_eq_true_eq, Option.isNone_iff_eq_none]

/-- What was unknown is learned from the aliases, and the rest stays. -/
theorem get_learn (cache : NativeIdCache Item) (aliases : Option (Aliases Item))
    (wanted : List AliasRef) (ref : AliasRef) :
    (cache.learn aliases wanted).resolved.get? ref =
      if ref ∈ cache.unknown wanted then foundIn aliases ref else cache.resolved.get? ref := by
  rw [NativeIdCache.learn]
  split
  case h_1 hempty => rw [hempty, if_neg List.not_mem_nil]
  case h_2 first rest hunknown =>
    dsimp only
    rw [Dict.get_update, get_resolve, ← hunknown]
    split
    case isTrue hmem =>
      rw [(mem_unknown.mp hmem).2.1, Option.or_none]
      rfl
    case isFalse => rw [Option.none_or]

theorem mem_missing_learn {cache : NativeIdCache Item} {aliases : Option (Aliases Item)}
    {wanted : List AliasRef} {ref : AliasRef} :
    ref ∈ (cache.learn aliases wanted).missing ↔
      ref ∈ cache.missing ∨ ref ∈ cache.unknown wanted ∧ foundIn aliases ref = none := by
  rw [NativeIdCache.learn]
  split
  case h_1 hempty => rw [hempty]; simp
  case h_2 first rest hunknown =>
    dsimp only
    rw [List.mem_append, List.mem_filter, ← hunknown, Option.isNone_iff_eq_none, get_resolve]
    refine or_congr Iff.rfl (and_congr_right fun hmem => ?_)
    rw [if_pos hmem]
    rfl

theorem response_cache (vocabulary : Vocabulary) (cache : NativeIdCache Item) (call : Call Item) :
    (nativeIdsForPairs vocabulary cache call).cache =
      cache.learn call.aliases (call.asked vocabulary).eraseDups := by
  rw [nativeIdsForPairs]
  dsimp only
  split
  case isTrue hempty => rw [hempty]; rfl
  case isFalse => rfl

theorem response_lookups (vocabulary : Vocabulary) (cache : NativeIdCache Item)
    (call : Call Item) : (nativeIdsForPairs vocabulary cache call).lookups =
      cache.unknown (call.asked vocabulary).eraseDups := by
  rw [nativeIdsForPairs]
  dsimp only
  split
  case isTrue hempty => rw [hempty]; rfl
  case isFalse => rfl

section Calls

variable (vocabulary : Vocabulary)

/-- A ref that one of the calls asked for. -/
def Asked (calls : List (Call Item)) (ref : AliasRef) : Prop :=
  ∃ call ∈ calls, ref ∈ call.asked vocabulary

instance (calls : List (Call Item)) (ref : AliasRef) : Decidable (Asked vocabulary calls ref) :=
  inferInstanceAs (Decidable (∃ call ∈ calls, ref ∈ call.asked vocabulary))

/-- What the aliases named for a ref at the first call that asked for it. -/
def held (calls : List (Call Item)) (ref : AliasRef) : Option Item :=
  (calls.find? fun call => ref ∈ call.asked vocabulary).bind fun call => foundIn call.aliases ref

/-- The cache holds what the aliases named when the calls first asked, and knows what is missing. -/
structure Holds (calls : List (Call Item)) (cache : NativeIdCache Item) : Prop where
  resolved : ∀ ref, cache.resolved.get? ref = held vocabulary calls ref
  missing : ∀ ref, ref ∈ cache.missing ↔
    Asked vocabulary calls ref ∧ held vocabulary calls ref = none

variable {vocabulary}

theorem held_not_asked {calls : List (Call Item)} {ref : AliasRef}
    (h : ¬Asked vocabulary calls ref) : held vocabulary calls ref = none := by
  have hnone : (calls.find? fun call => ref ∈ call.asked vocabulary) = none :=
    List.find?_eq_none.mpr fun call hcall hask => h ⟨call, hcall, of_decide_eq_true hask⟩
  rw [held, hnone, Option.bind_none]

theorem held_append {calls : List (Call Item)} {call : Call Item} {ref : AliasRef} :
    held vocabulary (calls ++ [call]) ref =
      if ¬Asked vocabulary calls ref ∧ ref ∈ call.asked vocabulary then foundIn call.aliases ref
      else held vocabulary calls ref := by
  rw [held, List.find?_append]
  by_cases hasked : Asked vocabulary calls ref
  · obtain ⟨earlier, hearlier, href⟩ := hasked
    have hsome : (calls.find? fun call => ref ∈ call.asked vocabulary).isSome = true :=
      List.find?_isSome.mpr ⟨earlier, hearlier, decide_eq_true href⟩
    obtain ⟨first, hfirst⟩ := Option.isSome_iff_exists.mp hsome
    rw [if_neg fun h => h.1 ⟨earlier, hearlier, href⟩, held, hfirst, Option.some_or]
  · have hnone : (calls.find? fun call => ref ∈ call.asked vocabulary) = none :=
      List.find?_eq_none.mpr fun call hcall hask => hasked ⟨call, hcall, of_decide_eq_true hask⟩
    rw [hnone, Option.none_or, held_not_asked hasked, List.find?_singleton]
    by_cases href : ref ∈ call.asked vocabulary
    · simp [hasked, href]
    · simp [href]

theorem asked_append {calls : List (Call Item)} {call : Call Item} {ref : AliasRef} :
    Asked vocabulary (calls ++ [call]) ref ↔
      Asked vocabulary calls ref ∨ ref ∈ call.asked vocabulary := by
  rw [Asked, Asked]
  simp [or_and_right, exists_or]

/-- The refs that a cache does not know are those that no call has asked for. -/
theorem Holds.unknown_iff {calls : List (Call Item)} {cache : NativeIdCache Item}
    (h : Holds vocabulary calls cache) {wanted : List AliasRef} {ref : AliasRef} :
    ref ∈ cache.unknown wanted ↔ ref ∈ wanted ∧ ¬Asked vocabulary calls ref := by
  rw [mem_unknown, h.resolved, h.missing]
  constructor
  · rintro ⟨hwanted, hnone, hmissing⟩
    exact ⟨hwanted, fun hasked => hmissing ⟨hasked, hnone⟩⟩
  · rintro ⟨hwanted, hasked⟩
    exact ⟨hwanted, held_not_asked hasked, fun hmissing => hasked hmissing.1⟩

theorem Holds.call {calls : List (Call Item)} {cache : NativeIdCache Item}
    (h : Holds vocabulary calls cache) (call : Call Item) :
    Holds vocabulary (calls ++ [call]) (nativeIdsForPairs vocabulary cache call).cache := by
  rw [response_cache]
  refine ⟨fun ref => ?_, fun ref => ?_⟩
  · rw [get_learn, held_append, h.resolved]
    refine if_congr ?_ rfl rfl
    rw [h.unknown_iff, List.mem_eraseDups, and_comm]
  · rw [mem_missing_learn, h.missing, h.unknown_iff, List.mem_eraseDups, asked_append, held_append]
    by_cases hasked : Asked vocabulary calls ref
    · simp [hasked]
    · by_cases href : ref ∈ call.asked vocabulary
      · simp [hasked, href]
      · simp [hasked, href]

theorem cache_after_holds (calls : List (Call Item)) :
    Holds vocabulary calls (cacheAfter vocabulary calls) := by
  induction calls using List.reverseRecOn with
  | nil =>
      refine ⟨fun ref => rfl, fun ref => ⟨fun hmem => absurd hmem List.not_mem_nil, ?_⟩⟩
      rintro ⟨⟨call, hcall, -⟩, -⟩
      cases hcall
  | append_singleton calls call ih =>
      rw [cacheAfter, List.foldl_append]
      exact ih.call call

/-! ## The answers -/

theorem catalog_ref_eq {provider entityKind : String} {externalId : Option String}
    {ref : AliasRef} (h : catalogRef vocabulary provider entityKind externalId = some ref) :
    ref = ⟨provider, entityKind, externalId.getD ""⟩ := by
  rw [catalogRef] at h
  split at h
  · cases h
  dsimp only at h
  split at h
  · cases h
  split at h
  · exact (Option.some.inj h).symm
  · cases h

/-- The pairs of a call that have a ref. -/
def Call.Names (vocabulary : Vocabulary) (call : Call Item) (key : String × String) : Prop :=
  ∃ pair ∈ call.pairs, catalogRef vocabulary call.provider pair.1 pair.2 =
    some ⟨call.provider, key.1, key.2⟩

theorem get_refs (call : Call Item) (key : String × String) (ref : AliasRef) :
    (call.refs vocabulary).get? key = some ref ↔
      call.Names vocabulary key ∧ ref = ⟨call.provider, key.1, key.2⟩ := by
  have hprovider : ∀ ref ∈ call.pairs.filterMap (fun pair =>
      catalogRef vocabulary call.provider pair.1 pair.2), ref.provider = call.provider := by
    intro ref href
    obtain ⟨pair, -, hpair⟩ := List.mem_filterMap.mp href
    rw [catalog_ref_eq hpair]
  rw [Call.refs, Dict.get_set_all_iff]
  · rw [Dict.get_empty]
    simp only [reduceCtorEq, and_false, or_false]
    constructor
    · rintro ⟨found, hfound, rfl, rfl⟩
      obtain ⟨pair, hpair, href⟩ := List.mem_filterMap.mp hfound
      have heq : found = ⟨call.provider, found.entityKind, found.externalId⟩ := by
        rw [← hprovider found hfound]
      exact ⟨⟨pair, hpair, href.trans (congrArg some heq)⟩, heq⟩
    · rintro ⟨⟨pair, hpair, href⟩, rfl⟩
      exact ⟨_, List.mem_filterMap.mpr ⟨pair, hpair, href⟩, rfl, rfl⟩
  · intro a ha b hb heq
    obtain ⟨hkind, hid⟩ := Prod.mk.inj heq
    obtain ⟨provider, entityKind, externalId⟩ := a
    obtain ⟨provider', entityKind', externalId'⟩ := b
    have hsame : provider = provider' := (hprovider _ ha).trans (hprovider _ hb).symm
    rw [hsame, show entityKind = entityKind' from hkind, show externalId = externalId' from hid]

theorem mem_asked {call : Call Item} {ref : AliasRef} :
    ref ∈ call.asked vocabulary ↔
      ref.provider = call.provider ∧ call.Names vocabulary (ref.entityKind, ref.externalId) := by
  rw [Call.asked, List.mem_map]
  constructor
  · rintro ⟨⟨key, found⟩, hmem, rfl⟩
    obtain ⟨hnames, rfl⟩ := (get_refs call key found).mp (Dict.get_of_mem hmem)
    exact ⟨rfl, hnames⟩
  · rintro ⟨hprovider, hnames⟩
    obtain ⟨provider, entityKind, externalId⟩ := ref
    obtain rfl : provider = call.provider := hprovider
    exact ⟨_, Dict.mem_of_get ((get_refs call _ _).mpr ⟨hnames, rfl⟩), rfl⟩

theorem get_answer (cache : NativeIdCache Item) (aliases : Option (Aliases Item))
    (refs : List AliasRef) (ref : AliasRef) : (cache.answer aliases refs).get? ref =
      if ref ∈ refs then (cache.learn aliases refs.eraseDups).resolved.get? ref else none := by
  rw [NativeIdCache.answer, Dict.get_filter_map, Dict.get_of_keys]
  simp only [List.mem_eraseDups]
  split <;> rfl

/-- After any calls, a call looks up the refs it asks for that no call asked for before, each once,
and answers each of its pairs with what the aliases named at the first call that asked for it. -/
theorem cached_response (before : List (Call Item)) (call : Call Item) :
    (nativeIdsForPairs vocabulary (cacheAfter vocabulary before) call).lookups.Nodup ∧
      (∀ ref, ref ∈ (nativeIdsForPairs vocabulary (cacheAfter vocabulary before) call).lookups ↔
        ref ∈ call.asked vocabulary ∧ ¬Asked vocabulary before ref) ∧
      ∀ key native,
        (nativeIdsForPairs vocabulary (cacheAfter vocabulary before) call).answers.get? key =
            some native ↔
          call.Names vocabulary key ∧
            held vocabulary (before ++ [call]) ⟨call.provider, key.1, key.2⟩ = some native := by
  have hholds : Holds vocabulary before (cacheAfter vocabulary before) := cache_after_holds before
  refine ⟨?nodup, fun ref => ?lookups, fun key native => ?answers⟩
  case nodup =>
    rw [response_lookups, NativeIdCache.unknown]
    exact (nodup_erase_dups _).filter _
  case lookups =>
    rw [response_lookups, hholds.unknown_iff, List.mem_eraseDups]
  case answers =>
    have hafter := hholds.call call
    rw [response_cache] at hafter
    rw [nativeIdsForPairs]
    dsimp only
    split
    case isTrue hempty =>
      rw [Dict.get_empty]
      refine ⟨fun h => absurd h (Option.some_ne_none native).symm, fun h => ?_⟩
      have hmem : (⟨call.provider, key.1, key.2⟩ : AliasRef) ∈ call.asked vocabulary :=
        mem_asked.mpr ⟨rfl, h.1⟩
      rw [hempty] at hmem
      cases hmem
    case isFalse =>
      rw [Dict.get_filter_map, Option.bind_eq_some_iff]
      constructor
      · rintro ⟨ref, href, hnative⟩
        obtain ⟨hnames, rfl⟩ := (get_refs call key ref).mp href
        rw [get_answer, if_pos (mem_asked.mpr ⟨rfl, hnames⟩), hafter.resolved] at hnative
        exact ⟨hnames, hnative⟩
      · rintro ⟨hnames, hnative⟩
        refine ⟨_, (get_refs call key _).mpr ⟨hnames, rfl⟩, ?_⟩
        rw [get_answer, if_pos (mem_asked.mpr ⟨rfl, hnames⟩), hafter.resolved]
        exact hnative

end Calls

end Lookup

end CatalogApi.NativeIds
