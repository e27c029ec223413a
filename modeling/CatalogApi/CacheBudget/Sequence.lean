import CatalogApi.CacheBudget.Store

/-!
# The budget's index describes the cache

Calls of `store_within_budget` one after the other, each at one instant: `Described` is what holds of a
cache between calls, where the index, the costs and the values have TTLs of their own. Each call is
read off its program once (`run_store`), as a pruning of the expired members followed by a refusal, a
write, or an eviction and a write.
-/

namespace CatalogApi.CacheBudget

open Programs

/-! ## Scored keys -/

namespace ScoredKeys

variable (keys : ScoredKeys) (scores : SortedSet String)

@[simp] theorem score_update (key : String) :
    (keys.update scores).scores.score key = scores.score key := by
  rw [update]
  split
  · rename_i hnone
    exact (SortedSet.card_eq_zero.mp hnone key).symm
  · rfl

theorem card_update : (keys.update scores).scores.card = scores.card := by
  rw [update]
  split
  · rename_i hnone
    exact hnone.symm
  · rfl

theorem deadline_update :
    (keys.update scores).deadline = if scores.card = 0 then none else keys.deadline := by
  rw [update]
  split
  · rfl
  · rfl

/-- An update drops the deadline of a set that it leaves empty. -/
theorem deadline_of_update : (keys.update scores).deadline =
    if (keys.update scores).scores.card = 0 then none else keys.deadline := by
  rw [deadline_update, card_update]

@[simp] theorem scores_expire (deadline : Int) : (keys.expire deadline).scores = keys.scores := by
  rw [expire]
  split
  · rfl
  · rfl

theorem deadline_expire {deadline : Int} (h : keys.scores.card ≠ 0) :
    (keys.expire deadline).deadline = some deadline := by
  rw [expire, if_neg h]

end ScoredKeys

/-! ## The invariant -/

/-- The members of the index that have not expired. -/
def Cache.live (cache : Cache) : SortedSet String := cache.index.removeUpTo cache.clock

/-- The index describes the cache: its members are those of the costs, no more than `maxKeys`; every
value is indexed with its deadline; and the two sets live as long as any member does. -/
structure Described (maxKeys ttl : Nat) (cache : Cache) : Prop where
  same : ∀ key, key ∈ cache.index.members ↔ key ∈ cache.costs.members
  within : cache.index.card ≤ maxKeys
  entry : ∀ key value deadline, cache.entries key = some (value, deadline) →
    cache.index.score key = some deadline
  deadlines : (cache.sets .index).deadline = (cache.sets .costs).deadline
  outlives : ∀ key score, cache.index.score key = some score →
    score ≤ cache.clock + ttl ∧ ∃ deadline ∈ (cache.sets .index).deadline, score ≤ deadline

theorem Described.empty (maxKeys ttl : Nat) (clock : Int) :
    Described maxKeys ttl (Cache.empty clock) where
  same := fun _ => Iff.rfl
  within := Nat.zero_le _
  entry := by nofun
  deadlines := rfl
  outlives := by nofun

variable {maxKeys ttl : Nat} {cache : Cache}

/-- Two sets with the same members have none at the same time. -/
theorem card_eq_zero_iff {first second : SortedSet String}
    (h : ∀ key, key ∈ first.members ↔ key ∈ second.members) : first.card = 0 ↔ second.card = 0 := by
  rw [SortedSet.card_eq_zero, SortedSet.card_eq_zero]
  refine forall_congr' fun key => ?_
  rw [SortedSet.score_eq_none, SortedSet.score_eq_none, h key]

/-- Time passes: both sets stay, or both go with every value gone before them. -/
theorem Described.tick_sets (h : Described maxKeys ttl cache) (elapsed : Nat) :
    (∀ name, (cache.tick elapsed).sets name = cache.sets name) ∨
      (∀ name, (cache.tick elapsed).sets name = .empty) ∧
        ∀ key, (cache.tick elapsed).entries key = none := by
  have hdeadlines : ∀ name, (cache.sets name).deadline = (cache.sets .index).deadline := by
    intro name
    cases name with
    | index => rfl
    | costs => exact h.deadlines.symm
  cases hdeadline : (cache.sets .index).deadline with
  | none =>
      refine Or.inl fun name => ?_
      show (cache.sets name).tick (cache.clock + elapsed) = _
      rw [ScoredKeys.tick, hdeadlines, hdeadline]
  | some deadline =>
      have hsets : ∀ name, (cache.tick elapsed).sets name =
          if deadline ≤ cache.clock + elapsed then .empty else cache.sets name := by
        intro name
        show (cache.sets name).tick (cache.clock + elapsed) = _
        rw [ScoredKeys.tick, hdeadlines, hdeadline]
      by_cases hgone : deadline ≤ cache.clock + elapsed
      · simp only [if_pos hgone] at hsets
        refine Or.inr ⟨hsets, fun key => ?_⟩
        refine Option.filter_eq_none_iff.mpr fun entry hentry => ?_
        obtain ⟨-, limit, hlimit, hle⟩ := h.outlives key entry.2 (h.entry key entry.1 entry.2 hentry)
        obtain rfl : deadline = limit := Option.some.inj (hdeadline.symm.trans hlimit)
        simp only [decide_eq_true_eq]
        omega
      · simp only [if_neg hgone] at hsets
        exact Or.inl hsets

/-- The index describes the cache as time passes. -/
theorem Described.tick (h : Described maxKeys ttl cache) (elapsed : Nat) :
    Described maxKeys ttl (cache.tick elapsed) := by
  rcases h.tick_sets elapsed with hkept | ⟨hgone, hnone⟩
  · have hindex : (cache.tick elapsed).index = cache.index := congrArg ScoredKeys.scores (hkept .index)
    have hcosts : (cache.tick elapsed).costs = cache.costs := congrArg ScoredKeys.scores (hkept .costs)
    refine ⟨?_, ?_, ?_, ?_, ?_⟩
    · rw [hindex, hcosts]
      exact h.same
    · rw [hindex]
      exact h.within
    · intro key value deadline hentry
      rw [hindex]
      exact h.entry key value deadline (Option.filter_eq_some_iff.mp hentry).1
    · rw [hkept, hkept]
      exact h.deadlines
    · intro key score hscore
      rw [hindex] at hscore
      rw [hkept]
      obtain ⟨hle, hlimit⟩ := h.outlives key score hscore
      refine ⟨?_, hlimit⟩
      change score ≤ cache.clock + elapsed + ttl
      omega
  · have hindex : (cache.tick elapsed).index = SortedSet.empty := congrArg ScoredKeys.scores (hgone .index)
    have hcosts : (cache.tick elapsed).costs = SortedSet.empty := congrArg ScoredKeys.scores (hgone .costs)
    refine ⟨?_, ?_, ?_, ?_, ?_⟩
    · rw [hindex, hcosts]
      exact fun _ => Iff.rfl
    · rw [hindex]
      exact Nat.zero_le _
    · intro key value deadline hentry
      rw [hnone] at hentry
      cases hentry
    · rw [hgone, hgone]
    · intro key score hscore
      rw [hindex] at hscore
      cases hscore

/-! ## One call -/

/-- A cache without its expired members. -/
def Cache.pruned (cache : Cache) : Cache :=
  (cache.updateSet .costs (cache.costs.remove (cache.index.upTo cache.clock))).updateSet .index
    (cache.index.removeUpTo cache.clock)

/-- A cache without an entry. -/
def Cache.evicted (cache : Cache) (victim : String) : Cache :=
  ((cache.updateSet .costs (cache.costs.remove [victim])).updateSet .index
    (cache.index.remove [victim])).setEntry victim none

/-- A cache with the entry of a call. -/
def Cache.written (cache : Cache) (call : StoreCall) : Cache :=
  let added := (cache.updateSet .index (cache.index.add call.key (cache.clock + call.ttl))).updateSet
    .costs (cache.costs.add call.key call.weight)
  let armed := (added.setKeys .index ((added.sets .index).expire (cache.clock + call.ttl)))
  (armed.setKeys .costs ((armed.sets .costs).expire (cache.clock + call.ttl))).setEntry call.key
    (some (call.value, cache.clock + call.ttl))

theorem index_score_written (cache : Cache) (call : StoreCall) (key : String) :
    (cache.written call).index.score key =
      if key = call.key then some (cache.clock + call.ttl) else cache.index.score key := by
  change ((((cache.sets .index).update (cache.index.add call.key _)).expire _).scores).score key = _
  rw [ScoredKeys.scores_expire, ScoredKeys.score_update, SortedSet.score_add]

theorem costs_score_written (cache : Cache) (call : StoreCall) (key : String) :
    (cache.written call).costs.score key =
      if key = call.key then some call.weight else cache.costs.score key := by
  change ((((cache.sets .costs).update (cache.costs.add call.key _)).expire _).scores).score key = _
  rw [ScoredKeys.scores_expire, ScoredKeys.score_update, SortedSet.score_add]

theorem deadline_written (cache : Cache) (call : StoreCall) (name : SetName) :
    ((cache.written call).sets name).deadline = some (cache.clock + call.ttl) := by
  cases name with
  | index =>
      change (((cache.sets .index).update (cache.index.add call.key _)).expire _).deadline = _
      refine ScoredKeys.deadline_expire _ ?_
      rw [ScoredKeys.card_update]
      exact SortedSet.card_add_ne_zero _ _ _
  | costs =>
      change (((cache.sets .costs).update (cache.costs.add call.key _)).expire _).deadline = _
      refine ScoredKeys.deadline_expire _ ?_
      rw [ScoredKeys.card_update]
      exact SortedSet.card_add_ne_zero _ _ _

theorem index_score_evicted (cache : Cache) (victim key : String) :
    (cache.evicted victim).index.score key =
      if key = victim then none else cache.index.score key := by
  change (((cache.sets .index).update (cache.index.remove [victim])).scores).score key = _
  rw [ScoredKeys.score_update, SortedSet.score_remove]
  simp only [List.mem_singleton]

theorem costs_score_evicted (cache : Cache) (victim key : String) :
    (cache.evicted victim).costs.score key =
      if key = victim then none else cache.costs.score key := by
  change (((cache.sets .costs).update (cache.costs.remove [victim])).scores).score key = _
  rw [ScoredKeys.score_update, SortedSet.score_remove]
  simp only [List.mem_singleton]

theorem index_score_pruned (cache : Cache) (key : String) :
    cache.pruned.index.score key = cache.live.score key := by
  change (((cache.sets .index).update (cache.index.removeUpTo cache.clock)).scores).score key = _
  rw [ScoredKeys.score_update]
  rfl

theorem costs_score_pruned (cache : Cache) (key : String) :
    cache.pruned.costs.score key =
      if key ∈ cache.index.upTo cache.clock then none else cache.costs.score key := by
  change (((cache.sets .costs).update (cache.costs.remove _)).scores).score key = _
  rw [ScoredKeys.score_update, SortedSet.score_remove]

/-- A cache that differs from another in having fewer members. -/
theorem Described.shrink (h : Described maxKeys ttl cache) {next : Cache}
    (hindex : ∀ key value, next.index.score key = some value → cache.index.score key = some value)
    (hsame : ∀ key, key ∈ next.index.members ↔ key ∈ next.costs.members)
    (hdeadline : ∀ name, (next.sets name).deadline =
      if (next.sets name).scores.card = 0 then none else (cache.sets name).deadline)
    (hentry : ∀ key value deadline, next.entries key = some (value, deadline) →
      next.index.score key = some deadline)
    (hclock : next.clock = cache.clock) : Described maxKeys ttl next where
  same := hsame
  within := by
    refine Nat.le_trans ?_ h.within
    rw [← SortedSet.card_members, ← SortedSet.card_members]
    refine Finset.card_le_card fun key hkey => ?_
    rw [List.mem_toFinset, SortedSet.mem_members] at hkey ⊢
    obtain ⟨value, hvalue⟩ := hkey
    exact ⟨value, hindex key value hvalue⟩
  entry := hentry
  deadlines := by
    rw [hdeadline, hdeadline, h.deadlines]
    have hzero : (next.sets .index).scores.card = 0 ↔ (next.sets .costs).scores.card = 0 :=
      card_eq_zero_iff hsame
    by_cases hnone : (next.sets .index).scores.card = 0
    · rw [if_pos hnone, if_pos (hzero.mp hnone)]
    · rw [if_neg hnone, if_neg (mt hzero.mpr hnone)]
  outlives := by
    intro key score hscore
    obtain ⟨hle, limit, hlimit, hlast⟩ := h.outlives key score (hindex key score hscore)
    refine ⟨?_, limit, ?_, hlast⟩
    · rw [hclock]
      exact hle
    · rw [hdeadline, if_neg ?_]
      · exact hlimit
      · intro hzero
        have hnone := SortedSet.card_eq_zero.mp hzero key
        rw [show next.index.score key = none from hnone] at hscore
        cases hscore

/-- The unexpired members keep their scores. -/
theorem live_score {key : String} {value : Int} :
    cache.live.score key = some value ↔ cache.index.score key = some value ∧ cache.clock < value := by
  rw [Cache.live, SortedSet.score_remove_up_to, Option.filter_eq_some_iff, decide_eq_true_iff]

theorem mem_expired {key : String} :
    key ∈ cache.index.upTo cache.clock ↔
      key ∈ cache.index.members ∧ key ∉ cache.live.members := by
  rw [SortedSet.mem_up_to, SortedSet.mem_members, SortedSet.mem_members]
  constructor
  · rintro ⟨value, hvalue, hle⟩
    refine ⟨⟨value, hvalue⟩, ?_⟩
    rintro ⟨other, hother⟩
    obtain ⟨hscore, hlt⟩ := live_score.mp hother
    obtain rfl : value = other := Option.some.inj (hvalue.symm.trans hscore)
    omega
  · rintro ⟨⟨value, hvalue⟩, hdead⟩
    refine ⟨value, hvalue, ?_⟩
    by_contra hlive
    exact hdead ⟨value, live_score.mpr ⟨hvalue, by omega⟩⟩

/-- A member that has not expired, like any other key, keeps its score. -/
theorem live_score_eq {key : String} (h : key ∉ cache.index.upTo cache.clock) :
    cache.live.score key = cache.index.score key := by
  refine Option.ext fun value => ?_
  rw [live_score]
  refine ⟨And.left, fun hscore => ⟨hscore, ?_⟩⟩
  by_contra hdead
  exact h (SortedSet.mem_up_to.mpr ⟨value, hscore, by omega⟩)

/-- The index describes the cache after a pruning. -/
theorem Described.pruned (h : Described maxKeys ttl cache)
    (hentries : ∀ key value deadline, cache.entries key = some (value, deadline) →
      cache.clock < deadline) : Described maxKeys ttl cache.pruned := by
  refine h.shrink ?_ ?_ ?_ ?_ rfl
  · intro key value hvalue
    rw [index_score_pruned] at hvalue
    exact (live_score.mp hvalue).1
  · intro key
    rw [← SortedSet.is_some_score, ← SortedSet.is_some_score, index_score_pruned,
      costs_score_pruned, SortedSet.is_some_score]
    split
    · rename_i hexpired
      exact iff_of_false (mem_expired.mp hexpired).2 (by simp)
    · rename_i hkept
      rw [SortedSet.is_some_score, ← h.same]
      constructor
      · intro hlive
        obtain ⟨value, hvalue⟩ := SortedSet.mem_members.mp hlive
        exact SortedSet.mem_members.mpr ⟨value, (live_score.mp hvalue).1⟩
      · intro hmem
        by_contra hdead
        exact hkept (mem_expired.mpr ⟨hmem, hdead⟩)
  · intro name
    cases name with
    | index => exact ScoredKeys.deadline_of_update _ _
    | costs => exact ScoredKeys.deadline_of_update _ _
  · intro key value deadline hentry
    rw [index_score_pruned]
    exact live_score.mpr ⟨h.entry key value deadline hentry, hentries key value deadline hentry⟩

/-- The index describes the cache after an eviction. -/
theorem Described.evicted (h : Described maxKeys ttl cache) (victim : String) :
    Described maxKeys ttl (cache.evicted victim) := by
  refine h.shrink ?_ ?_ ?_ ?_ rfl
  · intro key value hvalue
    rw [index_score_evicted] at hvalue
    split at hvalue
    · cases hvalue
    · exact hvalue
  · intro key
    rw [← SortedSet.is_some_score, ← SortedSet.is_some_score, index_score_evicted,
      costs_score_evicted]
    split
    · exact Iff.rfl
    · rw [SortedSet.is_some_score, SortedSet.is_some_score]
      exact h.same key
  · intro name
    cases name with
    | index => exact ScoredKeys.deadline_of_update _ _
    | costs => exact ScoredKeys.deadline_of_update _ _
  · intro key value deadline hentry
    have hcases : (if key = victim then none else cache.entries key) = some (value, deadline) :=
      hentry
    rw [index_score_evicted]
    split at hcases
    · cases hcases
    · rename_i hne
      rw [if_neg hne]
      exact h.entry key value deadline hcases

/-- A call writes into room in the index, or over its own key. -/
theorem Described.written (h : Described maxKeys ttl cache) {call : StoreCall}
    (hroom : call.key ∈ cache.index.members ∨ cache.index.card < maxKeys) (httl : call.ttl = ttl) :
    Described maxKeys ttl (cache.written call) where
  same := by
    intro key
    rw [← SortedSet.is_some_score, ← SortedSet.is_some_score, index_score_written,
      costs_score_written]
    split
    · exact iff_of_true rfl rfl
    · rw [SortedSet.is_some_score, SortedSet.is_some_score]
      exact h.same key
  within := by
    have hmembers : (cache.written call).index.members.toFinset =
        insert call.key cache.index.members.toFinset := by
      ext key
      rw [List.mem_toFinset, ← SortedSet.is_some_score, index_score_written, Finset.mem_insert,
        List.mem_toFinset, ← SortedSet.is_some_score]
      split
      · rename_i hkey
        exact iff_of_true rfl (Or.inl hkey)
      · rename_i hkey
        exact ⟨Or.inr, fun hor => hor.resolve_left hkey⟩
    rw [← SortedSet.card_members, hmembers]
    rcases hroom with hheld | hroom
    · rw [Finset.insert_eq_of_mem (List.mem_toFinset.mpr hheld), SortedSet.card_members]
      exact h.within
    · refine Nat.le_trans (Finset.card_insert_le _ _) ?_
      rw [SortedSet.card_members]
      exact hroom
  entry := by
    intro key value deadline hentry
    have hcases : (if key = call.key then some (call.value, cache.clock + call.ttl)
        else cache.entries key) = some (value, deadline) := hentry
    rw [index_score_written]
    split at hcases
    · rename_i hkey
      obtain ⟨-, rfl⟩ := Prod.mk.inj (Option.some.inj hcases)
      rw [if_pos hkey]
    · rename_i hkey
      rw [if_neg hkey]
      exact h.entry key value deadline hcases
  deadlines := by rw [deadline_written, deadline_written]
  outlives := by
    intro key score hscore
    rw [deadline_written]
    rw [index_score_written] at hscore
    have hle : score ≤ cache.clock + ttl := by
      split at hscore
      · obtain rfl := Option.some.inj hscore
        rw [httl]
      · exact (h.outlives key score hscore).1
    exact ⟨hle, _, rfl, by rw [httl]; exact hle⟩

/-- An eviction alone: the lightest entry goes if it is strictly lighter. -/
theorem run_evict (h : Described maxKeys ttl cache) (hheld : cache.index.card ≠ 0) (cost : Int)
    (attempts : Nat) :
    ∃ victim victimCost, cache.costs.score victim = some victimCost ∧
      (∀ key value, cache.costs.score key = some value → victimCost ≤ value) ∧
      (evictLightestBelow cost (attempts + 1)).run exec cache =
        if cost ≤ victimCost then (false, cache) else (true, cache.evicted victim) := by
  cases hlightest : cache.costs.lightest with
  | none =>
      have hnone := SortedSet.lightest_eq_none hlightest
      exact absurd ((card_eq_zero_iff h.same).mpr hnone) hheld
  | some entry =>
      obtain ⟨victim, victimCost⟩ := entry
      obtain ⟨hscore, hleast⟩ := SortedSet.lightest_eq_some hlightest
      refine ⟨victim, victimCost, hscore, hleast, ?_⟩
      have hcosts : victim ∈ cache.costs.members :=
        SortedSet.mem_members.mpr ⟨victimCost, hscore⟩
      have hindex : victim ∈ cache.index.members := (h.same victim).mpr hcosts
      have hclaimed : (exec (.zrem .costs [victim]) cache).1 = (1 : Nat) :=
        SortedSet.card_remove hcosts
      have hfreed : (exec (.zrem .index [victim])
          (exec (.zrem .costs [victim]) cache).2).1 = (1 : Nat) := SortedSet.card_remove hindex
      rw [evictLightestBelow, Program.run_bind]
      have hfirst : (Valkey.zrangeFirst .costs).run exec cache = (some (victim, victimCost), cache) :=
        congrArg (·, cache) hlightest
      rw [hfirst]
      dsimp only
      split
      · rfl
      · have hsecond : (Valkey.zrem .costs [victim]).run exec cache =
            (1, (exec (.zrem .costs [victim]) cache).2) := congrArg (·, _) hclaimed
        have hthird : (Valkey.zrem .index [victim]).run exec
            (exec (.zrem .costs [victim]) cache).2 =
            (1, (exec (.zrem .index [victim]) (exec (.zrem .costs [victim]) cache).2).2) :=
          congrArg (·, _) hfreed
        rw [Program.run_bind, hsecond]
        dsimp only
        rw [if_neg (not_not_intro rfl), Program.run_bind, hthird]
        rfl

/-- What a call does once the expired members are gone: it is refused, writes into room or over its
own key, or evicts the lightest of a full index and writes. -/
inductive Admission (maxKeys : Nat) (call : StoreCall) (cache : Cache) : Bool → Cache → Prop where
  | refused : Admission maxKeys call cache false cache
  | written (hroom : call.key ∈ cache.index.members ∨ cache.index.card < maxKeys) :
      Admission maxKeys call cache true (cache.written call)
  | displaced (victim : String) (victimCost : Int) (hkey : call.key ∉ cache.index.members)
      (hfull : maxKeys ≤ cache.index.card) (hcost : cache.costs.score victim = some victimCost)
      (hleast : ∀ key value, cache.costs.score key = some value → victimCost ≤ value)
      (hheavier : victimCost < call.weight) :
      Admission maxKeys call cache true ((cache.evicted victim).written call)

/-- What an admission does to the cache, and what it answers. -/
theorem run_admit (h : Described maxKeys ttl cache) (hmax : 1 ≤ maxKeys) (call : StoreCall) :
    Admission maxKeys call cache ((admitKey maxKeys call cache.clock).run exec cache).1
      ((admitKey maxKeys call cache.clock).run exec cache).2 := by
  have hscore : (Valkey.zscore .index call.key).run exec cache =
      (cache.index.score call.key, cache) := rfl
  rw [admitKey, Program.run_bind, hscore]
  cases hfound : cache.index.score call.key with
  | some score =>
      have hmem : call.key ∈ cache.index.members := SortedSet.mem_members.mpr ⟨score, hfound⟩
      exact Admission.written (Or.inl hmem)
  | none =>
      have hcard : (Valkey.zcard .index).run exec cache = (cache.index.card, cache) := rfl
      dsimp only
      rw [Program.run_bind, hcard]
      dsimp only
      split
      · rename_i hfull
        obtain ⟨victim, victimCost, hcost, hleast, hrun⟩ :=
          run_evict h (by omega) call.weight (evictionAttempts - 1)
        have hevict : (evictLightestBelow call.weight evictionAttempts).run exec cache =
            if call.weight ≤ victimCost then (false, cache) else (true, cache.evicted victim) := hrun
        rw [Program.run_bind, hevict]
        by_cases hlight : call.weight ≤ victimCost
        · rw [if_pos hlight]
          exact Admission.refused
        · rw [if_neg hlight]
          exact Admission.displaced victim victimCost (SortedSet.score_eq_none.mp hfound) hfull
            hcost hleast (by omega)
      · rename_i hroom
        exact Admission.written (Or.inr (by omega))

/-- A cache after its expired members are dropped. -/
structure Pruned (cache next : Cache) : Prop where
  index : ∀ key, next.index.score key = cache.live.score key
  costs : ∀ key, next.costs.score key =
    if key ∈ cache.index.upTo cache.clock then none else cache.costs.score key
  entries : next.entries = cache.entries
  clock : next.clock = cache.clock

/-- A call alone: it is turned away at once, or the expired members are dropped first. -/
theorem run_store (h : Described maxKeys ttl cache) (hmax : 1 ≤ maxKeys)
    (hentries : ∀ key value deadline, cache.entries key = some (value, deadline) →
      cache.clock < deadline) (call : StoreCall) :
    (storeWithinBudget maxKeys call).run exec cache = (false, cache) ∨
      ∃ next, Pruned cache next ∧ Described maxKeys ttl next ∧
        Admission maxKeys call next ((storeWithinBudget maxKeys call).run exec cache).1
          ((storeWithinBudget maxKeys call).run exec cache).2 := by
  rw [storeWithinBudget]
  split
  · exact Or.inl rfl
  split
  · exact Or.inl rfl
  refine Or.inr ?_
  have htime : time.run exec cache = (cache.clock, cache) := rfl
  have hexpired : (Valkey.zrangebyscore .index cache.clock).run exec cache =
      (cache.index.upTo cache.clock, cache) := rfl
  rw [Program.run_bind, htime]
  dsimp only
  rw [Program.run_bind, hexpired]
  dsimp only
  split
  · refine ⟨cache.pruned, ⟨index_score_pruned cache, costs_score_pruned cache, rfl, rfl⟩,
      h.pruned hentries, ?_⟩
    exact run_admit (h.pruned hentries) hmax call
  · rename_i hnone
    have hnil : cache.index.upTo cache.clock = [] := not_not.mp hnone
    refine ⟨cache, ⟨fun key => ?_, fun key => ?_, rfl, rfl⟩, h, run_admit h hmax call⟩
    · rw [live_score_eq (by rw [hnil]; nofun)]
    · rw [hnil, if_neg (by nofun)]

/-! ## Calls one after the other -/

/-- A call after some time, alone, at one instant. -/
def store (maxKeys : Nat) (cache : Cache) (elapsed : Nat) (call : StoreCall) : Bool × Cache :=
  (storeWithinBudget maxKeys call).run exec (cache.tick elapsed)

/-- Calls one after the other, each after some time. -/
def stores (maxKeys : Nat) (cache : Cache) (calls : List (Nat × StoreCall)) : Cache :=
  calls.foldl (fun cache call => (store maxKeys cache call.1 call.2).2) cache

/-- What a call promises of a cache before it, its answer and the cache after it. -/
structure Budgeted (maxKeys : Nat) (call : StoreCall) (before : Cache) (answer : Bool)
    (after : Cache) : Prop where
  same : ∀ key, key ∈ after.index.members ↔ key ∈ after.costs.members
  within : after.index.card ≤ maxKeys
  indexed : ∀ key entry, after.entries key = some entry →
    key ∈ after.index.members ∧ key ∈ after.costs.members
  refused : answer = false → after.entries = before.entries ∧ ∀ key,
    after.index.score key = before.index.score key ∧
        after.costs.score key = before.costs.score key ∨
      key ∈ before.index.upTo before.clock ∧ after.index.score key = none ∧
        after.costs.score key = none
  stored : answer = true →
    after.entries call.key = some (call.value, before.clock + call.ttl) ∧
      after.index.score call.key = some (before.clock + call.ttl) ∧
      after.costs.score call.key = some call.weight
  displaced : ∀ key entry, before.entries key = some entry → after.entries key ≠ some entry →
    key ≠ call.key → before.live.card = maxKeys ∧ call.key ∉ before.live.members ∧
      (∃ cost, before.costs.score key = some cost ∧ cost < call.weight ∧
        ∀ other ∈ before.live.members, ∀ value, before.costs.score other = some value →
          cost ≤ value) ∧
      ∀ other, other ≠ key → other ≠ call.key → after.entries other = before.entries other

/-- What is indexed of a described cache. -/
theorem Described.indexed (h : Described maxKeys ttl cache) {key : String} {entry : Payload × Int}
    (hentry : cache.entries key = some entry) :
    key ∈ cache.index.members ∧ key ∈ cache.costs.members := by
  have hmem : key ∈ cache.index.members :=
    SortedSet.mem_members.mpr ⟨entry.2, h.entry key entry.1 entry.2 hentry⟩
  exact ⟨hmem, (h.same key).mp hmem⟩

theorem entries_tick {elapsed : Nat} {key : String} {value : Payload} {deadline : Int}
    (h : (cache.tick elapsed).entries key = some (value, deadline)) :
    (cache.tick elapsed).clock < deadline := by
  exact of_decide_eq_true (Option.filter_eq_some_iff.mp h).2

/-- A call keeps the invariant. -/
theorem Admission.described {call : StoreCall} {answer : Bool} {after : Cache}
    (h : Described maxKeys ttl cache) (httl : call.ttl = ttl)
    (hadmission : Admission maxKeys call cache answer after) : Described maxKeys ttl after := by
  cases hadmission with
  | refused => exact h
  | written hroom => exact h.written hroom httl
  | displaced victim victimCost hkey hfull hcost hleast hheavier =>
      refine (h.evicted victim).written (Or.inr ?_) httl
      have hvictim : victim ∈ cache.index.members :=
        (h.same victim).mpr (SortedSet.mem_members.mpr ⟨victimCost, hcost⟩)
      have hcard := SortedSet.card_remove hvictim
      have hsame : (cache.evicted victim).index.card = (cache.index.remove [victim]).card :=
        ScoredKeys.card_update _ _
      have hwithin := h.within
      omega

theorem Described.store (h : Described maxKeys ttl cache) (hmax : 1 ≤ maxKeys) (elapsed : Nat)
    {call : StoreCall} (httl : call.ttl = ttl) :
    Described maxKeys ttl (store maxKeys cache elapsed call).2 := by
  have htick := h.tick elapsed
  rcases run_store htick hmax (fun _ _ _ => entries_tick) call with hrefused | ⟨next, -, hnext, hadm⟩
  · rw [CacheBudget.store, hrefused]
    exact htick
  · exact hadm.described hnext httl

theorem described_stores (hmax : 1 ≤ maxKeys) (h : Described maxKeys ttl cache)
    {calls : List (Nat × StoreCall)} (httl : ∀ call ∈ calls, call.2.ttl = ttl) :
    Described maxKeys ttl (stores maxKeys cache calls) := by
  induction calls generalizing cache with
  | nil => exact h
  | cons call calls ih =>
      refine ih (h.store hmax call.1 (httl call List.mem_cons_self)) fun other hother => ?_
      exact httl other (List.mem_cons_of_mem _ hother)

section Promises

variable {before next after : Cache} {call : StoreCall} {answer : Bool}

section

variable (h : Admission maxKeys call next answer after) (hpruned : Pruned before next)
include h hpruned

/-- A refused call only drops expired members. -/
theorem Admission.refusal (hanswer : answer = false) :
    after.entries = before.entries ∧ ∀ key,
      after.index.score key = before.index.score key ∧
          after.costs.score key = before.costs.score key ∨
        key ∈ before.index.upTo before.clock ∧ after.index.score key = none ∧
          after.costs.score key = none := by
  cases h with
  | refused =>
      refine ⟨hpruned.entries, fun key => ?_⟩
      rw [hpruned.index, hpruned.costs]
      by_cases hexpired : key ∈ before.index.upTo before.clock
      · refine Or.inr ⟨hexpired, ?_, if_pos hexpired⟩
        exact SortedSet.score_eq_none.mpr (mem_expired.mp hexpired).2
      · exact Or.inl ⟨live_score_eq hexpired, if_neg hexpired⟩
  | written hroom => cases hanswer
  | displaced victim victimCost hkey hfull hcost hleast hheavier => cases hanswer

/-- A call that is not refused leaves its key stored and indexed. -/
theorem Admission.storage (hanswer : answer = true) :
    after.entries call.key = some (call.value, before.clock + call.ttl) ∧
      after.index.score call.key = some (before.clock + call.ttl) ∧
      after.costs.score call.key = some call.weight := by
  have hwritten : ∀ cache : Cache, cache.clock = before.clock →
      (cache.written call).entries call.key = some (call.value, before.clock + call.ttl) ∧
        (cache.written call).index.score call.key = some (before.clock + call.ttl) ∧
        (cache.written call).costs.score call.key = some call.weight := by
    intro cache hclock
    rw [index_score_written, costs_score_written, if_pos rfl, if_pos rfl, ← hclock]
    exact ⟨if_pos rfl, rfl, rfl⟩
  cases h with
  | refused => cases hanswer
  | written hroom => exact hwritten next hpruned.clock
  | displaced victim victimCost hkey hfull hcost hleast hheavier =>
      exact hwritten (next.evicted victim) hpruned.clock

/-- Another entry that a call displaces was the lightest of a full index, and the only one. -/
theorem Admission.displacement (hnext : Described maxKeys ttl next) (key : String)
    (entry : Payload × Int) (hentry : before.entries key = some entry)
    (hgone : after.entries key ≠ some entry) (hother : key ≠ call.key) :
    before.live.card = maxKeys ∧ call.key ∉ before.live.members ∧
      (∃ cost, before.costs.score key = some cost ∧ cost < call.weight ∧
        ∀ other ∈ before.live.members, ∀ value, before.costs.score other = some value →
          cost ≤ value) ∧
      ∀ other, other ≠ key → other ≠ call.key → after.entries other = before.entries other := by
  cases h with
  | refused => exact absurd ((congrFun hpruned.entries key).trans hentry) hgone
  | written hroom =>
      have hkept : (next.written call).entries key = next.entries key := if_neg hother
      exact absurd (hkept.trans ((congrFun hpruned.entries key).trans hentry)) hgone
  | displaced victim victimCost hkey hfull hcost hleast hheavier =>
      have hafter : ∀ other, other ≠ call.key →
          ((next.evicted victim).written call).entries other =
            if other = victim then none else before.entries other := by
        intro other hne
        rw [← hpruned.entries]
        exact if_neg hne
      have hvictim : key = victim := by
        by_contra hne
        exact hgone ((hafter key hother).trans ((if_neg hne).trans hentry))
      subst hvictim
      have hmembers : ∀ other, other ∈ next.index.members ↔ other ∈ before.live.members := by
        intro other
        rw [← SortedSet.is_some_score, ← SortedSet.is_some_score, hpruned.index]
      have hcosts : ∀ other ∈ before.live.members,
          next.costs.score other = before.costs.score other := by
        intro other hlive
        rw [hpruned.costs, if_neg]
        exact fun hexpired => (mem_expired.mp hexpired).2 hlive
      have hlive : key ∈ before.live.members := by
        rw [← hmembers, hnext.same]
        exact SortedSet.mem_members.mpr ⟨victimCost, hcost⟩
      have hcard : before.live.card = next.index.card :=
        SortedSet.card_congr fun other => (hpruned.index other).symm
      refine ⟨?_, ?_, ⟨victimCost, ?_, hheavier, ?_⟩, ?_⟩
      · have hwithin := hnext.within
        omega
      · rw [← hmembers]
        exact hkey
      · rw [← hcosts key hlive]
        exact hcost
      · intro other hmem value hvalue
        exact hleast other value ((hcosts other hmem).trans hvalue)
      · intro other hne hcall
        exact (hafter other hcall).trans (if_neg hne)

end

end Promises

/-- After any calls, one call more keeps its promises: the index describes the cache. -/
theorem index_describes_cache (hmax : 1 ≤ maxKeys) (clock : Int) {calls : List (Nat × StoreCall)}
    (httl : ∀ call ∈ calls, call.2.ttl = ttl) (elapsed : Nat) {call : StoreCall}
    (hcall : call.ttl = ttl) :
    Budgeted maxKeys call ((stores maxKeys (Cache.empty clock) calls).tick elapsed)
      (store maxKeys (stores maxKeys (Cache.empty clock) calls) elapsed call).1
      (store maxKeys (stores maxKeys (Cache.empty clock) calls) elapsed call).2 := by
  have hbefore := described_stores hmax (Described.empty maxKeys ttl clock) httl
  generalize stores maxKeys (Cache.empty clock) calls = cache at hbefore
  have hafter := hbefore.store hmax elapsed hcall
  have htick := hbefore.tick elapsed
  have hstore := run_store htick hmax (fun _ _ _ => entries_tick) call
  rw [store] at hafter ⊢
  generalize (storeWithinBudget maxKeys call).run exec (cache.tick elapsed) = outcome at *
  obtain ⟨answer, after⟩ := outcome
  generalize cache.tick elapsed = before at *
  rcases hstore with hsame | ⟨next, hpruned, hnext, hadm⟩
  · obtain ⟨rfl, rfl⟩ := Prod.mk.inj hsame
    exact
      { same := htick.same
        within := htick.within
        indexed := fun key entry hentry => htick.indexed hentry
        refused := fun _ => ⟨rfl, fun key => Or.inl ⟨rfl, rfl⟩⟩
        stored := by nofun
        displaced := fun key entry hentry hgone => absurd hentry hgone }
  · exact
      { same := hafter.same
        within := hafter.within
        indexed := fun key entry hentry => hafter.indexed hentry
        refused := hadm.refusal hpruned
        stored := hadm.storage hpruned
        displaced := hadm.displacement hpruned hnext }

/-- A heavier call displaces the only key of a full index. -/
theorem heavier_call_displaces :
    (store 1 (stores 1 (Cache.empty 0) [(0, callOf "light" 1)]) 5 (callOf "heavy" 2)).1 = true ∧
      Budgeted 1 (callOf "heavy" 2) ((stores 1 (Cache.empty 0) [(0, callOf "light" 1)]).tick 5)
        (store 1 (stores 1 (Cache.empty 0) [(0, callOf "light" 1)]) 5 (callOf "heavy" 2)).1
        (store 1 (stores 1 (Cache.empty 0) [(0, callOf "light" 1)]) 5 (callOf "heavy" 2)).2 := by
  refine ⟨by decide +kernel, ?_⟩
  refine index_describes_cache (Nat.le_refl 1) 0 (fun call hcall => ?_) 5 rfl
  rw [List.mem_singleton.mp hcall]
  rfl

end CatalogApi.CacheBudget
