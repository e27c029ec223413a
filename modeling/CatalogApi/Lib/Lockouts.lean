import Mathlib.Data.List.Basic
import Mathlib.Order.Basic

/-!
# Lockouts

A counter of failures that locks when it reaches a limit. While it is locked no attempt is made; an
attempt after the lock has lapsed starts to count again from one. `failures_in_window` bounds the
failures of every window as long as the lock, wherever the window starts.
-/

namespace CatalogApi.Lockouts

/-- How many failures lock, and for how long. -/
structure Policy where
  limit : Nat
  period : Nat
  limit_pos : 1 ≤ limit

/-- The failures so far and the end of the lock. -/
structure Counter where
  failed : Nat
  lockedUntil : Option Int

/-- What happens to a counter. -/
inductive Event where
  | failure
  | reset
  deriving DecidableEq

namespace Counter

def locked (counter : Counter) (now : Int) : Bool := counter.lockedUntil.any (now < ·)

/-- The counter was locked and its lock is over. -/
def lapsed (counter : Counter) (now : Int) : Bool := counter.lockedUntil.any (· ≤ now)

/-- The failures counted after one more. -/
def counted (counter : Counter) (now : Int) : Nat :=
  if counter.lapsed now then 1 else counter.failed + 1

end Counter

namespace Policy

variable (policy : Policy)

/-- The counter after a failure. -/
def fail (counter : Counter) (now : Int) : Counter where
  failed := counter.counted now
  lockedUntil :=
    if policy.limit ≤ counter.counted now then some (now + policy.period)
    else if counter.lapsed now then none
    else counter.lockedUntil

/-- The counter after an event. -/
def step (counter : Counter) : Int × Event → Counter
  | (now, .failure) => policy.fail counter now
  | (_, .reset) => ⟨0, none⟩

/-- The events come in order and no failure while the counter is locked. -/
def Gated (counter : Counter) (now : Int) : List (Int × Event) → Prop
  | [] => True
  | (at', event) :: rest =>
      now ≤ at' ∧ (event = .failure → counter.locked at' = false) ∧
        Gated (policy.step counter (at', event)) at' rest

variable {policy} {counter : Counter} {now : Int}

/-- The last instant of the events. -/
def lastInstant (now : Int) (events : List (Int × Event)) : Int :=
  events.foldl (fun _ event => event.1) now

/-- One event more, not before the last one. -/
theorem gated_snoc {events : List (Int × Event)} {instant : Int} {event : Event}
    (h : policy.Gated counter now events) (hnow : lastInstant now events ≤ instant)
    (hfree : event = .failure → (events.foldl policy.step counter).locked instant = false) :
    policy.Gated counter now (events ++ [(instant, event)]) := by
  induction events generalizing counter now with
  | nil => exact ⟨hnow, hfree, trivial⟩
  | cons first rest ih =>
      obtain ⟨hle, hfirst, hrest⟩ := h
      exact ⟨hle, hfirst, ih hrest hnow hfree⟩

/-- No event of a gated list comes before its start. -/
theorem Gated.le {events : List (Int × Event)} (h : policy.Gated counter now events) :
    ∀ event ∈ events, now ≤ event.1 := by
  induction events generalizing counter now with
  | nil => exact fun event hevent => absurd hevent (List.not_mem_nil)
  | cons first rest ih =>
      obtain ⟨hle, _, hrest⟩ := h
      rintro event (_ | ⟨_, hevent⟩)
      · exact hle
      · exact Int.le_trans hle (ih hrest event hevent)

/-- A failure in the window that starts at `from'`. -/
def failsIn (policy : Policy) (from' : Int) (event : Int × Event) : Bool :=
  event.2 = .failure ∧ from' ≤ event.1 ∧ event.1 < from' + policy.period

/-- How many failures the window still admits: none while the lock outlasts it. -/
def remaining (policy : Policy) (from' : Int) (counter : Counter) : Nat :=
  match counter.lockedUntil with
  | none => max 1 (policy.limit - counter.failed)
  | some until' => if from' + policy.period ≤ until' then 0 else policy.limit

/-- No reset in the window that starts at `from'`. -/
def NoReset (policy : Policy) (from' : Int) (events : List (Int × Event)) : Prop :=
  ∀ event ∈ events, event.2 = .reset → from' ≤ event.1 → from' + policy.period ≤ event.1

/-- A failure in the window uses up one of the remaining. -/
theorem remaining_fail (policy : Policy) {counter : Counter} {from' instant : Int}
    (hfree : counter.locked instant = false) (hfrom : from' ≤ instant)
    (hwithin : instant < from' + policy.period) :
    remaining policy from' (policy.fail counter instant) + 1 ≤ remaining policy from' counter := by
  have hlimit := policy.limit_pos
  cases hlock : counter.lockedUntil with
  | none =>
      have hcounted : counter.counted instant = counter.failed + 1 := by
        rw [Counter.counted, Counter.lapsed, hlock]
        rfl
      rw [remaining, remaining, hlock, fail, hcounted]
      by_cases hfull : policy.limit ≤ counter.failed + 1
      · simp only [if_pos hfull]
        rw [if_pos (by omega)]
        omega
      · simp only [if_neg hfull, Counter.lapsed, hlock, Option.any_none, Bool.false_eq_true, if_false]
        omega
  | some until' =>
      have hlapsed : until' ≤ instant := by
        rw [Counter.locked, hlock] at hfree
        exact Int.not_lt.mp (of_decide_eq_false hfree)
      have hover : counter.lapsed instant = true := by
        rw [Counter.lapsed, hlock]
        exact decide_eq_true hlapsed
      have hcounted : counter.counted instant = 1 := by rw [Counter.counted, if_pos hover]
      rw [remaining, remaining, hlock, fail, hcounted]
      dsimp only
      rw [if_neg (show ¬from' + policy.period ≤ until' by omega)]
      by_cases hfull : policy.limit ≤ 1
      · simp only [if_pos hfull]
        rw [if_pos (by omega)]
        omega
      · simp only [if_neg hfull, if_pos hover]
        omega

/-- From the start of the window on, the failures in it are at most those that remain. -/
theorem failures_le_remaining {from' : Int} {events : List (Int × Event)}
    (h : policy.Gated counter now events) (hfrom : from' ≤ now)
    (hreset : NoReset policy from' events) :
    events.countP (failsIn policy from') ≤ remaining policy from' counter := by
  induction events generalizing counter now with
  | nil => exact Nat.zero_le _
  | cons first rest ih =>
      obtain ⟨instant, event⟩ := first
      obtain ⟨hle, hfree, hrest⟩ := h
      have hlater : from' ≤ instant := Int.le_trans hfrom hle
      by_cases hwithin : instant < from' + policy.period
      · cases event with
        | failure =>
            have hnext := ih hrest hlater fun event hevent => hreset event (.tail _ hevent)
            have hone := policy.remaining_fail (hfree rfl) hlater hwithin
            have hfails : policy.failsIn from' (instant, .failure) = true :=
              decide_eq_true ⟨rfl, hlater, hwithin⟩
            rw [List.countP_cons_of_pos hfails]
            exact Nat.le_trans (Nat.succ_le_succ hnext) hone
        | reset =>
            have hout := hreset (instant, .reset) (.head _) rfl hlater
            exact absurd hwithin (Int.not_lt.mpr hout)
      · -- Past the window nothing counts any more.
        have hnone : List.countP (failsIn policy from') ((instant, event) :: rest) = 0 := by
          refine List.countP_eq_zero.mpr fun other hother hfails => ?_
          obtain ⟨_, _, hin⟩ := of_decide_eq_true hfails
          rcases List.mem_cons.mp hother with rfl | hother
          · exact hwithin hin
          · have hge := Gated.le hrest other hother
            omega
        rw [hnone]
        exact Nat.zero_le _

/-- Every window as long as the lock, without a reset in it, holds at most as many failures as lock. -/
theorem failures_in_window {events : List (Int × Event)} (h : policy.Gated counter now events)
    (from' : Int) (hreset : NoReset policy from' events) :
    events.countP (failsIn policy from') ≤ policy.limit := by
  induction events generalizing counter now with
  | nil => exact Nat.zero_le _
  | cons first rest ih =>
      obtain ⟨instant, event⟩ := first
      by_cases hfrom : from' ≤ instant
      · have hstart : policy.Gated counter instant ((instant, event) :: rest) :=
          ⟨Int.le_refl _, h.2.1, h.2.2⟩
        refine Nat.le_trans (failures_le_remaining hstart hfrom hreset) ?_
        have hlimit := policy.limit_pos
        rw [remaining]
        split
        · omega
        · split <;> omega
      · have hnot : ¬policy.failsIn from' (instant, event) = true := fun hfails =>
          hfrom (of_decide_eq_true hfails).2.1
        rw [List.countP_cons_of_neg hnot]
        exact ih h.2.2 fun event hevent => hreset event (.tail _ hevent)

end Policy

end CatalogApi.Lockouts
