import Mathlib.Logic.Relation

/-!
# Termination of a step relation

A state from which no infinite run starts is accessible. A measure that every step lowers, under an
invariant, makes a state accessible (`acc_of_measure`), and a property that some step keeps makes it
inaccessible (`not_acc_of_progress`). From an accessible state some run ends (`exists_final`).
-/

namespace CatalogApi.Termination

open Relation

variable {State : Type} {step : State → State → Prop}

/-- Every run from the state ends. -/
def Terminates (step : State → State → Prop) (state : State) : Prop :=
  Acc (fun later earlier => step earlier later) state

/-- No step leads on from the state. -/
def Final (step : State → State → Prop) (state : State) : Prop := ∀ later, ¬step state later

theorem acc_of_measure {inv : State → Prop} (measure : State → Nat)
    (hstep : ∀ earlier later, inv earlier → step earlier later →
      inv later ∧ measure later < measure earlier)
    {state : State} (hinv : inv state) : Terminates step state := by
  induction hmeasure : measure state using Nat.strongRecOn generalizing state with
  | ind n ih =>
      refine Acc.intro state fun later h => ?_
      obtain ⟨hinv', hlt⟩ := hstep state later hinv h
      exact ih (measure later) (hmeasure ▸ hlt) hinv' rfl

theorem not_acc_of_progress (inv : State → Prop)
    (hprogress : ∀ earlier, inv earlier → ∃ later, step earlier later ∧ inv later)
    {state : State} (hinv : inv state) : ¬Terminates step state := by
  intro hacc
  induction hacc with
  | intro state _ ih =>
      obtain ⟨later, hstep, hinv'⟩ := hprogress state hinv
      exact ih later hstep hinv'

theorem exists_final {state : State} (h : Terminates step state) :
    ∃ final, ReflTransGen step state final ∧ Final step final := by
  induction h with
  | intro state _ ih =>
      by_cases hfinal : Final step state
      · exact ⟨state, .refl, hfinal⟩
      · obtain ⟨later, hstep⟩ : ∃ later, step state later := by
          simpa [Final] using hfinal
        obtain ⟨final, hreach, hend⟩ := ih later hstep
        exact ⟨final, .head hstep hreach, hend⟩

/-- What every step keeps holds in every state that is reached. -/
theorem invariant_of_reaches {inv : State → Prop}
    (hstep : ∀ earlier later, inv earlier → step earlier later → inv later) {state final : State}
    (hinv : inv state) (h : ReflTransGen step state final) : inv final := by
  induction h with
  | refl => exact hinv
  | tail _ hlast ih => exact hstep _ _ ih hlast

end CatalogApi.Termination
