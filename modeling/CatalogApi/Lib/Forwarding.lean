import Mathlib.Data.Set.Basic

/-!
# One-hop forwarding

A forwarding sends some of its points to a target and never sends a target on. `resolve` follows
it, in at most one hop. `redirect` merges one point into another by sending everything that
resolved to the first straight to the second, and `detach` takes a merged class away again.
`resolve_redirect` and `resolve_detach` say what the two operations do to resolution.
-/

namespace CatalogApi

/-- A partial map whose targets are not themselves forwarded. -/
@[ext]
structure Forwarding (Point : Type*) where
  target : Point → Option Point
  oneHop : ∀ x y, target x = some y → target y = none

namespace Forwarding

variable {Point : Type*} (f : Forwarding Point)

/-- Where a point ends up: its target, or the point itself when it is not forwarded. -/
def resolve (x : Point) : Point :=
  (f.target x).getD x

theorem resolve_of_target {x y : Point} (h : f.target x = some y) : f.resolve x = y := by
  simp [resolve, h]

theorem resolve_of_root {x : Point} (h : f.target x = none) : f.resolve x = x := by
  simp [resolve, h]

/-- A point that resolves elsewhere is forwarded there. -/
theorem target_of_resolve {x y : Point} (h : f.resolve x = y) (hne : x ≠ y) :
    f.target x = some y := by
  cases hx : f.target x with
  | none => exact absurd ((f.resolve_of_root hx).symm.trans h) hne
  | some z => rw [← h, f.resolve_of_target hx]

variable [DecidableEq Point]

/-- Merge `source` into the root `sink`: everything that resolved to `source` is sent straight to
`sink`. -/
def redirect (source sink : Point) (hsink : f.target sink = none) (hne : source ≠ sink) :
    Forwarding Point where
  target x := if f.resolve x = source then some sink else f.target x
  oneHop := by
    intro x y h
    by_cases hx : f.resolve x = source
    · obtain rfl : sink = y := by simpa [hx] using h
      simp [f.resolve_of_root hsink, hne.symm, hsink]
    · have hxy : f.target x = some y := by simpa [hx] using h
      have hy : f.target y = none := f.oneHop x y hxy
      have hne : y ≠ source := fun heq => hx ((f.resolve_of_target hxy).trans heq)
      simp [f.resolve_of_root hy, hne, hy]

/-- After a merge the class of `source` resolves to `sink`, and nothing else changes. -/
theorem resolve_redirect {source sink : Point} (hsink : f.target sink = none)
    (hne : source ≠ sink) (x : Point) :
    (f.redirect source sink hsink hne).resolve x =
      if f.resolve x = source then sink else f.resolve x := by
  by_cases hx : f.resolve x = source
  · rw [if_pos hx]
    exact resolve_of_target _ (if_pos hx)
  · rw [if_neg hx]
    exact congrArg (Option.getD · x) (if_neg hx)

/-- Take a merged class away again: `source` becomes a root and the members of `detached` are
sent back to it. -/
def detach (source : Point) (detached : Point → Bool) (hsource : ∀ x, f.target x ≠ some source)
    (hroots : ∀ x, detached x → ∀ y, f.target y ≠ some x) : Forwarding Point where
  target x := if x = source then none else if detached x then some source else f.target x
  oneHop := by
    intro x y h
    by_cases hx : x = source
    · simp [hx] at h
    · cases hd : detached x with
      | true =>
          obtain rfl : source = y := by simpa [hx, hd] using h
          simp
      | false =>
          have hxy : f.target x = some y := by simpa [hx, hd] using h
          have hy : y ≠ source := fun heq => hsource x (heq ▸ hxy)
          have hdy : detached y = false :=
            Bool.eq_false_iff.mpr fun hdy => hroots y hdy x hxy
          simp [hy, hdy, f.oneHop x y hxy]

/-- After a detachment the class of `source` resolves to `source`, and nothing else changes. -/
theorem resolve_detach {source : Point} {detached : Point → Bool}
    (hsource : ∀ x, f.target x ≠ some source)
    (hroots : ∀ x, detached x → ∀ y, f.target y ≠ some x) (x : Point) :
    (f.detach source detached hsource hroots).resolve x =
      if x = source ∨ detached x then source else f.resolve x := by
  by_cases hx : x = source
  · simp [resolve, detach, hx]
  · cases hd : detached x <;> simp [resolve, detach, hx, hd]

end Forwarding

end CatalogApi
