import CatalogApi.Lib.ByKey

/-!
# Running minima and maxima

The first element with the least key and the first with the greatest, kept while a list is read
from left to right (`first_by_concat`, `last_by_concat`).
-/

namespace CatalogApi.ByKey

variable {α κ : Type} [LinearOrder κ] {key : α → κ} {l l' : List α}

/-- The first element with the greatest key. -/
def lastBy (key : α → κ) (l : List α) : Option α :=
  firstBy (fun a => OrderDual.toDual (key a)) l

theorem last_by_eq_of_perm (h : l.Perm l') (hkey : Separates key l) :
    lastBy key l = lastBy key l' :=
  first_by_eq_of_perm h fun a ha b hb heq => hkey a ha b hb (OrderDual.toDual_inj.mp heq)

/-- One element more replaces the least only when it is less. -/
theorem first_by_concat (key : α → κ) (l : List α) (a : α) : firstBy key (l ++ [a]) =
    some (match firstBy key l with
      | none => a
      | some held => if key a < key held then a else held) := by
  have hconcat : firstBy key (l ++ [a]) = _ := List.argmin_concat key a l
  cases hheld : List.argmin key l with
  | none => simpa [firstBy, hheld] using hconcat
  | some held =>
      by_cases hlt : key a < key held
      · simpa [firstBy, hheld, hlt] using hconcat
      · simpa [firstBy, hheld, hlt] using hconcat

/-- One element more replaces the greatest only when it is greater. -/
theorem last_by_concat (key : α → κ) (l : List α) (a : α) : lastBy key (l ++ [a]) =
    some (match lastBy key l with
      | none => a
      | some held => if key held < key a then a else held) := by
  rw [lastBy, first_by_concat]
  rfl

end CatalogApi.ByKey
