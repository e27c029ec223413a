import CatalogApi.Lib.Numerals
import CatalogApi.Strata.Catalog

/-!
# Budgets as text

`Budget.parse` tests its parts with `isdigit` and converts them with `int`. Where the two agree on
every part the text is a budget or a budget error (`budget_parsed_iff`); elsewhere `int` raises an
error of its own, which the route does not turn into a refusal.
-/

namespace CatalogApi.Strata

open Numerals (strip int value isDecimal Convertible)

/-- What a budget text raises: an error of the strata rule, or the `ValueError` of `int`. -/
inductive ParseError where
  | strata (error : StrataError)
  | value

/-- `int(part)`. -/
def intPart (part : String) : Except ParseError Int :=
  match int part with
  | some n => pure n
  | none => throw .value

/-- `Budget.parse`. -/
def Budget.parse (text : String) : Except ParseError Budget :=
  match Text.split '/' text with
  | [credits, masters, releases] =>
      if Numerals.isDigit (strip credits) ∧ Numerals.isDigit (strip masters) ∧
          Numerals.isDigit (strip releases) then do
        -- the digit test leaves no sign, so no part is negative
        let budget : Budget :=
          { credits := (← intPart credits).toNat, masters := (← intPart masters).toNat,
            releases := (← intPart releases).toNat }
        budget.validate.mapError .strata
        pure budget
      else malformed
  | _ => malformed
where
  malformed := throw (.strata (.budget
    "budget must be credits/masters/releases, for example 3/12/16"))

/-! ## The documented budgets -/

/-- The floors and ceilings of a budget. -/
structure Budget.InBounds (budget : Budget) : Prop where
  credits : 3 ≤ budget.credits ∧ budget.credits ≤ maxCredits
  masters : 2 * budget.credits ≤ budget.masters ∧ budget.masters ≤ maxMasters
  releases : budget.credits + 1 ≤ budget.releases ∧ budget.releases ≤ maxReleases

/-- The part is decimal digits with whitespace around them, and they denote the number. -/
def Denotes (part : String) (n : Nat) : Prop :=
  (strip part).toList ≠ [] ∧ (∀ c ∈ (strip part).toList, isDecimal c = true) ∧
    value (strip part).toList = n

/-- The text is three parts that denote a budget within its bounds. -/
def Budget.Written (budget : Budget) (text : String) : Prop :=
  ∃ credits masters releases, Text.split '/' text = [credits, masters, releases] ∧
    Denotes credits budget.credits ∧ Denotes masters budget.masters ∧
    Denotes releases budget.releases ∧ budget.InBounds

/-- The text is answered with the budget it writes, or with a budget error and nothing else. -/
def Budget.Parsed (text : String) : Prop :=
  ((∃ budget, Budget.parse text = .ok budget ∧ budget.InBounds) ∨
    ∃ message, Budget.parse text = .error (.strata (.budget message))) ∧
  ∀ budget, Budget.parse text = .ok budget ↔ budget.Written text

/-- Three parts that are digits once stripped are convertible. -/
def Budget.PlainText (text : String) : Prop :=
  (Text.split '/' text).length = 3 →
    (∀ part ∈ Text.split '/' text, Numerals.isDigit (strip part)) →
    ∀ part ∈ Text.split '/' text, Convertible part

/-! ## Parts -/

theorem int_part_convertible {part : String} (hdigit : Numerals.isDigit (strip part))
    (h : Convertible part) : intPart part = .ok (Int.ofNat (value (strip part).toList)) := by
  rw [intPart, Numerals.int_of_digits hdigit, if_pos h]
  rfl

theorem int_part_error {part : String} (hdigit : Numerals.isDigit (strip part))
    (h : ¬Convertible part) : intPart part = .error .value := by
  rw [intPart, Numerals.int_of_digits hdigit, if_neg h]
  rfl

/-- A part that denotes a number is digits once stripped. -/
theorem Denotes.digits {part : String} {n : Nat} (h : Denotes part n) :
    Numerals.isDigit (strip part) = true := by
  rw [Numerals.isDigit, Bool.and_eq_true, List.all_eq_true]
  exact ⟨decide_eq_true h.1, fun c hc => Numerals.decimal_is_digit (h.2.1 c hc)⟩

theorem denotes_convertible {part : String} (hdigit : Numerals.isDigit (strip part))
    (h : Convertible part) : Denotes part (value (strip part).toList) := by
  rw [Numerals.isDigit, Bool.and_eq_true] at hdigit
  exact ⟨of_decide_eq_true hdigit.1, h.2.1, rfl⟩

/-- `validate` passes a budget within its bounds, and refuses any other with a budget error. -/
theorem validate_cases (budget : Budget) :
    (budget.validate = .ok () ∧ budget.InBounds) ∨
      (∃ message, budget.validate = .error (.budget message)) ∧ ¬budget.InBounds := by
  unfold Budget.validate
  by_cases hcredits : 3 ≤ budget.credits ∧ budget.credits ≤ maxCredits
  · rw [if_neg (not_not.mpr hcredits)]
    by_cases hmasters : 2 * budget.credits ≤ budget.masters ∧ budget.masters ≤ maxMasters
    · rw [if_neg (not_not.mpr hmasters)]
      by_cases hreleases : budget.credits + 1 ≤ budget.releases ∧ budget.releases ≤ maxReleases
      · rw [if_neg (not_not.mpr hreleases)]
        exact Or.inl ⟨rfl, hcredits, hmasters, hreleases⟩
      · rw [if_pos hreleases]
        exact Or.inr ⟨⟨_, rfl⟩, fun h => hreleases h.releases⟩
    · rw [if_pos hmasters]
      exact Or.inr ⟨⟨_, rfl⟩, fun h => hmasters h.masters⟩
  · rw [if_pos hcredits]
    exact Or.inr ⟨⟨_, rfl⟩, fun h => hcredits h.credits⟩

/-! ## Texts -/

section Cases

variable {text credits masters releases : String}

theorem parse_malformed
    (h : ∀ credits masters releases, Text.split '/' text = [credits, masters, releases] →
      ¬(Numerals.isDigit (strip credits) ∧ Numerals.isDigit (strip masters) ∧
        Numerals.isDigit (strip releases))) :
    ∃ message, Budget.parse text = .error (.strata (.budget message)) := by
  unfold Budget.parse
  split
  · rename_i credits masters releases hsplit
    rw [if_neg (h credits masters releases hsplit)]
    exact ⟨_, rfl⟩
  · exact ⟨_, rfl⟩

/-- Three parts that are digits are converted one after the other. -/
theorem parse_digits (hsplit : Text.split '/' text = [credits, masters, releases])
    (hdigits : Numerals.isDigit (strip credits) ∧ Numerals.isDigit (strip masters) ∧
      Numerals.isDigit (strip releases)) :
    Budget.parse text = (do
      let budget : Budget :=
        { credits := (← intPart credits).toNat, masters := (← intPart masters).toNat,
          releases := (← intPart releases).toNat }
      budget.validate.mapError .strata
      pure budget) := by
  unfold Budget.parse
  rw [hsplit]
  exact if_pos hdigits

/-- The budget of three parts, read as decimals. -/
def budgetOf (credits masters releases : String) : Budget :=
  { credits := value (strip credits).toList, masters := value (strip masters).toList,
    releases := value (strip releases).toList }

section

variable (hsplit : Text.split '/' text = [credits, masters, releases]) (hdigits : Numerals.isDigit (strip credits) ∧ Numerals.isDigit (strip masters) ∧ Numerals.isDigit (strip releases))
include hsplit hdigits

theorem parse_convertible (h : Convertible credits ∧ Convertible masters ∧ Convertible releases) :
    Budget.parse text =
      ((budgetOf credits masters releases).validate.mapError .strata >>= fun _ =>
        pure (budgetOf credits masters releases)) := by
  rw [parse_digits hsplit hdigits, int_part_convertible hdigits.1 h.1,
    int_part_convertible hdigits.2.1 h.2.1, int_part_convertible hdigits.2.2 h.2.2]
  simp only [budgetOf, bind, Except.bind, Int.ofNat_eq_natCast, Int.toNat_natCast]

theorem parse_inconvertible
    (h : ¬(Convertible credits ∧ Convertible masters ∧ Convertible releases)) :
    Budget.parse text = .error .value := by
  rw [parse_digits hsplit hdigits]
  by_cases hcredits : Convertible credits
  · rw [int_part_convertible hdigits.1 hcredits]
    by_cases hmasters : Convertible masters
    · rw [int_part_convertible hdigits.2.1 hmasters,
        int_part_error hdigits.2.2 fun hreleases => h ⟨hcredits, hmasters, hreleases⟩]
      rfl
    · rw [int_part_error hdigits.2.1 hmasters]
      rfl
  · rw [int_part_error hdigits.1 hcredits]
    rfl

/-- Three convertible parts write one budget, if it is within its bounds. -/
theorem written_iff
    (h : Convertible credits ∧ Convertible masters ∧ Convertible releases) (budget : Budget) :
    budget.Written text ↔ budget = budgetOf credits masters releases ∧ budget.InBounds := by
  constructor
  · rintro ⟨credits', masters', releases', hsplit', hc, hm, hr, hbounds⟩
    rw [hsplit, List.cons.injEq, List.cons.injEq, List.cons.injEq] at hsplit'
    obtain ⟨rfl, rfl, rfl, -⟩ := hsplit'
    refine ⟨?_, hbounds⟩
    rw [budgetOf, hc.2.2, hm.2.2, hr.2.2]
  · rintro ⟨rfl, hbounds⟩
    refine ⟨credits, masters, releases, hsplit, ?_, ?_, ?_, hbounds⟩
    · simp only [budgetOf]
      exact denotes_convertible hdigits.1 h.1
    · simp only [budgetOf]
      exact denotes_convertible hdigits.2.1 h.2.1
    · simp only [budgetOf]
      exact denotes_convertible hdigits.2.2 h.2.2

theorem plain_text_iff :
    Budget.PlainText text ↔ Convertible credits ∧ Convertible masters ∧ Convertible releases := by
  rw [Budget.PlainText, hsplit]
  simp [hdigits]

end

end Cases

/-- The three ways a text is parsed: it is refused with a budget error and writes no budget; it is
the one budget it writes; or it has a part of digits that `int` does not convert. -/
theorem parse_cases (text : String) :
    ((∃ message, Budget.parse text = .error (.strata (.budget message))) ∧
        Budget.PlainText text ∧ ∀ budget : Budget, ¬budget.Written text) ∨
      (∃ budget : Budget, Budget.parse text = .ok budget ∧ Budget.PlainText text ∧
        budget.InBounds ∧ ∀ other : Budget, other.Written text ↔ other = budget) ∨
      (Budget.parse text = .error .value ∧ ¬Budget.PlainText text) := by
  by_cases hform : ∃ credits masters releases, Text.split '/' text = [credits, masters, releases] ∧
      Numerals.isDigit (strip credits) ∧ Numerals.isDigit (strip masters) ∧
        Numerals.isDigit (strip releases)
  · obtain ⟨credits, masters, releases, hsplit, hdigits⟩ := hform
    rw [plain_text_iff hsplit hdigits]
    by_cases hconvertible : Convertible credits ∧ Convertible masters ∧ Convertible releases
    · have hparse := parse_convertible hsplit hdigits hconvertible
      have hwritten := written_iff hsplit hdigits hconvertible
      rcases validate_cases (budgetOf credits masters releases) with
        ⟨hvalid, hbounds⟩ | ⟨⟨message, hinvalid⟩, hbounds⟩
      · rw [hvalid] at hparse
        refine Or.inr (Or.inl ⟨_, hparse, hconvertible, hbounds, fun other => ?_⟩)
        rw [hwritten]
        exact ⟨fun h => h.1, fun h => ⟨h, h ▸ hbounds⟩⟩
      · rw [hinvalid] at hparse
        refine Or.inl ⟨⟨message, hparse⟩, hconvertible, fun budget hbudget => ?_⟩
        obtain ⟨rfl, hin⟩ := (hwritten budget).mp hbudget
        exact hbounds hin
    · exact Or.inr (Or.inr ⟨parse_inconvertible hsplit hdigits hconvertible, hconvertible⟩)
  · refine Or.inl ⟨parse_malformed fun credits masters releases hsplit hdigits =>
      hform ⟨credits, masters, releases, hsplit, hdigits⟩, fun hlength hdigits => ?_, ?_⟩
    · obtain ⟨credits, masters, releases, hsplit⟩ := List.length_eq_three.mp hlength
      rw [hsplit] at hdigits
      refine absurd ⟨credits, masters, releases, hsplit, ?_⟩ hform
      simpa using hdigits
    · rintro budget ⟨credits, masters, releases, hsplit, hc, hm, hr, -⟩
      exact hform ⟨credits, masters, releases, hsplit, hc.digits, hm.digits, hr.digits⟩

/-- A text is answered with the budget it writes, or with a budget error and nothing else, exactly
when its parts are convertible if they are three and digits once stripped. -/
theorem budget_parsed_iff (text : String) : Budget.Parsed text ↔ Budget.PlainText text := by
  rcases parse_cases text with ⟨⟨message, herror⟩, hplain, hnone⟩ |
    ⟨budget, hok, hplain, hbounds, hwritten⟩ | ⟨herror, hplain⟩
  · refine iff_of_true ⟨Or.inr ⟨message, herror⟩, fun budget => ?_⟩ hplain
    rw [herror]
    exact iff_of_false (fun h => by cases h) (hnone budget)
  · refine iff_of_true ⟨Or.inl ⟨budget, hok, hbounds⟩, fun other => ?_⟩ hplain
    rw [hok, hwritten, Except.ok.injEq, eq_comm]
  · refine iff_of_false ?_ hplain
    rw [Budget.Parsed, herror]
    rintro ⟨⟨budget, h, -⟩ | ⟨message, h⟩, -⟩
    · cases h
    · cases h

/-- A superscript is a digit that is no decimal. -/
theorem superscript_not_parsed : ¬Budget.Parsed "²/12/16" := by
  rintro ⟨⟨budget, h, -⟩ | ⟨message, h⟩, -⟩
  · cases h
  · cases h

end CatalogApi.Strata
