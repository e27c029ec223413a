import CatalogApi.Lib.Json

/-!
# How JSON is read

Each part of the reader leaves less text than it was given (`scan_value_consumes`). So a text is only
too deeply nested when it is longer than the nesting that there is room for (`decode_text_deep`).
-/

namespace CatalogApi.Json

open CodePoints

/-! ## What is left -/

/-- What a part of the reader accepts leaves less text than there was. -/
def Consumes {α : Type} (one : Str → Except Failure (α × Str)) : Prop :=
  ∀ s result rest, one s = .ok (result, rest) → rest.length < s.length

theorem map_ok {α β : Type} {result : Except Failure α} {f : α → β} {b : β}
    (h : result.map f = .ok b) : ∃ a, result = .ok a ∧ f a = b := by
  cases result with
  | error failure => cases h
  | ok a => exact ⟨a, rfl, Except.ok.inj h⟩

theorem length_skip (s : Str) : (skip s).length ≤ s.length := (List.dropWhile_sublist _).length_le

theorem push_ok {unit : CodePoint × Bool} {tail : Except Failure (List (CodePoint × Bool) × Str)}
    {units : List (CodePoint × Bool)} {rest : Str} (h : push unit tail = .ok (units, rest)) :
    ∃ more, tail = .ok (more, rest) := by
  obtain ⟨⟨more, left⟩, htail, heq⟩ := map_ok h
  obtain ⟨-, rfl⟩ := Prod.mk.inj heq
  exact ⟨more, htail⟩

/-- The units of a string take at least the closing quote. -/
theorem scan_units_consumes {within : Within} {s : Str} {units : List (CodePoint × Bool)}
    {rest : Str} (h : scanUnits within s = .ok (units, rest)) : rest.length < s.length := by
  induction s generalizing within units with
  | nil => cases within <;> cases h
  | cons c s ih =>
      have hlater {within : Within} {units : List (CodePoint × Bool)}
          (h : scanUnits within s = .ok (units, rest)) : rest.length < s.length + 1 :=
        Nat.lt_succ_of_lt (ih h)
      have hpushed {unit : CodePoint × Bool} {units : List (CodePoint × Bool)}
          (h : push unit (scanUnits .plain s) = .ok (units, rest)) : rest.length < s.length + 1 :=
        (push_ok h).elim fun more hmore => hlater hmore
      cases within with
      | plain =>
          rw [scanUnits] at h
          split at h
          · rw [(Prod.mk.inj (Except.ok.inj h)).2]
            exact Nat.lt_succ_self _
          split at h
          · exact hlater h
          split at h
          · cases h
          · exact hpushed h
      | escape =>
          rw [scanUnits] at h
          split at h
          · exact hlater h
          split at h
          · exact hpushed h
          · cases h
      | hex more value =>
          rw [scanUnits] at h
          split at h
          · cases h
          · cases more with
            | zero => exact hpushed h
            | succ more => exact hlater h

theorem scan_string_consumes : Consumes scanString := by
  intro s text rest h
  obtain ⟨⟨units, left⟩, hunits, heq⟩ := map_ok h
  obtain ⟨-, rfl⟩ := Prod.mk.inj heq
  exact scan_units_consumes hunits

theorem length_take_sign (s : Str) : (takeSign s).2.length ≤ s.length := by
  unfold takeSign
  split
  · exact Nat.le_refl _
  · split
    · exact Nat.le_succ _
    · exact Nat.le_refl _

theorem take_whole_consumes {s whole rest : Str} (h : takeWhole s = some (whole, rest)) :
    rest.length < s.length := by
  unfold takeWhole at h
  split at h
  · cases h
  · rename_i c tail
    split at h
    · obtain ⟨-, rfl⟩ := Prod.mk.inj (Option.some.inj h)
      exact Nat.lt_succ_self _
    split at h
    · rename_i hdigit
      obtain ⟨-, rfl⟩ := Prod.mk.inj (Option.some.inj h)
      rw [List.dropWhile_cons_of_pos hdigit]
      exact Nat.lt_succ_of_le (List.dropWhile_sublist _).length_le
    · cases h

theorem length_take_fraction (s : Str) : (takeFraction s).2.length ≤ s.length := by
  unfold takeFraction
  split
  · exact Nat.le_refl _
  · split
    · exact Nat.le_succ_of_le (List.dropWhile_sublist _).length_le
    · exact Nat.le_refl _

theorem length_take_exponent_sign (s : Str) : (takeExponentSign s).2.length ≤ s.length := by
  unfold takeExponentSign
  split
  · exact Nat.le_refl _
  · split
    · exact Nat.le_succ _
    · exact Nat.le_refl _

theorem length_take_exponent (s : Str) : (takeExponent s).2.length ≤ s.length := by
  unfold takeExponent
  split
  · exact Nat.le_refl _
  · dsimp only
    split
    · refine Nat.le_succ_of_le (Nat.le_trans (List.dropWhile_sublist _).length_le ?_)
      exact length_take_exponent_sign _
    · exact Nat.le_refl _

variable (floats : Floats)

theorem scan_number_consumes : Consumes (scanNumber floats) := by
  intro s value rest h
  unfold scanNumber at h
  dsimp only at h
  split at h
  · cases h
  · rename_i whole tail hwhole
    have hsign := length_take_sign s
    have hless := take_whole_consumes hwhole
    have hfraction := length_take_fraction tail
    have hexponent := length_take_exponent (takeFraction tail).2
    split at h
    · split at h
      · cases h
      · obtain ⟨-, rfl⟩ := Prod.mk.inj (Except.ok.inj h)
        omega
    · split at h
      · obtain ⟨-, rfl⟩ := Prod.mk.inj (Except.ok.inj h)
        omega
      · cases h

theorem scan_step_consumes {array object : Str → Except Failure (Value × Str)}
    (harray : Consumes array) (hobject : Consumes object) :
    Consumes (scanStep floats array object) := by
  intro s value rest h
  cases s with
  | nil => cases h
  | cons c s =>
      rw [scanStep] at h
      split at h
      · obtain ⟨⟨text, left⟩, hstring, heq⟩ := map_ok h
        obtain ⟨-, rfl⟩ := Prod.mk.inj heq
        exact Nat.lt_succ_of_lt (scan_string_consumes _ _ _ hstring)
      split at h
      · exact Nat.lt_succ_of_lt (harray _ _ _ h)
      split at h
      · exact Nat.lt_succ_of_lt (hobject _ _ _ h)
      split at h
      · rename_i word found hword
        obtain ⟨-, rfl⟩ := Prod.mk.inj (Except.ok.inj h)
        have hpos : ∀ word ∈ words, 0 < word.1.length := by
          simp [words, ofString]
        have hlong : 0 < word.length := hpos _ (List.mem_of_find?_eq_some hword)
        rw [List.length_drop, List.length_cons]
        omega
      · exact scan_number_consumes floats _ _ _ h

section Loops

variable {α : Type} {one : Str → Except Failure (α × Str)} {close : CodePoint}

theorem scan_loop_consumes (hone : Consumes one) (fuel : Nat) :
    Consumes (scanLoop one close fuel) := by
  induction fuel with
  | zero => exact fun s elements rest h => by cases h
  | succ fuel ih =>
      intro s elements rest h
      rw [scanLoop] at h
      split at h
      · cases h
      · rename_i element left helement
        have hless := hone _ _ _ helement
        have hskip := length_skip left
        split at h
        · cases h
        · rename_i c tail htail
          rw [htail, List.length_cons] at hskip
          split at h
          · obtain ⟨-, rfl⟩ := Prod.mk.inj (Except.ok.inj h)
            omega
          split at h
          · obtain ⟨⟨more, last⟩, hmore, heq⟩ := map_ok h
            obtain ⟨-, rfl⟩ := Prod.mk.inj heq
            have hrest := ih _ _ _ hmore
            have hagain := length_skip tail
            omega
          · cases h

theorem scan_elements_consumes (hone : Consumes one) : Consumes (scanElements one close) := by
  intro s elements rest h
  have hskip := length_skip s
  unfold scanElements at h
  split at h
  · cases h
  · rename_i c tail htail
    rw [htail, List.length_cons] at hskip
    split at h
    · obtain ⟨-, rfl⟩ := Prod.mk.inj (Except.ok.inj h)
      omega
    · have hloop := scan_loop_consumes hone _ _ _ _ h
      rw [List.length_cons] at hloop
      omega

end Loops

/-- A member leaves less text than there was, if its value does. -/
theorem scan_member_consumes {scan : Str → Except Failure (Value × Str)} (hscan : Consumes scan) :
    Consumes (scanMember scan) := by
  intro s member rest h
  cases s with
  | nil => cases h
  | cons c s =>
      rw [scanMember] at h
      split at h
      · split at h
        · cases h
        · rename_i key left hkey
          have hstring := scan_string_consumes _ _ _ hkey
          have hskip := length_skip left
          split at h
          · cases h
          · rename_i colon tail htail
            rw [htail, List.length_cons] at hskip
            have hagain := length_skip tail
            split at h
            · obtain ⟨⟨value, last⟩, hvalue, heq⟩ := map_ok h
              obtain ⟨-, rfl⟩ := Prod.mk.inj heq
              have hless := hscan _ _ _ hvalue
              rw [List.length_cons]
              omega
            · cases h
      · cases h

theorem scan_value_consumes (depth : Nat) : Consumes (scanValue floats depth) := by
  induction depth with
  | zero => exact scan_step_consumes floats (fun _ _ _ h => by cases h) fun _ _ _ h => by cases h
  | succ depth ih =>
      refine scan_step_consumes floats ?array ?object
      case array =>
        intro s value rest h
        obtain ⟨⟨items, left⟩, hitems, heq⟩ := map_ok h
        obtain ⟨-, rfl⟩ := Prod.mk.inj heq
        exact scan_elements_consumes ih _ _ _ hitems
      case object =>
        intro s value rest h
        obtain ⟨⟨members, left⟩, hmembers, heq⟩ := map_ok h
        obtain ⟨-, rfl⟩ := Prod.mk.inj heq
        exact scan_elements_consumes (scan_member_consumes ih) _ _ _ hmembers

/-! ## Room for the nesting -/

/-- A part of the reader finds room for the nesting of each text of at most `room` characters. -/
def Shallow {α : Type} (one : Str → Except Failure (α × Str)) (room : Nat) : Prop :=
  ∀ s, s.length ≤ room → one s ≠ .error .recursion

theorem map_recursion {α β : Type} {result : Except Failure α} {f : α → β}
    (h : result.map f = .error .recursion) : result = .error .recursion := by
  cases result with
  | error failure => exact congrArg _ (Except.error.inj h)
  | ok a => cases h

/-- Reading a string never nests. -/
theorem scan_units_recursion (within : Within) (s : Str) :
    scanUnits within s ≠ .error .recursion := by
  induction s generalizing within with
  | nil => cases within <;> exact fun h => by cases h
  | cons c s ih =>
      intro h
      cases within with
      | plain =>
          rw [scanUnits] at h
          split at h
          · cases h
          split at h
          · exact ih _ h
          split at h
          · cases h
          · exact ih _ (map_recursion h)
      | escape =>
          rw [scanUnits] at h
          split at h
          · exact ih _ h
          split at h
          · exact ih _ (map_recursion h)
          · cases h
      | hex more value =>
          rw [scanUnits] at h
          split at h
          · cases h
          · cases more with
            | zero => exact ih _ (map_recursion h)
            | succ more => exact ih _ h

theorem scan_string_recursion (s : Str) : scanString s ≠ .error .recursion :=
  fun h => scan_units_recursion _ _ (map_recursion h)

theorem scan_number_recursion (s : Str) : scanNumber floats s ≠ .error .recursion := by
  intro h
  unfold scanNumber at h
  dsimp only at h
  split at h
  · cases h
  split at h
  · split at h <;> cases h
  · split at h <;> cases h

theorem scan_step_recursion {array object : Str → Except Failure (Value × Str)} {c : CodePoint}
    {s : Str} (harray : array s ≠ .error .recursion) (hobject : object s ≠ .error .recursion) :
    scanStep floats array object (c :: s) ≠ .error .recursion := by
  intro h
  rw [scanStep] at h
  split at h
  · exact scan_string_recursion _ (map_recursion h)
  split at h
  · exact harray h
  split at h
  · exact hobject h
  split at h
  · cases h
  · exact scan_number_recursion floats _ h

section Loops

variable {α : Type} {one : Str → Except Failure (α × Str)} {close : CodePoint} {room : Nat}

theorem scan_loop_recursion (hone : Consumes one) (hroom : Shallow one room) (fuel : Nat) :
    Shallow (scanLoop one close fuel) room := by
  induction fuel with
  | zero => exact fun s _ h => by cases h
  | succ fuel ih =>
      intro s hs h
      rw [scanLoop] at h
      split at h
      · rename_i failure hfailure
        exact hroom s hs (hfailure.trans (congrArg _ (Except.error.inj h)))
      · rename_i element rest helement
        have hless := hone _ _ _ helement
        have hskip := length_skip rest
        split at h
        · cases h
        · rename_i c tail htail
          have hagain := length_skip tail
          rw [htail, List.length_cons] at hskip
          split at h
          · cases h
          split at h
          · exact ih (skip tail) (by omega) (map_recursion h)
          · cases h

theorem scan_elements_recursion (hone : Consumes one) (hroom : Shallow one room) :
    Shallow (scanElements one close) room := by
  intro s hs h
  have hskip := length_skip s
  unfold scanElements at h
  split at h
  · cases h
  · rename_i c tail htail
    rw [htail] at hskip
    split at h
    · cases h
    · exact scan_loop_recursion hone hroom _ _ (Nat.le_trans hskip hs) h

end Loops

theorem scan_member_recursion {scan : Str → Except Failure (Value × Str)} {room : Nat}
    (hroom : Shallow scan room) : Shallow (scanMember scan) room := by
  intro s hs h
  cases s with
  | nil => cases h
  | cons c s =>
      rw [scanMember] at h
      rw [List.length_cons] at hs
      split at h
      · split at h
        · rename_i failure hfailure
          exact scan_string_recursion _ (hfailure.trans (congrArg _ (Except.error.inj h)))
        · rename_i key left hkey
          have hstring := scan_string_consumes _ _ _ hkey
          have hskip := length_skip left
          split at h
          · cases h
          · rename_i colon tail htail
            rw [htail, List.length_cons] at hskip
            have hagain := length_skip tail
            split at h
            · exact hroom (skip tail) (by omega) (map_recursion h)
            · cases h
      · cases h

/-- Only a text longer than the nesting that there is room for is too deeply nested. -/
theorem scan_value_recursion (depth : Nat) : Shallow (scanValue floats depth) depth := by
  induction depth with
  | zero =>
      intro s hs h
      rw [List.eq_nil_of_length_eq_zero (Nat.le_zero.mp hs)] at h
      cases h
  | succ depth ih =>
      intro s hs
      cases s with
      | nil => exact fun h => by cases h
      | cons c s =>
          have hless : s.length ≤ depth := Nat.le_of_succ_le_succ hs
          have hconsumes := scan_value_consumes floats depth
          refine scan_step_recursion floats ?array ?object
          case array =>
            exact fun h => scan_elements_recursion hconsumes ih s hless (map_recursion h)
          case object =>
            exact fun h => scan_elements_recursion (scan_member_consumes hconsumes)
              (scan_member_recursion ih) s hless (map_recursion h)

theorem decode_text_deep {limit : Nat} {s : Str} (h : s.length ≤ limit) :
    decodeText floats limit s ≠ .error .recursion := by
  intro hdeep
  unfold decodeText at hdeep
  split at hdeep
  · rename_i failure hfailure
    have hvalue := hfailure.trans (congrArg Except.error (Except.error.inj hdeep))
    exact scan_value_recursion floats limit _ (Nat.le_trans (length_skip s) h) hvalue
  · split at hdeep <;> cases hdeep

end CatalogApi.Json
