import CatalogApi.Lib.Json

/-!
# JSON read back

What `json.dumps` writes, `json.loads` reads back, with any text after it that does not go on with a
number (`scan_fitting`): a value without floats in which no text splits a surrogate pair, no key is
repeated and no integer is too long, nested no deeper than there is room for.
-/

namespace CatalogApi.Json

open CodePoints

/-! ## Numbers -/

/-- What follows does not go on with a number. -/
def Ends (rest : Str) : Prop :=
  ∀ c ∈ rest.head?, isDigit c = false ∧ c ≠ ord '.' ∧ c ≠ ord 'e' ∧ c ≠ ord 'E'

theorem is_digit_ord (c : Char) : isDigit (ord c) = c.isDigit := by
  rw [isDigit, Char.isDigit, Bool.decide_and]
  rfl

theorem digits_value (n : Nat) : digitsValue (digits n) = n := by
  rw [digitsValue, digits, List.foldl_map]
  show Nat.ofDigitChars 10 (Nat.toDigits 10 n) 0 = n
  exact Nat.ofDigitChars_ten_toDigits

theorem digits_are {n : Nat} {c : CodePoint} (h : c ∈ digits n) : isDigit c = true := by
  obtain ⟨digit, hdigit, rfl⟩ := List.mem_map.mp h
  rw [is_digit_ord]
  exact Nat.isDigit_of_mem_toDigits (by omega) (by omega) hdigit

theorem digits_zero : digits 0 = [ord '0'] := by
  rw [digits, Nat.toDigits_zero]
  rfl

/-- A positive number does not start with a zero. -/
theorem digits_start {n : Nat} (h : 0 < n) : ∃ c rest, digits n = c :: rest ∧ c ≠ ord '0' := by
  induction n using Nat.strong_induction_on with
  | _ n ih =>
      by_cases hless : n < 10
      · refine ⟨ord n.digitChar, [], ?_, ?_⟩
        · rw [digits, Nat.toDigits_of_lt_base hless]
          rfl
        · have hall : ∀ d : Fin 10, 0 < d.val → ord (Nat.digitChar d) ≠ ord '0' := by decide
          exact hall ⟨n, hless⟩ h
      · obtain ⟨c, rest, hdigits, hne⟩ := ih (n / 10) (by omega) (by omega)
        refine ⟨c, rest ++ [ord (n % 10).digitChar], ?_, hne⟩
        rw [digits, Nat.toDigits_of_base_le (by omega) (by omega), List.map_append]
        show digits (n / 10) ++ _ = _
        rw [hdigits]
        rfl

theorem not_digit_start {rest : Str} (h : Ends rest) : rest.takeWhile isDigit = [] := by
  cases rest with
  | nil => rfl
  | cons c rest => rw [List.takeWhile_cons, (h c rfl).1, if_neg Bool.false_ne_true]

theorem take_digits {n : Nat} {rest : Str} (h : Ends rest) :
    (digits n ++ rest).takeWhile isDigit = digits n := by
  rw [List.takeWhile_append_of_pos fun c hc => digits_are hc, not_digit_start h, List.append_nil]

theorem drop_digits {n : Nat} {rest : Str} (h : Ends rest) :
    (digits n ++ rest).dropWhile isDigit = rest := by
  rw [List.dropWhile_append_of_pos fun c hc => digits_are hc]
  cases rest with
  | nil => rfl
  | cons c rest => rw [List.dropWhile_cons, (h c rfl).1, if_neg Bool.false_ne_true]

theorem take_whole_digits (n : Nat) {rest : Str} (h : Ends rest) :
    takeWhole (digits n ++ rest) = some (digits n, rest) := by
  rcases Nat.eq_zero_or_pos n with rfl | hpos
  · rw [digits_zero]
    rfl
  · obtain ⟨c, more, hdigits, hne⟩ := digits_start hpos
    have hdigit : isDigit c = true := digits_are (hdigits ▸ List.mem_cons_self)
    have htake := take_digits (n := n) h
    have hdrop := drop_digits (n := n) h
    rw [hdigits, List.cons_append] at htake hdrop ⊢
    rw [takeWhole, if_neg hne, if_pos hdigit, htake, hdrop]

theorem take_fraction_none {rest : Str} (h : Ends rest) : takeFraction rest = ([], rest) := by
  cases rest with
  | nil => rfl
  | cons c rest => rw [takeFraction, if_neg fun hpoint => (h c rfl).2.1 hpoint.1]

theorem take_exponent_none {rest : Str} (h : Ends rest) : takeExponent rest = ([], rest) := by
  cases rest with
  | nil => rfl
  | cons c rest =>
      have hletter : ¬(c = ord 'e' ∨ c = ord 'E') :=
        not_or.mpr ⟨(h c rfl).2.2.1, (h c rfl).2.2.2⟩
      rw [takeExponent]
      dsimp only
      rw [if_neg fun hexponent => hletter hexponent.1]

theorem take_sign_digits (n : Nat) (rest : Str) :
    takeSign (digits n ++ rest) = ([], digits n ++ rest) := by
  cases hdigits : digits n ++ rest with
  | nil => rfl
  | cons c more =>
      have hdigit : isDigit c = true := by
        cases hn : digits n with
        | nil => exact absurd (List.map_eq_nil_iff.mp hn) Nat.toDigits_ne_nil
        | cons d tail =>
            rw [hn, List.cons_append] at hdigits
            obtain ⟨rfl, -⟩ := List.cons.inj hdigits
            exact digits_are (hn ▸ List.mem_cons_self)
      have hminus : c ≠ ord '-' := by
        rintro rfl
        exact absurd hdigit (by decide)
      rw [takeSign, if_neg hminus]

/-- The text of an integer reads back. -/
theorem scan_int (floats : Floats) {n : Int} (hshort : short (.int n) = true) {rest : Str}
    (h : Ends rest) : scanNumber floats (intText n ++ rest) = .ok (.int n, rest) := by
  have hlong : ¬Numerals.maxStrDigits < (digits n.natAbs).length := by
    rw [digits, List.length_map]
    exact Nat.not_lt.mpr (of_decide_eq_true hshort)
  rw [intText]
  split
  · rename_i hneg
    rw [scanNumber, List.cons_append, takeSign, if_pos rfl]
    dsimp only
    rw [take_whole_digits _ h]
    dsimp only
    rw [take_fraction_none h]
    dsimp only
    rw [take_exponent_none h]
    dsimp only
    rw [if_pos ⟨rfl, rfl⟩, if_neg hlong, if_neg (List.cons_ne_nil _ _), digits_value]
    have hval : -(n.natAbs : Int) = n := by omega
    rw [hval]
  · rename_i hneg
    rw [scanNumber, take_sign_digits]
    dsimp only
    rw [take_whole_digits _ h]
    dsimp only
    rw [take_fraction_none h]
    dsimp only
    rw [take_exponent_none h]
    dsimp only
    rw [if_pos ⟨rfl, rfl⟩, if_neg hlong, if_pos rfl, digits_value]
    have hval : (n.natAbs : Int) = n := by omega
    rw [hval]

/-! ## Texts -/

/-- The code points below U+10000 that are written as `\uXXXX`. -/
def escaped (c : CodePoint) : Bool :=
  (escapes.find? fun escape => escape.1 = c).isNone ∧ ¬(0x20 ≤ c.val ∧ c.val ≤ 0x7E)

theorem escapes_read {c letter : CodePoint} (h : (c, letter) ∈ escapes) :
    unescape letter = some c ∧ letter ≠ ord 'u' := by
  have hall : ∀ escape ∈ escapes, unescape escape.2 = some escape.1 ∧ escape.2 ≠ ord 'u' := by
    simp [escapes, unescape, ord]
  exact hall _ h

theorem hex_digit_read {d : Nat} (h : d < 16) : hexValue (hexDigit d) = some d := by
  have hall : ∀ d : Fin 16, hexValue (hexDigit d) = some d.val := by decide
  exact hall ⟨d, h⟩

/-- An escape reads back as its unit. -/
theorem scan_unicode {unit : CodePoint} (h : unit.val < 0x10000) (rest : Str) :
    scanUnits .plain (unicodeEscape unit ++ rest) = push (unit, true) (scanUnits .plain rest) := by
  have hunit : Fin.ofNat 0x110000 ((((0 * 16 + unit.val / 4096 % 16) * 16 +
      unit.val / 256 % 16) * 16 + unit.val / 16 % 16) * 16 + unit.val % 16) = unit := by
    refine Fin.ext ?_
    rw [Fin.val_ofNat]
    omega
  have hmod (n : Nat) : n % 16 < 16 := Nat.mod_lt _ (by omega)
  have hquote : ord '\\' ≠ ord '"' := by decide
  simp only [unicodeEscape, List.cons_append, List.nil_append]
  rw [scanUnits, if_neg hquote, if_pos rfl, scanUnits, if_pos rfl]
  rw [scanUnits, hex_digit_read (hmod _)]
  dsimp only
  rw [scanUnits, hex_digit_read (hmod _)]
  dsimp only
  rw [scanUnits, hex_digit_read (hmod _)]
  dsimp only
  rw [scanUnits, hex_digit_read (hmod _)]
  dsimp only
  rw [hunit]

/-- What a code point is written as reads back as the units that spell it. -/
theorem scan_escape (c : CodePoint) (rest : Str) :
    scanUnits .plain (escapeChar c ++ rest) =
      (scanUnits .plain rest).map fun (units, rest) => (spelled escaped c ++ units, rest) := by
  have hlt := c.isLt
  rw [escapeChar]
  split
  · rename_i found letter hfind
    have heq : found = c := by simpa using List.find?_some hfind
    obtain ⟨hread, hletter⟩ := escapes_read (heq ▸ List.mem_of_find?_eq_some hfind)
    have hsmall : ¬0x10000 ≤ c.val := by
      have hall : escapes.all (fun escape => decide (¬0x10000 ≤ escape.1.val)) = true := by decide
      have hmem := List.mem_of_find?_eq_some hfind
      exact heq ▸ of_decide_eq_true (List.all_eq_true.mp hall _ hmem)
    have hplain : escaped c = false := by simp [escaped, hfind]
    have hquote : ord '\\' ≠ ord '"' := by decide
    rw [List.cons_append, List.singleton_append, scanUnits, if_neg hquote, if_pos rfl, scanUnits,
      if_neg hletter, hread]
    dsimp only
    rw [spelled, if_neg hsmall, hplain]
    rfl
  · rename_i hfind
    split
    · rename_i hprint
      have hsmall : ¬0x10000 ≤ c.val := by omega
      have hplain : escaped c = false := by simp [escaped, hprint]
      have hmem {d : CodePoint} (letter : CodePoint) (h : (d, letter) ∈ escapes) : c ≠ d := by
        rintro rfl
        exact absurd (List.find?_eq_none.mp hfind _ h) (by simp)
      rw [List.singleton_append, scanUnits, if_neg (hmem (ord '"') (by decide)),
        if_neg (hmem (ord '\\') (by decide)), if_neg (by omega), spelled, if_neg hsmall,
        hplain]
      rfl
    split
    · rename_i hprint hbmp
      have hescaped : escaped c = true := by simp [escaped, hfind, hprint]
      rw [scan_unicode hbmp, spelled, if_neg (by omega), hescaped]
      rfl
    · rename_i hprint hlarge
      have hhigh : (highOf c).val < 0x10000 := by
        rw [high_of_val]
        omega
      have hlow : (lowOf c).val < 0x10000 := by
        rw [low_of_val]
        omega
      rw [List.append_assoc, scan_unicode hhigh, scan_unicode hlow, spelled, if_pos (by omega)]
      cases scanUnits .plain rest <;> rfl

theorem scan_text_units (text rest : Str) :
    scanUnits .plain (text.flatMap escapeChar ++ ord '"' :: rest) =
      .ok (text.flatMap (spelled escaped), rest) := by
  induction text with
  | nil =>
      show scanUnits .plain (ord '"' :: rest) = _
      rw [scanUnits, if_pos rfl]
      rfl
  | cons c text ih =>
      rw [List.flatMap_cons, List.append_assoc, scan_escape, ih, List.flatMap_cons]
      rfl

/-- A text that splits no pair reads back. -/
theorem scan_quoted {text : Str} (h : NoSplitPair text) (rest : Str) :
    scanString (text.flatMap escapeChar ++ ord '"' :: rest) = .ok (text, rest) := by
  rw [scanString, scan_text_units]
  show Except.ok (joinPairs _, rest) = _
  rw [join_spelled escaped h]

/-! ## Values -/

/-- The value reads back as it was written, with a nesting of arrays and objects within `depth`. -/
def Fits : Nat → Value → Prop
  | _, .null => True
  | _, .bool _ => True
  | _, .int n => short (.int n) = true
  | _, .float _ => False
  | _, .str text => NoSplitPair text
  | 0, .array _ => False
  | 0, .object _ => False
  | depth + 1, .array items => ∀ item ∈ items, Fits depth item
  | depth + 1, .object members =>
      (members.map (·.1)).Nodup ∧
        ∀ member ∈ members, NoSplitPair member.1 ∧ Fits depth member.2

theorem fits_int (depth : Nat) {n : Int} (h : short (.int n) = true) : Fits depth (.int n) := by
  cases depth <;> exact h

theorem fits_deeper {depth limit : Nat} (h : depth ≤ limit) {value : Value}
    (hfits : Fits depth value) : Fits limit value := by
  induction depth generalizing limit value with
  | zero =>
      cases value with
      | array items => exact absurd hfits id
      | object members => exact absurd hfits id
      | _ => cases limit <;> exact hfits
  | succ depth ih =>
      cases limit with
      | zero => exact absurd h (Nat.not_succ_le_zero depth)
      | succ limit =>
          have hless := Nat.le_of_succ_le_succ h
          cases value with
          | array items => exact fun item hitem => ih hless (hfits item hitem)
          | object members =>
              refine ⟨hfits.1, fun member hmember => ?_⟩
              exact ⟨(hfits.2 member hmember).1, ih hless (hfits.2 member hmember).2⟩
          | _ => exact hfits

/-- The first character of what is written, which no whitespace or closing bracket is. -/
def Starts (s : Str) : Prop :=
  ∃ c rest, s = c :: rest ∧ isSpace c = false ∧ c ≠ ord ']' ∧ c ≠ ord '}'

theorem skip_starts {s : Str} (h : Starts s) : skip s = s := by
  obtain ⟨c, rest, rfl, hspace, -, -⟩ := h
  rw [skip, List.dropWhile_cons, hspace, if_neg Bool.false_ne_true]

theorem starts_append {s : Str} (h : Starts s) (rest : Str) : Starts (s ++ rest) := by
  obtain ⟨c, tail, rfl, hc⟩ := h
  exact ⟨c, tail ++ rest, rfl, hc⟩

theorem skip_gap {gap s : Str} (hgap : ∀ c ∈ gap, isSpace c = true) (h : Starts s) :
    skip (gap ++ s) = s := by
  rw [skip, List.dropWhile_append_of_pos hgap]
  exact skip_starts h

theorem starts_int (n : Int) : Starts (intText n) := by
  rw [intText]
  split
  · exact ⟨_, _, rfl, by decide, by decide, by decide⟩
  · cases hdigits : digits n.natAbs with
    | nil => exact absurd (List.map_eq_nil_iff.mp hdigits) Nat.toDigits_ne_nil
    | cons c rest =>
        have hdigit : isDigit c = true := digits_are (hdigits ▸ List.mem_cons_self)
        have hnot {d : CodePoint} (h : isDigit d = false) : c ≠ d := by
          rintro rfl
          rw [hdigit] at h
          cases h
        refine ⟨c, rest, rfl, ?_, hnot (by decide), hnot (by decide)⟩
        rw [isSpace, decide_eq_false_iff_not]
        simp only [not_or]
        exact ⟨hnot (by decide), hnot (by decide), hnot (by decide), hnot (by decide)⟩

theorem starts_quoted (text : Str) : Starts (quoted text) :=
  ⟨_, _, rfl, by decide, by decide, by decide⟩

variable (floats : Floats) (gap : Str)

theorem starts_text {depth : Nat} {value : Value} (h : Fits depth value) :
    Starts (text floats gap value) := by
  cases value with
  | null => exact ⟨_, _, rfl, by decide, by decide, by decide⟩
  | bool b => cases b <;> exact ⟨_, _, rfl, by decide, by decide, by decide⟩
  | int n => exact starts_int n
  | float x => cases depth <;> exact absurd h id
  | str s => exact starts_quoted s
  | array items => exact ⟨_, _, rfl, by decide, by decide, by decide⟩
  | object members => exact ⟨_, _, rfl, by decide, by decide, by decide⟩

theorem text_more_items (items : List Value) :
    textMoreItems floats gap items =
      items.flatMap fun item => ord ',' :: gap ++ text floats gap item := by
  induction items with
  | nil => rfl
  | cons item items ih => rw [textMoreItems, ih, List.flatMap_cons]

/-- A key, a colon and a value. -/
def textMember (member : Str × Value) : Str :=
  quoted member.1 ++ ord ':' :: gap ++ text floats gap member.2

theorem text_more_members (members : List (Str × Value)) :
    textMoreMembers floats gap members =
      members.flatMap fun member => ord ',' :: gap ++ textMember floats gap member := by
  induction members with
  | nil => rfl
  | cons member members ih =>
      rw [textMoreMembers, ih, List.flatMap_cons, textMember]
      simp only [List.append_assoc, List.cons_append]

/-! ## Reading elements -/

section Loops

variable {gap : Str} {α : Type} {one : Str → Except Failure (α × Str)} {write : α → Str}

/-- What is written for an element reads back, whatever does not go on with a number follows. -/
def ReadsBack (one : Str → Except Failure (α × Str)) (write : α → Str) (element : α) : Prop :=
  Starts (write element) ∧
    ∀ rest, Ends rest → one (write element ++ rest) = .ok (element, rest)

theorem ends_cons {c : CodePoint}
    (h : isDigit c = false ∧ c ≠ ord '.' ∧ c ≠ ord 'e' ∧ c ≠ ord 'E') (rest : Str) :
    Ends (c :: rest) := by
  rintro d hd
  obtain rfl := Option.some.inj hd
  exact h

/-- The closing bracket of an array or object. -/
def Closing (close : CodePoint) : Prop := close = ord ']' ∨ close = ord '}'

theorem ends_close {close : CodePoint} (h : Closing close) (rest : Str) : Ends (close :: rest) := by
  rcases h with rfl | rfl <;> exact ends_cons (by decide) rest

theorem skip_close {close : CodePoint} (h : Closing close) (rest : Str) :
    skip (close :: rest) = close :: rest := by
  rcases h with rfl | rfl <;> rfl

/-- The elements that are written after the first are read back. -/
theorem scan_loop_written (hgap : ∀ c ∈ gap, isSpace c = true) {close : CodePoint}
    (hclose : Closing close) {element : α} {elements : List α}
    (h : ∀ e ∈ element :: elements, ReadsBack one write e) {fuel : Nat}
    (hfuel : elements.length < fuel) (rest : Str) :
    scanLoop one close fuel (write element ++
      (elements.flatMap (fun e => ord ',' :: gap ++ write e) ++ close :: rest)) =
        .ok (element :: elements, rest) := by
  induction elements generalizing element fuel with
  | nil =>
      obtain ⟨fuel, rfl⟩ := Nat.exists_eq_succ_of_ne_zero (Nat.ne_of_gt hfuel)
      have hone := (h element List.mem_cons_self).2 _ (ends_close hclose rest)
      show scanLoop one close (fuel + 1) (write element ++ close :: rest) = _
      rw [scanLoop, hone]
      dsimp only
      rw [skip_close hclose]
      dsimp only
      rw [if_pos rfl]
  | cons next elements ih =>
      obtain ⟨fuel, rfl⟩ := Nat.exists_eq_succ_of_ne_zero (Nat.ne_of_gt (Nat.zero_lt_of_lt hfuel))
      have hcomma : ord ',' ≠ close := by
        rcases hclose with rfl | rfl <;> decide
      have hnext := h next (List.mem_cons_of_mem _ List.mem_cons_self)
      have hmore := ih (fun e (he : e ∈ next :: elements) => h e (List.mem_cons_of_mem _ he))
        (Nat.lt_of_succ_lt_succ hfuel)
      have hone := (h element List.mem_cons_self).2
      rw [List.flatMap_cons, List.cons_append, List.cons_append, List.cons_append, scanLoop,
        hone _ (ends_cons (by decide) _)]
      dsimp only
      have hskip (tail : Str) : skip (ord ',' :: tail) = ord ',' :: tail := rfl
      rw [hskip]
      dsimp only
      rw [if_neg hcomma, if_pos rfl, List.append_assoc, List.append_assoc,
        skip_gap hgap (starts_append hnext.1 _), hmore]
      rfl

/-- The elements that are written are read back. -/
theorem scan_elements_written (hgap : ∀ c ∈ gap, isSpace c = true) {close : CodePoint}
    (hclose : Closing close) {element : α} {elements : List α}
    (h : ∀ e ∈ element :: elements, ReadsBack one write e) (rest : Str) :
    scanElements one close (write element ++
      (elements.flatMap (fun e => ord ',' :: gap ++ write e) ++ close :: rest)) =
        .ok (element :: elements, rest) := by
  have hstarts := (h element List.mem_cons_self).1
  have hfuel : elements.length < (write element ++
      (elements.flatMap (fun e => ord ',' :: gap ++ write e) ++ close :: rest)).length := by
    have hlong : elements.length ≤
        (elements.flatMap fun e => ord ',' :: gap ++ write e).length := by
      clear h
      induction elements with
      | nil => exact Nat.le_refl _
      | cons e elements ih =>
          rw [List.flatMap_cons, List.length_append, List.length_cons, List.cons_append,
            List.length_cons]
          omega
    simp only [List.length_append, List.length_cons]
    omega
  have hloop := scan_loop_written hgap hclose h hfuel rest
  obtain ⟨c, tail, hwrite, hspace, hbracket, hbrace⟩ := hstarts
  have hne : c ≠ close := by
    rcases hclose with rfl | rfl
    · exact hbracket
    · exact hbrace
  rw [hwrite, List.cons_append] at hloop ⊢
  rw [scanElements, skip_starts ⟨c, _, rfl, hspace, hbracket, hbrace⟩]
  dsimp only
  rw [if_neg hne]
  exact hloop

end Loops

/-! ## Reading values -/

theorem entries_of_nodup {members : List (Str × Value)} (h : (members.map (·.1)).Nodup) :
    entriesOf members = members := by
  have hgo (entries : List (Str × Value)) (hnodup : ((entries ++ members).map (·.1)).Nodup) :
      members.foldl (fun entries member => Dict.assigned entries member.1 member.2) entries =
        entries ++ members := by
    clear h
    induction members generalizing entries with
    | nil => exact (List.append_nil _).symm
    | cons member members ih =>
        have hnew : member.1 ∉ entries.map (·.1) := by
          rw [List.map_append, List.nodup_append] at hnodup
          exact fun hmem => hnodup.2.2 _ hmem _ List.mem_cons_self rfl
        rw [List.foldl_cons, Dict.assigned, if_neg hnew, ih, List.append_assoc]
        · rfl
        · rwa [List.append_assoc]
  exact hgo [] h

/-- A written integer is read as a number. -/
theorem scan_step_int {array object : Str → Except Failure (Value × Str)} {n : Int} {rest : Str} :
    scanStep floats array object (intText n ++ rest) = scanNumber floats (intText n ++ rest) := by
  obtain ⟨c, tail, htext, -, -, -⟩ := starts_int n
  have hfirst : isDigit c = true ∨ c = ord '-' ∧ ∃ d more, tail = d :: more ∧ isDigit d = true := by
    rw [intText] at htext
    split at htext
    · obtain ⟨rfl, rfl⟩ := List.cons.inj htext
      refine .inr ⟨rfl, ?_⟩
      cases hdigits : digits n.natAbs with
      | nil => exact absurd (List.map_eq_nil_iff.mp hdigits) Nat.toDigits_ne_nil
      | cons d more => exact ⟨d, more, rfl, digits_are (hdigits ▸ List.mem_cons_self)⟩
    · exact .inl (digits_are (htext ▸ List.mem_cons_self))
  have hnot {d : CodePoint} (h : isDigit d = false) (hminus : d ≠ ord '-') : c ≠ d := by
    rintro rfl
    rcases hfirst with hdigit | ⟨rfl, -⟩
    · rw [hdigit] at h
      cases h
    · exact hminus rfl
  have hword : words.find? (fun word => word.1.isPrefixOf (c :: (tail ++ rest))) = none := by
    rw [List.find?_eq_none]
    intro word hmem hprefix
    have hstart : ∃ d more, word.1 = d :: more ∧
        (isDigit d = false ∧ d ≠ ord '-' ∨ d = ord '-' ∧ more.head? = some (ord 'I')) := by
      have hall : ∀ word ∈ words, ∃ d more, word.1 = d :: more ∧
          (isDigit d = false ∧ d ≠ ord '-' ∨ d = ord '-' ∧ more.head? = some (ord 'I')) := by
        simp only [words, List.forall_mem_cons]
        refine ⟨?_, ?_, ?_, ?_, ?_, ?_, List.forall_mem_nil _⟩
        case refine_6 => exact ⟨_, _, rfl, .inr ⟨rfl, rfl⟩⟩
        all_goals exact ⟨_, _, rfl, .inl (by decide)⟩
      exact hall word hmem
    obtain ⟨d, more, hd, hkind⟩ := hstart
    rw [hd, List.isPrefixOf_cons_cons, Bool.and_eq_true, beq_iff_eq] at hprefix
    obtain ⟨rfl, hmore⟩ := hprefix
    rcases hkind with ⟨hdigit, hminus⟩ | ⟨hminus, hletter⟩
    · exact hnot hdigit hminus rfl
    · rcases hfirst with hdigit | ⟨-, e, last, rfl, hdigit⟩
      · rw [hminus] at hdigit
        exact absurd hdigit (by decide)
      · cases more with
        | nil => cases hletter
        | cons m more =>
            obtain rfl := Option.some.inj hletter
            rw [List.cons_append, List.isPrefixOf_cons_cons, Bool.and_eq_true, beq_iff_eq] at hmore
            rw [← hmore.1] at hdigit
            exact absurd hdigit (by decide)
  rw [htext, List.cons_append, scanStep, if_neg (hnot (by decide) (by decide)),
    if_neg (hnot (by decide) (by decide)), if_neg (hnot (by decide) (by decide)), hword]

variable {gap}

/-- A member whose value reads back reads back. -/
theorem scan_member_written (hgap : ∀ c ∈ gap, isSpace c = true)
    {scan : Str → Except Failure (Value × Str)} {member : Str × Value}
    (hkey : NoSplitPair member.1) (h : ReadsBack scan (text floats gap) member.2) :
    ReadsBack (scanMember scan) (textMember floats gap) member := by
  obtain ⟨key, value⟩ := member
  refine ⟨starts_append (starts_append (starts_quoted key) _) _, fun rest hrest => ?_⟩
  have hvalue := h.2 rest hrest
  simp only [textMember, quoted, List.cons_append, List.append_assoc, List.nil_append]
  rw [scanMember, if_pos rfl, scan_quoted hkey]
  dsimp only
  have hskip (tail : Str) : skip (ord ':' :: tail) = ord ':' :: tail := rfl
  rw [hskip]
  dsimp only
  rw [if_pos rfl, skip_gap hgap (starts_append h.1 _), hvalue]
  rfl

theorem scan_scalar {array object : Str → Except Failure (Value × Str)} {value : Value}
    (h : Fits 0 value) {rest : Str} (hrest : Ends rest) :
    scanStep floats array object (text floats gap value ++ rest) = .ok (value, rest) := by
  cases value with
  | null => rfl
  | bool b => cases b <;> rfl
  | int n =>
      rw [text, scan_step_int]
      exact scan_int floats h hrest
  | float x => exact absurd h id
  | str s =>
      simp only [text, quoted, List.cons_append, List.append_assoc, List.nil_append]
      rw [scanStep, if_pos rfl, scan_quoted h]
      rfl
  | array items => exact absurd h id
  | object members => exact absurd h id

/-- What `json.dumps` writes reads back, whatever does not go on with a number follows. -/
theorem scan_fitting (hgap : ∀ c ∈ gap, isSpace c = true) {depth : Nat} {value : Value}
    (h : Fits depth value) {rest : Str} (hrest : Ends rest) :
    scanValue floats depth (text floats gap value ++ rest) = .ok (value, rest) := by
  induction depth generalizing value rest with
  | zero => exact scan_scalar floats h hrest
  | succ depth ih =>
      have hreads {value : Value} (h : Fits depth value) :
          ReadsBack (scanValue floats depth) (text floats gap) value :=
        ⟨starts_text floats gap h, fun rest hrest => ih h hrest⟩
      cases value with
      | null => exact scan_scalar floats (show Fits 0 .null from h) hrest
      | bool b => exact scan_scalar floats (show Fits 0 (.bool b) from h) hrest
      | int n => exact scan_scalar floats (show Fits 0 (.int n) from h) hrest
      | float x => exact absurd h id
      | str s => exact scan_scalar floats (show Fits 0 (.str s) from h) hrest
      | array items =>
          rw [text, List.cons_append, List.cons_append, scanValue, scanStep, if_neg (by decide),
            if_pos rfl]
          cases items with
          | nil => rfl
          | cons item items =>
              rw [textItems, text_more_items, List.append_assoc, List.append_assoc,
                List.singleton_append,
                scan_elements_written hgap (.inl rfl) (fun item hitem => hreads (h item hitem))]
              rfl
      | object members =>
          rw [text, List.cons_append, List.cons_append, scanValue, scanStep, if_neg (by decide),
            if_neg (by decide), if_pos rfl]
          cases members with
          | nil => rfl
          | cons member members =>
              have hwritten : ∀ m ∈ member :: members,
                  ReadsBack (scanMember (scanValue floats depth)) (textMember floats gap) m :=
                fun m hm => scan_member_written floats hgap (h.2 m hm).1 (hreads (h.2 m hm).2)
              have hmembers := scan_elements_written hgap (.inr rfl) hwritten rest
              rw [textMembers, text_more_members]
              simp only [textMember, List.append_assoc, List.cons_append,
                List.nil_append] at hmembers ⊢
              rw [hmembers]
              show Except.ok (Value.object (entriesOf (member :: members)), rest) = _
              rw [entries_of_nodup h.1]

theorem short_items (items : List Value) : shortItems items = items.all short := by
  induction items with
  | nil => rfl
  | cons item items ih => rw [shortItems, ih, List.all_cons]

theorem short_members (members : List (Str × Value)) :
    shortMembers members = members.all fun member => short member.2 := by
  induction members with
  | nil => rfl
  | cons member members ih => rw [shortMembers, ih, List.all_cons]

theorem short_fitting {depth : Nat} {value : Value} (h : Fits depth value) :
    short value = true := by
  induction depth generalizing value with
  | zero =>
      cases value with
      | int n => exact h
      | array items => exact absurd h id
      | object members => exact absurd h id
      | _ => rfl
  | succ depth ih =>
      cases value with
      | int n => exact h
      | array items =>
          rw [short, short_items, List.all_eq_true]
          exact fun item hitem => ih (h item hitem)
      | object members =>
          rw [short, short_members, List.all_eq_true]
          exact fun member hmember => ih (h.2 member hmember).2
      | _ => rfl

theorem dumps_fitting {depth : Nat} {value : Value} (h : Fits depth value) :
    dumps floats gap value = .ok (text floats gap value) := by
  rw [dumps, if_pos (short_fitting h)]

/-- `json.loads` of what `json.dumps` writes. -/
theorem decode_fitting (hgap : ∀ c ∈ gap, isSpace c = true) {limit : Nat} {value : Value}
    (h : Fits limit value) : decodeText floats limit (text floats gap value) = .ok value := by
  have hends : Ends ([] : Str) := fun c hc => by cases hc
  have hscan := scan_fitting floats hgap h hends
  rw [List.append_nil] at hscan
  rw [decodeText, skip_starts (starts_text floats gap h), hscan]
  rfl

/-! ## Only ASCII is written -/

theorem ascii_escape (c : CodePoint) : Encodings.Ascii (escapeChar c) := by
  have hhex (n : Nat) : 0 < (hexDigit (n % 16)).val ∧ (hexDigit (n % 16)).val < 0x80 := by
    have hall : ∀ d : Fin 16, 0 < (hexDigit d.val).val ∧ (hexDigit d.val).val < 0x80 := by decide
    exact hall ⟨n % 16, Nat.mod_lt _ (by omega)⟩
  have hunicode (unit : CodePoint) : Encodings.Ascii (unicodeEscape unit) := by
    simp only [Encodings.Ascii, unicodeEscape, List.forall_mem_cons]
    exact ⟨by decide, by decide, hhex _, hhex _, hhex _, hhex _, List.forall_mem_nil _⟩
  rw [escapeChar]
  split
  · rename_i found letter hfind
    have hall : escapes.all (fun escape =>
        decide (0 < escape.2.val ∧ escape.2.val < 0x80)) = true := by decide
    have hletter := List.all_eq_true.mp hall _ (List.mem_of_find?_eq_some hfind)
    simp only [Encodings.Ascii, List.forall_mem_cons]
    exact ⟨by decide, of_decide_eq_true hletter, List.forall_mem_nil _⟩
  split
  · rename_i hprint
    intro d hd
    obtain rfl := List.mem_singleton.mp hd
    omega
  split
  · exact hunicode c
  · exact fun d hd => (List.mem_append.mp hd).elim (hunicode _ d) (hunicode _ d)

theorem ascii_cons {c : CodePoint} {s : Str} (hc : 0 < c.val ∧ c.val < 0x80)
    (hs : Encodings.Ascii s) : Encodings.Ascii (c :: s) := List.forall_mem_cons.mpr ⟨hc, hs⟩

theorem ascii_append {s t : Str} (hs : Encodings.Ascii s) (ht : Encodings.Ascii t) :
    Encodings.Ascii (s ++ t) := fun c hc => (List.mem_append.mp hc).elim (hs c) (ht c)

theorem ascii_flat_map {α : Type} {elements : List α} {write : α → Str}
    (h : ∀ e ∈ elements, Encodings.Ascii (write e)) : Encodings.Ascii (elements.flatMap write) := by
  intro c hc
  obtain ⟨e, he, hmem⟩ := List.mem_flatMap.mp hc
  exact h e he c hmem

theorem ascii_quoted (s : Str) : Encodings.Ascii (quoted s) :=
  ascii_cons (by decide) (ascii_append (ascii_flat_map fun c _ => ascii_escape c)
    (ascii_cons (by decide) (List.forall_mem_nil _)))

theorem ascii_int (n : Int) : Encodings.Ascii (intText n) := by
  have hdigits : Encodings.Ascii (digits n.natAbs) := by
    intro c hc
    have hdigit := digits_are hc
    simp only [isDigit, decide_eq_true_eq, Fin.le_def] at hdigit
    have hzero : (ord '0').val = 48 := rfl
    have hnine : (ord '9').val = 57 := rfl
    omega
  rw [intText]
  split
  · exact ascii_cons (by decide) hdigits
  · exact hdigits

theorem ascii_scalar {value : Value} (h : Fits 0 value) :
    Encodings.Ascii (text floats gap value) := by
  have hword {word : String}
      (h : word.toList.all (fun c => decide (0 < c.toNat ∧ c.toNat < 0x80)) = true) :
      Encodings.Ascii (ofString word) := by
    intro c hc
    obtain ⟨letter, hletter, rfl⟩ := List.mem_map.mp hc
    exact of_decide_eq_true (List.all_eq_true.mp h letter hletter)
  cases value with
  | null => exact hword (by decide)
  | bool b => cases b <;> exact hword (by decide)
  | int n => exact ascii_int n
  | float x => exact absurd h id
  | str s => exact ascii_quoted s
  | array items => exact absurd h id
  | object members => exact absurd h id

/-- Only ASCII is written. -/
theorem ascii_text (hgap : Encodings.Ascii gap) {depth : Nat} {value : Value}
    (h : Fits depth value) : Encodings.Ascii (text floats gap value) := by
  induction depth generalizing value with
  | zero => exact ascii_scalar floats h
  | succ depth ih =>
      cases value with
      | null => exact ascii_scalar floats (show Fits 0 .null from h)
      | bool b => exact ascii_scalar floats (show Fits 0 (.bool b) from h)
      | int n => exact ascii_scalar floats (show Fits 0 (.int n) from h)
      | float x => exact absurd h id
      | str s => exact ascii_scalar floats (show Fits 0 (.str s) from h)
      | array items =>
          refine ascii_cons (by decide) (ascii_append ?_ (ascii_cons (by decide)
            (List.forall_mem_nil _)))
          cases items with
          | nil => exact List.forall_mem_nil _
          | cons item items =>
              rw [textItems, text_more_items]
              exact ascii_append (ih (h item List.mem_cons_self)) (ascii_flat_map fun e he =>
                ascii_append (ascii_cons (by decide) hgap) (ih (h e (List.mem_cons_of_mem _ he))))
      | object members =>
          have hmember : ∀ m ∈ members, Encodings.Ascii (textMember floats gap m) := fun m hm =>
            ascii_append (ascii_append (ascii_quoted m.1) (ascii_cons (by decide) hgap))
              (ih (h.2 m hm).2)
          refine ascii_cons (by decide) (ascii_append ?_ (ascii_cons (by decide)
            (List.forall_mem_nil _)))
          cases members with
          | nil => exact List.forall_mem_nil _
          | cons member members =>
              rw [textMembers, text_more_members]
              exact ascii_append (hmember member List.mem_cons_self) (ascii_flat_map fun m hm =>
                ascii_append (ascii_cons (by decide) hgap)
                  (hmember m (List.mem_cons_of_mem _ hm)))

end CatalogApi.Json
