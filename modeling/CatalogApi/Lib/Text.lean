import Mathlib.Data.List.Basic

/-!
# Text

The string operations of Python that build and take apart colon-separated names: join and split,
prefixes, decimal digits and case. Strings are taken as their lists of characters, and the digit
and case tests are those of ASCII.
-/

namespace CatalogApi.Text

/-- `sep.join(parts)` for a separator of one character. -/
def join (sep : Char) (parts : List String) : String :=
  .ofList ([sep].intercalate (parts.map (·.toList)))

/-- `text.split(sep)` for a separator of one character. -/
def split (sep : Char) (text : String) : List String :=
  (text.toList.splitOn sep).map .ofList

/-- `text.removeprefix(head)` when `text.startswith(head)`. -/
def afterPrefix (head text : String) : Option String :=
  if head.toList <+: text.toList then some (.ofList (text.toList.drop head.length)) else none

/-- `text.isdigit()`. -/
def isDigit (text : String) : Bool :=
  text.toList ≠ [] ∧ text.toList.all (·.isDigit)

/-- `int(text)` of a text of digits. -/
def toInt (text : String) : Nat :=
  text.toList.foldl (fun value digit => 10 * value + (digit.toNat - 48)) 0

/-- `text.lower()`. -/
def lower (text : String) : String :=
  .ofList (text.toList.map (·.toLower))

/-- The text does not contain the character. -/
def Lacks (c : Char) (text : String) : Prop :=
  c ∉ text.toList

instance (c : Char) (text : String) : Decidable (Lacks c text) :=
  inferInstanceAs (Decidable (¬_))

/-! ## Join and split -/

theorem split_join {sep : Char} {parts : List String} (hparts : parts ≠ [])
    (hlacks : ∀ part ∈ parts, Lacks sep part) : split sep (join sep parts) = parts := by
  rw [split, join, String.toList_ofList, List.splitOn_intercalate, List.map_map]
  · simp [Function.comp_def]
  · intro chars hchars
    obtain ⟨part, hpart, rfl⟩ := List.mem_map.mp hchars
    exact hlacks part hpart
  · simpa using hparts

theorem join_split (sep : Char) (text : String) : join sep (split sep text) = text := by
  rw [split, join, List.map_map]
  have hid : (String.toList ∘ String.ofList) = id := String.toList_comp_ofList
  rw [hid, List.map_id, List.intercalate_splitOn, String.ofList_toList]

/-- Non-empty lists of parts without the separator are told apart by their join. -/
theorem join_inj {sep : Char} {parts parts' : List String} (hparts : parts ≠ [])
    (hlacks : ∀ part ∈ parts, Lacks sep part) (hparts' : parts' ≠ [])
    (hlacks' : ∀ part ∈ parts', Lacks sep part) (h : join sep parts = join sep parts') :
    parts = parts' := by
  rw [← split_join hparts hlacks, h, split_join hparts' hlacks']

@[simp]
theorem to_list_join (sep : Char) (parts : List String) :
    (join sep parts).toList = [sep].intercalate (parts.map (·.toList)) := by
  rw [join, String.toList_ofList]

theorem mem_intercalate {sep c : Char} {parts : List (List Char)}
    (h : c ∈ [sep].intercalate parts) : c = sep ∨ ∃ part ∈ parts, c ∈ part := by
  induction parts with
  | nil => cases h
  | cons part parts ih =>
      cases parts with
      | nil =>
          rw [List.intercalate_singleton] at h
          exact Or.inr ⟨part, List.mem_cons_self, h⟩
      | cons next parts =>
          rw [List.intercalate_cons_cons] at h
          simp only [List.mem_append, List.mem_singleton] at h
          rcases h with (h | h) | h
          · exact Or.inr ⟨part, List.mem_cons_self, h⟩
          · exact Or.inl h
          · rcases ih h with heq | ⟨other, hother, hc⟩
            · exact Or.inl heq
            · exact Or.inr ⟨other, List.mem_cons_of_mem _ hother, hc⟩

/-- A join lacks what its separator is not and its parts lack. -/
theorem lacks_join {sep c : Char} {parts : List String} (hsep : c ≠ sep)
    (hparts : ∀ part ∈ parts, Lacks c part) : Lacks c (join sep parts) := by
  intro hc
  rw [to_list_join] at hc
  rcases mem_intercalate hc with heq | ⟨chars, hchars, hmem⟩
  · exact hsep heq
  · obtain ⟨part, hpart, rfl⟩ := List.mem_map.mp hchars
    exact hparts part hpart hmem

/-! ## Prefixes -/

@[simp]
theorem after_prefix_append (head text : String) : afterPrefix head (head ++ text) = some text := by
  rw [afterPrefix, String.toList_append, if_pos (List.prefix_append _ _)]
  rw [← String.length_toList, List.drop_left, String.ofList_toList]

theorem after_prefix_eq_some {head text rest : String} :
    afterPrefix head text = some rest ↔ text = head ++ rest := by
  constructor
  · intro h
    unfold afterPrefix at h
    split at h
    · rename_i hprefix
      obtain ⟨tail, htail⟩ := hprefix
      obtain rfl := Option.some.inj h
      rw [← String.toList_inj, String.toList_append, String.toList_ofList, ← htail,
        ← String.length_toList, List.drop_left]
    · cases h
  · rintro rfl
    exact after_prefix_append head rest

/-- A text does not start with what its own start rules out. -/
theorem after_prefix_none {head start : String} (h : ¬head.toList <+: start.toList)
    (h' : ¬start.toList <+: head.toList) (text : String) :
    afterPrefix head (start ++ text) = none := by
  rw [afterPrefix, String.toList_append, if_neg]
  intro hprefix
  rcases List.prefix_or_prefix_of_prefix hprefix (List.prefix_append start.toList text.toList) with
    hle | hle
  · exact h hle
  · exact h' hle

/-! ## Digits -/

/-- Lists are cut apart again at the first of a separator. -/
theorem cut_inj {sep : Char} {a b rest rest' : List Char} (ha : sep ∉ a) (hb : sep ∉ b)
    (h : a ++ sep :: rest = b ++ sep :: rest') : a = b ∧ rest = rest' := by
  induction a generalizing b with
  | nil =>
      cases b with
      | nil => exact ⟨rfl, (List.cons.inj h).2⟩
      | cons c b => exact absurd ((List.cons.inj h).1 ▸ List.mem_cons_self) hb
  | cons c a ih =>
      cases b with
      | nil => exact absurd ((List.cons.inj h).1.symm ▸ List.mem_cons_self) ha
      | cons d b =>
          obtain ⟨rfl, htail⟩ := List.cons.inj h
          obtain ⟨rfl, hrest⟩ := ih (fun hin => ha (List.mem_cons_of_mem _ hin))
            (fun hin => hb (List.mem_cons_of_mem _ hin)) htail
          exact ⟨rfl, hrest⟩

theorem is_digit_char {text : String} (h : isDigit text) {c : Char} (hc : c ∈ text.toList) :
    c.isDigit := by
  have hall := (of_decide_eq_true h).2
  exact List.all_eq_true.mp hall c hc

theorem is_digit_ne_empty {text : String} (h : isDigit text) : text ≠ "" := by
  rintro rfl
  exact absurd h (by decide)

/-- Digits are neither colons nor plus signs. -/
theorem is_digit_lacks {text : String} (h : isDigit text) {c : Char} (hc : c.isDigit = false) :
    Lacks c text := by
  intro hmem
  rw [is_digit_char h hmem] at hc
  cases hc

end CatalogApi.Text
