import CatalogApi.Lib.Base64
import CatalogApi.Lib.JsonReading
import CatalogApi.Lib.JsonRoundTrip
import Mathlib.Tactic.NormNum

/-!
# The cursor of a tier page

`encode_tier_cursor` and `decode_tier_cursor` of `api/queries/rarity_queries.py`. The token is JSON
in Base64, and holds the tier, the `repr` of the score and the release id. A token that was encoded
reads back for its tier alone (`decode_encode_cursor`); any other token is refused or reads as a
position that the query takes (`decode_cursor_safe`).
-/

namespace CatalogApi.Rarity

open Json CodePoints

/-- `_BIGINT_MAX`. -/
def bigintMax : Int := 2 ^ 63 - 1

/-- `_REAL_MAX`. -/
def realMax : ℚ := 2 ^ 128 - 2 ^ 104

/-- `_REAL_MIN_NORMAL`. -/
def realMinNormal : ℚ := 1 / 2 ^ 126

/-- `math.isfinite(score)`, and the query takes it as a `REAL`. -/
def inRealRange (score : FloatValue) : Bool :=
  match score.number with
  | none => false
  | some value => |value| ≤ realMax ∧ (value = 0 ∨ realMinNormal ≤ |value|)

/-- The space that `json.dumps` puts after a comma. -/
def separatorGap : Str := [ord ' ']

/-- What a token holds. -/
def cursorValue (floats : Floats) (tier : Str) (score : FloatValue) (releaseId : Int) : Value :=
  .array [.str tier, .str (floats.repr score), .int releaseId]

/-- `encode_tier_cursor`. -/
def encodeTierCursor (floats : Floats) (tier : Str) (score : FloatValue) (releaseId : Int) :
    Except Failure Str :=
  (dumps floats separatorGap (cursorValue floats tier score releaseId)).map fun raw =>
    Base64.unpadded (Base64.encode (Encodings.encodeAscii raw))

/-- The tier, the text of the score and the release id; other values do not unpack into these. -/
def unpackCursor : Value → Option (Str × Str × Int)
  | .array [.str tier, .str scoreText, .int releaseId] => some (tier, scoreText, releaseId)
  | _ => none

/-- `decode_tier_cursor`; what escapes besides a `ValueError` is a `RecursionError`. -/
def decodeTierCursor (floats : Floats) (limit : Nat) (token tier : Str) :
    Except Failure (FloatValue × Int) :=
  match Base64.decode (Base64.padded token) with
  | none => .error .value
  | some raw =>
      match loads floats limit (.bytes raw) with
      | .error failure => .error failure
      | .ok data =>
          match unpackCursor data with
          | none => .error .value
          | some (cursorTier, scoreText, releaseId) =>
              match floats.float scoreText with
              | none => .error .value
              | some score =>
                  if cursorTier ≠ tier ∨ inRealRange score = false ∨
                      ¬(0 ≤ releaseId ∧ releaseId ≤ bigintMax) then .error .value
                  else .ok (score, releaseId)

/-! ## Reading back -/

variable {floats : Floats}

/-- `float(repr(score))` is the score, and the `repr` is no text with half of a pair of surrogates. -/
structure Exact (floats : Floats) (score : FloatValue) : Prop where
  read : floats.float (floats.repr score) = some score
  plain : NoSplitPair (floats.repr score)

/-- An id that a `BIGINT` holds and that is not negative. -/
def IsId (releaseId : Int) : Prop := 0 ≤ releaseId ∧ releaseId ≤ bigintMax

instance (releaseId : Int) : Decidable (IsId releaseId) :=
  inferInstanceAs (Decidable (_ ∧ _))

theorem digits_id {releaseId : Int} (h : IsId releaseId) :
    (Nat.toDigits 10 releaseId.natAbs).length ≤ 19 := by
  have hmax : bigintMax = 2 ^ 63 - 1 := rfl
  obtain ⟨hnonneg, hle⟩ := h
  rw [Nat.length_toDigits_le_iff (by omega) (by omega)]
  omega

theorem short_id {releaseId : Int} (h : IsId releaseId) : short (.int releaseId) = true := by
  have hdigits := digits_id h
  rw [short, decide_eq_true_eq, Numerals.maxStrDigits]
  omega

theorem length_id {releaseId : Int} (h : IsId releaseId) : (intText releaseId).length ≤ 19 := by
  rw [intText, if_neg (Int.not_lt.mpr h.1), digits, List.length_map]
  exact digits_id h

theorem fits_cursor {tier : Str} {score : FloatValue} {releaseId : Int}
    (htier : NoSplitPair tier) (hscore : Exact floats score) (hid : IsId releaseId) :
    Fits 1 (cursorValue floats tier score releaseId) := by
  have hitems : ∀ item ∈ [Value.str tier, .str (floats.repr score), .int releaseId],
      Fits 0 item := by
    simp only [List.forall_mem_cons]
    exact ⟨htier, hscore.plain, fits_int 0 (short_id hid), List.forall_mem_nil _⟩
  exact hitems

/-- The bytes of a token that was encoded are loaded as what the token holds. -/
theorem encoded_cursor_loads {limit : Nat} (hlimit : 1 ≤ limit) {tier : Str} {score : FloatValue}
    {releaseId : Int} (htier : NoSplitPair tier) (hscore : Exact floats score)
    (hid : IsId releaseId) :
    ∃ token raw, encodeTierCursor floats tier score releaseId = .ok token ∧
      Base64.decode (Base64.padded token) = some raw ∧
      loads floats limit (.bytes raw) = .ok (cursorValue floats tier score releaseId) := by
  have hgap : ∀ c ∈ separatorGap, isSpace c = true := by simp [separatorGap, isSpace]
  have hspace : Encodings.Ascii separatorGap := ascii_cons (by decide) (List.forall_mem_nil _)
  have hfits := fits_cursor htier hscore hid
  have hascii := ascii_text floats hspace hfits
  refine ⟨Base64.unpadded (Base64.encode (Encodings.encodeAscii
    (text floats separatorGap (cursorValue floats tier score releaseId)))), _, ?_,
    Base64.decode_unpadded _, ?_⟩
  · rw [encodeTierCursor, dumps_fitting floats hfits]
    rfl
  · rw [loads, Encodings.decode_ascii hascii]
    exact decode_fitting floats hgap (fits_deeper hlimit hfits)

/-- A token of a position is taken for its tier alone. -/
theorem decode_of_loads {limit : Nat} {token tier : Str} {raw : List UInt8} {score : FloatValue}
    {releaseId : Int} (hraw : Base64.decode (Base64.padded token) = some raw)
    (hload : loads floats limit (.bytes raw) = .ok (cursorValue floats tier score releaseId))
    (hscore : Exact floats score) (hrange : inRealRange score = true) (hid : IsId releaseId)
    (other : Str) :
    decodeTierCursor floats limit token other =
      if other = tier then .ok (score, releaseId) else .error .value := by
  rw [decodeTierCursor, hraw]
  dsimp only
  rw [hload]
  simp only [cursorValue, unpackCursor, hscore.read]
  by_cases hsame : other = tier
  · rw [if_pos hsame, if_neg]
    simp only [not_or, not_not]
    exact ⟨hsame.symm, ne_of_eq_of_ne hrange Bool.true_eq_false.mp, hid⟩
  · rw [if_neg hsame, if_pos (.inl fun h => hsame h.symm)]

/-- A token that was encoded reads back as its position for its tier, and for no other. -/
theorem decode_encode_cursor {limit : Nat} (hlimit : 1 ≤ limit) {tier : Str} {score : FloatValue}
    {releaseId : Int} (htier : NoSplitPair tier) (hscore : Exact floats score)
    (hrange : inRealRange score = true) (hid : IsId releaseId) :
    ∃ token, encodeTierCursor floats tier score releaseId = .ok token ∧
      ∀ other, decodeTierCursor floats limit token other =
        if other = tier then .ok (score, releaseId) else .error .value := by
  obtain ⟨token, raw, htoken, hraw, hload⟩ :=
    encoded_cursor_loads hlimit htier hscore hid
  exact ⟨token, htoken, decode_of_loads hraw hload hscore hrange hid⟩

/-- The score 41.5 and its text. -/
def halfScore : FloatValue := .finite (83 / 2)

/-- Python's floats as far as `halfScore` goes. -/
def halfFloats : Floats where
  float text := if text = ofString "41.5" then some halfScore else none
  repr _ := ofString "41.5"

theorem half_exact : Exact halfFloats halfScore where
  read := by simp [halfFloats]
  plain := no_split_string _

theorem half_in_range : inRealRange halfScore = true := by
  norm_num [inRealRange, halfScore, FloatValue.number, realMax, realMinNormal, abs_of_pos]

theorem half_decode_encode :
    ∃ token, encodeTierCursor halfFloats (ofString "common") halfScore 11 = .ok token ∧
      ∀ other, decodeTierCursor halfFloats 1 token other =
        if other = ofString "common" then .ok (halfScore, 11) else .error .value :=
  decode_encode_cursor (Nat.le_refl 1) (no_split_string _) half_exact half_in_range (by decide)

/-- A tier and a score that are not too long make a token that the route takes. -/
theorem length_cursor {tier : Str} {score : FloatValue} {releaseId : Int} (hid : IsId releaseId)
    (htier : (tier.flatMap escapeChar).length ≤ 139)
    (hscore : ((floats.repr score).flatMap escapeChar).length ≤ 24) {token : Str}
    (h : encodeTierCursor floats tier score releaseId = .ok token) : token.length ≤ 256 := by
  obtain ⟨raw, hraw, rfl⟩ := map_ok h
  have hdigits := length_id hid
  have hlength : raw.length ≤ 192 := by
    rw [dumps] at hraw
    split at hraw
    · rw [← Except.ok.inj hraw]
      simp only [cursorValue, text, textItems, textMoreItems, separatorGap, quoted, List.length_cons,
        List.length_append, List.length_nil]
      omega
    · cases hraw
  rw [Base64.length_unpadded, Encodings.encodeAscii, List.length_map]
  omega

/-! ## Any token -/

theorem length_padded (token : Str) : (Base64.padded token).length ≤ token.length + 3 := by
  rw [Base64.padded, List.length_append, List.length_replicate]
  omega

/-- No token for which there is room on the stack is too deeply nested. -/
theorem loads_cursor {limit : Nat} {token : Str} (h : token.length + 3 ≤ limit)
    {raw : List UInt8} (hraw : Base64.decode (Base64.padded token) = some raw) :
    loads floats limit (.bytes raw) ≠ .error .recursion := by
  have hlength := Base64.length_decode hraw
  have hpadded := length_padded token
  rw [loads]
  split
  · rename_i s hs
    have htext := Encodings.length_decode hs
    exact decode_text_deep floats (by omega)
  · exact fun h => by cases h

/-- What a token reads as names its tier, and is a position that the query takes. -/
theorem decode_cursor_ok {limit : Nat} {token tier : Str} {score : FloatValue} {releaseId : Int}
    (h : decodeTierCursor floats limit token tier = .ok (score, releaseId)) :
    (inRealRange score = true ∧ IsId releaseId) ∧
      ∀ other, other ≠ tier → decodeTierCursor floats limit token other = .error .value := by
  unfold decodeTierCursor at h ⊢
  split at h
  · cases h
  · split at h
    · cases h
    · split at h
      · cases h
      · split at h
        · cases h
        · split at h
          · cases h
          · rename_i hcheck
            simp only [not_or, not_not] at hcheck
            obtain ⟨htier, hrange, hid⟩ := hcheck
            obtain ⟨rfl, rfl⟩ := Prod.mk.inj (Except.ok.inj h)
            refine ⟨⟨Bool.eq_true_of_not_eq_false hrange, hid⟩, fun other hother => ?_⟩
            rw [if_pos (.inl fun heq => hother (heq.symm.trans htier))]

/-- No token for which there is room on the stack fails with a `RecursionError`. -/
theorem decode_cursor_shallow {limit : Nat} {token tier : Str} (h : token.length + 3 ≤ limit) :
    decodeTierCursor floats limit token tier ≠ .error .recursion := by
  intro hdecode
  unfold decodeTierCursor at hdecode
  split at hdecode
  · cases hdecode
  · rename_i raw hraw
    split at hdecode
    · rename_i failure hfailure
      rw [Except.error.inj hdecode] at hfailure
      exact absurd hfailure (loads_cursor h hraw)
    · split at hdecode
      · cases hdecode
      · split at hdecode
        · cases hdecode
        · split at hdecode <;> cases hdecode

/-- Any token is refused with a `ValueError`, or reads as a position that the query takes and is
refused for every other tier. -/
theorem decode_cursor_safe (floats : Floats) {limit : Nat} {token : Str}
    (h : token.length + 3 ≤ limit) (tier : Str) :
    decodeTierCursor floats limit token tier = .error .value ∨
      ∃ score releaseId, decodeTierCursor floats limit token tier = .ok (score, releaseId) ∧
        (inRealRange score = true ∧ IsId releaseId) ∧
        ∀ other, other ≠ tier → decodeTierCursor floats limit token other = .error .value := by
  cases hdecode : decodeTierCursor floats limit token tier with
  | ok position =>
      obtain ⟨score, releaseId⟩ := position
      exact .inr ⟨score, releaseId, rfl, decode_cursor_ok hdecode⟩
  | error failure =>
      cases failure with
      | value => exact .inl rfl
      | recursion => exact absurd hdecode (decode_cursor_shallow h)

/-- A token that is no Base64 of JSON. -/
theorem decode_cursor_other_token :
    decodeTierCursor halfFloats 6 (ofString "abc") (ofString "common") = .error .value ∨
      ∃ score releaseId, decodeTierCursor halfFloats 6 (ofString "abc") (ofString "common") =
          .ok (score, releaseId) ∧
        (inRealRange score = true ∧ IsId releaseId) ∧
        ∀ other, other ≠ ofString "common" →
          decodeTierCursor halfFloats 6 (ofString "abc") other = .error .value :=
  decode_cursor_safe halfFloats (by decide) (ofString "common")

end CatalogApi.Rarity
