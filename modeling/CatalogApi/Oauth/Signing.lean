import CatalogApi.Lib.Folds
import CatalogApi.Lib.PercentEncoding
import CatalogApi.Lib.Updates
import Mathlib.Algebra.Ring.Nat
import Mathlib.Data.String.Basic

/-!
# Signed requests to Discogs

The OAuth 1.0a signatures of `api/oauth.py` and the requests of `api/services/discogs.py` that carry
them. The keyed hash (HMAC-SHA1 in base64) is the parameter `mac`. A provider that reads the header
back and signs what it read finds the signature it was sent (`sent_request_accepted`), and what is
signed determines the request (`signature_inputs_eq_iff`).
-/

namespace CatalogApi.Oauth

open ByKey Folds PercentEncoding Text

/-- The parameters of a request. -/
abbrev Params := Dict String String

/-- `method.upper()` of an ASCII method. -/
def upper (method : String) : String :=
  .ofList (method.toList.map (·.toUpper))

/-- One parameter of the signature base. -/
def parameter (pair : String × String) : String :=
  quote pair.1 ++ "=" ++ quote pair.2

/-- `parameter_string`, of parameters in order. -/
def parameterString (pairs : List (String × String)) : String :=
  join '&' (pairs.map parameter)

/-- `signature_base`, of parameters in order. -/
def signatureBase (method url : String) (pairs : List (String × String)) : String :=
  join '&' [quote (upper method), quote url, quote (parameterString pairs)]

/-- `signing_key`. -/
def signingKey (consumerSecret tokenSecret : String) : String :=
  quote consumerSecret ++ "&" ++ quote tokenSecret

/-- `_hmac_sha1_signature`. -/
def hmacSha1Signature (mac : String → String → String) (method url : String) (params : Params)
    (consumerSecret tokenSecret : String) : String :=
  mac (signingKey consumerSecret tokenSecret) (signatureBase method url (sortedItems params))

/-- One parameter of the header. -/
def headerParameter (pair : String × String) : String :=
  pair.1 ++ "=\"" ++ quote pair.2 ++ "\""

/-- `_build_oauth_header`. -/
def buildOauthHeader (params : Params) : String :=
  "OAuth " ++ .ofList ([',', ' '].intercalate
    ((sortedItems params).map fun pair => (headerParameter pair).toList))

/-! ## The requests -/

/-- A dictionary of these items. -/
def paramsOf (pairs : List (String × String)) : Params :=
  pairs.foldl (fun params pair => params.set pair.1 pair.2) .empty

/-- The requests of the authorization flow. -/
inductive Request where
  | requestToken (callbackUrl : Option String)
  | exchangeVerifier (oauthToken oauthTokenSecret oauthVerifier : String)
  | fetchIdentity (accessToken accessTokenSecret : String)

/-- The method that is signed. -/
def Request.method : Request → String
  | requestToken _ => "GET"
  | exchangeVerifier _ _ _ => "POST"
  | fetchIdentity _ _ => "GET"

/-- The URL that is signed. -/
def Request.url : Request → String
  | requestToken _ => "https://api.discogs.com/oauth/request_token"
  | exchangeVerifier _ _ _ => "https://api.discogs.com/oauth/access_token"
  | fetchIdentity _ _ => "https://api.discogs.com/oauth/identity"

/-- The token secret that is signed with. -/
def Request.tokenSecret : Request → String
  | requestToken _ => ""
  | exchangeVerifier _ secret _ => secret
  | fetchIdentity _ secret => secret

/-- `callback_url if callback_url else "oob"`. -/
def callback : Option String → String
  | none => "oob"
  | some url => if url = "" then "oob" else url

/-- The items of `oauth_params` before it is signed. -/
def Request.items (consumerKey nonce timestamp : String) : Request → List (String × String)
  | requestToken callbackUrl =>
      [("oauth_callback", callback callbackUrl), ("oauth_consumer_key", consumerKey),
        ("oauth_nonce", nonce), ("oauth_signature_method", "HMAC-SHA1"),
        ("oauth_timestamp", timestamp), ("oauth_version", "1.0")]
  | exchangeVerifier oauthToken _ oauthVerifier =>
      [("oauth_consumer_key", consumerKey), ("oauth_nonce", nonce),
        ("oauth_signature_method", "HMAC-SHA1"), ("oauth_timestamp", timestamp),
        ("oauth_token", oauthToken), ("oauth_verifier", oauthVerifier), ("oauth_version", "1.0")]
  | fetchIdentity accessToken _ =>
      [("oauth_consumer_key", consumerKey), ("oauth_nonce", nonce),
        ("oauth_signature_method", "HMAC-SHA1"), ("oauth_timestamp", timestamp),
        ("oauth_token", accessToken), ("oauth_version", "1.0")]

/-- `oauth_params` with the signature. -/
def signed (mac : String → String → String) (method url : String) (params : Params)
    (consumerSecret tokenSecret : String) : Params :=
  params.set "oauth_signature" (hmacSha1Signature mac method url params consumerSecret tokenSecret)

/-- The `Authorization` header of a request. -/
def Request.header (mac : String → String → String) (consumerKey consumerSecret nonce
    timestamp : String) (request : Request) : String :=
  buildOauthHeader (signed mac request.method request.url
    (paramsOf (request.items consumerKey nonce timestamp)) consumerSecret request.tokenSecret)

/-! ## The provider -/

/-- A parameter of a header, `key="value"` after blanks, as a provider reads it. -/
def readParameter (part : String) : Option (String × String) :=
  let chars := part.toList.dropWhile (· = ' ')
  let key := chars.takeWhile (· ≠ '=')
  match chars.drop key.length with
  | '=' :: '"' :: rest =>
      if rest.getLast? = some '"' then
        some (unquote (.ofList key), unquote (.ofList rest.dropLast))
      else none
  | _ => none

/-- The parameters of a header as a provider reads them. -/
def readHeader (header : String) : Option (List (String × String)) :=
  (afterPrefix "OAuth " header).bind fun rest => (split ',' rest).mapM readParameter

/-- The provider signs what it read, less the signature, and compares. -/
def accepts (mac : String → String → String) (method url header consumerSecret
    tokenSecret : String) : Bool :=
  match readHeader header with
  | none => false
  | some pairs =>
      let rest := pairs.filter fun pair => pair.1 ≠ "oauth_signature"
      (pairs.find? fun pair => pair.1 = "oauth_signature").map (·.2) =
        some (mac (signingKey consumerSecret tokenSecret)
          (signatureBase method url (sortBy (·.1) rest)))

/-! ## Reading a header back -/

/-- A key that quoting leaves as it is. -/
def Plain (key : String) : Prop := quote key = key

instance (key : String) : Decidable (Plain key) := inferInstanceAs (Decidable (_ = _))

theorem Plain.lacks {key : String} (h : Plain key) {c : Char} (hc : quotedChar c = false) :
    Lacks c key := by
  have hlacks := quote_lacks hc key
  rwa [h] at hlacks

theorem Plain.unquote {key : String} (h : Plain key) : unquote key = key := by
  conv_lhs => rw [← h]
  exact unquote_quote key

theorem to_list_header_parameter (pair : String × String) : (headerParameter pair).toList =
    pair.1.toList ++ '=' :: '"' :: ((quote pair.2).toList ++ ['"']) := by
  simp [headerParameter, String.toList_append]

/-- A header parameter is read back. -/
theorem read_header_parameter {pair : String × String} (h : Plain pair.1) (blanks : Nat) :
    readParameter (.ofList (List.replicate blanks ' ' ++ (headerParameter pair).toList)) =
      some pair := by
  have hblank : ' ' ∉ pair.1.toList := h.lacks (by decide)
  have hequals : '=' ∉ pair.1.toList := h.lacks (by decide)
  -- the key itself holds no blank, so the blanks before it are all that is dropped
  have hdrop : (List.replicate blanks ' ' ++ (headerParameter pair).toList).dropWhile (· = ' ') =
      (headerParameter pair).toList := by
    rw [List.dropWhile_append_of_pos (by simp), to_list_header_parameter]
    cases hkey : pair.1.toList with
    | nil => rfl
    | cons c rest =>
        have hc : c ≠ ' ' := fun heq => hblank (by rw [hkey, heq]; exact List.mem_cons_self)
        simp [hc]
  have hkey : (headerParameter pair).toList.takeWhile (· ≠ '=') = pair.1.toList := by
    rw [to_list_header_parameter, List.takeWhile_append_of_pos]
    · simp
    · intro c hc
      exact decide_eq_true fun heq => hequals (heq ▸ hc)
  have hrest : (headerParameter pair).toList.drop pair.1.toList.length =
      '=' :: '"' :: ((quote pair.2).toList ++ ['"']) := by
    rw [to_list_header_parameter, List.drop_left]
  unfold readParameter
  rw [String.toList_ofList, hdrop]
  dsimp only
  rw [hkey, hrest]
  simp [h.unquote]

/-- A separator of two characters is a separator of one and a blank before each further part. -/
theorem intercalate_blank (parts : List (List Char)) (part : List Char) :
    [',', ' '].intercalate (part :: parts) =
      [','].intercalate (part :: parts.map fun part => ' ' :: part) := by
  induction parts generalizing part with
  | nil => rfl
  | cons next parts ih =>
      rw [List.intercalate_cons_cons, ih, List.map_cons, List.intercalate_cons_cons]
      cases parts with
      | nil => simp
      | cons third parts => simp [List.intercalate_cons_cons]

/-- The parts after the first, each behind a blank, read back as their parameters. -/
theorem read_parameters {pairs : List (String × String)} (h : ∀ pair ∈ pairs, Plain pair.1) :
    (pairs.map fun pair => String.ofList (' ' :: (headerParameter pair).toList)).mapM
      readParameter = some pairs := by
  induction pairs with
  | nil => rfl
  | cons pair pairs ih =>
      rw [List.forall_mem_cons] at h
      have hread : readParameter (.ofList (' ' :: (headerParameter pair).toList)) = some pair :=
        read_header_parameter h.1 1
      rw [List.map_cons, List.mapM_cons, hread, ih h.2]
      rfl

theorem header_parameter_lacks {pair : String × String} (h : Plain pair.1) :
    Lacks ',' (headerParameter pair) := by
  intro hc
  have hkey : ',' ∉ pair.1.toList := h.lacks (by decide)
  have hvalue : ',' ∉ (quote pair.2).toList := quote_lacks (by decide) pair.2
  rw [to_list_header_parameter] at hc
  simp [hkey, hvalue] at hc

/-- No parameter holds a comma, so a header splits into its parameters. -/
theorem split_header {first : String × String} {rest : List (String × String)}
    (h : ∀ pair ∈ first :: rest, Plain pair.1) :
    split ',' (.ofList ([',', ' '].intercalate
      ((first :: rest).map fun pair => (headerParameter pair).toList))) =
        headerParameter first ::
          rest.map fun pair => .ofList (' ' :: (headerParameter pair).toList) := by
  rw [List.map_cons, intercalate_blank, List.map_map, split, String.toList_ofList,
    List.splitOn_intercalate]
  · simp [Function.comp_def]
  · intro chars hchars
    rcases List.mem_cons.mp hchars with heq | hchars
    · rw [heq]
      exact header_parameter_lacks (h first List.mem_cons_self)
    · obtain ⟨pair, hpair, rfl⟩ := List.mem_map.mp hchars
      have hlack : ',' ∉ (headerParameter pair).toList :=
        header_parameter_lacks (h pair (List.mem_cons_of_mem first hpair))
      simpa using hlack
  · simp

/-- What a provider reads of a header are the parameters in order. -/
theorem read_build_header {params : Params} (hne : params.entries ≠ [])
    (hplain : ∀ key ∈ params.keys, Plain key) :
    readHeader (buildOauthHeader params) = some (sortedItems params) := by
  have hitemsPlain : ∀ pair ∈ sortedItems params, Plain pair.1 := fun pair hpair =>
    hplain pair.1 (List.mem_map_of_mem (mem_sort_by.mp hpair))
  rw [readHeader, buildOauthHeader, after_prefix_append, Option.bind_some]
  cases hitems : sortedItems params with
  | nil => exact absurd (sort_by_eq_nil.mp hitems) hne
  | cons first rest =>
      rw [hitems] at hitemsPlain
      have hfirst : readParameter (headerParameter first) = some first := by
        have hread := read_header_parameter (hitemsPlain first List.mem_cons_self) 0
        simpa using hread
      have hrest := read_parameters fun pair hpair =>
        hitemsPlain pair (List.mem_cons_of_mem first hpair)
      rw [split_header hitemsPlain, List.mapM_cons, hfirst, hrest]
      rfl

/-! ## A provider accepts what is sent -/

theorem mem_keys_set {params : Params} {key name value : String}
    (h : key ∈ (params.set name value).keys) : key = name ∨ key ∈ params.keys := by
  obtain ⟨held, hheld⟩ := Dict.mem_keys.mp h
  rw [Dict.get_set] at hheld
  by_cases heq : key = name
  · exact .inl heq
  · rw [if_neg heq] at hheld
    exact .inr (Dict.mem_keys.mpr ⟨held, hheld⟩)

theorem mem_keys_foldl {key : String} (pairs : List (String × String)) (params : Params)
    (h : key ∈ (pairs.foldl (fun params pair => params.set pair.1 pair.2) params).keys) :
    key ∈ params.keys ∨ key ∈ pairs.map (·.1) := by
  induction pairs generalizing params with
  | nil => exact .inl h
  | cons pair pairs ih =>
      rcases ih (params.set pair.1 pair.2) h with hset | hmem
      · rcases mem_keys_set hset with rfl | hkey
        · exact .inr List.mem_cons_self
        · exact .inl hkey
      · exact .inr (List.mem_cons_of_mem _ hmem)

theorem mem_params_of {pairs : List (String × String)} {key : String}
    (h : key ∈ (paramsOf pairs).keys) : key ∈ pairs.map (·.1) :=
  (mem_keys_foldl pairs .empty h).resolve_left List.not_mem_nil

/-- A signed request reads back, and the provider finds the signature it was sent. -/
theorem signed_accepted (mac : String → String → String) (method url consumerSecret
    tokenSecret : String) {params : Params} (hplain : ∀ key ∈ params.keys, Plain key)
    (hunsigned : params.get? "oauth_signature" = none) :
    readHeader (buildOauthHeader (signed mac method url params consumerSecret tokenSecret)) =
        some (sortedItems (signed mac method url params consumerSecret tokenSecret)) ∧
      accepts mac method url (buildOauthHeader
        (signed mac method url params consumerSecret tokenSecret)) consumerSecret tokenSecret := by
  have hentries := Dict.set_of_absent hunsigned
    (hmacSha1Signature mac method url params consumerSecret tokenSecret)
  have hread : readHeader (buildOauthHeader
      (signed mac method url params consumerSecret tokenSecret)) =
        some (sortedItems (signed mac method url params consumerSecret tokenSecret)) := by
    refine read_build_header ?_ fun key hkey => ?_
    · rw [signed, hentries]
      simp
    · rw [signed, Dict.keys, hentries, List.map_append, List.mem_append] at hkey
      rcases hkey with hkey | hkey
      · exact hplain key hkey
      · obtain rfl : key = "oauth_signature" := by simpa using hkey
        decide
  refine ⟨hread, ?_⟩
  -- what was read, less the signature, is what was signed
  have hsignature : ((sortedItems (signed mac method url params consumerSecret tokenSecret)).find?
      fun pair => pair.1 = "oauth_signature").map (·.2) =
        some (hmacSha1Signature mac method url params consumerSecret tokenSecret) := by
    rw [find_sorted_items, signed, Dict.get_set, if_pos rfl]
  have hrest : sortBy (·.1) ((sortedItems (signed mac method url params consumerSecret
      tokenSecret)).filter fun pair => pair.1 ≠ "oauth_signature") = sortedItems params := by
    have hkept : params.entries.filter (fun pair => pair.1 ≠ "oauth_signature") =
        params.entries := by
      refine List.filter_eq_self.mpr fun pair hpair => decide_eq_true fun heq => ?_
      exact Dict.get_eq_none.mp hunsigned (heq ▸ List.mem_map_of_mem hpair)
    -- the order of the entries does not matter, for their keys are distinct
    have hperm : ((sortedItems (signed mac method url params consumerSecret tokenSecret)).filter
        fun pair => pair.1 ≠ "oauth_signature").Perm params.entries := by
      refine ((sort_by_perm _ _).filter _).trans ?_
      rw [signed, hentries, List.filter_append, hkept]
      simp
    refine sort_by_eq_of_perm hperm fun a ha b hb heq => ?_
    exact List.inj_on_of_nodup_map params.nodup (hperm.mem_iff.mp ha) (hperm.mem_iff.mp hb) heq
  rw [accepts, hread]
  dsimp only
  rw [hsignature, hrest]
  exact decide_eq_true rfl

/-- Every request of the flow reads back as its parameters, and a provider with the same secrets
finds the signature it was sent. -/
theorem sent_request_accepted (mac : String → String → String) (consumerKey consumerSecret nonce
    timestamp : String) (request : Request) :
    readHeader (request.header mac consumerKey consumerSecret nonce timestamp) =
        some (sortedItems (signed mac request.method request.url
          (paramsOf (request.items consumerKey nonce timestamp)) consumerSecret
          request.tokenSecret)) ∧
      accepts mac request.method request.url
        (request.header mac consumerKey consumerSecret nonce timestamp) consumerSecret
        request.tokenSecret := by
  have hnames : (request.items consumerKey nonce timestamp).map (·.1) ⊆
      ["oauth_callback", "oauth_consumer_key", "oauth_nonce", "oauth_signature_method",
        "oauth_timestamp", "oauth_token", "oauth_verifier", "oauth_version"] := by
    cases request with
    | requestToken callbackUrl => simp [Request.items]
    | exchangeVerifier oauthToken oauthTokenSecret oauthVerifier => simp [Request.items]
    | fetchIdentity accessToken accessTokenSecret => simp [Request.items]
  have hplain : ["oauth_callback", "oauth_consumer_key", "oauth_nonce", "oauth_signature_method",
      "oauth_timestamp", "oauth_token", "oauth_verifier", "oauth_version"].all
        fun key => Plain key := by decide
  refine signed_accepted mac _ _ _ _ (fun key hkey => ?_) (Dict.get_eq_none.mpr fun hkey => ?_)
  · exact of_decide_eq_true (List.all_eq_true.mp hplain key (hnames (mem_params_of hkey)))
  · have hmem := hnames (mem_params_of hkey)
    simp at hmem

/-! ## What is signed determines the request -/

theorem parameter_inj {pair pair' : String × String} (h : parameter pair = parameter pair') :
    pair = pair' := by
  have hlist := congrArg String.toList h
  simp only [parameter, String.toList_append] at hlist
  have hcut : (quote pair.1).toList ++ '=' :: (quote pair.2).toList =
      (quote pair'.1).toList ++ '=' :: (quote pair'.2).toList := by simpa using hlist
  obtain ⟨hkey, hvalue⟩ := cut_inj (quote_lacks (by decide) pair.1)
    (quote_lacks (by decide) pair'.1) hcut
  exact Prod.ext (quote_inj.mp (String.toList_inj.mp hkey))
    (quote_inj.mp (String.toList_inj.mp hvalue))

theorem parameter_lacks (pair : String × String) : Lacks '&' (parameter pair) := by
  intro hc
  have hkey : '&' ∉ (quote pair.1).toList := quote_lacks (by decide) pair.1
  have hvalue : '&' ∉ (quote pair.2).toList := quote_lacks (by decide) pair.2
  simp [parameter, String.toList_append, hkey, hvalue] at hc

theorem parameter_string_ne_empty (pair : String × String) (pairs : List (String × String)) :
    parameterString (pair :: pairs) ≠ "" := by
  intro h
  have hlist := congrArg String.toList h
  rw [parameterString, to_list_join] at hlist
  cases pairs with
  | nil => simp [parameter, String.toList_append] at hlist
  | cons next pairs => simp [parameter, String.toList_append, List.intercalate_cons_cons] at hlist

theorem parameter_string_inj {pairs pairs' : List (String × String)}
    (h : parameterString pairs = parameterString pairs') : pairs = pairs' := by
  -- joining no parameters and joining one empty text look alike, but no parameter is empty
  cases pairs with
  | nil =>
      cases pairs' with
      | nil => rfl
      | cons pair' pairs' => exact absurd h.symm (parameter_string_ne_empty pair' pairs')
  | cons pair pairs =>
      cases pairs' with
      | nil => exact absurd h (parameter_string_ne_empty pair pairs)
      | cons pair' pairs' =>
          have hlacks : ∀ pairs : List (String × String), ∀ part ∈ pairs.map parameter,
              Lacks '&' part := by
            intro pairs part hpart
            obtain ⟨pair, -, rfl⟩ := List.mem_map.mp hpart
            exact parameter_lacks pair
          have hparts := join_inj (by simp) (hlacks _) (by simp) (hlacks _) h
          exact List.map_injective_iff.mpr (fun _ _ => parameter_inj) hparts

theorem signature_base_inj {method method' url url' : String}
    {pairs pairs' : List (String × String)}
    (h : signatureBase method url pairs = signatureBase method' url' pairs') :
    upper method = upper method' ∧ url = url' ∧ pairs = pairs' := by
  have hlacks : ∀ method url params : String, ∀ part ∈ [quote method, quote url, quote params],
      Lacks '&' part := by
    intro method url params part hpart
    simp only [List.mem_cons, List.not_mem_nil, or_false] at hpart
    obtain rfl | rfl | rfl := hpart
    · exact quote_lacks (by decide) method
    · exact quote_lacks (by decide) url
    · exact quote_lacks (by decide) params
  have hparts := join_inj (by simp) (hlacks _ _ _) (by simp) (hlacks _ _ _) h
  simp only [List.cons.injEq, quote_inj, and_true] at hparts
  exact ⟨hparts.1, hparts.2.1, parameter_string_inj hparts.2.2⟩

theorem signing_key_inj {consumer consumer' token token' : String}
    (h : signingKey consumer token = signingKey consumer' token') :
    consumer = consumer' ∧ token = token' := by
  have hlist := congrArg String.toList h
  simp only [signingKey, String.toList_append] at hlist
  have hcut : (quote consumer).toList ++ '&' :: (quote token).toList =
      (quote consumer').toList ++ '&' :: (quote token').toList := by simpa using hlist
  obtain ⟨hconsumer, htoken⟩ := cut_inj (quote_lacks (by decide) consumer)
    (quote_lacks (by decide) consumer') hcut
  exact ⟨quote_inj.mp (String.toList_inj.mp hconsumer), quote_inj.mp (String.toList_inj.mp htoken)⟩

/-- Two signatures hash the same key and text exactly when the secrets, the method but for case,
the URL and all parameters agree. -/
theorem signature_inputs_eq_iff (method method' url url' consumerSecret consumerSecret' tokenSecret
    tokenSecret' : String) (params params' : Params) :
    (signingKey consumerSecret tokenSecret = signingKey consumerSecret' tokenSecret' ∧
        signatureBase method url (sortedItems params) =
          signatureBase method' url' (sortedItems params')) ↔
      consumerSecret = consumerSecret' ∧ tokenSecret = tokenSecret' ∧
        upper method = upper method' ∧ url = url' ∧ ∀ key, params.get? key = params'.get? key := by
  constructor
  · intro ⟨hkey, hbase⟩
    obtain ⟨hconsumer, htoken⟩ := signing_key_inj hkey
    obtain ⟨hmethod, hurl, hitems⟩ := signature_base_inj hbase
    refine ⟨hconsumer, htoken, hmethod, hurl, fun key => Option.ext fun value => ?_⟩
    rw [← mem_sorted_items, ← mem_sorted_items, hitems]
  · intro ⟨hconsumer, htoken, hmethod, hurl, hparams⟩
    rw [hconsumer, htoken, hurl, signatureBase, signatureBase, hmethod, sorted_items_congr hparams]
    exact ⟨rfl, rfl⟩

end CatalogApi.Oauth
