import IxrGateway.GoStrings
import IxrGateway.Http

/-!
# Who a request is from

`AuthMiddleware` finds the tenant of a request.  It tries three credentials, in this
order.

* A client certificate: its common name is the tenant.
* An API key, from `Authorization: Bearer` or else from `X-API-Key`.
* A JWT from `Authorization: Bearer`, if JWTs are configured.

Keys and tokens come in the same header.  What has a dot in it is taken for a token
(`extractBearerKey`), and `Validate` does not ask that keys have none.  So a key with
a dot is not looked up when it comes in `Authorization` (`bearer_key_iff`).
-/

namespace Ixr.Ingress

open List Function

open GoStrings (afterPrefix contains hasPrefix)

/-! ## Configuration -/

/-- `ServerConfig`, as far as `Validate` reads it. -/
structure ServerConfig where
  port : Int
  tlsCert : String := ""
  tlsKey : String := ""
deriving Repr, DecidableEq

/-- `APIKeyEntry`, as far as `authenticate` reads it. -/
structure APIKeyEntry where
  key : String
  tenantID : String
deriving Repr, DecidableEq

/-- `JWTConfig`. -/
structure JWTConfig where
  secret : String := ""
  jwksURL : String := ""
  issuer : String := ""
  audience : String := ""
deriving Repr, DecidableEq

/-- `AuthConfig`. -/
structure AuthConfig where
  apiKeys : List APIKeyEntry := []
  jwt : JWTConfig := {}
  disableAuth : Bool := false
deriving Repr, DecidableEq

/-- `RateLimitConfig`. -/
structure RateLimitConfig where
  windowSec : Int := 0
  maxRequests : Int := 0
  maxTokens : Int := 0
deriving Repr, DecidableEq

namespace Settings

/-- `Config`, as far as `Validate` reads it. -/
structure Config where
  server : ServerConfig
  auth : AuthConfig := {}
  rateLimit : RateLimitConfig := {}
deriving Repr, DecidableEq

/-- The errors that `Validate` finds in the keys. -/
def keyErrors (keys : List APIKeyEntry) : List String :=
  keys.zipIdx.filterMap fun (k, i) =>
    if k.key = "" then some ("auth.api_keys[" ++ toString i ++ "]: key must not be empty") else none

/-- The errors that `Validate` joins. -/
def validateErrors (cfg : Config) : List String :=
  (if cfg.server.port < 1 ∨ 65535 < cfg.server.port then
    ["server.port " ++ toString cfg.server.port ++ " is not in [1, 65535]"] else []) ++
  (if cfg.auth.jwt.secret ≠ "" ∧ cfg.auth.jwt.jwksURL ≠ "" then
    ["auth.jwt: secret and jwks_url are mutually exclusive"] else []) ++
  keyErrors cfg.auth.apiKeys ++
  (if (0 < cfg.rateLimit.maxRequests ∨ 0 < cfg.rateLimit.maxTokens) ∧
      cfg.rateLimit.windowSec ≤ 0 then
    ["rate_limit.window_sec must be > 0 when limits are set"] else []) ++
  (if cfg.server.tlsCert ≠ "" ∧ cfg.server.tlsKey = "" then
    ["server.tls_cert is set but server.tls_key is missing"] else []) ++
  (if cfg.server.tlsKey ≠ "" ∧ cfg.server.tlsCert = "" then
    ["server.tls_key is set but server.tls_cert is missing"] else [])

/-- `Validate`: the text of its error, if there is one. -/
def validate (cfg : Config) : Option String :=
  if validateErrors cfg = [] then none else some (GoStrings.join "\n" (validateErrors cfg))

theorem key_ne_empty {cfg : Config} {k : APIKeyEntry} (h : validate cfg = none)
    (hk : k ∈ cfg.auth.apiKeys) : k.key ≠ "" := by
  intro hempty
  have herrors : keyErrors cfg.auth.apiKeys = [] := by
    have hall : validateErrors cfg = [] := by
      by_contra hne
      rw [validate, if_neg hne] at h
      cases h
    simp only [validateErrors, append_eq_nil_iff] at hall
    exact hall.1.1.1.2
  obtain ⟨i, hi⟩ := mem_iff_getElem?.mp hk
  have hmem : (k, i) ∈ cfg.auth.apiKeys.zipIdx := mk_mem_zipIdx_iff_getElem?.mpr hi
  have hnone := filterMap_eq_nil_iff.mp herrors (k, i) hmem
  dsimp only at hnone
  rw [if_pos hempty] at hnone
  cases hnone

end Settings

open Settings

variable {k : APIKeyEntry} {keys : List APIKeyEntry} {s : String} {id : Identity}

/-! ## Requests -/

/-- What authentication reads. -/
structure AuthRequest where
  peerCertificates : List String := []
  /-- `r.Header.Get`.  A header that is not there is empty. -/
  header : String → String

/-- `extractBearerKey`. -/
def extractBearerKey (r : AuthRequest) : String :=
  match afterPrefix (r.header "Authorization") "Bearer " with
  | none => ""
  | some val => if contains val "." then "" else val

/-- `extractBearerToken`. -/
def extractBearerToken (r : AuthRequest) : String :=
  (afterPrefix (r.header "Authorization") "Bearer ").getD ""

/-- The map that `AuthMiddleware.Reload` makes. -/
def keyIndex (keys : List APIKeyEntry) : String → Option APIKeyEntry :=
  keys.foldl (fun idx k => update idx k.key (some k)) fun _ => none

/-- `validateJWT`, for any way to check a token. -/
abbrev ValidateJWT := String → JWTConfig → Except String Identity

/-- Step 3 of `authenticate`. -/
def authenticateJWT (validateJWT : ValidateJWT) (r : AuthRequest) (cfg : AuthConfig) :
    Except String Identity :=
  if cfg.jwt.secret ≠ "" ∨ cfg.jwt.jwksURL ≠ "" then
    if extractBearerToken r = "" then .error "missing authentication credentials"
    else validateJWT (extractBearerToken r) cfg.jwt
  else .error "missing authentication credentials"

/-- The key that `authenticate` looks up. -/
def rawKey (r : AuthRequest) : String :=
  if extractBearerKey r = "" then r.header "X-API-Key" else extractBearerKey r

/-- `authenticate`. -/
def authenticate (validateJWT : ValidateJWT) (r : AuthRequest) (cfg : AuthConfig)
    (keyIndex : String → Option APIKeyEntry) : Except String Identity :=
  match r.peerCertificates with
  | cn :: _ => .ok { tenantID := cn, useCaseID := r.header "X-IXR-UseCase" }
  | [] =>
    if rawKey r ≠ "" then
      match keyIndex (rawKey r) with
      | some entry =>
        .ok { tenantID := entry.tenantID, useCaseID := r.header "X-IXR-UseCase" }
      | none =>
        if cfg.jwt.secret = "" ∧ cfg.jwt.jwksURL = "" then .error "invalid API key"
        else authenticateJWT validateJWT r cfg
    else authenticateJWT validateJWT r cfg

/-- `Resolver.Resolve`. -/
def resolve (r : AuthRequest) : Identity where
  tenantID := if r.header "X-IXR-TenantID" ≠ "" then r.header "X-IXR-TenantID" else "default"
  teamID := r.header "X-IXR-TeamID"
  userID := r.header "X-IXR-UserID"
  useCaseID := r.header "X-IXR-UseCase"

/-- `AuthMiddleware`. -/
structure AuthMiddleware where
  cfg : AuthConfig
  keyIndex : String → Option APIKeyEntry

/-- `AuthMiddleware.Reload`. -/
def AuthMiddleware.reload (_ : AuthMiddleware) (cfg : AuthConfig) : AuthMiddleware :=
  ⟨cfg, Ingress.keyIndex cfg.apiKeys⟩

/-- `NewAuthMiddleware`. -/
def AuthMiddleware.new (cfg : AuthConfig) : AuthMiddleware :=
  AuthMiddleware.reload ⟨{}, fun _ => none⟩ cfg

/-- `AuthMiddleware.Handler`: the identity that the next handler sees, or the reply if it is not
called. -/
def AuthMiddleware.handler (m : AuthMiddleware) (validateJWT : ValidateJWT) (r : AuthRequest) :
    Except Reply Identity :=
  if m.cfg.disableAuth then .ok (resolve r)
  else
    match authenticate validateJWT r m.cfg m.keyIndex with
    | .ok id => .ok id
    | .error e => .error (.error 401 "unauthorized" e)

/-! ## Keys -/

theorem keyIndex_concat (keys : List APIKeyEntry) (k : APIKeyEntry) :
    keyIndex (keys ++ [k]) = update (keyIndex keys) k.key (some k) :=
  foldl_concat ..

theorem mem_of_keyIndex (h : keyIndex keys s = some k) : k ∈ keys ∧ k.key = s := by
  induction keys using reverseRecOn with
  | nil => cases h
  | append_singleton keys k' ih =>
    rw [keyIndex_concat] at h
    rcases eq_or_ne s k'.key with rfl | hne
    · rw [update_self, Option.some.injEq] at h
      subst h
      exact ⟨mem_append_right _ (mem_singleton_self _), rfl⟩
    · rw [update_of_ne hne] at h
      exact ⟨mem_append_left _ (ih h).1, (ih h).2⟩

theorem keyIndex_of_mem (hkeys : (keys.map (·.key)).Nodup) (hk : k ∈ keys) :
    keyIndex keys k.key = some k := by
  induction keys using reverseRecOn with
  | nil => cases hk
  | append_singleton keys k' ih =>
    rw [map_append, nodup_append] at hkeys
    rw [keyIndex_concat]
    rcases mem_append.mp hk with hk | hk
    · have hne : k.key ≠ k'.key :=
        hkeys.2.2 _ (mem_map_of_mem hk) _ (mem_singleton_self _)
      rw [update_of_ne hne]
      exact ih hkeys.1 hk
    · rw [mem_singleton.mp hk, update_self]

theorem keyIndex_eq_none_iff (hkeys : (keys.map (·.key)).Nodup) :
    keyIndex keys s = none ↔ ∀ k ∈ keys, s ≠ k.key := by
  constructor
  · rintro hnone k hk rfl
    rw [keyIndex_of_mem hkeys hk] at hnone
    cases hnone
  · intro hnone
    cases hs : keyIndex keys s with
    | none => rfl
    | some k => exact absurd (mem_of_keyIndex hs).2.symm (hnone k (mem_of_keyIndex hs).1)

/-! ## Headers -/

theorem afterPrefix_append (start s : String) : afterPrefix (start ++ s) start = some s := by
  have hstart : hasPrefix (start ++ s) start = true := by
    rw [hasPrefix, String.toList_append]
    exact decide_eq_true (prefix_append _ _)
  rw [afterPrefix, if_pos hstart, String.toList_append, drop_left, String.ofList_toList]

theorem eq_append_of_afterPrefix {start rest : String} (h : afterPrefix s start = some rest) :
    s = start ++ rest := by
  unfold afterPrefix at h
  split at h
  · next hstart =>
    obtain ⟨tail, htail⟩ := of_decide_eq_true hstart
    rw [Option.some.injEq, ← htail, drop_left] at h
    rw [← h, ← String.toList_inj, String.toList_append, String.toList_ofList, htail]
  · cases h

/-- A request presents a text in `Authorization: Bearer`. -/
def Bearer (r : AuthRequest) (s : String) : Prop := r.header "Authorization" = "Bearer " ++ s

variable {r : AuthRequest} {validateJWT : ValidateJWT}

theorem extractBearerToken_of_bearer (h : Bearer r s) : extractBearerToken r = s := by
  rw [extractBearerToken, h, afterPrefix_append, Option.getD_some]

theorem extractBearerKey_of_bearer (h : Bearer r s) :
    extractBearerKey r = if contains s "." then "" else s := by
  rw [extractBearerKey, h, afterPrefix_append]

theorem bearer_of_extractBearerToken (h : extractBearerToken r ≠ "") :
    Bearer r (extractBearerToken r) := by
  unfold extractBearerToken at h ⊢
  cases hrest : afterPrefix (r.header "Authorization") "Bearer " with
  | none =>
    rw [hrest] at h
    exact absurd rfl h
  | some rest => exact eq_append_of_afterPrefix hrest

theorem bearer_or_header_rawKey (r : AuthRequest) :
    Bearer r (rawKey r) ∨ r.header "X-API-Key" = rawKey r := by
  unfold rawKey
  split
  · exact .inr rfl
  · next hne =>
    left
    unfold extractBearerKey at hne ⊢
    cases hrest : afterPrefix (r.header "Authorization") "Bearer " with
    | none =>
      rw [hrest] at hne
      exact absurd rfl hne
    | some rest =>
      rw [hrest] at hne
      dsimp only at hne ⊢
      split at hne
      · exact absurd rfl hne
      · next hdot =>
        rw [if_neg hdot]
        exact eq_append_of_afterPrefix hrest

/-! ## Who is let in -/

/-- Tokens are accepted. -/
def JWTConfig.Configured (jwt : JWTConfig) : Prop := jwt.secret ≠ "" ∨ jwt.jwksURL ≠ ""

theorem authenticateJWT_eq_ok_iff {cfg : AuthConfig} :
    authenticateJWT validateJWT r cfg = .ok id ↔
      cfg.jwt.Configured ∧ extractBearerToken r ≠ "" ∧
        validateJWT (extractBearerToken r) cfg.jwt = .ok id := by
  unfold authenticateJWT
  split
  · next hjwt =>
    split
    · next hempty => exact ⟨nofun, fun h => absurd hempty h.2.1⟩
    · next hne => exact ⟨fun h => ⟨hjwt, hne, h⟩, fun h => h.2.2⟩
  · next hjwt => exact ⟨nofun, fun h => absurd h.1 hjwt⟩

theorem authenticate_eq_ok_iff {cfg : AuthConfig} {keyIndex : String → Option APIKeyEntry}
    (hcert : r.peerCertificates = []) (hempty : keyIndex "" = none) :
    authenticate validateJWT r cfg keyIndex = .ok id ↔
      (∃ entry, keyIndex (rawKey r) = some entry ∧
        id = { tenantID := entry.tenantID, useCaseID := r.header "X-IXR-UseCase" }) ∨
      keyIndex (rawKey r) = none ∧ authenticateJWT validateJWT r cfg = .ok id := by
  unfold authenticate
  rw [hcert]
  dsimp only
  by_cases hraw : rawKey r = ""
  · rw [if_neg (not_not.mpr hraw), hraw, hempty]
    simp
  · rw [if_pos hraw]
    cases hentry : keyIndex (rawKey r) with
    | some entry =>
      simp only [Except.ok.injEq, Option.some.injEq, exists_eq_left', reduceCtorEq, false_and,
        or_false]
      exact eq_comm
    | none =>
      simp only [reduceCtorEq, false_and, exists_false, false_or, true_and]
      split
      · next hjwt =>
        refine ⟨nofun, fun h => ?_⟩
        rcases (authenticateJWT_eq_ok_iff.mp h).1 with hsecret | hurl
        · exact absurd hjwt.1 hsecret
        · exact absurd hjwt.2 hurl
      · exact Iff.rfl

theorem handler_eq_ok_iff {m : AuthMiddleware} (henabled : m.cfg.disableAuth = false) :
    m.handler validateJWT r = .ok id ↔ authenticate validateJWT r m.cfg m.keyIndex = .ok id := by
  rw [AuthMiddleware.handler, henabled, if_neg Bool.false_ne_true]
  cases authenticate validateJWT r m.cfg m.keyIndex with
  | ok | error => simp

/-- The next handler sees the request as one of a tenant. -/
def AuthenticatedAs (m : AuthMiddleware) (validateJWT : ValidateJWT) (r : AuthRequest)
    (tenantID : String) : Prop :=
  ∃ id, m.handler validateJWT r = .ok id ∧ id.tenantID = tenantID

section

variable {cfg : Config} (hvalid : validate cfg = none) (henabled : cfg.auth.disableAuth = false)
  (hkeys : (cfg.auth.apiKeys.map (·.key)).Nodup)
  {r : AuthRequest} (hcert : r.peerCertificates = []) (validateJWT : ValidateJWT)

include hvalid henabled hkeys hcert

theorem authenticatedAs_iff {tenantID : String} :
    AuthenticatedAs (.new cfg.auth) validateJWT r tenantID ↔
      (∃ k ∈ cfg.auth.apiKeys, rawKey r = k.key ∧ k.tenantID = tenantID) ∨
      (∀ k ∈ cfg.auth.apiKeys, rawKey r ≠ k.key) ∧
        cfg.auth.jwt.Configured ∧ extractBearerToken r ≠ "" ∧
        ∃ id, validateJWT (extractBearerToken r) cfg.auth.jwt = .ok id ∧
          id.tenantID = tenantID := by
  have hempty : keyIndex cfg.auth.apiKeys "" = none :=
    (keyIndex_eq_none_iff hkeys).mpr fun k hk heq => key_ne_empty hvalid hk heq.symm
  have hhandler (id : Identity) :
      AuthMiddleware.handler (.new cfg.auth) validateJWT r = .ok id ↔
        authenticate validateJWT r cfg.auth (keyIndex cfg.auth.apiKeys) = .ok id :=
    handler_eq_ok_iff henabled
  unfold AuthenticatedAs
  simp only [hhandler, authenticate_eq_ok_iff hcert hempty, authenticateJWT_eq_ok_iff,
    keyIndex_eq_none_iff hkeys]
  constructor
  · rintro ⟨id, ⟨entry, hentry, rfl⟩ | ⟨hnone, hjwt, htoken, hid⟩, htenant⟩
    · obtain ⟨hmem, hkey⟩ := mem_of_keyIndex hentry
      exact .inl ⟨entry, hmem, hkey.symm, htenant⟩
    · exact .inr ⟨hnone, hjwt, htoken, id, hid, htenant⟩
  · rintro (⟨k, hk, hraw, htenant⟩ | ⟨hnone, hjwt, htoken, id, hid, htenant⟩)
    · refine ⟨_, .inl ⟨k, ?_, rfl⟩, htenant⟩
      rw [hraw]
      exact keyIndex_of_mem hkeys hk
    · exact ⟨id, .inr ⟨hnone, hjwt, htoken, hid⟩, htenant⟩

/-- A key with a dot in `Authorization` is not looked up.  Its place is taken by the key in
`X-API-Key`, and if that is not known, the key is taken for a token. -/
theorem bearer_key_iff {k : APIKeyEntry} (hk : k ∈ cfg.auth.apiKeys) (hbearer : Bearer r k.key) :
    AuthenticatedAs (.new cfg.auth) validateJWT r k.tenantID ↔
      contains k.key "." = false ∨
      (∃ k' ∈ cfg.auth.apiKeys, r.header "X-API-Key" = k'.key ∧ k'.tenantID = k.tenantID) ∨
      (∀ k' ∈ cfg.auth.apiKeys, r.header "X-API-Key" ≠ k'.key) ∧ cfg.auth.jwt.Configured ∧
        ∃ id, validateJWT k.key cfg.auth.jwt = .ok id ∧ id.tenantID = k.tenantID := by
  have hne := key_ne_empty hvalid hk
  rw [authenticatedAs_iff hvalid henabled hkeys hcert, extractBearerToken_of_bearer hbearer, rawKey,
    extractBearerKey_of_bearer hbearer]
  cases hdot : contains k.key "." with
  | false =>
    refine iff_of_true (.inl ⟨k, hk, ?_, rfl⟩) (.inl rfl)
    rw [if_neg Bool.false_ne_true, if_neg hne]
  | true =>
    rw [if_pos rfl, if_pos rfl]
    simp only [reduceCtorEq, false_or, ne_eq, hne, not_false_eq_true, true_and]

/-- API keys.  In a valid configuration with distinct keys, a request without a client certificate
is taken for one of a tenant only if it presents a key of the tenant, in either header, or a token
of the tenant.  A key in `X-API-Key`, without `Authorization`, is accepted.  A key in
`Authorization: Bearer` is accepted exactly if it has no dot, or the other header or the key taken
for a token leads to the same tenant. -/
theorem api_keys_accepted :
    (∀ tenantID, AuthenticatedAs (.new cfg.auth) validateJWT r tenantID →
      (∃ k ∈ cfg.auth.apiKeys, k.tenantID = tenantID ∧
        (Bearer r k.key ∨ r.header "X-API-Key" = k.key)) ∨
      ∃ token id, Bearer r token ∧ validateJWT token cfg.auth.jwt = .ok id ∧
        id.tenantID = tenantID) ∧
      (∀ k ∈ cfg.auth.apiKeys, r.header "Authorization" = "" → r.header "X-API-Key" = k.key →
        AuthenticatedAs (.new cfg.auth) validateJWT r k.tenantID) ∧
      ∀ k ∈ cfg.auth.apiKeys, Bearer r k.key →
        (AuthenticatedAs (.new cfg.auth) validateJWT r k.tenantID ↔
          contains k.key "." = false ∨
          (∃ k' ∈ cfg.auth.apiKeys, r.header "X-API-Key" = k'.key ∧ k'.tenantID = k.tenantID) ∨
          (∀ k' ∈ cfg.auth.apiKeys, r.header "X-API-Key" ≠ k'.key) ∧ cfg.auth.jwt.Configured ∧
            ∃ id, validateJWT k.key cfg.auth.jwt = .ok id ∧ id.tenantID = k.tenantID) := by
  refine ⟨?_, ?_, ?_⟩
  · intro tenantID h
    rcases (authenticatedAs_iff hvalid henabled hkeys hcert validateJWT).mp h with
      ⟨k, hk, hraw, htenant⟩ | ⟨-, -, htoken, id, hid, htenant⟩
    · left
      refine ⟨k, hk, htenant, ?_⟩
      rw [← hraw]
      exact bearer_or_header_rawKey r
    · right
      exact ⟨_, id, bearer_of_extractBearerToken htoken, hid, htenant⟩
  · intro k hk hnone hheader
    have hbearer : extractBearerKey r = "" := by
      rw [extractBearerKey, hnone]
      rfl
    refine (authenticatedAs_iff hvalid henabled hkeys hcert validateJWT).mpr ?_
    refine .inl ⟨k, hk, ?_, rfl⟩
    rw [rawKey, if_pos hbearer, hheader]
  · intro k hk hbearer
    exact bearer_key_iff hvalid henabled hkeys hcert validateJWT hk hbearer

end

def oneKey (key : String) : Config where
  server := { port := 8080 }
  auth := { apiKeys := [⟨key, "acme"⟩] }

/-- A request with an `Authorization` header only. -/
def bearerRequest (key : String) : AuthRequest where
  header name := if name = "Authorization" then "Bearer " ++ key else ""

def noToken : ValidateJWT := fun _ _ => .error "invalid token"

/-- A key without a dot is accepted. -/
theorem plain_key_accepted :
    AuthenticatedAs (.new (oneKey "ixr-key").auth) noToken (bearerRequest "ixr-key") "acme" := by
  have hvalid : validate (oneKey "ixr-key") = none := by decide
  have hcert : (bearerRequest "ixr-key").peerCertificates = [] := rfl
  obtain ⟨-, -, hbearer⟩ := api_keys_accepted hvalid rfl (by decide) hcert noToken
  exact (hbearer ⟨"ixr-key", "acme"⟩ (mem_singleton_self _) rfl).mpr (.inl (by decide))

/-- A key with a dot is not. -/
theorem dotted_key_rejected :
    validate (oneKey "ixr.key") = none ∧
      Bearer (bearerRequest "ixr.key") "ixr.key" ∧
      AuthMiddleware.handler (.new (oneKey "ixr.key").auth) noToken (bearerRequest "ixr.key") =
        .error (.error 401 "unauthorized" "missing authentication credentials") :=
  ⟨by decide, rfl, by rfl⟩

end Ixr.Ingress
