import IxrGateway.Budget.Plugin
import IxrGateway.Policy.RateLimit

/-!
# Keys with a tenant in front

Rate limits, budgets, memories and sessions are kept under keys that start with
the tenant, with colons between the parts.  Nothing escapes a colon, and tenants
may contain one.  So a key belongs to one tenant only as long as no tenant is
another one followed by a colon and more.
-/

namespace Ixr

open List

namespace Ingress

/-- `memoryUserKey`.  The empty key is none. -/
def memoryUserKey (id : Identity) : String :=
  if id.tenantID = "" ∨ id.userID = "" then "" else id.tenantID ++ ":" ++ id.userID

/-- The key of a session in `SessionMiddleware`. -/
def sessionStoreKey (id : Identity) (sessionID : String) : String := id.tenantID ++ ":" ++ sessionID

end Ingress

namespace Memory

/-- `userKeyFromEvent`. -/
def userKeyFromEvent (ev : CallEvent) : String :=
  if ev.tenantID = "" ∨ ev.userID = "" then "" else ev.tenantID ++ ":" ++ ev.userID

end Memory

namespace Budget

/-- The user scope of `scopeKeys`. -/
def userScopeKey (id : Identity) : Option String :=
  if id.userID = "" then none
  else if id.teamID = "" then some (id.tenantID ++ ":" ++ id.userID)
  else some (id.tenantID ++ ":" ++ id.teamID ++ ":" ++ id.userID)

/-- The team scope of `scopeKeys`. -/
def teamScopeKey (id : Identity) : Option String :=
  if id.teamID = "" then none else some (id.tenantID ++ ":" ++ id.teamID)

/-- The tenant scope of `scopeKeys`. -/
def tenantScopeKey (id : Identity) : Option String :=
  if id.tenantID = "" then none else some id.tenantID

theorem scopeKeys_eq (id : Identity) :
    scopeKeys id =
      (userScopeKey id).toList ++ (teamScopeKey id).toList ++ (tenantScopeKey id).toList := by
  unfold scopeKeys userScopeKey teamScopeKey tenantScopeKey
  split_ifs <;> rfl

end Budget

namespace Tenancy

open Ingress Memory Budget Policy

/-- The tenant `inner` is `outer`, a colon, and more. -/
def Nested (outer inner : String) : Prop := GoStrings.hasPrefix inner (outer ++ ":") = true

instance (outer inner : String) : Decidable (Nested outer inner) :=
  inferInstanceAs (Decidable (_ = true))

/-- The key is the tenant, or starts with it and a colon. -/
def OfTenant (tenant key : String) : Prop := key = tenant ∨ Nested tenant key

/-! ## Colons -/

theorem nested_iff {outer inner : String} :
    Nested outer inner ↔ ∃ rest, inner = outer ++ ":" ++ rest := by
  unfold Nested GoStrings.hasPrefix
  rw [decide_eq_true_iff]
  constructor
  · rintro ⟨rest, hrest⟩
    refine ⟨String.ofList rest, String.toList_inj.mp ?_⟩
    rw [String.toList_append, String.toList_ofList, hrest]
  · rintro ⟨rest, rfl⟩
    exact ⟨rest.toList, by simp only [String.toList_append]⟩

theorem nested_append (tenant rest : String) : Nested tenant (tenant ++ ":" ++ rest) :=
  nested_iff.mpr ⟨rest, rfl⟩

variable {t t' key : String} {a b : Identity}

theorem eq_or_nested (h : t.toList ++ ":".toList <+: t'.toList ++ ":".toList) :
    t = t' ∨ Nested t t' := by
  obtain heq | hlt := prefix_concat_iff.mp h
  · exact .inl (String.toList_inj.mp (append_cancel_right heq))
  · refine .inr ?_
    unfold Nested GoStrings.hasPrefix
    simpa only [decide_eq_true_eq, String.toList_append] using hlt

/-- Of two tenants that a key is nested in, one is nested in the other. -/
theorem nested_or_nested (h : Nested t key) (h' : Nested t' key) :
    t = t' ∨ Nested t t' ∨ Nested t' t := by
  unfold Nested GoStrings.hasPrefix at h h'
  simp only [decide_eq_true_eq, String.toList_append] at h h'
  obtain hle | hle := prefix_or_prefix_of_prefix h h'
  · obtain heq | hnested := eq_or_nested hle
    · exact .inl heq
    · exact .inr (.inl hnested)
  · obtain heq | hnested := eq_or_nested hle
    · exact .inl heq.symm
    · exact .inr (.inr hnested)

/-- Tenants that are not nested share no key. -/
theorem OfTenant.apart (hne : t ≠ t') (h₁ : ¬ Nested t t') (h₂ : ¬ Nested t' t)
    (h : OfTenant t key) : ¬ OfTenant t' key := by
  intro h'
  obtain rfl | hn := h
  · obtain rfl | hn' := h'
    · exact hne rfl
    · exact h₂ hn'
  · obtain rfl | hn' := h'
    · exact h₁ hn
    · obtain heq | hnested | hnested := nested_or_nested hn hn'
      · exact hne heq
      · exact h₁ hnested
      · exact h₂ hnested

/-! ## The keys of a tenant -/

theorem windowKey_ofTenant (id : Identity) : OfTenant id.tenantID (windowKey id) := by
  refine .inr (nested_iff.mpr ⟨id.userID ++ ":" ++ id.useCaseID, ?_⟩)
  simp only [windowKey, String.append_assoc]

theorem scopeKeys_ofTenant (id : Identity) : ∀ key ∈ scopeKeys id, OfTenant id.tenantID key := by
  intro key hkey
  simp only [scopeKeys_eq, mem_append, Option.mem_toList, userScopeKey, teamScopeKey,
    tenantScopeKey] at hkey
  obtain (huser | hteam) | htenant := hkey
  · split at huser
    · cases huser
    · split at huser
      · cases huser
        exact .inr (nested_append _ _)
      · cases huser
        refine .inr (nested_iff.mpr ⟨id.teamID ++ ":" ++ id.userID, ?_⟩)
        simp only [String.append_assoc]
  · split at hteam
    · cases hteam
    · cases hteam
      exact .inr (nested_append _ _)
  · split at htenant
    · cases htenant
    · cases htenant
      exact .inl rfl

theorem memoryUserKey_ofTenant {id : Identity} (h : memoryUserKey id ≠ "") :
    OfTenant id.tenantID (memoryUserKey id) := by
  unfold memoryUserKey at h ⊢
  split at h
  · exact absurd rfl h
  · next hfull =>
    rw [if_neg hfull]
    exact .inr (nested_append _ _)

theorem userKeyFromEvent_eq (ev : CallEvent) :
    userKeyFromEvent ev = memoryUserKey { tenantID := ev.tenantID, userID := ev.userID } := rfl

/-! ## Isolation -/

/-- No identity of the one tenant shares a key with an identity of the other, whatever its team,
user, use case and session are. -/
def TenantsApart (t t' : String) : Prop :=
  (∀ a b : Identity, a.tenantID = t → b.tenantID = t' →
    windowKey a ≠ windowKey b ∧ (∀ key ∈ scopeKeys a, key ∉ scopeKeys b) ∧
      (memoryUserKey a ≠ "" → memoryUserKey a ≠ memoryUserKey b) ∧
      ∀ s s', sessionStoreKey a s ≠ sessionStoreKey b s') ∧
  ∀ ev ev' : CallEvent, ev.tenantID = t → ev'.tenantID = t' →
    userKeyFromEvent ev ≠ "" → userKeyFromEvent ev ≠ userKeyFromEvent ev'

/-- The user scope of the one identity is not the team scope of the other. -/
def UserTeamApart (a b : Identity) : Prop :=
  ∀ key, userScopeKey a = some key → teamScopeKey b ≠ some key

theorem memoryUserKey_apart (hne : t ≠ t') (h₁ : ¬ Nested t t') (h₂ : ¬ Nested t' t)
    (ha : a.tenantID = t) (hb : b.tenantID = t') (hkey : memoryUserKey a ≠ "") :
    memoryUserKey a ≠ memoryUserKey b := by
  subst ha hb
  intro heq
  have hb := memoryUserKey_ofTenant (heq ▸ hkey)
  exact (memoryUserKey_ofTenant hkey).apart hne h₁ h₂ (heq ▸ hb)

theorem tenantsApart_of_not_nested (hne : t ≠ t') (h₁ : ¬ Nested t t') (h₂ : ¬ Nested t' t) :
    TenantsApart t t' := by
  refine ⟨fun a b ha hb => ⟨?_, ?_, memoryUserKey_apart hne h₁ h₂ ha hb, ?_⟩, ?_⟩
  · subst ha hb
    intro heq
    exact (windowKey_ofTenant a).apart hne h₁ h₂ (heq ▸ windowKey_ofTenant b)
  · subst ha hb
    intro key hkey hkey'
    exact (scopeKeys_ofTenant a key hkey).apart hne h₁ h₂ (scopeKeys_ofTenant b key hkey')
  · subst ha hb
    intro s s' heq
    have hs : OfTenant a.tenantID (sessionStoreKey a s) := .inr (nested_append _ _)
    have hs' : OfTenant b.tenantID (sessionStoreKey b s') := .inr (nested_append _ _)
    exact hs.apart hne h₁ h₂ (heq ▸ hs')
  · intro ev ev' hev hev'
    rw [userKeyFromEvent_eq, userKeyFromEvent_eq]
    exact memoryUserKey_apart hne h₁ h₂ hev hev'

theorem exists_shared_session (h : Nested t t') :
    ∃ s s', sessionStoreKey { tenantID := t } s = sessionStoreKey { tenantID := t' } s' := by
  obtain ⟨rest, rfl⟩ := nested_iff.mp h
  exact ⟨rest ++ ":", "", by simp only [sessionStoreKey, String.append_assoc, String.append_empty]⟩

theorem userTeamApart_iff (h : a.tenantID = b.tenantID) :
    UserTeamApart a b ↔ a.userID = "" ∨ b.teamID = "" ∨
      b.teamID ≠ if a.teamID = "" then a.userID else a.teamID ++ ":" ++ a.userID := by
  by_cases huser : a.userID = ""
  · simp [UserTeamApart, userScopeKey, huser]
  by_cases hteam : b.teamID = ""
  · simp [UserTeamApart, teamScopeKey, hteam]
  -- Both scopes exist, and they differ in what follows the tenant.
  have hcancel (x y : String) : a.tenantID ++ ":" ++ x = a.tenantID ++ ":" ++ y ↔ x = y := by
    simp only [← String.toList_inj, String.toList_append, append_cancel_left_eq]
  simp only [UserTeamApart, userScopeKey, teamScopeKey, huser, hteam, if_false, false_or, ← h]
  split
  · simp only [Option.some.injEq, forall_eq', ne_eq, hcancel]
  · have hassoc : a.tenantID ++ ":" ++ a.teamID ++ ":" ++ a.userID =
        a.tenantID ++ ":" ++ (a.teamID ++ ":" ++ a.userID) := by
      simp only [String.append_assoc]
    simp only [Option.some.injEq, forall_eq', ne_eq, hassoc, hcancel]

/-- Tenants are apart just if none is nested in the other, and user scopes are apart from team
scopes just if no team is called like a user. -/
theorem keys_apart_iff {t t' : String} (hne : t ≠ t') {a b : Identity}
    (hsame : a.tenantID = b.tenantID) :
    (TenantsApart t t' ↔ ¬ Nested t t' ∧ ¬ Nested t' t) ∧
    (UserTeamApart a b ↔ a.userID = "" ∨ b.teamID = "" ∨
      b.teamID ≠ if a.teamID = "" then a.userID else a.teamID ++ ":" ++ a.userID) := by
  refine ⟨⟨fun h => ⟨fun hn => ?_, fun hn => ?_⟩, fun h => ?_⟩, userTeamApart_iff hsame⟩
  · obtain ⟨s, s', heq⟩ := exists_shared_session hn
    exact (h.1 { tenantID := t } { tenantID := t' } rfl rfl).2.2.2 s s' heq
  · obtain ⟨s, s', heq⟩ := exists_shared_session hn
    exact (h.1 { tenantID := t } { tenantID := t' } rfl rfl).2.2.2 s' s heq.symm
  · exact tenantsApart_of_not_nested hne h.1 h.2

/-- Two tenants without colons, and a user and a team of one of them. -/
theorem acme_apart_globex :
    TenantsApart "acme" "globex" ∧
      UserTeamApart { tenantID := "acme", userID := "ann" }
        { tenantID := "acme", teamID := "ops" } :=
  have h := keys_apart_iff (show "acme" ≠ "globex" by decide)
    (a := { tenantID := "acme", userID := "ann" }) (b := { tenantID := "acme", teamID := "ops" })
    rfl
  ⟨h.1.mpr (by decide), h.2.mpr (by decide)⟩

/-- A session of `acme` is one of `acme:eu`, and the team `ops` is the user `ops`. -/
theorem acme_shares_keys :
    sessionStoreKey { tenantID := "acme" } "eu:1" = sessionStoreKey { tenantID := "acme:eu" } "1" ∧
      ¬ TenantsApart "acme" "acme:eu" ∧
      ¬ UserTeamApart { tenantID := "acme", userID := "ops" }
        { tenantID := "acme", teamID := "ops" } := by
  have hshared : sessionStoreKey { tenantID := "acme" } "eu:1" =
      sessionStoreKey { tenantID := "acme:eu" } "1" := by decide
  refine ⟨hshared, fun h => ?_, fun h => ?_⟩
  · exact (h.1 { tenantID := "acme" } { tenantID := "acme:eu" } rfl rfl).2.2.2 "eu:1" "1" hshared
  · exact h "acme:ops" (by decide) (by decide)

end Tenancy

end Ixr
