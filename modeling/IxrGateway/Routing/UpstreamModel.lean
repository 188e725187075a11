import IxrGateway.Routing.ExecutorRuns

/-!
# Which model a provider is asked for

The executor resolves a candidate's model to a provider and then passes that
provider the caller's request.  A trace shows for which candidate each call was
made, since the last lookup before a call is the candidate's.

Every call carries the caller's request unchanged.  So a call asks for its
candidate's model exactly when that model is the one the request names, and the
executor is right about this only for decisions whose resolvable candidates all
share the request's model.
-/

namespace Ixr.Routing

open Interaction List

/-! ## The calls of a trace -/

/-- A provider call, and the candidate it is for. -/
structure UpstreamCall where
  /-- The model of the last lookup before the call. -/
  candidate : Option String
  provider : Provider
  request : RequestEnvelope

/-- The provider calls of a trace that starts under candidate `cur`. -/
def upstreamCalls : (cur : Option String) → Trace effects → List UpstreamCall
  | _, [] => []
  | _, ⟨.lookup m, _⟩ :: t => upstreamCalls (some m) t
  | cur, ⟨.chat p req, _⟩ :: t => ⟨cur, p, req⟩ :: upstreamCalls cur t
  | cur, ⟨.stream p req, _⟩ :: t => ⟨cur, p, req⟩ :: upstreamCalls cur t
  | cur, _ :: t => upstreamCalls cur t

/-- Each provider is asked for the model it was looked up for. -/
def AsksForCandidate (t : Trace effects) : Prop :=
  ∀ call ∈ upstreamCalls none t, call.candidate = some call.request.model

/-- The event looks nothing up, and a provider call is in `R`. -/
def CallsIn (R : Provider → RequestEnvelope → Prop) (e : Event effects) : Prop :=
  match e.op with
  | .lookup _ => False
  | .chat p req | .stream p req => R p req
  | _ => True

theorem upstreamCalls_append {R : Provider → RequestEnvelope → Prop} (cur : Option String) :
    ∀ {t : Trace effects} (t' : Trace effects), (∀ e ∈ t, CallsIn R e) →
      upstreamCalls cur (t ++ t') = upstreamCalls cur t ++ upstreamCalls cur t'
  | [], _, _ => rfl
  | ⟨o, r⟩ :: t, t', h => by
    obtain ⟨he, ht⟩ := forall_mem_cons.mp h
    have ih := upstreamCalls_append cur t' ht
    cases o with
    | lookup m => exact False.elim he
    | chat | stream => simp only [cons_append, upstreamCalls, ih]
    | _ => simpa only [cons_append, upstreamCalls] using ih

theorem upstreamCalls_in {R : Provider → RequestEnvelope → Prop} (cur : Option String) :
    ∀ {t : Trace effects}, (∀ e ∈ t, CallsIn R e) →
      ∀ call ∈ upstreamCalls cur t, call.candidate = cur ∧ R call.provider call.request
  | [], _ => by simp [upstreamCalls]
  | ⟨o, r⟩ :: t, h => by
    obtain ⟨he, ht⟩ := forall_mem_cons.mp h
    have ih := upstreamCalls_in cur ht
    cases o with
    | lookup m => exact False.elim he
    | chat | stream => exact forall_mem_cons.mpr ⟨⟨rfl, he⟩, ih⟩
    | _ => exact ih

theorem mem_upstreamCalls_append {R : Provider → RequestEnvelope → Prop} {cur : Option String}
    {t t' : Trace effects} {call : UpstreamCall} (h : ∀ e ∈ t, CallsIn R e)
    (hcall : call ∈ upstreamCalls cur (t ++ t')) :
    (call.candidate = cur ∧ R call.provider call.request) ∨ call ∈ upstreamCalls cur t' := by
  rw [upstreamCalls_append cur t' h, mem_append] at hcall
  exact hcall.imp_left (upstreamCalls_in cur h call)

/-! ## The attempts of one candidate -/

/-- The calls a candidate's attempts make all go to its provider with the caller's request. -/
def CallsOn (p : Provider) (req : RequestEnvelope) : Event effects → Prop :=
  CallsIn fun p' req' => p' = p ∧ req' = req

theorem chatWithRetry_emits (cfg : RetryConfig) (req : RequestEnvelope) (p : Provider)
    (s : Option ResponseEnvelope) : Emits (chatWithRetry cfg req p s) (CallsOn p req) := by
  refine withRetry_emits (fun _ => ?_) (fun _ _ => trivial) s
  refine emits_ask (fun _ => ⟨rfl, rfl⟩) ?_
  rintro (e | resp)
  · exact emits_ret
  · exact emits_ret

variable {σ : Type} {primary : String} {lookup : ProviderLookup}
  {attempt : Provider → σ → Go (σ × Int × Option GoError)}

theorem streamWithRetry_emits (cfg : RetryConfig) (fn : Callback σ) (req : RequestEnvelope)
    (p : Provider) (s : σ) : Emits (streamWithRetry cfg fn req p s) (CallsOn p req) := by
  refine withRetry_emits (fun _ => ?_) (fun _ _ => trivial) s
  refine emits_ask (fun _ => ⟨rfl, rfl⟩) fun script => ?_
  exact playStream_emits (fun _ _ => trivial) script _ _

/-! ## The walk over the candidates -/

theorem Walk.upstreamCalls {R : Provider → Provider → RequestEnvelope → Prop}
    (hattempt : ∀ p s, Emits (attempt p s) (CallsIn (R p))) {rest : List Candidate} {i : Nat}
    {st : LoopState} {s : σ} {t : Trace effects} {r : ExecuteResult × Option GoError × σ}
    (h : Walk primary lookup attempt rest i st s t r) :
    ∀ cur, ∀ call ∈ upstreamCalls cur t, ∃ c ∈ rest, ∃ p, lookup c.model = .ok p ∧
      call.candidate = some c.model ∧ R p call.provider call.request := by
  induction h with
  | exhausted => simp [Routing.upstreamCalls]
  | skip _ _ ih =>
    intro cur call hcall
    obtain ⟨c, hc, h⟩ := ih _ call hcall
    exact ⟨c, mem_cons_of_mem _ hc, h⟩
  | @success c _ _ _ _ _ p _ _ hl ha | @abort c _ _ _ _ _ p _ _ _ hl ha _ =>
    intro cur call hcall
    exact ⟨c, mem_cons_self, p, hl, upstreamCalls_in _ (hattempt _ _ _ _ ha) call hcall⟩
  | @escalate c _ _ _ _ _ p _ _ _ _ _ hl ha _ _ _ ih =>
    intro cur call hcall
    obtain hfirst | hlater := mem_upstreamCalls_append (hattempt _ _ _ _ ha) hcall
    · exact ⟨c, mem_cons_self, p, hl, hfirst⟩
    · obtain ⟨c', hc', h⟩ := ih _ call hlater
      exact ⟨c', mem_cons_of_mem _ (escalateCandidates_subset _ _ hc'), h⟩
  | @next c _ _ _ _ _ p _ _ _ _ _ hl ha _ _ _ ih =>
    intro cur call hcall
    obtain hfirst | hlater := mem_upstreamCalls_append (hattempt _ _ _ _ ha) hcall
    · exact ⟨c, mem_cons_self, p, hl, hfirst⟩
    · obtain ⟨c', hc', h⟩ := ih _ call hlater
      exact ⟨c', mem_cons_of_mem _ hc', h⟩

theorem exists_walk_calling_all {req : RequestEnvelope}
    (hattempt : ∀ p s, Emits (attempt p s) (CallsOn p req))
    (hfail : ∀ p s, ∃ t s' n, Runs (attempt p s) t (s', n, some badRequest) ∧
      ∀ cur, ⟨cur, p, req⟩ ∈ upstreamCalls cur t) :
    ∀ rest i st s, ∃ t r, Walk primary lookup attempt rest i st s t r ∧
      ∀ cur, ∀ c ∈ rest, ∀ p, lookup c.model = .ok p →
        ⟨some c.model, p, req⟩ ∈ upstreamCalls cur t := by
  intro rest
  induction rest with
  | nil =>
    intro i st s
    exact ⟨_, _, .exhausted, by simp⟩
  | cons c rest ih =>
    intro i st s
    cases hl : lookup c.model with
    | error err =>
      obtain ⟨t, r, hw, hcalls⟩ := ih (i + 1) { st.enter i c with lastErr := some err } s
      refine ⟨_, r, .skip hl hw, fun cur => forall_mem_cons.mpr ⟨?_, hcalls _⟩⟩
      intro p hp
      rw [hl] at hp
      cases hp
    | ok p =>
      obtain ⟨t, s', n, ha, hcall⟩ := hfail p s
      obtain ⟨t', r, hw, hcalls⟩ := ih (i + 1) ((st.enter i c).failed p n badRequest) s'
      refine ⟨_, r, .next hl ha rfl isContextLengthError_badRequest hw, fun cur => ?_⟩
      simp only [upstreamCalls, upstreamCalls_append _ t' (hattempt _ _ _ _ ha)]
      refine forall_mem_cons.mpr ⟨?_, ?_⟩
      · intro q hq
        rw [hl] at hq
        cases hq
        exact mem_append_left _ (hcall _)
      · intro c' hc' q hq
        exact mem_append_right _ (hcalls _ c' hc' q hq)

/-- Every candidate that has a provider is of the request's model. -/
def ResolvableShareModel (lookup : ProviderLookup) (req : RequestEnvelope)
    (candidates : List Candidate) : Prop :=
  ∀ c ∈ candidates, ∀ p, lookup c.model = .ok p → c.model = req.model

theorem walk_asksForCandidate_iff {req : RequestEnvelope}
    (hattempt : ∀ p s, Emits (attempt p s) (CallsOn p req))
    (hfail : ∀ p s, ∃ t s' n, Runs (attempt p s) t (s', n, some badRequest) ∧
      ∀ cur, ⟨cur, p, req⟩ ∈ upstreamCalls cur t)
    (rest : List Candidate) (i : Nat) (st : LoopState) (s : σ) :
    (∀ t r, Walk primary lookup attempt rest i st s t r → AsksForCandidate t) ↔
      ResolvableShareModel lookup req rest := by
  constructor
  · intro h c hc p hl
    obtain ⟨t, r, hw, hcalls⟩ :=
      @exists_walk_calling_all σ primary lookup attempt req hattempt hfail rest i st s
    have hcall := h t r hw _ (hcalls none c hc p hl)
    exact Option.some.inj hcall
  · intro h t r hw call hcall
    obtain ⟨c, hc, p, hl, hcand, _, hreq⟩ := hw.upstreamCalls hattempt none call hcall
    rw [hcand, hreq, h c hc p hl]

theorem walk_asksForCandidate_of_silent
    (hattempt : ∀ p s, Emits (attempt p s) (CallsIn fun _ _ => False)) {rest : List Candidate}
    {i : Nat} {st : LoopState} {s : σ} {t : Trace effects}
    {r : ExecuteResult × Option GoError × σ} (h : Walk primary lookup attempt rest i st s t r) :
    AsksForCandidate t := by
  intro call hcall
  obtain ⟨_, _, _, _, _, hno⟩ := h.upstreamCalls hattempt none call hcall
  exact False.elim hno

/-! ## `execute` and `executeStream` -/

theorem streamWithRetry_fails {cfg : RetryConfig} (h : 1 ≤ cfg.maxAttempts) (fn : Callback σ)
    (req : RequestEnvelope) (p : Provider) (s : σ) :
    ∃ t s' n, Runs (streamWithRetry cfg fn req p s) t (s', n, some badRequest) ∧
      ∀ cur, ⟨cur, p, req⟩ ∈ upstreamCalls cur t :=
  ⟨[⟨.stream p req, .done (some badRequest)⟩], s, 1,
    withRetry_stop h (.ask .ret) isClientError_badRequest, fun _ => mem_cons_self⟩

/-- Every provider call asks for the model its candidate names, whatever the providers answer, just
when no attempts are allowed or every candidate that has a provider shares the request's model. -/
theorem asksForCandidate_iff (decision : RoutingDecision) (req : RequestEnvelope)
    (lookup : ProviderLookup) (cfg : RetryConfig) :
    (Ensures (execute decision req lookup cfg) (fun t _ => AsksForCandidate t) ↔
      cfg.maxAttempts ≤ 0 ∨ ResolvableShareModel lookup req (orderedCandidates decision)) ∧
    ∀ (σ : Type) (fn : Callback σ) (s : σ),
      Ensures (executeStream decision req lookup cfg fn s) (fun t _ => AsksForCandidate t) ↔
        cfg.maxAttempts ≤ 0 ∨ ResolvableShareModel lookup req (orderedCandidates decision) := by
  have hexecute : Ensures (execute decision req lookup cfg) (fun t _ => AsksForCandidate t) ↔
      ∀ t r, Walk decision.model lookup (chatWithRetry cfg req) (orderedCandidates decision) 0 {}
        none t r → AsksForCandidate t := by
    constructor
    · intro h t r hw
      exact h t _ (runs_execute_iff.mpr ⟨_, _, _, rfl, hw⟩)
    · intro h t r hr
      obtain ⟨_, _, _, _, hw⟩ := runs_execute_iff.mp hr
      exact h t _ hw
  rw [hexecute]
  simp only [Ensures, executeStream, runs_candidateLoop_iff]
  by_cases hmax : cfg.maxAttempts ≤ 0
  · -- No attempt is made, so there is no call to speak of.
    simp only [hmax, true_or, iff_true]
    constructor
    · intro t r hw
      refine walk_asksForCandidate_of_silent (fun p s => ?_) hw
      rw [chatWithRetry, withRetry_of_nonpos hmax]
      exact emits_ret
    · intro σ fn s t r hw
      refine walk_asksForCandidate_of_silent (fun p s => ?_) hw
      rw [streamWithRetry, withRetry_of_nonpos hmax]
      exact emits_ret
  · have hone : 1 ≤ cfg.maxAttempts := by omega
    simp only [hmax, false_or]
    constructor
    · refine walk_asksForCandidate_iff (chatWithRetry_emits cfg req) (fun p s => ?_) _ _ _ _
      exact ⟨_, _, _, chatWithRetry_clientError hone req p s, fun _ => mem_cons_self⟩
    · intro σ fn s
      exact walk_asksForCandidate_iff (streamWithRetry_emits cfg fn req)
        (streamWithRetry_fails hone fn req) _ _ _ _

/-! ## A fallback that is asked for the primary's model -/

/-- OpenAI answers 400, and Anthropic is then asked for `gpt-5.2`. -/
theorem fallback_asked_for_primary_model :
    ¬ Ensures (execute gptThenClaude gptRequest twoProviders defaultRetryConfig)
      (fun t _ => AsksForCandidate t) := by
  intro h
  have hmax : 1 ≤ defaultRetryConfig.maxAttempts := by decide
  have hgpt : twoProviders "gpt-5.2" = .ok ⟨0, "openai"⟩ := by decide
  have hclaude : twoProviders "claude-sonnet-4-6" = .ok ⟨1, "anthropic"⟩ := by decide
  have hasks := h _ _ (runs_execute_iff.mpr ⟨_, _, _, rfl,
    .next hgpt (chatWithRetry_clientError hmax gptRequest _ none) rfl
      isContextLengthError_badRequest
      (.success hclaude (chatWithRetry_success hmax gptRequest _ none {}))⟩)
  have hcall := hasks ⟨some "claude-sonnet-4-6", ⟨1, "anthropic"⟩, gptRequest⟩
    (by simp [upstreamCalls])
  exact absurd hcall (by decide)

end Ixr.Routing
