import IxrGateway.Ingress.Middleware
import IxrGateway.Ingress.Vetting

/-!
# What a request publishes

A request that calls a provider publishes one call event, which names the
caller, and one only.  A request that is turned away before that publishes
nothing at the chat handler: its reply comes from the cache, from another
request's call, from a check, from routing or from the breaker.

Chains are different, as each step publishes an event of its own.
-/

namespace Ixr.Ingress

open Interaction Routing Reasoning List ChatHandler

/-! ## Published events -/

/-- The event that is published. -/
def published (e : Event effects) : Option CallEvent :=
  match e.op with
  | .publish ev => some ev
  | _ => none

/-- The events of a trace. -/
def publishes (t : Trace effects) : List CallEvent := t.filterMap published

/-- A provider is called. -/
def Called (t : Trace effects) : Prop := ∃ e ∈ t, IsCall e.op

/-- The event reports on the request. -/
structure IsReport (r : HttpRequest) (ev : CallEvent) : Prop where
  ofRequest : OfRequest r ev
  primary : ev.shadow = none

/-- There is one event, a report. -/
def ReportsOnce (r : HttpRequest) (t : Trace effects) : Prop :=
  ∃ ev, publishes t = [ev] ∧ IsReport r ev

@[simp] theorem publishes_append (t t' : Trace effects) :
    publishes (t ++ t') = publishes t ++ publishes t' :=
  filterMap_append

variable {t t' : Trace effects} {r : HttpRequest} {cfg : RetryConfig} {req : RequestEnvelope}
  {e : Event effects}

theorem publishes_eq_nil (h : ∀ e ∈ t, published e = none) : publishes t = [] :=
  filterMap_eq_nil_iff.mpr h

theorem called_append : Called (t ++ t') ↔ Called t ∨ Called t' := by
  simp only [Called, mem_append, or_and_right, exists_or]

theorem not_called (h : ∀ e ∈ t, ¬ IsCall e.op) : ¬ Called t := by
  rintro ⟨e, he, hcall⟩
  exact h e he hcall

theorem ReportsOnce.after (h : ReportsOnce r t') (ht : ∀ e ∈ t, published e = none) :
    ReportsOnce r (t ++ t') := by
  obtain ⟨ev, hev, hreport⟩ := h
  exact ⟨ev, by rw [publishes_append, publishes_eq_nil ht, nil_append, hev], hreport⟩

theorem ReportsOnce.before (h : ReportsOnce r t) (ht' : ∀ e ∈ t', published e = none) :
    ReportsOnce r (t ++ t') := by
  obtain ⟨ev, hev, hreport⟩ := h
  exact ⟨ev, by rw [publishes_append, publishes_eq_nil ht', append_nil, hev], hreport⟩

section

variable {α β : Type} {r : HttpRequest} {p : Go α} {f : α → Go β}

/-- Every run reports once. -/
def Reports (r : HttpRequest) (p : Go α) : Prop := Ensures p fun t _ => ReportsOnce r t

/-- Nothing is published. -/
def Mute (p : Go α) : Prop := Emits p fun e => published e = none

theorem Mute.reports (hp : Mute p) (hf : ∀ a, Reports r (f a)) : Reports r (p >>= f) :=
  Ensures.bind hp fun _ a ht => (hf a).mono fun _ _ hreport => hreport.after ht

theorem Reports.mute (hp : Reports r p) (hf : ∀ a, Mute (f a)) : Reports r (p >>= f) :=
  Ensures.bind hp fun _ a hreport => (hf a).mono fun _ _ ht => hreport.before ht

theorem reports_publish {ev : CallEvent} (hev : IsReport r ev) : Reports r (Go.publish ev) := by
  refine ensures_ask.mpr fun _ => ensures_ret.mpr ⟨ev, rfl, hev⟩

end

/-! ## Settling a call -/

section

variable {h : ChatHandler} {r : HttpRequest}

theorem now_mute : Mute Go.now := emits_perform fun _ => rfl

theorem recordOutcome_mute (model : String) (err : Option GoError) :
    Mute (h.recordOutcome model err) :=
  emits_ite (emits_perform fun _ => rfl) emits_ret

theorem recordMetrics_mute (provider model : String) (err : Option GoError)
    (latency tokensIn tokensOut : Int) :
    Mute (h.recordMetrics provider model err latency tokensIn tokensOut) :=
  emits_ite (emits_perform fun _ => rfl) emits_ret

theorem startShadow_mute (req : RequestEnvelope) (resp : Option ResponseEnvelope) :
    Mute (startShadow r req resp) :=
  emits_ite (emits_perform fun _ => rfl) emits_ret

theorem IsReport.withOutcome {ev : CallEvent} (hev : IsReport r ev) (model : String)
    (err : Option GoError) (resp : ResponseEnvelope) :
    IsReport r (withOutcome ev model err resp) := by
  refine ⟨hev.ofRequest.withOutcome model err resp, ?_⟩
  cases err with
  | none | some => exact hev.primary

theorem IsReport.withStream {ev : CallEvent} (hev : IsReport r ev) (model : String)
    (err : Option GoError) (totals : StreamTotals) :
    IsReport r (withStream ev model err totals) := by
  refine ⟨hev.ofRequest.withStream model err totals, ?_⟩
  cases err with
  | none | some => exact hev.primary

theorem IsReport.withResult {ev : CallEvent} (hev : IsReport r ev) (autoRouted : Bool)
    (provider : String) (err : Option GoError) (result : ExecuteResult) :
    IsReport r (withResult ev autoRouted provider err result) := by
  refine ⟨hev.ofRequest.withResult autoRouted provider err result, ?_⟩
  cases err with
  | none | some => exact hev.primary

theorem baseEvent_isReport (req : RequestEnvelope) (model : String) (start stop : Int) :
    IsReport r (baseEvent r req model start stop) :=
  ⟨baseEvent_ofRequest r req model start stop, rfl⟩

/-- There is a response or an error. -/
def CallOutcome.Answered (out : CallOutcome) : Prop := out.err ≠ none ∨ out.resp ≠ none

theorem settleChat_reports (hbus : h.hasBus = true) (req : RequestEnvelope) (autoRouted : Bool)
    (start : Int) {out : CallOutcome} (hout : out.Answered) :
    Reports r (settleChat h r req autoRouted start out) := by
  refine now_mute.reports fun stop => (recordOutcome_mute _ _).reports fun _ => ?_
  unfold report
  split
  · rename_i herr hresp
    exact absurd hout (by simp [CallOutcome.Answered, herr, hresp])
  · refine (recordMetrics_mute _ _ _ _ _ _).reports fun _ => ?_
    rw [hbus]
    refine Reports.mute (reports_publish ?_) fun _ =>
      Emits.bind (startShadow_mute req _) fun _ => emits_ret
    exact ((baseEvent_isReport _ _ _ _).withOutcome _ _ _).withResult _ _ _ _

theorem settleStream_reports (hbus : h.hasBus = true) (req : RequestEnvelope) (autoRouted : Bool)
    (start : Int) (out : ExecuteResult × Provider × Option GoError × StreamTotals) :
    Reports r (settleStream h r req autoRouted start out) := by
  obtain ⟨result, p, err, totals⟩ := out
  refine (recordOutcome_mute _ _).reports fun _ => now_mute.reports fun stop =>
    (recordMetrics_mute _ _ _ _ _ _).reports fun _ => ?_
  rw [publish, hbus]
  refine Reports.mute (reports_publish ?_) fun _ => emits_ret
  exact ((baseEvent_isReport _ _ _ _).withStream _ _ _).withResult _ _ _ _

end

/-! ## A call answers -/

theorem chatWithRetry_answers (hmax : 1 ≤ cfg.maxAttempts) (req : RequestEnvelope) (p : Provider)
    (s : Option ResponseEnvelope) :
    Ensures (chatWithRetry cfg req p s) fun _ out => out.2.2 = none → out.1 ≠ none := by
  rintro t ⟨s', n, err⟩ hrun (rfl : err = none)
  obtain ⟨_, t₂, _, final, _, hlast⟩ := withRetry_last hmax hrun
  obtain ⟨outcome, _, _, hret⟩ := runs_ask_iff.mp hlast
  cases outcome with
  | error e => cases (runs_ret_iff.mp hret).2
  | ok resp =>
    cases (runs_ret_iff.mp hret).2
    simp

variable {primary : String} {lookup : ProviderLookup} {rest : List Candidate} {i : Nat}
  {st : LoopState} {s : Option ResponseEnvelope} {r' : HttpRequest} {id : Identity}

theorem walk_answers (hmax : 1 ≤ cfg.maxAttempts)
    {r : ExecuteResult × Option GoError × Option ResponseEnvelope}
    (h : Walk primary lookup (chatWithRetry cfg req) rest i st s t r)
    (hstart : rest ≠ [] ∨ st.lastErr ≠ none) : r.2.1 = none → r.2.2 ≠ none := by
  induction h with
  | exhausted => exact fun hnone => absurd hnone (hstart.resolve_left (not_not_intro rfl))
  | skip _ _ ih => exact ih (.inr (by simp))
  | success _ ha => exact fun _ => chatWithRetry_answers hmax _ _ _ _ _ ha rfl
  | abort => exact fun hnone => by cases hnone
  | escalate _ _ _ _ _ ih | next _ _ _ _ _ ih => exact ih (.inr (by simp [LoopState.failed]))

section

variable {h : ChatHandler} {p : Provider} {req : RequestEnvelope} {chain : List Candidate}

theorem callModel_answers :
    Ensures (h.callModel p req chain) fun t out => Called t → out.Answered := by
  unfold callModel
  split
  · refine ensures_ask.mpr ?_
    rintro (e | resp)
    · exact ensures_ret.mpr fun _ => .inl (by simp)
    · exact ensures_ret.mpr fun _ => .inr (by simp)
  · refine ensures_bind.mpr fun t out hrun => ensures_ret.mpr fun hcalled => ?_
    rw [append_nil] at hcalled
    obtain ⟨result, err, response, rfl, hwalk⟩ := runs_execute_iff.mp hrun
    by_cases hmax : 1 ≤ h.retryCfg.maxAttempts
    · by_cases herr : err = none
      · exact .inr (walk_answers hmax hwalk (.inl (by simp [orderedCandidates])) herr)
      · exact .inl herr
    · refine absurd hcalled (not_called (hwalk.emits (fun p s => ?_) fun _ => id))
      rw [chatWithRetry, withRetry_of_nonpos (by omega)]
      exact emits_ret

theorem resolveRetrieval_answers (resp : Option ResponseEnvelope) (hresp : resp ≠ none) :
    Ensures (h.resolveRetrieval p req resp) fun _ out => out.2 ≠ none ∨ out.1 ≠ none := by
  unfold resolveRetrieval
  split
  · exact absurd rfl hresp
  · split
    · exact ensures_ret.mpr (.inr (by simp))
    · split
      · exact ensures_ret.mpr (.inr (by simp))
      · split
        · exact ensures_ret.mpr (.inr (by simp))
        · unfold retrieveAndReplay
          rw [Prog.perform_bind, ensures_ask]
          intro content
          dsimp only
          rw [Prog.perform_bind, ensures_ask]
          rintro (e | final)
          · exact ensures_ret.mpr (.inl (by simp))
          · exact ensures_ret.mpr (.inr (by simp))

theorem callAndResolve_answers :
    Ensures (h.callAndResolve p req chain) fun t out => Called t → out.Answered := by
  refine callModel_answers.bind fun t out hout => ?_
  split
  · rename_i hflags
    have hnone : out.err = none := by simpa using (Bool.and_eq_true_iff.mp hflags).1
    cases hresp : out.resp with
    | none =>
      -- No response and no error: nobody was called, and there is nothing to resolve.
      refine ensures_ret.mpr fun hcalled => ?_
      rw [append_nil] at hcalled
      exact absurd (hout hcalled) (by simp [CallOutcome.Answered, hnone, hresp])
    | some resp =>
      exact (resolveRetrieval_answers (some resp) (by simp)).bind fun _ _ hanswered =>
        ensures_ret.mpr fun _ => hanswered
  · exact ensures_ret.mpr fun hcalled => hout (by rwa [append_nil] at hcalled)

end

/-! ## The chat handler -/

theorem Calling.published_eq (he : Calling e) : published e = none := by
  obtain ⟨op, res⟩ := e
  cases op with
  | publish => exact he.elim
  | _ => rfl

theorem Consults.published_eq (he : Consults e) : published e = none := by
  obtain ⟨op, res⟩ := e
  cases op with
  | publish => exact he.elim
  | _ => rfl

/-- The body does not name a chain. -/
def Chainless (h : ChatHandler) (r : HttpRequest) : Prop :=
  ∀ req, r.body = some req → h.chains req.model = none

section

variable {h : ChatHandler} {r : HttpRequest}

theorem accounted_reports {α β : Type} {model : String} {err : α → Option GoError} {call : Go α}
    {settle : Int → α → Go β} {refused : β} (answers : α → Prop) (hcalling : Emits call Calling)
    (hcall : Ensures call fun t out => Called t → answers out)
    (hsettle : ∀ start out, Settles h model (err out) (settle start out))
    (hreports : ∀ start out, answers out → Reports r (settle start out)) :
    Ensures (accounted h model call settle refused) fun t _ => Called t → ReportsOnce r t := by
  rintro t b hrun hcalled
  obtain ⟨_, rfl, _⟩ | ⟨start, t₁, out, t₂, rfl, hmade, hsettled⟩ := runs_accounted_iff.mp hrun
  · exact absurd hcalled (not_called (forall_mem_singleton.mpr id))
  · have hadmission : ∀ e ∈ h.admission model ++ [⟨.now, start⟩],
        published e = none ∧ ¬ IsCall e.op := by
      unfold admission
      split <;> simp [published, IsCall]
    rw [append_cons, ← append_assoc] at hcalled ⊢
    have hcalled₁ : Called t₁ := by
      obtain (hcalled | hcalled) | hcalled :=
        (called_append.mp hcalled).imp_left called_append.mp
      · exact absurd hcalled (not_called fun e he => (hadmission e he).2)
      · exact hcalled
      · exact absurd hcalled (not_called ((hsettle start out).no_calls t₂ b hsettled))
    refine (hreports start out (hcall t₁ out hmade hcalled₁) t₂ b hsettled).after ?_
    exact forall_mem_append.mpr ⟨fun e he => (hadmission e he).1,
      fun e he => (hcalling t₁ out hmade e he).published_eq⟩

theorem serveDecision_reports (hbus : h.hasBus = true) (req : RequestEnvelope)
    (d : RoutingDecision) :
    Ensures (h.serveDecision r req d) fun t _ => Called t → ReportsOnce r t := by
  have hlookup : ∀ {t : Trace effects} {u : Unit}, (Called t → ReportsOnce r t) →
      Called (⟨.lookup d.model, u⟩ :: t) → ReportsOnce r (⟨.lookup d.model, u⟩ :: t) := by
    intro t u ht hcalled
    refine ReportsOnce.after (t := [_]) (ht ?_) (forall_mem_singleton.mpr rfl)
    exact (called_append (t := [_])).mp hcalled |>.resolve_left
      (not_called (forall_mem_singleton.mpr id))
  cases hl : h.router d.model with
  | error err =>
    rw [serveDecision_of_error hl, ensures_ask]
    exact fun _ => ensures_ret.mpr (hlookup fun hcalled => absurd hcalled (by simp [Called]))
  | ok p =>
    rw [serveDecision_of_ok hl, ensures_ask]
    refine fun _ => Ensures.mono (Q := fun t _ => Called t → ReportsOnce r t) ?_
      fun _ _ => hlookup
    split
    · rw [handleStream_eq]
      split
      · exact ensures_ret.mpr fun hcalled => absurd hcalled (by simp [Called])
      · exact accounted_reports (fun _ => True) (streamModel_calling h p _ _)
          (fun _ _ _ _ => trivial) (settleStream_settles h r _ _)
          fun start out _ => settleStream_reports hbus _ _ start out
    · rw [serveChat_eq]
      exact accounted_reports CallOutcome.Answered (callAndResolve_calling h p _ _)
        callAndResolve_answers (settleChat_settles h r _ _)
        fun start _ hout => settleChat_reports hbus _ _ start hout

theorem serveHTTP_reports (hbus : h.hasBus = true) (hchains : Chainless h r) :
    Ensures (h.serveHTTP r) fun t _ => Called t → ReportsOnce r t := by
  obtain ⟨reply, hserve⟩ | ⟨req, -, hserve⟩ := serveHTTP_chainless hchains
  · rw [hserve]
    exact ensures_ret.mpr fun hcalled => absurd hcalled (not_called (forall_mem_nil _))
  · rw [hserve]
    refine Ensures.bind (route_emits h r req) fun t out ht => ?_
    have hasked : ¬ Called t := not_called fun e he => (ht e he).no_call
    cases out with
    | error reply =>
      refine ensures_ret.mpr fun hcalled => ?_
      rw [append_nil] at hcalled
      exact absurd hcalled hasked
    | ok d =>
      refine (serveDecision_reports hbus req d).mono fun t' _ hreport hcalled => ?_
      exact (hreport ((called_append.mp hcalled).resolve_left hasked)).after
        fun e he => (ht e he).published_eq

end

/-! ## The middlewares -/

/-- The event does not publish, does not call a provider, and does not reserve or give back. -/
def Silent (e : Event effects) : Prop :=
  match e.op with
  | .publish _ | .chat .. | .stream .. | .budgetIntercept _ | .budgetRelease _ => False
  | _ => True

theorem Silent.published_eq (he : Silent e) : published e = none := by
  obtain ⟨op, res⟩ := e
  cases op with
  | publish => exact he.elim
  | _ => rfl

theorem Silent.no_call (he : Silent e) : ¬ IsCall e.op := by
  obtain ⟨op, res⟩ := e
  cases op with
  | chat | stream => exact he.elim
  | _ => exact id

/-- The program runs the handler behind it at most once, on a request in `passed`, and besides that
it is silent. -/
def Forwards (next : Handler) (passed : HttpRequest → Prop) (p : Go Reply) : Prop :=
  Ensures p fun t _ => ∃ before t' after, t = before ++ (t' ++ after) ∧
    (∀ e ∈ before, Silent e) ∧ (∀ e ∈ after, Silent e) ∧
    (t' = [] ∨ ∃ r reply, passed r ∧ Runs (next r) t' reply)

section

variable {next next' : Handler} {passed passed' : HttpRequest → Prop} {α : Type} {p : Go Reply}

theorem forwards_next {r : HttpRequest} (hr : passed r) : Forwards next passed (next r) :=
  fun t reply hrun => ⟨[], t, [], by simp, forall_mem_nil _, forall_mem_nil _,
    .inr ⟨r, reply, hr, hrun⟩⟩

theorem forwards_of_silent (hp : Emits p Silent) : Forwards next passed p :=
  fun t reply hrun => ⟨t, [], [], by simp, hp t reply hrun, forall_mem_nil _, .inl rfl⟩

theorem forwards_after {q : Go α} {f : α → Go Reply} (hq : Emits q Silent)
    (hf : ∀ a, Forwards next passed (f a)) : Forwards next passed (q >>= f) := by
  refine Ensures.bind hq fun t a ht => (hf a).mono ?_
  rintro t₁ _ ⟨before, t', after, rfl, hbefore, hafter, hrun⟩
  exact ⟨t ++ before, t', after, by simp, forall_mem_append.mpr ⟨ht, hbefore⟩, hafter, hrun⟩

theorem Forwards.before {f : Reply → Go Reply} (hp : Forwards next passed p)
    (hf : ∀ reply, Emits (f reply) Silent) : Forwards next passed (p >>= f) := by
  refine Ensures.bind hp fun t reply ht => (hf reply).mono fun t₁ _ ht₁ => ?_
  obtain ⟨before, t', after, rfl, hbefore, hafter, hrun⟩ := ht
  exact ⟨before, t', after ++ t₁, by simp, hbefore, forall_mem_append.mpr ⟨hafter, ht₁⟩, hrun⟩

theorem Forwards.trans (hp : Forwards next passed p)
    (hnext : ∀ r, passed r → Forwards next' passed' (next r)) : Forwards next' passed' p := by
  refine hp.mono ?_
  rintro t _ ⟨before, t', after, rfl, hbefore, hafter, rfl | ⟨r, reply, hr, hrun⟩⟩
  · exact ⟨before, [], after, rfl, hbefore, hafter, .inl rfl⟩
  · obtain ⟨before', t'', after', rfl, hbefore', hafter', hrun'⟩ := hnext r hr t' reply hrun
    exact ⟨before ++ before', t'', after' ++ after, by simp,
      forall_mem_append.mpr ⟨hbefore, hbefore'⟩,
      forall_mem_append.mpr ⟨hafter', hafter⟩, hrun'⟩

/-- What holds of silent events and of what the handler behind it does. -/
theorem Forwards.emits {P : Event effects → Prop} (hp : Forwards next passed p)
    (hsilent : ∀ e, Silent e → P e) (hnext : ∀ r, passed r → Emits (next r) P) : Emits p P := by
  refine hp.mono ?_
  rintro t _ ⟨before, t', after, rfl, hbefore, hafter, hrun⟩
  refine forall_mem_append.mpr ⟨fun e he => hsilent e (hbefore e he),
    forall_mem_append.mpr ⟨?_, fun e he => hsilent e (hafter e he)⟩⟩
  obtain rfl | ⟨r, reply, hr, hrun⟩ := hrun
  · exact forall_mem_nil _
  · exact hnext r hr t' reply hrun

theorem Forwards.reports {r : HttpRequest} (hp : Forwards next passed p)
    (hnext : ∀ r', passed r' → Ensures (next r') fun t _ => Called t → ReportsOnce r t) :
    Ensures p fun t _ => Called t → ReportsOnce r t := by
  refine hp.mono ?_
  rintro t _ ⟨before, t', after, rfl, hbefore, hafter, hrun⟩ hcalled
  have hcalled' : Called t' := by
    obtain hcalled | hcalled | hcalled :=
      (called_append.mp hcalled).imp_right called_append.mp
    · exact absurd hcalled (not_called fun e he => (hbefore e he).no_call)
    · exact hcalled
    · exact absurd hcalled (not_called fun e he => (hafter e he).no_call)
  obtain rfl | ⟨r', reply, hr', hrun⟩ := hrun
  · exact absurd hcalled' (by simp [Called])
  · exact ((hnext r' hr' t' reply hrun hcalled').before fun e he =>
      (hafter e he).published_eq).after fun e he => (hbefore e he).published_eq

end

/-- The request comes from the same caller as `r`, and it names the same model. -/
structure SameCaller (r r' : HttpRequest) : Prop where
  identity : r'.identity = r.identity
  useCase : r'.useCase = r.useCase
  model : ∀ req', r'.body = some req' → ∃ req, r.body = some req ∧ req'.model = req.model

theorem SameCaller.refl (r : HttpRequest) : SameCaller r r := ⟨rfl, rfl, fun req h => ⟨req, h, rfl⟩⟩

theorem SameCaller.chainless {h : ChatHandler} (hr : SameCaller r r') (hchains : Chainless h r) :
    Chainless h r' := by
  intro req' hbody'
  obtain ⟨req, hbody, hmodel⟩ := hr.model req' hbody'
  rw [hmodel]
  exact hchains req hbody

theorem SameCaller.withBody (hr : SameCaller r r') {req' : RequestEnvelope}
    (hbody : r'.body = some req) (hmodel : req'.model = req.model) (historyLen : Int)
    (canFlush : Bool) :
    SameCaller r { r' with body := some req', historyLen := historyLen, canFlush := canFlush } := by
  refine ⟨hr.identity, hr.useCase, ?_⟩
  rintro _ ⟨⟩
  rw [hmodel]
  exact hr.model req hbody

section

variable {r r' : HttpRequest} {next : Handler}

theorem memoryMiddleware_forwards (topK : Int) (hr : SameCaller r r') :
    Forwards next (SameCaller r) (memoryMiddleware topK next r') := by
  unfold memoryMiddleware
  dsimp only
  split
  · exact forwards_next hr
  · refine forwards_after (emits_perform fun _ => trivial) ?_
    rintro (err | contents)
    · exact forwards_next hr
    · dsimp only
      split
      · exact forwards_next hr
      · exact forwards_next hr
      · rename_i req _ hbody
        refine forwards_next (hr.withBody hbody ?_ _ _)
        rfl

theorem persistTurn_silent (storeKey : String) (req : RequestEnvelope) (reply : Reply) :
    Emits (persistTurn storeKey req reply) Silent := by
  unfold persistTurn
  split
  · exact emits_ret
  · exact emits_perform fun _ => trivial

theorem sessionMiddleware_forwards (hr : SameCaller r r') :
    Forwards next (SameCaller r) (sessionMiddleware next r') := by
  have hid : Emits (resolveSessionID r') Silent :=
    emits_ite (emits_perform fun _ => trivial) emits_ret
  have hreset : ∀ storeKey, Emits (resetSession r' storeKey) Silent :=
    fun _ => emits_ite (emits_perform fun _ => trivial) emits_ret
  refine forwards_after hid fun sessionID => forwards_after (hreset _) fun _ => ?_
  split
  · exact forwards_next hr
  · rename_i req hbody
    refine forwards_after (emits_perform fun _ => trivial) fun stored => ?_
    refine Forwards.before (forwards_next (hr.withBody hbody ?_ _ _)) fun reply =>
      (persistTurn_silent _ req reply).bind fun _ => emits_ret
    rfl

theorem storeReply_silent (req : RequestEnvelope) (historyLen ttl : Int) (reply : Reply) :
    Emits (storeReply req historyLen ttl reply) Silent := by
  unfold storeReply
  split
  · exact emits_perform fun _ => trivial
  · exact emits_ret

theorem cacheMiddleware_forwards (ttl : Int) (hr : SameCaller r r') :
    Forwards next (SameCaller r) (cacheMiddleware ttl next r') := by
  unfold cacheMiddleware
  split
  · exact forwards_next hr
  · split
    · exact forwards_next hr
    · split
      · exact forwards_next hr
      · refine forwards_after (emits_perform fun _ => trivial) ?_
        rintro (_ | ⟨resp, hit⟩)
        · refine forwards_after (emits_perform fun _ => trivial) ?_
          rintro (_ | reply)
          · refine Forwards.before (forwards_next ⟨hr.identity, hr.useCase, hr.model⟩)
              fun reply => (storeReply_silent _ _ _ reply).bind fun _ => ?_
            exact emits_ask (fun _ => trivial) fun _ => emits_ret
          · exact forwards_of_silent emits_ret
        · exact forwards_of_silent emits_ret

end

/-! ## The pipeline -/

/-- What interceptors do for a caller. -/
def Screens (id : Identity) (e : Event effects) : Prop :=
  Silent e ∨ ∃ res, e = ⟨.budgetIntercept id, res⟩

theorem Screens.published_eq (he : Screens id e) : published e = none := by
  obtain he | ⟨res, rfl⟩ := he
  · exact he.published_eq
  · rfl

theorem Screens.no_call (he : Screens id e) : ¬ IsCall e.op := by
  obtain he | ⟨res, rfl⟩ := he
  · exact he.no_call
  · exact not_false

/-- No interceptor has made the request name a chain. -/
def GivenChainless (h : ChatHandler) (t : Trace effects) : Prop :=
  ∀ name asked given, (⟨.intercept name asked, .ok given⟩ : Event effects) ∈ t →
    h.chains given.model = none

theorem runInterceptors_screens (h : ChatHandler) (id : Identity) : ∀ (chain : List Interceptor)
    (req : RequestEnvelope), Ensures (runInterceptors id chain req) fun t out =>
      (∀ e ∈ t, Screens id e) ∧ (h.chains req.model = none → GivenChainless h t →
        h.chains out.1.model = none)
  | [], req => ensures_ret.mpr ⟨forall_mem_nil _, fun hreq _ => hreq⟩
  | .budget :: chain, req => by
    rw [runInterceptors, Prog.perform_bind, ensures_ask]
    rintro (_ | err)
    · refine (runInterceptors_screens h id chain req).mono ?_
      rintro t out ⟨hscreens, hout⟩
      refine ⟨forall_mem_cons.mpr ⟨.inr ⟨none, rfl⟩, hscreens⟩, fun hreq hgiven => ?_⟩
      exact hout hreq fun name asked given hmem =>
        hgiven name asked given (mem_cons_of_mem _ hmem)
    · exact ensures_ret.mpr ⟨forall_mem_singleton.mpr (.inr ⟨some err, rfl⟩),
        fun hreq _ => hreq⟩
  | .other name :: chain, req => by
    rw [runInterceptors, Prog.perform_bind, ensures_ask]
    rintro (err | given)
    · exact ensures_ret.mpr ⟨forall_mem_singleton.mpr (.inl trivial), fun hreq _ => hreq⟩
    · refine (runInterceptors_screens h id chain given).mono ?_
      rintro t out ⟨hscreens, hout⟩
      refine ⟨forall_mem_cons.mpr ⟨.inl trivial, hscreens⟩, fun _ hgiven => ?_⟩
      exact hout (hgiven name req given mem_cons_self) fun name asked given hmem =>
        hgiven name asked given (mem_cons_of_mem _ hmem)

section

variable {g : Gateway} {r : HttpRequest}

theorem inner_forwards (g : Gateway) (r : HttpRequest) :
    Forwards g.handler.serveHTTP (SameCaller r) (g.inner r) :=
  ((memoryMiddleware_forwards g.memoryTopK (.refl r)).trans fun _ hr =>
    sessionMiddleware_forwards hr).trans fun _ hr => cacheMiddleware_forwards g.cacheTTL hr

theorem inner_reports (hbus : g.handler.hasBus = true) (hchains : Chainless g.handler r) :
    Ensures (g.inner r) fun t _ => Called t → ReportsOnce r t := by
  refine (inner_forwards g r).reports fun r' hr =>
    (serveHTTP_reports hbus (hr.chainless hchains)).mono ?_
  intro t _ hreport hcalled
  obtain ⟨ev, hev, ⟨huse, htenant, hteam, huser⟩, hprimary⟩ := hreport hcalled
  rw [hr.useCase] at huse
  rw [hr.identity] at htenant hteam huser
  exact ⟨ev, hev, ⟨huse, htenant, hteam, huser⟩, hprimary⟩

theorem writeBlocked_no_calls (hasBus : Bool) (req : RequestEnvelope) (err : BlockedError) :
    Emits (writeBlocked hasBus r req err) fun e => ¬ IsCall e.op := by
  unfold writeBlocked
  split
  · exact emits_ask (fun _ => id) fun _ => emits_ask (fun _ => id) fun _ => emits_ret
  · exact emits_ret

theorem serve_reports (hbus : g.handler.hasBus = true) (hchains : Chainless g.handler r) :
    Ensures (g.serve r) fun t _ => Called t → GivenChainless g.handler t → ReportsOnce r t := by
  have hpassed := (inner_reports hbus hchains).mono fun t _ hreport hcalled
    (_ : GivenChainless g.handler t) => hreport hcalled
  unfold Gateway.serve interceptorMiddleware
  split
  · exact hpassed
  · split
    · exact hpassed
    · rename_i req hbody
      refine (runInterceptors_screens g.handler _ _ _).bind ?_
      rintro t ⟨req', _ | err⟩ ⟨hscreens, hout⟩
      · intro t' reply hrun hcalled hgiven
        have hcalled' := (called_append.mp hcalled).resolve_left
          (not_called fun e he => (hscreens e he).no_call)
        have hmodel := hout (hchains req hbody) fun name asked given hmem =>
          hgiven name asked given (mem_append_left _ hmem)
        have hchains' : Chainless g.handler { r with body := some req' } := by
          rintro _ ⟨⟩
          exact hmodel
        obtain ⟨ev, hev, hreport⟩ := (inner_reports hbus hchains' t' reply hrun hcalled').after
          fun e he => (hscreens e he).published_eq
        exact ⟨ev, hev, ⟨hreport.ofRequest, hreport.primary⟩⟩
      · intro t' reply hrun hcalled
        obtain hcalled | hcalled := called_append.mp hcalled
        · exact absurd hcalled (not_called fun e he => (hscreens e he).no_call)
        · exact absurd hcalled
            (not_called (writeBlocked_no_calls _ _ _ t' reply hrun))

end

end Ixr.Ingress
