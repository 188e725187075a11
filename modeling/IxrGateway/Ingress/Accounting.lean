import IxrGateway.Ingress.ChatHandler

/-!
# The frame around a call

The handler calls a model in four places, and all have one frame.  The breaker
is asked first.  Then the call is made, its outcome is told to the breaker, and
metrics and events follow.  `accounted` is that frame.  Its runs are given once,
and a fact about the breaker or the bus is proved from them for all four places.
-/

namespace Ixr.Ingress

open Interaction Routing Reasoning GoStrings ChatHandler

/-! ## Events around a call -/

/-- The events of an admission. -/
def ChatHandler.admission (h : ChatHandler) (model : String) : Trace effects :=
  if h.hasRegistry then [⟨.isAllowed .admission model, true⟩] else []

/-- The events of a recorded outcome. -/
def ChatHandler.outcome (h : ChatHandler) (model : String) (err : Option GoError) :
    Trace effects :=
  if h.hasRegistry && shouldRecordOutcome err then [⟨.recordOutcome model err.isNone, ()⟩] else []

theorem forall_mem_admission {P : Event effects → Prop} (h : ChatHandler) (model : String)
    (hP : P ⟨.isAllowed .admission model, true⟩) : ∀ e ∈ h.admission model, P e := by
  unfold admission
  split
  · exact List.forall_mem_singleton.mpr hP
  · exact List.forall_mem_nil _

theorem forall_mem_outcome {P : Event effects → Prop} (h : ChatHandler) (model : String)
    (err : Option GoError) (hP : ∀ success, P ⟨.recordOutcome model success, ()⟩) :
    ∀ e ∈ h.outcome model err, P e := by
  unfold outcome
  split
  · exact List.forall_mem_singleton.mpr (hP _)
  · exact List.forall_mem_nil _

/-- The event reads the clock, or reports a call to metrics, bus or shadow. -/
def Bookkeeping (e : Event effects) : Prop :=
  match e.op with
  | .now | .metrics .. | .publish _ | .goShadow _ => True
  | _ => False

variable {h : ChatHandler} {model : String} {err : Option GoError} {β : Type} {r : HttpRequest}
  {req : RequestEnvelope} {d : RoutingDecision}

variable {t : Trace effects} {P : Event effects → Prop}

theorem recordOutcome_runs {u : Unit} (hrun : Runs (h.recordOutcome model err) t u) :
    t = h.outcome model err := by
  unfold recordOutcome at hrun
  unfold outcome
  split at hrun
  · obtain ⟨_, _, rfl, hret⟩ := runs_ask_iff.mp hrun
    obtain ⟨rfl, _⟩ := runs_ret_iff.mp hret
    rw [if_pos ‹_›]
  · obtain ⟨rfl, _⟩ := runs_ret_iff.mp hrun
    rw [if_neg ‹_›]

/-- The event is about the request: it names its use case and its identity. -/
def OfRequest (r : HttpRequest) (ev : CallEvent) : Prop :=
  ev.useCaseID = r.useCase ∧ ev.tenantID = r.identity.tenantID ∧ ev.teamID = r.identity.teamID ∧
    ev.userID = r.identity.userID

/-- `P` holds of what is done for a request besides calls. -/
structure Covers (r : HttpRequest) (P : Event effects → Prop) : Prop where
  now : ∀ t, P ⟨.now, t⟩
  metrics : ∀ provider model status latency tokensIn tokensOut,
    P ⟨.metrics provider model status latency tokensIn tokensOut, ()⟩
  publish : ∀ ev, OfRequest r ev → P ⟨.publish ev, ()⟩
  goShadow : ∀ job, job.request = r → P ⟨.goShadow job, ()⟩

theorem bookkeeping_covers (r : HttpRequest) : Covers r Bookkeeping :=
  ⟨fun _ => trivial, fun _ _ _ _ _ _ => trivial, fun _ _ => trivial, fun _ _ => trivial⟩

section

variable {h : ChatHandler} {r : HttpRequest} {P : Event effects → Prop}

theorem baseEvent_ofRequest (r : HttpRequest) (req : RequestEnvelope) (model : String)
    (start stop : Int) : OfRequest r (baseEvent r req model start stop) :=
  ⟨rfl, rfl, rfl, rfl⟩

variable {ev : CallEvent}

theorem OfRequest.withOutcome (hev : OfRequest r ev) (model : String) (err : Option GoError)
    (resp : ResponseEnvelope) : OfRequest r (withOutcome ev model err resp) := by
  cases err with
  | none | some => exact hev

theorem OfRequest.withStream (hev : OfRequest r ev) (model : String) (err : Option GoError)
    (totals : StreamTotals) : OfRequest r (withStream ev model err totals) := by
  cases err with
  | none | some => exact hev

theorem OfRequest.withResult (hev : OfRequest r ev) (autoRouted : Bool) (provider : String)
    (err : Option GoError) (result : ExecuteResult) :
    OfRequest r (withResult ev autoRouted provider err result) := by
  cases err with
  | none | some => exact hev

theorem OfRequest.withProvider (hev : OfRequest r ev) (result : ExecuteResult) :
    OfRequest r (withProvider ev result) :=
  hev

theorem recordMetrics_emits (hP : Covers r P) (provider model : String) (err : Option GoError)
    (latency tokensIn tokensOut : Int) :
    Emits (h.recordMetrics provider model err latency tokensIn tokensOut) P :=
  emits_ite (emits_perform fun _ => hP.metrics _ _ _ _ _ _) emits_ret

theorem publish_emits (hP : Covers r P) (hev : OfRequest r ev) : Emits (h.publish ev) P :=
  emits_ite (emits_perform fun _ => hP.publish ev hev) emits_ret

theorem startShadow_emits (hP : Covers r P) (req : RequestEnvelope)
    (resp : Option ResponseEnvelope) : Emits (startShadow r req resp) P :=
  emits_ite (emits_perform fun _ => hP.goShadow _ rfl) emits_ret

theorem report_emits (hP : Covers r P) (req : RequestEnvelope) (autoRouted : Bool)
    (start stop : Int) (out : CallOutcome) :
    Emits (h.report r req autoRouted start stop out) P := by
  unfold report
  split
  · split
    · exact emits_ret
    · exact emits_ret
  · refine (recordMetrics_emits hP _ _ _ _ _ _).bind fun _ => ?_
    dsimp only
    split
    · have hev := (((baseEvent_ofRequest r req (usedModel req out.result) start stop).withOutcome
        (usedModel req out.result) out.err (out.resp.getD {})).withResult autoRouted
        out.provider.name out.err out.result)
      exact emits_ask (fun _ => hP.publish _ hev) fun _ =>
        (startShadow_emits hP req _).bind fun _ => emits_ret
    · exact emits_ret

end

/-! ## The frame -/

/-- The program tells the breaker the outcome `err` of a call to `model`, and does bookkeeping. -/
def Settles {β : Type} (h : ChatHandler) (model : String) (err : Option GoError) (p : Go β) :
    Prop :=
  Ensures p fun t _ => ∃ before after, t = before ++ (h.outcome model err ++ after) ∧
    (∀ e ∈ before, Bookkeeping e) ∧ ∀ e ∈ after, Bookkeeping e

/-- The same with what else is done in `P`. -/
def SettlesBy {β : Type} (P : Event effects → Prop) (h : ChatHandler) (model : String)
    (err : Option GoError) (p : Go β) : Prop :=
  Ensures p fun t _ => ∃ before after, t = before ++ (h.outcome model err ++ after) ∧
    (∀ e ∈ before, P e) ∧ ∀ e ∈ after, P e

theorem settlesBy_now {k : Int → Go β} (hnow : ∀ t, P ⟨.now, t⟩)
    (hk : ∀ stop, SettlesBy P h model err (k stop)) : SettlesBy P h model err (Go.now >>= k) := by
  refine ensures_ask.mpr fun stop => (hk stop).mono ?_
  rintro t b ⟨before, after, rfl, hbefore, hafter⟩
  exact ⟨_ :: before, after, rfl, List.forall_mem_cons.mpr ⟨hnow stop, hbefore⟩, hafter⟩

theorem settlesBy_recordOutcome {k : Unit → Go β} (hk : Emits (k ()) P) :
    SettlesBy P h model err (h.recordOutcome model err >>= k) := by
  refine ensures_bind.mpr fun t u hrun => hk.mono fun t' b hafter => ?_
  rw [recordOutcome_runs hrun]
  exact ⟨[], t', rfl, List.forall_mem_nil _, hafter⟩

/-- A call between its two reports. -/
def accounted {α β : Type} (h : ChatHandler) (model : String) (call : Go α)
    (settle : Int → α → Go β) (refused : β) : Go β := do
  if ← h.admits model then
    let start ← Go.now
    let out ← call
    settle start out
  else pure refused

theorem runs_accounted_iff {α : Type} {call : Go α} {settle : Int → α → Go β} {refused b : β} :
    Runs (accounted h model call settle refused) t b ↔
      h.hasRegistry = true ∧ t = [⟨.isAllowed .admission model, false⟩] ∧ b = refused ∨
      ∃ start t₁ out t₂, t = h.admission model ++ ⟨.now, start⟩ :: (t₁ ++ t₂) ∧
        Runs call t₁ out ∧ Runs (settle start out) t₂ b := by
  have hadmitted : ∀ t, Runs (Go.now >>= fun start => call >>= fun out => settle start out) t b ↔
      ∃ start t₁ out t₂, t = ⟨.now, start⟩ :: (t₁ ++ t₂) ∧
        Runs call t₁ out ∧ Runs (settle start out) t₂ b := by
    intro t
    rw [Prog.perform_bind, runs_ask_iff]
    simp only [runs_bind_iff]
    constructor
    · rintro ⟨start, _, rfl, t₁, out, t₂, rfl, hcall, hsettle⟩
      exact ⟨start, t₁, out, t₂, rfl, hcall, hsettle⟩
    · rintro ⟨start, t₁, out, t₂, rfl, hcall, hsettle⟩
      exact ⟨start, _, rfl, t₁, out, t₂, rfl, hcall, hsettle⟩
  unfold accounted admits admission
  cases hreg : h.hasRegistry with
  | false =>
    simpa using hadmitted t
  | true =>
    simp only [if_true, true_and, List.cons_append, List.nil_append]
    rw [Prog.perform_bind, runs_ask_iff]
    constructor
    · rintro ⟨allowed, t', rfl, hrest⟩
      cases allowed with
      | false =>
        obtain ⟨rfl, rfl⟩ := runs_ret_iff.mp hrest
        exact .inl ⟨rfl, rfl⟩
      | true =>
        obtain ⟨start, t₁, out, t₂, rfl, hcall, hsettle⟩ := (hadmitted t').mp hrest
        exact .inr ⟨start, t₁, out, t₂, rfl, hcall, hsettle⟩
    · rintro (⟨rfl, rfl⟩ | ⟨start, t₁, out, t₂, rfl, hcall, hsettle⟩)
      · exact ⟨false, [], rfl, .ret⟩
      · exact ⟨true, _, rfl, (hadmitted _).mpr ⟨start, t₁, out, t₂, rfl, hcall, hsettle⟩⟩

/-! ## The four places -/

section

variable (h : ChatHandler) (r : HttpRequest)

/-- What `serveChat` does after the call. -/
def settleChat (req : RequestEnvelope) (autoRouted : Bool) (start : Int) (out : CallOutcome) :
    Go Reply := do
  let stop ← Go.now
  h.recordOutcome req.model out.err
  h.report r req autoRouted start stop out

theorem serveChat_eq (p : Provider) (req : RequestEnvelope) (autoRouted : Bool)
    (fallbackChain : List Candidate) :
    h.serveChat r p req autoRouted fallbackChain =
      accounted h req.model (h.callAndResolve p req fallbackChain) (settleChat h r req autoRouted)
        circuitOpen := rfl

variable {P : Event effects → Prop}

theorem settleChat_settlesBy (hP : Covers r P) (req : RequestEnvelope) (autoRouted : Bool)
    (start : Int) (out : CallOutcome) :
    SettlesBy P h req.model out.err (settleChat h r req autoRouted start out) :=
  settlesBy_now hP.now fun stop =>
    settlesBy_recordOutcome (report_emits hP req autoRouted start stop out)

theorem settleChat_settles (req : RequestEnvelope) (autoRouted : Bool) (start : Int)
    (out : CallOutcome) : Settles h req.model out.err (settleChat h r req autoRouted start out) :=
  settleChat_settlesBy h r (bookkeeping_covers r) req autoRouted start out

/-- What `handleStream` does after the stream. -/
def settleStream (req : RequestEnvelope) (autoRouted : Bool) (start : Int) :
    ExecuteResult × Provider × Option GoError × StreamTotals → Go Reply
  | (result, p, err, totals) => do
    h.recordOutcome req.model err
    let stop ← Go.now
    let model := usedModel req result
    h.recordMetrics p.name model err (stop - start) totals.totalIn totals.totalOut
    h.publish (withResult (withStream (baseEvent r req model start stop) model err totals)
      autoRouted p.name err result)
    pure (.stream totals.sent)

theorem handleStream_eq (p : Provider) (req : RequestEnvelope) (autoRouted : Bool)
    (fallbackChain : List Candidate) :
    h.handleStream r p req autoRouted fallbackChain =
      if !r.canFlush then pure noFlusher
      else accounted h req.model (h.streamModel p req fallbackChain)
        (settleStream h r req autoRouted) circuitOpen := rfl

theorem settleStream_settlesBy (hP : Covers r P) (req : RequestEnvelope) (autoRouted : Bool)
    (start : Int) (out : ExecuteResult × Provider × Option GoError × StreamTotals) :
    SettlesBy P h req.model out.2.2.1 (settleStream h r req autoRouted start out) := by
  obtain ⟨result, p, err, totals⟩ := out
  refine settlesBy_recordOutcome (emits_ask hP.now fun stop => ?_)
  exact (recordMetrics_emits hP _ _ _ _ _ _).bind fun _ =>
    (publish_emits hP (((baseEvent_ofRequest r req _ start stop).withStream _ err totals).withResult
      autoRouted p.name err result)).bind fun _ => emits_ret

theorem settleStream_settles (req : RequestEnvelope) (autoRouted : Bool) (start : Int)
    (out : ExecuteResult × Provider × Option GoError × StreamTotals) :
    Settles h req.model out.2.2.1 (settleStream h r req autoRouted start out) :=
  settleStream_settlesBy h r (bookkeeping_covers r) req autoRouted start out

/-- What `runChainStep` does after the call. -/
def settleStep (stepReq : RequestEnvelope) (start : Int) :
    ExecuteResult × Option GoError → Go StepOutcome
  | (result, err) => do
    let stop ← Go.now
    h.recordOutcome stepReq.model err
    match err, result.response with
    | none, none => pure .panicked
    | err, resp => do
      let envelope := resp.getD {}
      h.recordMetrics ((result.provider.map (·.name)).getD "") stepReq.model err (stop - start)
        (if err.isNone then envelope.usage.promptTokens else 0)
        (if err.isNone then envelope.usage.completionTokens else 0)
      h.publish (withProvider (withOutcome (baseEvent r stepReq stepReq.model start stop)
        stepReq.model err envelope) result)
      match err with
      | some e => pure (.failed e)
      | none => pure (.ok envelope)

theorem runChainStep_eq (model : String) (messages : List Message) :
    h.runChainStep r model messages =
      accounted h model
        (execute { model := model } (adjustTokenBudget { model := model, messages := messages })
          h.router h.retryCfg)
        (settleStep h r { model := model, messages := messages }) .circuitOpen := rfl

theorem settleStep_settlesBy (hP : Covers r P) (stepReq : RequestEnvelope) (start : Int)
    (out : ExecuteResult × Option GoError) :
    SettlesBy P h stepReq.model out.2 (settleStep h r stepReq start out) := by
  obtain ⟨result, err⟩ := out
  refine settlesBy_now hP.now fun stop => settlesBy_recordOutcome ?_
  dsimp only
  split
  · exact emits_ret
  · refine (recordMetrics_emits hP _ _ _ _ _ _).bind fun _ => (publish_emits hP
      (((baseEvent_ofRequest r stepReq _ start stop).withOutcome _ _ _).withProvider
        result)).bind fun _ => ?_
    split
    · exact emits_ret
    · exact emits_ret

theorem settleStep_settles (stepReq : RequestEnvelope) (start : Int)
    (out : ExecuteResult × Option GoError) :
    Settles h stepReq.model out.2 (settleStep h r stepReq start out) :=
  settleStep_settlesBy h r (bookkeeping_covers r) stepReq start out

/-- What `streamChainStep` does after the stream. -/
def settleLastStep (stepReq : RequestEnvelope) (start : Int) :
    ExecuteResult × Option GoError × StreamTotals → Go Reply
  | (result, err, totals) => do
    h.recordOutcome stepReq.model err
    let stop ← Go.now
    h.recordMetrics ((result.provider.map (·.name)).getD "") stepReq.model err (stop - start)
      totals.totalIn totals.totalOut
    h.publish (withProvider (withStream (baseEvent r stepReq stepReq.model start stop)
      stepReq.model err totals) result)
    pure (.stream totals.sent)

theorem streamChainStep_eq (chainName model : String) (messages : List Message) :
    h.streamChainStep r chainName model messages =
      if !r.canFlush then pure noFlusher
      else accounted h model
        (executeStream { model := model }
          (adjustTokenBudget { model := model, messages := messages }) h.router h.retryCfg
          (onChunk fun chunk => { chunk with model := chainName }) {})
        (settleLastStep h r { model := model, messages := messages })
        (chainCircuitOpen model) := rfl

theorem settleLastStep_settlesBy (hP : Covers r P) (stepReq : RequestEnvelope) (start : Int)
    (out : ExecuteResult × Option GoError × StreamTotals) :
    SettlesBy P h stepReq.model out.2.1 (settleLastStep h r stepReq start out) := by
  obtain ⟨result, err, totals⟩ := out
  refine settlesBy_recordOutcome (emits_ask hP.now fun stop => ?_)
  exact (recordMetrics_emits hP _ _ _ _ _ _).bind fun _ => (publish_emits hP
    (((baseEvent_ofRequest r stepReq _ start stop).withStream _ err totals).withProvider
      result)).bind fun _ => emits_ret

theorem settleLastStep_settles (stepReq : RequestEnvelope) (start : Int)
    (out : ExecuteResult × Option GoError × StreamTotals) :
    Settles h stepReq.model out.2.1 (settleLastStep h r stepReq start out) :=
  settleLastStep_settlesBy h r (bookkeeping_covers r) stepReq start out

end

/-! ## Routing -/

theorem serveHTTP_of_model (hpost : r.method = "POST") (hbody : r.body = some req)
    (hmodel : req.model ≠ "") (hmessages : req.messages ≠ []) (hchain : h.chains req.model = none) :
    h.serveHTTP r = h.serveModel r req := by
  simp only [serveHTTP, hpost, hbody, hmodel, hmessages, hchain, ne_eq, not_true_eq_false, if_false]

/-- A request is turned away, or it goes through a chain, or to a model. -/
theorem serveHTTP_cases (h : ChatHandler) (r : HttpRequest) :
    (∃ reply, h.serveHTTP r = .ret reply) ∨ ∃ req, r.body = some req ∧
      ((∃ c, h.chains req.model = some c ∧ h.serveHTTP r = h.handleChain r c req) ∨
        h.serveHTTP r = h.serveModel r req) := by
  unfold serveHTTP
  split
  · exact .inl ⟨_, rfl⟩
  · split
    · exact .inl ⟨_, rfl⟩
    · rename_i req hbody
      split
      · exact .inl ⟨_, rfl⟩
      · split
        · exact .inl ⟨_, rfl⟩
        · cases hchain : h.chains req.model with
          | some c => exact .inr ⟨req, hbody, .inl ⟨c, hchain, rfl⟩⟩
          | none => exact .inr ⟨req, hbody, .inr rfl⟩

theorem serveHTTP_chainless (hchains : ∀ req, r.body = some req → h.chains req.model = none) :
    (∃ reply, h.serveHTTP r = .ret reply) ∨
      ∃ req, r.body = some req ∧ h.serveHTTP r = h.serveModel r req := by
  obtain hreply | ⟨req, hbody, ⟨c, hc, -⟩ | hserve⟩ := serveHTTP_cases h r
  · exact .inl hreply
  · rw [hchains req hbody] at hc
    cases hc
  · exact .inr ⟨req, hbody, hserve⟩

theorem taskHintFromHeaders_uncapped (req : RequestEnvelope) (hbudget : trimSpace r.budget = "") :
    (taskHintFromHeaders h r req).maxCostUSDPer1M = 0 := by
  unfold taskHintFromHeaders
  simp only [hbudget, if_true]
  split_ifs <;> rfl

theorem route_of_lookup (hauto : req.model ≠ "auto") (hcatalog : (lookup req.model).isSome = true)
    (r : HttpRequest) :
    h.route r req =
      .ret (.ok ⟨req.model, fallbackChainFor req.model (taskHintFromHeaders h r req) 3⟩) := by
  simp only [route, hauto, hcatalog, if_false, if_true]
  rfl

theorem route_of_unlisted (hauto : req.model ≠ "auto")
    (hcatalog : (lookup req.model).isSome = false) (r : HttpRequest) :
    h.route r req = .ret (.ok ⟨req.model, []⟩) := by
  simp only [route, hauto, hcatalog, if_false, Bool.false_eq_true]
  rfl

theorem serveModel_of_route (hroute : h.route r req = .ret (.ok d)) :
    h.serveModel r req = h.serveDecision r req d := by
  unfold serveModel
  rw [hroute]
  rfl

theorem serveDecision_of_error {err : GoError} (hl : h.router d.model = .error err)
    (r : HttpRequest) (req : RequestEnvelope) :
    h.serveDecision r req d =
      .ask (.lookup d.model) fun _ => .ret (.error 400 "no_provider" err.msg) := by
  unfold serveDecision
  rw [Prog.perform_bind, hl]
  rfl

theorem serveDecision_of_ok {p : Provider} (hl : h.router d.model = .ok p) (r : HttpRequest)
    (req : RequestEnvelope) :
    h.serveDecision r req d = .ask (.lookup d.model) fun _ =>
      if req.stream then
        h.handleStream r p { req with model := d.model } (req.model == "auto") d.fallbackChain
      else
        h.serveChat r p { req with model := d.model } (req.model == "auto") d.fallbackChain := by
  unfold serveDecision
  rw [Prog.perform_bind, hl]

/-- The event asks a store or the breaker what to route to. -/
def Consults (e : Event effects) : Prop :=
  match e.op with
  | .isAllowed .filter _ | .getPolicy _ | .perfGet _ _ | .banditSelect _ => True
  | _ => False

theorem route_emits (h : ChatHandler) (r : HttpRequest) (req : RequestEnvelope) :
    Emits (h.route r req) Consults := by
  unfold route
  dsimp only
  split
  · split
    · refine (Scoring.Engine.decide_emits (fun _ => trivial) (fun _ _ => trivial)
        (fun _ _ => trivial) (fun _ _ => trivial)).bind ?_
      rintro (err | decision)
      · exact emits_ret
      · dsimp only
        split
        · exact emits_ret
        · exact emits_ret
    · split
      · exact emits_ret
      · exact emits_ret
  · split
    · exact emits_ret
    · exact emits_ret

end Ixr.Ingress
