import IxrGateway.Cost.Pricing
import IxrGateway.Reasoning.Budget
import IxrGateway.Retrieval.Tool
import IxrGateway.Routing.Executor
import IxrGateway.Scoring.Engine

/-!
# The call paths of the chat handler

The code of `ChatHandler` that calls a model for a request, streaming or not:
the breaker is asked, the model is called with its fallback chain, the outcome
is recorded with the breaker, and a call event is published.

The handler's optional parts (bus, registry, metrics, retrieval store) are
flags here, and what they do is an operation.
-/

namespace Ixr.Ingress

open Interaction Routing Reasoning

/-- `chain.Strategy`. -/
inductive Strategy where
  | sequential
  | fusion
deriving Repr, DecidableEq, Inhabited

/-- `chain.Chain`. -/
structure Chain where
  name : String
  strategy : Strategy
  models : List String
  prompts : List String := []
  judge : String := ""
deriving Repr, DecidableEq, Inhabited

/-- `ChatHandler`. -/
structure ChatHandler where
  router : ProviderLookup
  hasBus : Bool := true
  engine : Option Scoring.Engine := none
  hasRegistry : Bool := true
  hasShadow : Bool := false
  retryCfg : RetryConfig := defaultRetryConfig
  hasMetrics : Bool := false
  chains : String → Option Chain := fun _ => none
  hasRetrieval : Bool := false
  /-- `strconv.ParseFloat`. -/
  parseFloat : String → Option ℚ := fun _ => none
  /-- The `id` field of a retrieval call's arguments. -/
  unmarshalID : String → Option String := fun _ => none

/-- `shouldRecordOutcome`. -/
def shouldRecordOutcome (err : Option GoError) : Bool :=
  match err with
  | none => true
  | some e => !e.aborted

namespace ChatHandler

/-- `h.cbRegistry == nil || h.cbRegistry.IsAllowed(model)`. -/
def admits (h : ChatHandler) (model : String) : Go Bool :=
  if h.hasRegistry then Go.isAllowed .admission model else pure true

/-- Tell the breaker how the call went, unless the caller gave up. -/
def recordOutcome (h : ChatHandler) (model : String) (err : Option GoError) : Go Unit :=
  if h.hasRegistry && shouldRecordOutcome err then Go.recordOutcome model err.isNone else pure ()

/-- `h.metrics.Record`, if there are metrics. -/
def recordMetrics (h : ChatHandler) (provider model : String) (err : Option GoError)
    (latency tokensIn tokensOut : Int) : Go Unit :=
  if h.hasMetrics then
    Go.metrics provider model (if err.isNone then 200 else 502) latency tokensIn tokensOut
  else pure ()

/-- `h.bus.Publish`, if there is a bus. -/
def publish (h : ChatHandler) (ev : CallEvent) : Go Unit :=
  if h.hasBus then Go.publish ev else pure ()

end ChatHandler

/-- What every event of a call has. -/
def baseEvent (r : HttpRequest) (req : RequestEnvelope) (model : String) (start stop : Int) :
    CallEvent where
  timestamp := start
  model := model
  latency := stop - start
  request := req
  useCaseID := r.useCase
  tenantID := r.identity.tenantID
  teamID := r.identity.teamID
  userID := r.identity.userID

/-- The call failed, or returned `resp`. -/
def withOutcome (ev : CallEvent) (model : String) (err : Option GoError)
    (resp : ResponseEnvelope) : CallEvent :=
  match err with
  | some e => { ev with error := e.msg }
  | none =>
    { ev with
      id := resp.id
      tokensIn := resp.usage.promptTokens
      tokensOut := resp.usage.completionTokens
      response := resp
      cost := Cost.forUsage model resp.usage }

/-- The model that `result` names, if it names one. -/
def usedModel (req : RequestEnvelope) (result : ExecuteResult) : String :=
  if result.model = "" then req.model else result.model

/-- The event with the result. -/
def withResult (ev : CallEvent) (autoRouted : Bool) (provider : String) (err : Option GoError)
    (result : ExecuteResult) : CallEvent :=
  let ev := { ev with provider := provider, autoRouted := autoRouted }
  match err with
  | some _ => ev
  | none => { ev with fallbackUsed := result.fallbackUsed, fallbackFrom := result.fallbackFrom }

/-- The reply at an open circuit. -/
def circuitOpen : Reply :=
  .error 503 "circuit_open" "model temporarily unavailable (circuit breaker open)"

/-! ## A call without streaming -/

/-- How a call has ended. -/
structure CallOutcome where
  result : ExecuteResult
  resp : Option ResponseEnvelope
  provider : Provider
  err : Option GoError

namespace ChatHandler

/-- Call the model: with its fallback chain if there is one, and once otherwise. -/
def callModel (h : ChatHandler) (p : Provider) (req : RequestEnvelope)
    (fallbackChain : List Candidate) : Go CallOutcome :=
  match fallbackChain with
  | [] => do
    match ← Go.chat p (adjustTokenBudget req) with
    | .ok resp => pure ⟨{ model := req.model }, some resp, p, none⟩
    | .error e => pure ⟨{ model := req.model }, none, p, some e⟩
  | _ => do
    let (result, err) ← execute ⟨req.model, fallbackChain⟩ (adjustTokenBudget req) h.router
      h.retryCfg
    pure ⟨result, result.response, result.provider.getD p, err⟩

/-- The second hop of `resolveRetrieval`. -/
def retrieveAndReplay (p : Provider) (req : RequestEnvelope) (resp : ResponseEnvelope)
    (reply : Message) (call : ToolCall) (id : String) :
    Go (Option ResponseEnvelope × Option GoError) := do
  let content ← Go.retrievalGet id
  let restored : Message :=
    { role := "tool", toolCallID := call.id
      content := content.getD ("This content is no longer available (expired or evicted). " ++
        "Answer with what you already have.") }
  match ← Go.chat p { req with messages := req.messages ++ [reply, restored] } with
  | .error e => pure (none, some e)
  | .ok final =>
    let usage :=
      { final.usage with
        promptTokens := final.usage.promptTokens + resp.usage.promptTokens
        completionTokens := final.usage.completionTokens + resp.usage.completionTokens
        totalTokens := final.usage.totalTokens + resp.usage.totalTokens }
    pure (some { final with usage := usage }, none)

/-- `resolveRetrieval`. -/
def resolveRetrieval (h : ChatHandler) (p : Provider) (req : RequestEnvelope)
    (resp : Option ResponseEnvelope) : Go (Option ResponseEnvelope × Option GoError) :=
  match resp with
  | none => pure (none, none)
  | some resp =>
    match resp.choices with
    | [] => pure (some resp, none)
    | choice :: _ =>
      match Retrieval.findCall choice.message.toolCalls with
      | none => pure (some resp, none)
      | some call =>
        match Retrieval.parseArgs h.unmarshalID call.function.arguments with
        | none => pure (some resp, none)
        | some id => retrieveAndReplay p req resp choice.message call id

/-- The call and its retrieval hop. -/
def callAndResolve (h : ChatHandler) (p : Provider) (req : RequestEnvelope)
    (fallbackChain : List Candidate) : Go CallOutcome := do
  let out ← h.callModel p req fallbackChain
  if out.err.isNone && h.hasRetrieval then
    let (resp, err) ← h.resolveRetrieval out.provider req out.resp
    pure { out with resp := resp, err := err }
  else pure out

/-- Starts the shadow call, if asked for. -/
def startShadow (r : HttpRequest) (req : RequestEnvelope) (resp : Option ResponseEnvelope) :
    Go Unit :=
  if r.shadowModel ≠ "" && r.shadowModel ≠ req.model then
    Go.goShadow ⟨r, (resp.map (·.id)).getD "", req.model, r.shadowModel, req⟩
  else pure ()

/-- Reports the call and replies. -/
def report (h : ChatHandler) (r : HttpRequest) (req : RequestEnvelope) (autoRouted : Bool)
    (start stop : Int) (out : CallOutcome) : Go Reply := do
  let model := usedModel req out.result
  match out.err, out.resp with
  | none, none =>
    -- A nil response without an error is read all the same.
    if h.hasMetrics || h.hasBus then pure .panicked else pure (.ok none)
  | err, resp => do
    let envelope := resp.getD {}
    h.recordMetrics out.provider.name model err (stop - start)
      (if err.isNone then envelope.usage.promptTokens else 0)
      (if err.isNone then envelope.usage.completionTokens else 0)
    if h.hasBus then do
      Go.publish (withResult (withOutcome (baseEvent r req model start stop) model err envelope)
        autoRouted out.provider.name err out.result)
      startShadow r req resp
    else pure ()
    pure (if err.isNone then .ok resp
      else .error 502 "provider_error" "upstream provider returned an error")

/-- The rest of `ServeHTTP` for a request that is not streamed, once its provider is known. -/
def serveChat (h : ChatHandler) (r : HttpRequest) (p : Provider) (req : RequestEnvelope)
    (autoRouted : Bool) (fallbackChain : List Candidate) : Go Reply := do
  if ← h.admits req.model then
    let start ← Go.now
    let out ← h.callAndResolve p req fallbackChain
    let stop ← Go.now
    h.recordOutcome req.model out.err
    h.report r req autoRouted start stop out
  else pure circuitOpen

end ChatHandler

/-! ## A stream -/

/-- The variables of a stream's callback, with the chunks the client got. -/
structure StreamTotals where
  totalIn : Int := 0
  totalOut : Int := 0
  totalCacheRead : Int := 0
  totalCacheCreation : Int := 0
  sent : List StreamChunk := []
deriving Repr, DecidableEq, Inhabited

/-- Counts the usage of a chunk. -/
def StreamTotals.count (s : StreamTotals) (chunk : StreamChunk) : StreamTotals :=
  match chunk.usage with
  | none => s
  | some usage =>
    { s with
      totalIn := usage.promptTokens
      totalOut := usage.completionTokens
      totalCacheRead := usage.cacheReadInputTokens
      totalCacheCreation := usage.cacheCreationInputTokens }

/-- The callback of a stream.  `relabel` changes the chunk the client gets. -/
def onChunk (relabel : StreamChunk → StreamChunk) : Callback StreamTotals where
  record chunk err s :=
    let s := s.count chunk
    if err.isNone then { s with sent := s.sent ++ [relabel chunk] } else s
  relabel := relabel

/-- The usage of the stream. -/
def StreamTotals.usage (s : StreamTotals) : Usage where
  promptTokens := s.totalIn
  completionTokens := s.totalOut
  cacheReadInputTokens := s.totalCacheRead
  cacheCreationInputTokens := s.totalCacheCreation

/-- The stream failed, or came to its end. -/
def withStream (ev : CallEvent) (model : String) (err : Option GoError) (s : StreamTotals) :
    CallEvent :=
  let ev := { ev with streaming := true, tokensIn := s.totalIn, tokensOut := s.totalOut }
  match err with
  | some e => { ev with error := e.msg }
  | none => { ev with cost := Cost.forUsage model s.usage }

/-- The reply if streaming is impossible. -/
def noFlusher : Reply := .error 500 "streaming_error" "server does not support streaming"

namespace ChatHandler

/-- Stream from the model: with its fallback chain if there is one, and once otherwise. -/
def streamModel (h : ChatHandler) (p : Provider) (req : RequestEnvelope)
    (fallbackChain : List Candidate) :
    Go (ExecuteResult × Provider × Option GoError × StreamTotals) :=
  match fallbackChain with
  | [] => do
    let (_, err, totals) ← streamOnce (onChunk id) p (adjustTokenBudget req) {}
    pure ({ model := req.model }, p, err, totals)
  | _ => do
    let (result, err, totals) ← executeStream ⟨req.model, fallbackChain⟩ (adjustTokenBudget req)
      h.router h.retryCfg (onChunk id) {}
    pure (result, result.provider.getD p, err, totals)

/-- `handleStream`. -/
def handleStream (h : ChatHandler) (r : HttpRequest) (p : Provider) (req : RequestEnvelope)
    (autoRouted : Bool) (fallbackChain : List Candidate) : Go Reply :=
  if !r.canFlush then pure noFlusher
  else do
    if ← h.admits req.model then
      let start ← Go.now
      let (result, p, err, totals) ← h.streamModel p req fallbackChain
      h.recordOutcome req.model err
      let stop ← Go.now
      let model := usedModel req result
      h.recordMetrics p.name model err (stop - start) totals.totalIn totals.totalOut
      h.publish (withResult (withStream (baseEvent r req model start stop) model err totals)
        autoRouted p.name err result)
      pure (.stream totals.sent)
    else pure circuitOpen

/-! ## A shadow call -/

/-- `runShadow`. -/
def runShadow (h : ChatHandler) (job : ShadowJob) : Go Unit := do
  let shadowReq := { job.req with model := job.shadowModel }
  let start ← Go.now
  let ev (stop : Int) : CallEvent :=
    { baseEvent job.request shadowReq job.shadowModel start stop with
      shadow := some ⟨job.primaryID, job.primaryModel, job.shadowModel⟩ }
  Go.lookup job.shadowModel
  match h.router job.shadowModel with
  | .error err => do
    let stop ← Go.now
    Go.publish { ev stop with error := err.msg }
  | .ok sp => do
    let outcome ← Go.chat sp (adjustTokenBudget shadowReq)
    let stop ← Go.now
    let (resp, err) := match outcome with
      | .ok resp => (resp, none)
      | .error e => ({}, some e)
    Go.publish { withOutcome (ev stop) job.shadowModel err resp with provider := sp.name }
    if h.hasShadow then
      Go.shadowRecord job.shadowModel err.isNone (stop - start) resp.choices
    else pure ()

end ChatHandler

end Ixr.Ingress
