import IxrGateway.Ingress.CallPaths
import IxrGateway.Interaction.Par

/-!
# The chat handler

`serveHTTP` checks the request, picks a model for it and hands it to one of the
call paths.  A model name may stand for a chain of models.  A sequential chain
feeds each reply into the next step.  A fusion chain asks its panel in parallel
and lets a judge combine the answers.
-/

namespace Ixr.Ingress

open Interaction Routing Reasoning GoStrings

/-! ## Task hints -/

/-- `promptCharsFromMessages`. -/
def promptCharsFromMessages (req : RequestEnvelope) : Int :=
  (req.messages.map fun m =>
    len m.content + (m.toolCalls.map fun tc =>
      len tc.id + len tc.type + len tc.function.name + len tc.function.arguments).sum).sum

/-- `taskHintFromHeaders`. -/
def taskHintFromHeaders (h : ChatHandler) (r : HttpRequest) (req : RequestEnvelope) : TaskHint :=
  let hint : TaskHint := { promptChars := promptCharsFromMessages req }
  let task := toLower (trimSpace r.task)
  let hint :=
    if task = "reasoning" then { hint with reasoningScore := 1 }
    else if task = "coding" then { hint with codingScore := 1 }
    else if task = "math" then { hint with mathScore := 1 }
    else if task = "multilingual" then { hint with multilingualScore := 1 }
    else hint
  let budget := trimSpace r.budget
  let hint :=
    if budget = "" then hint
    else match h.parseFloat budget with
      | some f => { hint with maxCostUSDPer1M := f }
      | none => hint
  if equalFold (trimSpace r.latency) "sensitive" then { hint with latencySensitive := true }
  else hint

/-! ## Chains -/

/-- `stepResult`, without the model.  `errCircuitOpen` is told apart from other errors. -/
inductive StepOutcome where
  | ok (resp : ResponseEnvelope)
  | failed (err : GoError)
  | circuitOpen
  | panicked
deriving Repr, DecidableEq, Inhabited

/-- The reply at a step's open circuit. -/
def chainCircuitOpen (model : String) : Reply :=
  .error 503 "circuit_open"
    ("chain step for model " ++ model ++ " unavailable (circuit breaker open)")

/-- `writeChainStepError`, for an upstream error. -/
def chainStepFailed (model : String) : Reply :=
  .error 502 "chain_step_failed"
    ("chain step for model " ++ model ++ " failed: upstream provider returned an error")

/-- The event with the provider. -/
def withProvider (ev : CallEvent) (result : ExecuteResult) : CallEvent :=
  { ev with provider := (result.provider.map (·.name)).getD "" }

namespace ChatHandler

/-- `runChainStep`. -/
def runChainStep (h : ChatHandler) (r : HttpRequest) (model : String)
    (stepMessages : List Message) : Go StepOutcome := do
  let stepReq : RequestEnvelope := { model := model, messages := stepMessages }
  if ← h.admits model then
    let start ← Go.now
    let (result, err) ← execute { model := model } (adjustTokenBudget stepReq) h.router h.retryCfg
    let stop ← Go.now
    h.recordOutcome model err
    match err, result.response with
    | none, none =>
      -- The nil response is read here, or by whoever gets it.
      pure .panicked
    | err, resp => do
      let envelope := resp.getD {}
      h.recordMetrics ((result.provider.map (·.name)).getD "") model err (stop - start)
        (if err.isNone then envelope.usage.promptTokens else 0)
        (if err.isNone then envelope.usage.completionTokens else 0)
      h.publish (withProvider
        (withOutcome (baseEvent r stepReq model start stop) model err envelope) result)
      match err with
      | some e => pure (.failed e)
      | none => pure (.ok envelope)
  else pure .circuitOpen

/-- `streamChainStep`. -/
def streamChainStep (h : ChatHandler) (r : HttpRequest) (chainName model : String)
    (stepMessages : List Message) : Go Reply :=
  if !r.canFlush then pure noFlusher
  else do
    if ← h.admits model then
      let start ← Go.now
      let stepReq : RequestEnvelope := { model := model, messages := stepMessages }
      let fn := onChunk fun chunk => { chunk with model := chainName }
      let (result, err, totals) ← executeStream { model := model } (adjustTokenBudget stepReq)
        h.router h.retryCfg fn {}
      h.recordOutcome model err
      let stop ← Go.now
      h.recordMetrics ((result.provider.map (·.name)).getD "") model err (stop - start)
        totals.totalIn totals.totalOut
      h.publish (withProvider
        (withStream (baseEvent r stepReq model start stop) model err totals) result)
      pure (.stream totals.sent)
    else pure (chainCircuitOpen model)

/-- The messages of a step: the caller's, the reply of the step before, and the step's prompt.
There are none if the reply before has no choice to read. -/
def stepMessages (base : List Message) (previous : Option ResponseEnvelope) (prompt : String) :
    Option (List Message) :=
  let asked : List Message := if prompt = "" then [] else [{ role := "user", content := prompt }]
  match previous with
  | none => some (base ++ asked)
  | some resp =>
    match resp.choices with
    | [] => none
    | choice :: _ =>
      some (base ++ [{ role := "assistant", content := choice.message.content }] ++ asked)

/-- The loop of `handleSequentialChain`, with the reply of the step before. -/
def sequentialSteps (h : ChatHandler) (r : HttpRequest) (c : Chain) (req : RequestEnvelope) :
    (models prompts : List String) → (previous : Option ResponseEnvelope) → Go Reply
  | [], _, none => pure .panicked
  | [], _, some resp => pure (.ok (some { resp with model := c.name }))
  | _ :: _, [], _ => pure .panicked
  | model :: models, prompt :: prompts, previous =>
    match stepMessages req.messages previous prompt with
    | none => pure .panicked
    | some messages =>
      if models.isEmpty && req.stream then h.streamChainStep r c.name model messages
      else do
        match ← h.runChainStep r model messages with
        | .ok resp => sequentialSteps h r c req models prompts (some resp)
        | .failed _ => pure (chainStepFailed model)
        | .circuitOpen => pure (chainCircuitOpen model)
        | .panicked => pure .panicked

/-- `handleSequentialChain`. -/
def handleSequentialChain (h : ChatHandler) (r : HttpRequest) (c : Chain)
    (req : RequestEnvelope) : Go Reply :=
  h.sequentialSteps r c req c.models c.prompts none

/-- The candidates that `buildJudgeMessages` lists.  A reply without choices cannot be listed. -/
def judgeCandidates : List (String × StepOutcome) → Option (List String)
  | [] => some []
  | (model, .ok resp) :: results =>
    match resp.choices with
    | [] => none
    | choice :: _ => (judgeCandidates results).map fun texts =>
      ("Candidate (" ++ model ++ "):\n" ++ choice.message.content ++ "\n\n") :: texts
  | (_, _) :: results => judgeCandidates results

/-- `buildJudgeMessages`. -/
def buildJudgeMessages (original : List Message) (results : List (String × StepOutcome)) :
    Option (List Message) :=
  (judgeCandidates results).map fun texts =>
    original ++ [{ role := "user", content :=
      "You were given independent candidate answers from different models to the preceding " ++
      "request. Synthesize a single best final answer, combining their strengths and " ++
      "resolving any disagreements between them.\n\n" ++ join "" texts }]

/-- The end of `handleFusionChain`: the judge is asked. -/
def judge (h : ChatHandler) (r : HttpRequest) (c : Chain) (req : RequestEnvelope)
    (messages : List Message) : Go Reply :=
  if req.stream then h.streamChainStep r c.name c.judge messages
  else do
    match ← h.runChainStep r c.judge messages with
    | .ok resp => pure (.ok (some { resp with model := c.name }))
    | .failed _ => pure (chainStepFailed c.judge)
    | .circuitOpen => pure (chainCircuitOpen c.judge)
    | .panicked => pure .panicked

/-- `handleFusionChain`.  A panic in a panel member takes the process down. -/
def handleFusionChain (h : ChatHandler) (r : HttpRequest) (c : Chain) (req : RequestEnvelope) :
    Go Reply := do
  let outcomes ← Prog.parList Go.schedule
    (c.models.map fun model => h.runChainStep r model req.messages)
  let results := c.models.zip outcomes
  if outcomes.contains .panicked then pure .panicked
  else if outcomes.any (fun out => out matches .ok _) then
    match buildJudgeMessages req.messages results with
    | none => pure .panicked
    | some messages => h.judge r c req messages
  else pure (.error 502 "fusion_panel_failed"
    ("all fusion panel models failed for chain " ++ c.name))

/-- `handleChain`. -/
def handleChain (h : ChatHandler) (r : HttpRequest) (c : Chain) (req : RequestEnvelope) :
    Go Reply :=
  match c.strategy with
  | .fusion => h.handleFusionChain r c req
  | .sequential => h.handleSequentialChain r c req

/-! ## The handler -/

/-- Pick the model of a request and its fallback chain.  An `auto` request may find none. -/
def route (h : ChatHandler) (r : HttpRequest) (req : RequestEnvelope) :
    Go (Except Reply RoutingDecision) :=
  let hint := taskHintFromHeaders h r req
  if req.model = "auto" then
    match h.engine with
    | some engine => do
      match ← engine.decide hint h.hasRegistry with
      | .error _ => pure (.error (.error 400 "auto_route_failed"
          "no catalog model matched the given constraints"))
      | .ok decision =>
        if decision.model = "" then
          pure (.error (.error 400 "auto_route_failed"
            "no catalog model matched the given constraints"))
        else pure (.ok decision)
    | none =>
      let decision := routeWithDecision hint
      if decision.model = "" then
        pure (.error (.error 400 "auto_route_failed"
          "no catalog model matched the given budget and task constraints"))
      else pure (.ok decision)
  else if (lookup req.model).isSome then
    pure (.ok ⟨req.model, fallbackChainFor req.model hint 3⟩)
  else pure (.ok ⟨req.model, []⟩)

/-- The rest of `ServeHTTP`, once a model is picked. -/
def serveDecision (h : ChatHandler) (r : HttpRequest) (req : RequestEnvelope)
    (decision : RoutingDecision) : Go Reply := do
  Go.lookup decision.model
  match h.router decision.model with
  | .error err => pure (.error 400 "no_provider" err.msg)
  | .ok p =>
    let autoRouted := req.model == "auto"
    let routed := { req with model := decision.model }
    if req.stream then h.handleStream r p routed autoRouted decision.fallbackChain
    else h.serveChat r p routed autoRouted decision.fallbackChain

/-- `ServeHTTP` for a request that names no chain. -/
def serveModel (h : ChatHandler) (r : HttpRequest) (req : RequestEnvelope) : Go Reply := do
  match ← h.route r req with
  | .error reply => pure reply
  | .ok decision => h.serveDecision r req decision

/-- `ChatHandler.ServeHTTP`. -/
def serveHTTP (h : ChatHandler) (r : HttpRequest) : Go Reply :=
  if r.method ≠ "POST" then
    pure (.error 405 "method_not_allowed" "only POST is supported")
  else
    match r.body with
    | none => pure (.error 400 "invalid_request_body" "could not parse request JSON")
    | some req =>
      if req.model = "" then
        pure (.error 400 "missing_model" "model field is required")
      else if req.messages = [] then
        pure (.error 400 "missing_messages" "messages field must contain at least one message")
      else
        match h.chains req.model with
        | some c => h.handleChain r c req
        | none => h.serveModel r req

end ChatHandler

end Ixr.Ingress
