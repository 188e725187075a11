import IxrGateway.Ingress.ChatHandler
import IxrGateway.Ingress.SessionHistory
import IxrGateway.Tenancy.Keys

/-!
# The middlewares in front of the chat handler

A chat request passes the interceptors, gets the memories of its user and the
history of its session, and is looked up in the cache before the chat handler
sees it.  Each middleware is a function from the handler behind it.

A handler that panics unwinds through all of them, so what a middleware does
after the handler behind it has returned is left out then.
-/

namespace Ixr.Ingress

open Interaction GoStrings

/-- A handler of requests. -/
abbrev Handler := HttpRequest → Go Reply

/-! ## Interceptors -/

/-- `guardrail.RequestInterceptor`: the budget plugin, or another one. -/
inductive Interceptor where
  | budget
  | other (name : String)
deriving Repr, DecidableEq, Inhabited

/-- `Chain.Intercept`: the request as the interceptors leave it, and the error of the one that
blocks it. -/
def runInterceptors (id : Identity) :
    List Interceptor → RequestEnvelope → Go (RequestEnvelope × Option BlockedError)
  | [], req => pure (req, none)
  | .budget :: chain, req => do
    match ← Go.budgetIntercept id with
    | some err => pure (req, some err)
    | none => runInterceptors id chain req
  | .other name :: chain, req => do
    match ← Go.intercept name req with
    | .error err => pure (req, some err)
    | .ok req => runInterceptors id chain req

/-- The event of a blocked request. -/
def blockedEvent (r : HttpRequest) (req : RequestEnvelope) (err : BlockedError) (now : Int) :
    CallEvent where
  timestamp := now
  tenantID := r.identity.tenantID
  useCaseID := r.useCase
  model := req.model
  request := req
  error := err.error

/-- The end of `InterceptorMiddleware.ServeHTTP` for a request that was blocked. -/
def writeBlocked (hasBus : Bool) (r : HttpRequest) (req : RequestEnvelope) (err : BlockedError) :
    Go Reply :=
  if hasBus then do
    let now ← Go.now
    Go.publish (blockedEvent r req err now)
    pure (.blocked err.message)
  else pure (.blocked err.message)

/-- `InterceptorMiddleware.ServeHTTP`. -/
def interceptorMiddleware (chain : List Interceptor) (hasBus : Bool) (next : Handler) : Handler :=
  fun r =>
    if chain = [] ∨ r.method ≠ "POST" then next r
    else
      match r.body with
      | none => next r
      | some req => do
        match ← runInterceptors r.identity chain req with
        | (req, some err) => writeBlocked hasBus r req err
        | (req, none) => next { r with body := some req }

/-! ## Memories -/

/-- `FormatMemories`. -/
def formatMemories (contents : List String) : String :=
  if contents = [] then ""
  else "What you know about this user (from prior conversations):\n" ++
    join "" (contents.map fun content => "- " ++ content ++ "\n")

/-- `MemoryMiddleware.ServeHTTP`, with the number of memories that the constructor was given. -/
def memoryMiddleware (topK : Int) (next : Handler) : Handler := fun r =>
  let userKey := memoryUserKey r.identity
  if userKey = "" ∨ r.method ≠ "POST" then next r
  else do
    match ← Go.memoryRecent userKey (if topK ≤ 0 then 5 else topK) with
    | .error _ => next r
    | .ok contents =>
      match contents, r.body with
      | [], _ => next r
      | _, none => next r
      | contents, some req =>
        let memory : Message := { role := "system", content := formatMemories contents }
        next { r with body := some { req with messages := memory :: req.messages } }

/-! ## Sessions -/

/-- `lastUserMessage`, among the messages of the request itself. -/
def lastUserMessage (messages : List Message) : Message :=
  (messages.reverse.find? fun m => m.role = "user").getD { role := "user", content := "" }

/-- `parseSSEAssistantTurn`, on the chunks that the client got. -/
def streamedTurn (chunks : List StreamChunk) : Option Message :=
  let content := join "" (chunks.map (·.delta.content))
  let toolCalls := ((chunks.map (·.delta.toolCalls)).filter (· ≠ [])).getLastD []
  if content = "" ∧ toolCalls = [] then none
  else some { role := "assistant", content := content, toolCalls := toolCalls }

/-- The assistant's turn in a reply.  A streamed reply is looked at if the request asked for one. -/
def assistantTurn (streaming : Bool) : Reply → Option Message
  | .stream chunks => if streaming then streamedTurn chunks else none
  | .ok (some resp) =>
    if streaming then none
    else resp.choices.head?.map fun choice =>
      if choice.message.role = "" then { choice.message with role := "assistant" }
      else choice.message
  | _ => none

/-- Step 1 of `SessionMiddleware.ServeHTTP`. -/
def resolveSessionID (r : HttpRequest) : Go String :=
  if r.sessionID = "" then Go.newUUID else pure r.sessionID

/-- Step 3 of `SessionMiddleware.ServeHTTP`. -/
def resetSession (r : HttpRequest) (storeKey : String) : Go Unit :=
  if r.sessionReset = "true" then Go.sessionDelete storeKey else pure ()

/-- The end of `SessionMiddleware.ServeHTTP`: the new turn is stored. -/
def persistTurn (storeKey : String) (req : RequestEnvelope) (reply : Reply) : Go Unit :=
  match assistantTurn req.stream reply with
  | none => pure ()
  | some turn => Go.sessionAppend storeKey (lastUserMessage req.messages) turn

/-- `SessionMiddleware.ServeHTTP`.  The writer that a streamed reply is captured with can flush,
and the one for other replies cannot. -/
def sessionMiddleware (next : Handler) : Handler := fun r => do
  let sessionID ← resolveSessionID r
  let storeKey := sessionStoreKey r.identity sessionID
  resetSession r storeKey
  match r.body with
  | none => next r
  | some req => do
    let stored ← Go.sessionGet storeKey
    let (injected, historyLen) := injectHistory (stored.getD []) req
    let reply ← next { r with
      body := some injected, historyLen := historyLen, canFlush := req.stream }
    persistTurn storeKey req reply
    pure reply

/-! ## The cache -/

/-- Store a reply with status 200 that can be decoded.  `null` decodes to an empty response. -/
def storeReply (req : RequestEnvelope) (historyLen ttl : Int) : Reply → Go Unit
  | .ok resp => Go.cacheStore req historyLen (resp.getD {}) ttl
  | _ => pure ()

/-- `CacheMiddleware.ServeHTTP`.  The writer of the handler behind it cannot flush. -/
def cacheMiddleware (ttl : Int) (next : Handler) : Handler := fun r =>
  if r.method ≠ "POST" then next r
  else
    match r.body with
    | none => next r
    | some req =>
      if req.stream then next r
      else do
        match ← Go.cacheLookup req r.historyLen with
        | some (resp, _) => pure (.ok (some resp))
        | none => do
          match ← Go.flightJoin (Cache.key req) with
          | some reply => pure reply
          | none => do
            let reply ← next { r with canFlush := false }
            storeReply req r.historyLen ttl reply
            Go.flightDone (Cache.key req) reply
            pure reply

/-! ## The pipeline -/

/-- The handler with its middlewares, as the gateway puts them together. -/
structure Gateway where
  handler : ChatHandler
  interceptors : List Interceptor := [.budget]
  /-- The interceptors and the budget plugin have a bus. -/
  hasBus : Bool := true
  memoryTopK : Int := 5
  cacheTTL : Int := 0

/-- What is behind the interceptors. -/
def Gateway.inner (g : Gateway) : Handler :=
  memoryMiddleware g.memoryTopK (sessionMiddleware (cacheMiddleware g.cacheTTL
    g.handler.serveHTTP))

/-- The handler for chat completions. -/
def Gateway.serve (g : Gateway) : Handler :=
  interceptorMiddleware g.interceptors g.hasBus g.inner

end Ixr.Ingress
