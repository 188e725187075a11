import IxrGateway.Cache.Semantic
import IxrGateway.Http
import IxrGateway.Interaction.Prog
import IxrGateway.Routing.Router

/-!
# What the gateway asks of its surroundings

The operations of the request path: calls to providers, waits, writes to the
client, and the critical sections of shared components.  A request handler is
an interaction program over these operations.  Its runs are its behaviours
under every sequence of outcomes.
-/

namespace Ixr

open Interaction Prog

/-- How one `Stream` call of a provider goes on: it returns, or it passes a
chunk to the callback and goes on with what the callback returned. -/
inductive StreamScript where
  | done (err : Option GoError)
  | emit (chunk : StreamChunk) (next : Option GoError → StreamScript)
deriving Inhabited

/-- Who asks the breaker registry whether a model is allowed: `Filter`, when it looks for
candidates, or a handler that is about to call the model. -/
inductive AllowSite where
  | filter
  | admission
deriving Repr, DecidableEq, Inhabited

/-- The arguments of a `runShadow` goroutine. -/
structure ShadowJob where
  request : HttpRequest
  primaryID : String
  primaryModel : String
  shadowModel : String
  req : RequestEnvelope
deriving Repr, DecidableEq, Inhabited

/-- The operations of the gateway. -/
inductive Op where
  /-- The router is asked for the provider of a model. -/
  | lookup (model : String)
  | chat (p : Provider) (req : RequestEnvelope)
  | stream (p : Provider) (req : RequestEnvelope)
  /-- A stream's callback hands a chunk to the client. -/
  | deliver (chunk : StreamChunk)
  /-- `select` on `ctx.Done()` and `time.After(backoff)`. -/
  | backoff (d : Int)
  | now
  | publish (ev : CallEvent)
  /-- `Registry.IsAllowed`. -/
  | isAllowed (site : AllowSite) (model : String)
  /-- `Registry.RecordOutcome`. -/
  | recordOutcome (model : String) (success : Bool)
  /-- `PolicyStore.GetPolicy`. -/
  | getPolicy (intent : String)
  /-- `ModelPerfStore.Get`. -/
  | perfGet (model intent : String)
  /-- `Bandit.Select`. -/
  | banditSelect (candidates : List Routing.Candidate)
  /-- `retrieval.Store.Get`. -/
  | retrievalGet (id : String)
  /-- `Metrics.Record`. -/
  | metrics (provider model : String) (status : Nat) (latency tokensIn tokensOut : Int)
  /-- `go h.runShadow(...)`. -/
  | goShadow (job : ShadowJob)
  /-- `Orchestrator.Record`. -/
  | shadowRecord (model : String) (success : Bool) (latency : Int) (choices : List Choice)
  /-- Which of two goroutines goes on. -/
  | schedule
  /-- `Intercept` of another interceptor of the guardrail chain. -/
  | intercept (name : String) (req : RequestEnvelope)
  /-- `memory.Store.Recent`: the contents of the entries. -/
  | memoryRecent (userKey : String) (n : Int)
  | newUUID
  | sessionDelete (key : String)
  | sessionGet (key : String)
  | sessionAppend (key : String) (user assistant : Message)
  /-- `RequestAwareCache.Lookup`. -/
  | cacheLookup (req : RequestEnvelope) (historyLen : Int)
  /-- `RequestAwareCache.Store`. -/
  | cacheStore (req : RequestEnvelope) (historyLen : Int) (resp : ResponseEnvelope) (ttl : Int)
  /-- `Group.Do`, up to the call of the closure.  A follower gets the leader's reply. -/
  | flightJoin (key : Cache.CacheKey)
  /-- `Group.Do`, after the closure returned. -/
  | flightDone (key : Cache.CacheKey) (reply : Reply)
  /-- `Intercept` of the budget plugin, which is one critical section. -/
  | budgetIntercept (id : Identity)
  /-- The first critical section of the budget plugin's `OnEvent`. -/
  | budgetRelease (ev : CallEvent)
  /-- The critical section of `OnEvent` that adds to a scope's spend. -/
  | budgetSpend (scope : String) (cost : ℚ)
  /-- `appendJournal` of the budget plugin. -/
  | budgetJournal (scope : String) (cost : ℚ)
  /-- The critical section of `OnEvent` that notes a warning. -/
  | budgetWarned (scope : String)

/-- The answers.  A lookup is a function of the model, which the program has at
hand, so its operation only marks that it happened. -/
abbrev Op.Res : Op → Type
  | .lookup _ => Unit
  | .chat _ _ => Except GoError ResponseEnvelope
  | .stream _ _ => StreamScript
  | .deliver _ => Option GoError
  | .backoff _ => Option CtxErr
  | .now => Int
  | .publish _ => Unit
  | .isAllowed _ _ => Bool
  | .recordOutcome _ _ => Unit
  | .getPolicy _ => Except GoError (ℚ × ℚ × ℚ)
  | .perfGet _ _ => Routing.ModelStats
  | .banditSelect _ => String
  | .retrievalGet _ => Option String
  | .metrics _ _ _ _ _ _ => Unit
  | .goShadow _ => Unit
  | .shadowRecord _ _ _ _ => Unit
  | .schedule => Bool
  | .intercept _ _ => Except BlockedError RequestEnvelope
  | .memoryRecent _ _ => Except GoError (List String)
  | .newUUID => String
  | .sessionDelete _ => Unit
  | .sessionGet _ => Option (List Message)
  | .sessionAppend _ _ _ => Unit
  | .cacheLookup _ _ => Option (ResponseEnvelope × Cache.CacheHit)
  | .cacheStore _ _ _ _ => Unit
  | .flightJoin _ => Option Reply
  | .flightDone _ _ => Unit
  | .budgetIntercept _ => Option BlockedError
  | .budgetRelease _ => Unit
  | .budgetSpend _ _ => ℚ × Bool
  | .budgetJournal _ _ => Unit
  | .budgetWarned _ => Unit

/-- The operations and their results. -/
abbrev effects : Sig := ⟨Op, Op.Res⟩

instance (o : effects.Op) : Nonempty (effects.Res o) := by
  cases o <;> exact ⟨default⟩

/-- A piece of gateway code that returns an `α`. -/
abbrev Go (α : Type) := Prog effects α

namespace Go

abbrev lookup (model : String) : Go Unit := perform (S := effects) (.lookup model)

abbrev chat (p : Provider) (req : RequestEnvelope) : Go (Except GoError ResponseEnvelope) :=
  perform (S := effects) (.chat p req)

abbrev stream (p : Provider) (req : RequestEnvelope) : Go StreamScript :=
  perform (S := effects) (.stream p req)

abbrev deliver (chunk : StreamChunk) : Go (Option GoError) :=
  perform (S := effects) (.deliver chunk)

abbrev backoff (d : Int) : Go (Option CtxErr) := perform (S := effects) (.backoff d)

abbrev now : Go Int := perform (S := effects) .now

abbrev publish (ev : CallEvent) : Go Unit := perform (S := effects) (.publish ev)

abbrev isAllowed (site : AllowSite) (model : String) : Go Bool :=
  perform (S := effects) (.isAllowed site model)

abbrev recordOutcome (model : String) (success : Bool) : Go Unit :=
  perform (S := effects) (.recordOutcome model success)

abbrev getPolicy (intent : String) : Go (Except GoError (ℚ × ℚ × ℚ)) :=
  perform (S := effects) (.getPolicy intent)

abbrev perfGet (model intent : String) : Go Routing.ModelStats :=
  perform (S := effects) (.perfGet model intent)

abbrev banditSelect (candidates : List Routing.Candidate) : Go String :=
  perform (S := effects) (.banditSelect candidates)

abbrev retrievalGet (id : String) : Go (Option String) :=
  perform (S := effects) (.retrievalGet id)

abbrev metrics (provider model : String) (status : Nat) (latency tokensIn tokensOut : Int) :
    Go Unit :=
  perform (S := effects) (.metrics provider model status latency tokensIn tokensOut)

abbrev goShadow (job : ShadowJob) : Go Unit := perform (S := effects) (.goShadow job)

abbrev shadowRecord (model : String) (success : Bool) (latency : Int) (choices : List Choice) :
    Go Unit :=
  perform (S := effects) (.shadowRecord model success latency choices)

abbrev schedule : Go Bool := perform (S := effects) .schedule

abbrev intercept (name : String) (req : RequestEnvelope) :
    Go (Except BlockedError RequestEnvelope) :=
  perform (S := effects) (.intercept name req)

abbrev memoryRecent (userKey : String) (n : Int) : Go (Except GoError (List String)) :=
  perform (S := effects) (.memoryRecent userKey n)

abbrev newUUID : Go String := perform (S := effects) .newUUID

abbrev sessionDelete (key : String) : Go Unit := perform (S := effects) (.sessionDelete key)

abbrev sessionGet (key : String) : Go (Option (List Message)) :=
  perform (S := effects) (.sessionGet key)

abbrev sessionAppend (key : String) (user assistant : Message) : Go Unit :=
  perform (S := effects) (.sessionAppend key user assistant)

abbrev cacheLookup (req : RequestEnvelope) (historyLen : Int) :
    Go (Option (ResponseEnvelope × Cache.CacheHit)) :=
  perform (S := effects) (.cacheLookup req historyLen)

abbrev cacheStore (req : RequestEnvelope) (historyLen : Int) (resp : ResponseEnvelope) (ttl : Int) :
    Go Unit :=
  perform (S := effects) (.cacheStore req historyLen resp ttl)

abbrev flightJoin (key : Cache.CacheKey) : Go (Option Reply) :=
  perform (S := effects) (.flightJoin key)

abbrev flightDone (key : Cache.CacheKey) (reply : Reply) : Go Unit :=
  perform (S := effects) (.flightDone key reply)

abbrev budgetIntercept (id : Identity) : Go (Option BlockedError) :=
  perform (S := effects) (.budgetIntercept id)

abbrev budgetRelease (ev : CallEvent) : Go Unit := perform (S := effects) (.budgetRelease ev)

abbrev budgetSpend (scope : String) (cost : ℚ) : Go (ℚ × Bool) :=
  perform (S := effects) (.budgetSpend scope cost)

abbrev budgetJournal (scope : String) (cost : ℚ) : Go Unit :=
  perform (S := effects) (.budgetJournal scope cost)

abbrev budgetWarned (scope : String) : Go Unit := perform (S := effects) (.budgetWarned scope)

end Go

end Ixr
