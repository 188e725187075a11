import IxrGateway.Schema

/-!
# Requests and replies

An HTTP request as the handlers see it: its method, the headers they read, the
identity of its context and its body.  A body is what decoding it gives, or
`none` if that fails.  Middlewares that change a request encode it again, and
the next one decodes that.  Both steps are left out here.
-/

namespace Ixr

/-- What the handlers read of a request. -/
structure HttpRequest where
  method : String := "POST"
  /-- The decoded body. -/
  body : Option RequestEnvelope := none
  /-- `identity.FromContext`. -/
  identity : Identity := {}
  /-- `cache.HistoryLenFromContext`. -/
  historyLen : Int := 0
  /-- The response writer is an `http.Flusher`. -/
  canFlush : Bool := true
  /-- `X-IXR-UseCase`. -/
  useCase : String := ""
  /-- `X-IXR-Shadow-Model`. -/
  shadowModel : String := ""
  /-- `X-IXR-Task`. -/
  task : String := ""
  /-- `X-IXR-Budget`. -/
  budget : String := ""
  /-- `X-IXR-Latency`. -/
  latency : String := ""
  /-- `X-IXR-Session-ID`. -/
  sessionID : String := ""
  /-- `X-IXR-Session-Reset`. -/
  sessionReset : String := ""
deriving Repr, DecidableEq, Inhabited

/-- What a handler wrote, or that it panicked. -/
inductive Reply where
  /-- `writeError`. -/
  | error (status : Nat) (errType message : String)
  /-- `guardrail.WriteBlockedResponse`. -/
  | blocked (message : String)
  /-- Status 200 with an encoded response.  A nil response is encoded as `null`. -/
  | ok (resp : Option ResponseEnvelope)
  /-- Server-sent events: the chunks the client got. -/
  | stream (chunks : List StreamChunk)
  | panicked
deriving Repr, DecidableEq, Inhabited

end Ixr
