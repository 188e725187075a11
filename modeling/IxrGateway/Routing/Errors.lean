import IxrGateway.Schema
import IxrGateway.GoStrings

/-!
# Error classes

The executor decides by the text of a provider error.  A client error is not
retried, and a context-length error escalates to a larger context window.
-/

namespace Ixr.Routing

open GoStrings

/-- What an overflow is known by. -/
def contextLengthPhrases : List String := [
  "context_length_exceeded",
  "maximum context length",
  "max_tokens is too large",
  "reduce the length of the messages",
  "prompt is too long",
  "exceeds the maximum",
  "exceeds the limit",
  "request too large",
  "tokens exceeds the model's maximum context",
  "context window",
  "too many tokens"]

/-- `IsContextLengthError` of an error that is not nil. -/
def isContextLengthError (err : GoError) : Bool :=
  contextLengthPhrases.any fun phrase => contains (toLower err.msg) phrase

/-- What a client error is known by. -/
def clientErrorPatterns : List String := [
  "status 400", "status 401", "status 403", "status 404", "status 422", "status 429",
  ": 400 ", ": 401 ", ": 403 ", ": 404 "]

/-- `isClientError` of an error that is not nil. -/
def isClientError (err : GoError) : Bool :=
  clientErrorPatterns.any fun pat => contains err.msg pat

def badRequest : GoError := { msg := "openai: status 400: bad request" }

theorem isClientError_badRequest : isClientError badRequest = true := by decide

theorem isContextLengthError_badRequest : isContextLengthError badRequest = false := by decide

@[simp] theorem aborted_badRequest : badRequest.aborted = false := rfl

example : isContextLengthError { msg := "openai: Maximum Context Length is 8192 tokens" } = true :=
  by decide

end Ixr.Routing
