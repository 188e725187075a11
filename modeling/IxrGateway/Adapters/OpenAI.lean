import IxrGateway.Schema

/-!
# The OpenAI request translators

`openai` and `openaicompat` have the same wire types and the same
`toWireRequest`.  The wire request has fields for a token limit and a
temperature, and no translator fills them.
-/

namespace Ixr.Adapters

namespace OpenAI

/-- The polymorphic `content` of a wire message. -/
inductive WireContent where
  | text (s : String)
  | parts (ps : List ContentPart)
deriving Repr, DecidableEq

/-- `wireMessage`. -/
structure WireMessage where
  role : String
  content : Option WireContent := none
  toolCalls : List ToolCall := []
  toolCallID : String := ""
  name : String := ""
deriving Repr, DecidableEq

/-- `wireRequest`. -/
structure WireRequest where
  model : String
  messages : List WireMessage
  maxTokens : Option Int := none
  temperature : Option ℚ := none
  stream : Bool := false
  tools : List Tool := []
  toolChoice : Option Json := none
deriving Repr, DecidableEq

/-- `toWireContent`. -/
def toWireContent (m : Message) : Option WireContent :=
  if m.parts ≠ [] then some (.parts m.parts)
  else if m.content = "" then none
  else some (.text m.content)

/-- `toWireRequest` of package `openai`. -/
def toWireRequest (req : RequestEnvelope) : WireRequest where
  model := req.model
  messages := req.messages.map fun m =>
    { role := m.role, content := toWireContent m, toolCalls := m.toolCalls,
      toolCallID := m.toolCallID, name := m.name }
  tools := req.tools
  toolChoice := req.toolChoice

end OpenAI

namespace OpenAICompat

/-- `toWireRequest` of package `openaicompat`. -/
def toWireRequest (req : RequestEnvelope) : OpenAI.WireRequest := OpenAI.toWireRequest req

end OpenAICompat

end Ixr.Adapters
