import IxrGateway.LineScanner
import IxrGateway.SchemaCodec

/-!
# Streams of OpenAI-compatible providers

Each event of the stream is a delta.  Its text is passed on as it comes.  The tool
calls come in fragments, which name their call by an index.  `Adapter.Stream`
collects them, and a chunk with a finish reason carries all calls so far.

Only the first choice of a delta is looked at.  The callback of `Stream` never
fails here.
-/

namespace Ixr.Adapters.OpenAICompat

open JsonText
open LineScanner (ScanError after dataPrefix doneErr doneMark maxScanTokenSize scanText)

/-! ## Deltas -/

/-- `wireDeltaToolFunction`. -/
structure WireDeltaToolFunction where
  name : String := ""
  arguments : String := ""
deriving Repr, DecidableEq

/-- `wireDeltaToolCall`. -/
structure WireDeltaToolCall where
  index : Int := 0
  id : String := ""
  type : String := ""
  function : WireDeltaToolFunction := {}
deriving Repr, DecidableEq

/-- `wireDeltaMessage`. -/
structure WireDeltaMessage where
  role : String := ""
  content : String := ""
  toolCalls : List WireDeltaToolCall := []
deriving Repr, DecidableEq

/-- `wireDeltaChoice`. -/
structure WireDeltaChoice where
  index : Int := 0
  delta : WireDeltaMessage := {}
  finishReason : String := ""
deriving Repr, DecidableEq

/-- `wireTokenDetails`. -/
structure WireTokenDetails where
  cachedTokens : Int := 0
deriving Repr, DecidableEq

/-- `wireDeltaUsage`. -/
structure WireDeltaUsage where
  promptTokens : Int := 0
  completionTokens : Int := 0
  totalTokens : Int := 0
  promptTokensDetails : Option WireTokenDetails := none
  promptCacheHitTokens : Int := 0
deriving Repr, DecidableEq

/-- `wireDeltaResponse`. -/
structure WireDeltaResponse where
  id : String := ""
  model : String := ""
  choices : List WireDeltaChoice := []
  usage : Option WireDeltaUsage := none
deriving Repr, DecidableEq

/-- `wireDeltaToolFunction` is read. -/
def WireDeltaToolFunction.read : Reader WireDeltaToolFunction := fun vs => do
  let fields ← objects vs
  let name ← string (given "name" fields)
  let arguments ← string (given "arguments" fields)
  return { name, arguments }

/-- `wireDeltaToolCall` is read. -/
def WireDeltaToolCall.read : Reader WireDeltaToolCall := fun vs => do
  let fields ← objects vs
  let index ← integer (given "index" fields)
  let id ← string (given "id" fields)
  let type ← string (given "type" fields)
  let function ← WireDeltaToolFunction.read (given "function" fields)
  return { index, id, type, function }

/-- `wireDeltaMessage` is read. -/
def WireDeltaMessage.read : Reader WireDeltaMessage := fun vs => do
  let fields ← objects vs
  let role ← string (given "role" fields)
  let content ← string (given "content" fields)
  let toolCalls ← slice WireDeltaToolCall.read (given "tool_calls" fields)
  return { role, content, toolCalls }

/-- `wireDeltaChoice` is read. -/
def WireDeltaChoice.read : Reader WireDeltaChoice := fun vs => do
  let fields ← objects vs
  let index ← integer (given "index" fields)
  let delta ← WireDeltaMessage.read (given "delta" fields)
  let finishReason ← string (given "finish_reason" fields)
  return { index, delta, finishReason }

/-- `wireTokenDetails` is read. -/
def WireTokenDetails.read : Reader WireTokenDetails := fun vs => do
  let fields ← objects vs
  let cachedTokens ← integer (given "cached_tokens" fields)
  return { cachedTokens }

/-- `wireDeltaUsage` is read. -/
def WireDeltaUsage.read : Reader WireDeltaUsage := fun vs => do
  let fields ← objects vs
  let promptTokens ← integer (given "prompt_tokens" fields)
  let completionTokens ← integer (given "completion_tokens" fields)
  let totalTokens ← integer (given "total_tokens" fields)
  let promptTokensDetails ←
    pointer WireTokenDetails.read (given "prompt_tokens_details" fields)
  let promptCacheHitTokens ← integer (given "prompt_cache_hit_tokens" fields)
  return { promptTokens, completionTokens, totalTokens, promptTokensDetails,
           promptCacheHitTokens }

/-- `wireDeltaResponse` is read. -/
def WireDeltaResponse.read : Reader WireDeltaResponse := fun vs => do
  let fields ← objects vs
  let id ← string (given "id" fields)
  let model ← string (given "model" fields)
  let choices ← slice WireDeltaChoice.read (given "choices" fields)
  let usage ← pointer WireDeltaUsage.read (given "usage" fields)
  return { id, model, choices, usage }

/-- `cachedTokens`. -/
def WireDeltaUsage.cachedTokens (u : WireDeltaUsage) : Int :=
  match u.promptTokensDetails with
  | some details =>
    if 0 < details.cachedTokens then details.cachedTokens else u.promptCacheHitTokens
  | none => u.promptCacheHitTokens

/-! ## The accumulator -/

/-- `toolCallAccumulator`. -/
structure ToolCallAccumulator where
  byIndex : List (Int × ToolCall) := []
  order : List Int := []
deriving Repr, DecidableEq

/-- Adds a fragment to its call. -/
def addFragment (tc : ToolCall) (f : WireDeltaToolCall) : ToolCall :=
  { id := if f.id ≠ "" then f.id else tc.id
    type := if f.type ≠ "" then f.type else tc.type
    function :=
      { name := if f.function.name ≠ "" then f.function.name else tc.function.name
        arguments := tc.function.arguments ++ f.function.arguments } }

/-- The loop body of `add`. -/
def ToolCallAccumulator.addOne (a : ToolCallAccumulator) (f : WireDeltaToolCall) :
    ToolCallAccumulator :=
  let a :=
    if f.index ∈ a.byIndex.map Prod.fst then a
    else { byIndex := a.byIndex ++ [(f.index, {})], order := a.order ++ [f.index] }
  { a with byIndex := a.byIndex.map fun p =>
      if p.1 = f.index then (p.1, addFragment p.2 f) else p }

/-- `add`. -/
def ToolCallAccumulator.add (a : ToolCallAccumulator) (fragments : List WireDeltaToolCall) :
    ToolCallAccumulator := fragments.foldl ToolCallAccumulator.addOne a

/-- `empty`. -/
def ToolCallAccumulator.empty (a : ToolCallAccumulator) : Bool := a.order.isEmpty

/-- `finalize`. -/
def ToolCallAccumulator.finalize (a : ToolCallAccumulator) : List ToolCall :=
  a.order.filterMap fun index => a.byIndex.lookup index

/-! ## The stream -/

/-- The fragments of the first choice. -/
def WireDeltaResponse.fragments (d : WireDeltaResponse) : List WireDeltaToolCall :=
  match d.choices with
  | [] => []
  | c :: _ => c.delta.toolCalls

/-- `deltaToChunk`. -/
def deltaToChunk (d : WireDeltaResponse) : StreamChunk :=
  let chunk : StreamChunk :=
    { id := d.id
      model := d.model
      delta := { role := "" }
      usage := d.usage.map fun u =>
        { promptTokens := u.promptTokens
          completionTokens := u.completionTokens
          totalTokens := u.totalTokens
          cacheReadInputTokens := u.cachedTokens } }
  match d.choices with
  | [] => chunk
  | c :: _ =>
    { chunk with
      delta := { role := c.delta.role, content := c.delta.content }
      finishReason := c.finishReason }

/-- The chunk, with the calls at the end. -/
def chunkOf (toolCalls : ToolCallAccumulator) (d : WireDeltaResponse) : StreamChunk :=
  let chunk := deltaToChunk d
  if chunk.finishReason ≠ "" ∧ toolCalls.empty = false then
    { chunk with delta := { chunk.delta with toolCalls := toolCalls.finalize } }
  else chunk

/-- The loop of `Adapter.Stream`: the chunks that the callback gets. -/
def streamLoop (toolCalls : ToolCallAccumulator) : List (List Char) → List StreamChunk
  | [] => []
  | line :: lines =>
    match after dataPrefix line with
    | none => streamLoop toolCalls lines
    | some data =>
      if data = doneMark then []
      else
        match unmarshal WireDeltaResponse.read data with
        | none => streamLoop toolCalls lines
        | some d =>
          chunkOf (toolCalls.add d.fragments) d ::
            streamLoop (toolCalls.add d.fragments) lines

/-- `Adapter.Stream` on the body of a successful response. -/
def stream (body : List Char) : List StreamChunk :=
  streamLoop {} (scanText maxScanTokenSize body)

/-- The error that `Adapter.Stream` returns for such a body, after which reading ends or fails. -/
def streamErr (readFails : Bool) (body : List Char) : Option ScanError :=
  doneErr maxScanTokenSize readFails body

end Ixr.Adapters.OpenAICompat
