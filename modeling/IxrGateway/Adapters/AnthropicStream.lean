import IxrGateway.Adapters.Anthropic
import IxrGateway.LineScanner
import IxrGateway.SchemaCodec

/-!
# Anthropic responses, whole and streamed

`fromWireResponse` turns a whole response into ixr's envelope.  `Adapter.Stream`
follows the events of a stream.  Text is passed on as it comes.  The arguments of
tool calls are collected and passed on in one chunk at the end, with the finish
reason and the usage.

The callback of `Stream` never fails here.
-/

namespace Ixr.Adapters.Anthropic

open JsonText
open LineScanner (ScanError after dataPrefix maxScanTokenSize scanErr scanText)

/-! ## Whole responses -/

/-- `wireUsage`. -/
structure WireUsage where
  inputTokens : Int := 0
  outputTokens : Int := 0
  cacheReadInputTokens : Int := 0
  cacheCreationInputTokens : Int := 0
deriving Repr, DecidableEq

/-- `wireResponse`, without the two fields that are not read. -/
structure WireResponse where
  id : String := ""
  content : List WireContent := []
  model : String := ""
  stopReason : String := ""
  usage : WireUsage := {}
deriving Repr, DecidableEq

/-- `normalizeStopReason`. -/
def normalizeStopReason (reason : String) : String :=
  if reason = "end_turn" then "stop"
  else if reason = "max_tokens" then "length"
  else if reason = "stop_sequence" then "stop"
  else if reason = "tool_use" then "tool_calls"
  else reason

/-- `usageFromWire`. -/
def usageFromWire (u : WireUsage) : Usage :=
  let promptTokens := u.inputTokens + u.cacheCreationInputTokens + u.cacheReadInputTokens
  { promptTokens := promptTokens
    completionTokens := u.outputTokens
    totalTokens := promptTokens + u.outputTokens
    cacheReadInputTokens := u.cacheReadInputTokens
    cacheCreationInputTokens := u.cacheCreationInputTokens }

/-- The loop body of `splitContent`. -/
def splitStep (floats : Floats ℚ) (acc : String × List ToolCall) (c : WireContent) :
    String × List ToolCall :=
  if c.type = "text" then (acc.1 ++ c.text, acc.2)
  else if c.type = "tool_use" then
    (acc.1, acc.2 ++
      [{ id := c.id
         type := "function"
         function := { name := c.name, arguments := marshalObject floats c.input } }])
  else acc

/-- `splitContent`. -/
def splitContent (floats : Floats ℚ) (content : List WireContent) : String × List ToolCall :=
  content.foldl (splitStep floats) ("", [])

/-- `fromWireResponse` at the time `now`. -/
def fromWireResponse (floats : Floats ℚ) (now : Int) (wr : WireResponse) : ResponseEnvelope :=
  let (text, toolCalls) := splitContent floats wr.content
  { id := wr.id
    object := "chat.completion"
    created := now
    model := wr.model
    choices :=
      [{ index := 0
         message := { role := "assistant", content := text, toolCalls := toolCalls }
         finishReason := normalizeStopReason wr.stopReason }]
    usage := usageFromWire wr.usage }

/-! ## Events -/

/-- `wireUsage` is read. -/
def WireUsage.read : Reader WireUsage := fun vs => do
  let fields ← objects vs
  let inputTokens ← integer (given "input_tokens" fields)
  let outputTokens ← integer (given "output_tokens" fields)
  let cacheReadInputTokens ← integer (given "cache_read_input_tokens" fields)
  let cacheCreationInputTokens ← integer (given "cache_creation_input_tokens" fields)
  return { inputTokens, outputTokens, cacheReadInputTokens, cacheCreationInputTokens }

/-- `streamMessageStart`: the fields of its message. -/
structure StreamMessageStart where
  id : String := ""
  model : String := ""
  usage : WireUsage := {}
deriving Repr, DecidableEq

/-- `streamMessageStart` is read. -/
def StreamMessageStart.read : Reader StreamMessageStart := fun vs => do
  let fields ← objects vs
  let _ ← string (given "type" fields)
  let message ← objects (given "message" fields)
  let id ← string (given "id" message)
  let model ← string (given "model" message)
  let usage ← WireUsage.read (given "usage" message)
  return { id, model, usage }

/-- `streamContentBlockStart`: its index and the fields of its block. -/
structure StreamContentBlockStart where
  index : Int := 0
  type : String := ""
  id : String := ""
  name : String := ""
deriving Repr, DecidableEq

/-- `streamContentBlockStart` is read. -/
def StreamContentBlockStart.read : Reader StreamContentBlockStart := fun vs => do
  let fields ← objects vs
  let _ ← string (given "type" fields)
  let index ← integer (given "index" fields)
  let block ← objects (given "content_block" fields)
  let type ← string (given "type" block)
  let id ← string (given "id" block)
  let name ← string (given "name" block)
  return { index, type, id, name }

/-- `streamContentBlockDelta`: its index and the fields of its delta. -/
structure StreamContentBlockDelta where
  index : Int := 0
  type : String := ""
  text : String := ""
  partialJSON : String := ""
deriving Repr, DecidableEq

/-- `streamContentBlockDelta` is read. -/
def StreamContentBlockDelta.read : Reader StreamContentBlockDelta := fun vs => do
  let fields ← objects vs
  let _ ← string (given "type" fields)
  let index ← integer (given "index" fields)
  let delta ← objects (given "delta" fields)
  let type ← string (given "type" delta)
  let text ← string (given "text" delta)
  let partialJSON ← string (given "partial_json" delta)
  return { index, type, text, partialJSON }

/-- `streamMessageDelta`: the stop reason of its delta and the tokens of its usage. -/
structure StreamMessageDelta where
  stopReason : String := ""
  outputTokens : Int := 0
deriving Repr, DecidableEq

/-- `streamMessageDelta` is read. -/
def StreamMessageDelta.read : Reader StreamMessageDelta := fun vs => do
  let fields ← objects vs
  let _ ← string (given "type" fields)
  let delta ← objects (given "delta" fields)
  let stopReason ← string (given "stop_reason" delta)
  let usage ← objects (given "usage" fields)
  let outputTokens ← integer (given "output_tokens" usage)
  return { stopReason, outputTokens }

/-! ## The accumulator -/

/-- `streamToolCallAccumulator`. -/
structure ToolCallAccumulator where
  byIndex : List (Int × ToolCall) := []
  order : List Int := []
deriving Repr, DecidableEq

/-- `start`. -/
def ToolCallAccumulator.start (a : ToolCallAccumulator) (index : Int) (id name : String) :
    ToolCallAccumulator :=
  { byIndex := a.byIndex.filter (fun p => p.1 ≠ index) ++
      [(index, { id := id, type := "function", function := { name := name } })]
    order := a.order ++ [index] }

/-- Adds a piece to the arguments. -/
def addArguments (call : ToolCall) (partialJSON : String) : ToolCall :=
  { call with
    function := { call.function with arguments := call.function.arguments ++ partialJSON } }

/-- `appendArgs`. -/
def ToolCallAccumulator.appendArgs (a : ToolCallAccumulator) (index : Int) (partialJSON : String) :
    ToolCallAccumulator :=
  { a with byIndex := a.byIndex.map fun p =>
      if p.1 = index then (p.1, addArguments p.2 partialJSON) else p }

/-- `finalize`. -/
def ToolCallAccumulator.finalize (a : ToolCallAccumulator) : List ToolCall :=
  a.order.filterMap fun index => a.byIndex.lookup index

/-! ## The stream -/

/-- The variables of `Adapter.Stream`, apart from the type of the current event. -/
structure StreamState where
  msgID : String := ""
  model : String := ""
  inputTok : Int := 0
  cacheReadTok : Int := 0
  cacheCreationTok : Int := 0
  toolCalls : ToolCallAccumulator := {}
deriving Repr, DecidableEq

/-- What `message_start` sets. -/
def StreamState.messageStart (st : StreamState) (ms : StreamMessageStart) : StreamState :=
  { st with
    msgID := ms.id
    model := ms.model
    inputTok := ms.usage.inputTokens
    cacheReadTok := ms.usage.cacheReadInputTokens
    cacheCreationTok := ms.usage.cacheCreationInputTokens }

/-- The chunk of a piece of text. -/
def StreamState.textChunk (st : StreamState) (text : String) : StreamChunk :=
  { id := st.msgID, model := st.model, delta := { role := "assistant", content := text } }

/-- The chunk of `message_delta`. -/
def StreamState.finalChunk (st : StreamState) (md : StreamMessageDelta) : StreamChunk :=
  let promptTokens := st.inputTok + st.cacheReadTok + st.cacheCreationTok
  { id := st.msgID
    model := st.model
    delta := { role := "", toolCalls := st.toolCalls.finalize }
    finishReason := normalizeStopReason md.stopReason
    usage := some
      { promptTokens := promptTokens
        completionTokens := md.outputTokens
        totalTokens := promptTokens + md.outputTokens
        cacheReadInputTokens := st.cacheReadTok
        cacheCreationInputTokens := st.cacheCreationTok } }

/-- What `Stream` does with the data of an event: the next state and the chunks it passes on.
Data that does not decode is skipped. -/
def handleData (eventType : String) (st : StreamState) (data : List Char) :
    StreamState × List StreamChunk :=
  if eventType = "message_start" then
    match unmarshal StreamMessageStart.read data with
    | none => (st, [])
    | some ms => (st.messageStart ms, [])
  else if eventType = "content_block_start" then
    match unmarshal StreamContentBlockStart.read data with
    | none => (st, [])
    | some cbs =>
      if cbs.type = "tool_use" then
        ({ st with toolCalls := st.toolCalls.start cbs.index cbs.id cbs.name }, [])
      else (st, [])
  else if eventType = "content_block_delta" then
    match unmarshal StreamContentBlockDelta.read data with
    | none => (st, [])
    | some cbd =>
      if cbd.type = "text_delta" then (st, [st.textChunk cbd.text])
      else if cbd.type = "input_json_delta" then
        ({ st with toolCalls := st.toolCalls.appendArgs cbd.index cbd.partialJSON }, [])
      else (st, [])
  else if eventType = "message_delta" then
    match unmarshal StreamMessageDelta.read data with
    | none => (st, [])
    | some md => (st, [st.finalChunk md])
  else (st, [])

/-- What the type of an event follows. -/
def eventPrefix : List Char := ['e', 'v', 'e', 'n', 't', ':', ' ']

/-- The loop of `Adapter.Stream`: the chunks that the callback gets. -/
def streamLoop (eventType : String) (st : StreamState) : List (List Char) → List StreamChunk
  | [] => []
  | line :: lines =>
    match after eventPrefix line with
    | some name => streamLoop (String.ofList name) st lines
    | none =>
      match after dataPrefix line with
      | none => streamLoop eventType st lines
      | some data =>
        if eventType = "message_stop" then []
        else
          (handleData eventType st data).2 ++
            streamLoop eventType (handleData eventType st data).1 lines

/-- `Adapter.Stream` on the body of a successful response. -/
def stream (body : List Char) : List StreamChunk :=
  streamLoop "" {} (scanText maxScanTokenSize body)

/-- What the loop of `Adapter.Stream` returns, where the scanner reports `err` after its last
line. -/
def streamResult (err : Option ScanError) (eventType : String) :
    List (List Char) → Option ScanError
  | [] => err
  | line :: lines =>
    match after eventPrefix line with
    | some name => streamResult err (String.ofList name) lines
    | none =>
      match after dataPrefix line with
      | none => streamResult err eventType lines
      | some _ =>
        if eventType = "message_stop" then none else streamResult err eventType lines

/-- The error that `Adapter.Stream` returns for the body of a successful response, after which
reading ends or fails. -/
def streamErr (readFails : Bool) (body : List Char) : Option ScanError :=
  streamResult (scanErr maxScanTokenSize readFails body) "" (scanText maxScanTokenSize body)

end Ixr.Adapters.Anthropic
