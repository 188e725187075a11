import IxrGateway.Adapters.GoogleAI
import IxrGateway.LineScanner
import IxrGateway.SchemaCodec

/-!
# Gemini responses, whole and streamed

`fromGenWireResponse` turns a whole response into ixr's envelope.  `Adapter.Stream`
turns every line of a stream into a chunk, with the same helpers.  They are made
for a whole response: `splitParts` puts a line end between two texts,
`synthCallID` numbers the calls by their place in the part list, and
`mapFinishReason` reads an absent reason as `"stop"`.

So a stream of two or more responses never agrees with the whole response, since
every chunk has a finish reason.  A stream of one response does
(`stream_agrees_iff`).  The scanner has its default limit of 64 KB for a line, and
ends at the first longer one.

The callback of `Stream` never fails here.
-/

namespace Ixr.Adapters.GoogleAI

open GoStrings JsonText
open LineScanner (ScanError after dataPrefix doneErr doneMark maxScanTokenSize scanText)

/-! ## Wire types -/

/-- `genUsage`. -/
structure GenUsage where
  promptTokenCount : Int := 0
  candidatesTokenCount : Int := 0
  totalTokenCount : Int := 0
  cachedContentTokenCount : Int := 0
deriving Repr, DecidableEq

/-- `genCandidate`. -/
structure GenCandidate where
  content : GenContent
  finishReason : String := ""
deriving Repr, DecidableEq

/-- `genWireResponse`. -/
structure GenWireResponse where
  candidates : List GenCandidate := []
  usageMetadata : GenUsage := {}
  /-- The block reason, if there is feedback. -/
  promptFeedback : Option String := none
deriving Repr, DecidableEq

section

variable (floats : Floats ℚ)

/-- `genFunctionCall` is read. -/
def GenFunctionCall.read : Reader GenFunctionCall := fun vs => do
  let fields ← objects vs
  let name ← string (given "name" fields)
  let args ← pointer (table (toAny floats)) (given "args" fields)
  return { name, args }

/-- `genFunctionResponse` is read. -/
def GenFunctionResponse.read : Reader GenFunctionResponse := fun vs => do
  let fields ← objects vs
  let name ← string (given "name" fields)
  let response ← pointer (table (toAny floats)) (given "response" fields)
  return { name, response }

/-- `genInlineData` is read. -/
def GenInlineData.read : Reader GenInlineData := fun vs => do
  let fields ← objects vs
  let mimeType ← string (given "mimeType" fields)
  let data ← string (given "data" fields)
  return { mimeType, data }

/-- `genFileData` is read.  Its type has to be a string. -/
def GenFileData.read : Reader GenFileData := fun vs => do
  let fields ← objects vs
  let _ ← string (given "mimeType" fields)
  let fileURI ← string (given "fileUri" fields)
  return { fileURI }

/-- `genPart` is read. -/
def GenPart.read : Reader GenPart := fun vs => do
  let fields ← objects vs
  let text ← string (given "text" fields)
  let functionCall ←
    pointer (GenFunctionCall.read floats) (given "functionCall" fields)
  let functionResponse ←
    pointer (GenFunctionResponse.read floats) (given "functionResponse" fields)
  let inlineData ← pointer GenInlineData.read (given "inlineData" fields)
  let fileData ← pointer GenFileData.read (given "fileData" fields)
  return { text, functionCall, functionResponse, inlineData, fileData }

/-- `genContent` is read. -/
def GenContent.read : Reader GenContent := fun vs => do
  let fields ← objects vs
  let role ← string (given "role" fields)
  let parts ← slice (GenPart.read floats) (given "parts" fields)
  return { role, parts }

/-- `genCandidate` is read. -/
def GenCandidate.read : Reader GenCandidate := fun vs => do
  let fields ← objects vs
  let content ← GenContent.read floats (given "content" fields)
  let finishReason ← string (given "finishReason" fields)
  return { content, finishReason }

/-- `genUsage` is read. -/
def GenUsage.read : Reader GenUsage := fun vs => do
  let fields ← objects vs
  let promptTokenCount ← integer (given "promptTokenCount" fields)
  let candidatesTokenCount ← integer (given "candidatesTokenCount" fields)
  let totalTokenCount ← integer (given "totalTokenCount" fields)
  let cachedContentTokenCount ← integer (given "cachedContentTokenCount" fields)
  return { promptTokenCount, candidatesTokenCount, totalTokenCount, cachedContentTokenCount }

/-- `genWireResponse` is read. -/
def GenWireResponse.read : Reader GenWireResponse := fun vs => do
  let fields ← objects vs
  let candidates ← slice (GenCandidate.read floats) (given "candidates" fields)
  let usageMetadata ← GenUsage.read (given "usageMetadata" fields)
  let promptFeedback ← pointer
    (fun vs => (objects vs).bind fun fields => string (given "blockReason" fields))
    (given "promptFeedback" fields)
  return { candidates, usageMetadata, promptFeedback }

/-! ## The helpers -/

/-- `synthCallID`. -/
def synthCallID (name : String) (index : Nat) : String := "fc_" ++ name ++ "_" ++ toString index

/-- The tool call of a part. -/
def partCall (p : GenPart × Nat) : Option ToolCall :=
  p.1.functionCall.map fun fc =>
    { id := synthCallID fc.name p.2
      type := "function"
      function := { name := fc.name, arguments := marshalObject floats fc.args } }

/-- The loop body of `splitParts`. -/
def splitStep (acc : String × List ToolCall) (p : GenPart × Nat) : String × List ToolCall :=
  (if p.1.text ≠ "" then addLine acc.1 p.1.text else acc.1, acc.2 ++ (partCall floats p).toList)

/-- `splitParts`. -/
def splitParts (parts : List GenPart) : String × List ToolCall :=
  parts.zipIdx.foldl (splitStep floats) ("", [])

/-- `unicode.ToUpper`, as far as comparison with ASCII text goes.  The dotless i and the long s have
an ASCII upper case. -/
def runeToUpper (c : Char) : Char :=
  if c = Char.ofNat 0x131 then 'I' else if c = Char.ofNat 0x17F then 'S' else c.toUpper

/-- `mapFinishReason`.  Of a reason that it does not know, letters beyond ASCII are not lowered. -/
def mapFinishReason (reason : String) : String :=
  let upper := String.ofList (reason.toList.map runeToUpper)
  if upper = "STOP" then "stop"
  else if upper = "MAX_TOKENS" then "length"
  else if upper = "SAFETY" ∨ upper = "RECITATION" ∨ upper = "OTHER" then "content_filter"
  else if reason = "" then "stop"
  else toLower reason

/-- The finish reason of a candidate. -/
def finishOf (c : GenCandidate) (calls : List ToolCall) : String :=
  if calls ≠ [] then "tool_calls" else mapFinishReason c.finishReason

/-- The usage in the gateway's terms. -/
def usageOf (u : GenUsage) : Usage :=
  { promptTokens := u.promptTokenCount
    completionTokens := u.candidatesTokenCount
    totalTokens := u.totalTokenCount
    cacheReadInputTokens := u.cachedContentTokenCount }

/-! ## Whole responses -/

/-- `fromGenWireResponse` at the time `now`. -/
def fromGenWireResponse (now : Int) (model : String) (wr : GenWireResponse) :
    Except String ResponseEnvelope :=
  let blockReason := wr.promptFeedback.getD ""
  if blockReason ≠ "" then .error ("googleai: prompt blocked (" ++ blockReason ++ ")")
  else
    match wr.candidates with
    | [] => .error "googleai: no candidates in response"
    | c0 :: _ =>
      let (text, calls) := splitParts floats c0.content.parts
      .ok
        { id := ""
          object := "chat.completion"
          created := now
          model := model
          choices :=
            [{ index := 0
               message := { role := "assistant", content := text, toolCalls := calls }
               finishReason := finishOf c0 calls }]
          usage := usageOf wr.usageMetadata }

/-! ## Streams -/

/-- The chunk of a streamed response with the first candidate `c0`. -/
def streamChunk (model : String) (wr : GenWireResponse) (c0 : GenCandidate) : StreamChunk :=
  let (text, calls) := splitParts floats c0.content.parts
  { model := model
    delta := { role := "assistant", content := text, toolCalls := calls }
    finishReason := finishOf c0 calls
    usage :=
      if 0 < wr.usageMetadata.totalTokenCount then some (usageOf wr.usageMetadata) else none }

/-- The loop of `Adapter.Stream`: the chunks that the callback gets. -/
def streamLoop (model : String) : List (List Char) → List StreamChunk
  | [] => []
  | line :: lines =>
    match after dataPrefix line with
    | none => streamLoop model lines
    | some data =>
      if data = doneMark then []
      else
        match unmarshal (GenWireResponse.read floats) data with
        | none => streamLoop model lines
        | some wr =>
          match wr.candidates with
          | [] => streamLoop model lines
          | c0 :: _ => streamChunk floats model wr c0 :: streamLoop model lines

/-- `Adapter.Stream` on the body of a successful response. -/
def stream (model : String) (body : List Char) : List StreamChunk :=
  streamLoop floats model (scanText maxScanTokenSize body)

end

/-- The error that `Adapter.Stream` returns for such a body, after which reading ends or fails. -/
def streamErr (readFails : Bool) (body : List Char) : Option ScanError :=
  doneErr maxScanTokenSize readFails body

end Ixr.Adapters.GoogleAI
