import IxrGateway.Schema
import IxrGateway.GoStrings

/-!
# The Anthropic and Bedrock request translators

Both lift system messages out of the message list and turn a message's content
into content blocks.  The Anthropic translator also turns tool results into
user messages, one for each run of consecutive results, and marks prompt-cache
breakpoints.  Both write a token limit of their own.

`json.Unmarshal` of a text into a `map[string]any` is a parameter.  It gives the
map as it is afterwards, which may be nil, and whether there was no error.  A
number out of range is an error, but the rest of the object is filled in, so that
a caller who ignores the error has a map.
-/

namespace Ixr.Adapters

open GoStrings List

/-- A `map[string]any`. -/
abbrev JsonObject := List (String × Json)

/-- `json.Unmarshal` into a `map[string]any`. -/
abbrev UnmarshalObject := String → Option JsonObject × Bool

/-- `parseDataURI` of package `anthropic`. -/
def parseDataURI (uri : String) : Option (String × String) :=
  (afterPrefix uri "data:").bind fun rest => cut rest ";base64,"

example : parseDataURI "data:image/png;base64,AAAA" = some ("image/png", "AAAA") := by decide

namespace Anthropic

/-- `wireImageSource`. -/
structure WireImageSource where
  type : String
  mediaType : String := ""
  data : String := ""
  url : String := ""
deriving Repr, DecidableEq

/-- `wireCacheControl`. -/
structure WireCacheControl where
  type : String
deriving Repr, DecidableEq

/-- `wireContent`. -/
structure WireContent where
  type : String
  text : String := ""
  id : String := ""
  name : String := ""
  input : Option JsonObject := none
  toolUseID : String := ""
  content : String := ""
  isError : Bool := false
  source : Option WireImageSource := none
  cacheControl : Option WireCacheControl := none
deriving Repr, DecidableEq

/-- `wireMessage`. -/
structure WireMessage where
  role : String
  content : List WireContent
deriving Repr, DecidableEq

/-- `wireTool`. -/
structure WireTool where
  name : String
  description : String := ""
  inputSchema : JsonObject := []
deriving Repr, DecidableEq

/-- `wireToolChoice`. -/
structure WireToolChoice where
  type : String
  name : String := ""
deriving Repr, DecidableEq

/-- `wireRequest`. -/
structure WireRequest where
  model : String
  messages : List WireMessage
  system : List WireContent := []
  maxTokens : Int
  stream : Bool := false
  tools : List WireTool := []
  toolChoice : Option WireToolChoice := none
deriving Repr, DecidableEq

/-- `defaultMaxTokens`. -/
def defaultMaxTokens : Int := 4096

/-- `toImageBlock`. -/
def toImageBlock (url : String) : WireContent :=
  match parseDataURI url with
  | some (mediaType, data) =>
    { type := "image", source := some { type := "base64", mediaType := mediaType, data := data } }
  | none => { type := "image", source := some { type := "url", url := url } }

/-- The block of a part. -/
def toPartBlock (p : ContentPart) : Option WireContent :=
  if p.type = "text" then some { type := "text", text := p.text }
  else if p.type = "image_url" then p.imageURL.map fun image => toImageBlock image.url
  else none

/-- `toWireContentBlocks`. -/
def toWireContentBlocks (m : Message) : List WireContent :=
  if m.parts = [] then [{ type := "text", text := m.content }]
  else m.parts.filterMap toPartBlock

/-- `toWireTools`. -/
def toWireTools (tools : List Tool) : List WireTool :=
  tools.map fun t =>
    { name := t.function.name, description := t.function.description,
      inputSchema := t.function.parameters }

/-- What an object has under a key. -/
def field (o : JsonObject) (key : String) : Option Json := o.lookup key

/-- `toWireToolChoice`. -/
def toWireToolChoice : Option Json → Option WireToolChoice
  | some (.str v) =>
    if v = "required" then some { type := "any" }
    else if v = "auto" then some { type := "auto" }
    else none
  | some (.obj v) =>
    match field v "function" with
    | some (.obj fn) =>
      match field fn "name" with
      | some (.str name) => if name = "" then none else some { type := "tool", name := name }
      | _ => none
    | _ => none
  | _ => none

/-- `minCacheableTokens`. -/
def minCacheableTokens (model : String) : Int :=
  if contains (toLower model) "haiku" then 2048 else 1024

/-- `estimateTokens`. -/
def estimateTokens (text : String) : Int := len text / 4

/-- The mark of a cache breakpoint. -/
def ephemeral : WireCacheControl := { type := "ephemeral" }

/-- `maybeCacheSystemBlock`. -/
def maybeCacheSystemBlock (model system : String) : WireContent :=
  let block : WireContent := { type := "text", text := system }
  if minCacheableTokens model ≤ estimateTokens system then
    { block with cacheControl := some ephemeral }
  else block

/-- Puts a breakpoint on the last block. -/
def markLastBlock (m : WireMessage) : WireMessage :=
  { m with content := m.content.modify (m.content.length - 1) fun c =>
      { c with cacheControl := some ephemeral } }

/-- `totalChars` of `markHistoryCacheBreakpoint`. -/
def totalChars (msgs : List WireMessage) : Int :=
  (msgs.map fun m => (m.content.map fun c => len c.text + len c.content).sum).sum

/-- `markHistoryCacheBreakpoint`. -/
def markHistoryCacheBreakpoint (msgs : List WireMessage) (historyLen : Int) (model : String) :
    List WireMessage :=
  if historyLen ≤ 0 ∨ (msgs.length : Int) < historyLen then msgs
  else if totalChars (msgs.take historyLen.toNat) / 4 < minCacheableTokens model then msgs
  else msgs.modify (historyLen.toNat - 1) markLastBlock

/-- The variables of `toWireRequest`. -/
structure Build where
  system : String := ""
  msgs : List WireMessage := []
  pendingResults : List WireContent := []
deriving Repr, DecidableEq

/-- `flushResults`. -/
def Build.flushResults (b : Build) : Build :=
  if b.pendingResults = [] then b
  else
    { b with msgs := b.msgs ++ [{ role := "user", content := b.pendingResults }]
             pendingResults := [] }

/-- Adds a system message to the text. -/
def appendSystem (system content : String) : String :=
  if system = "" then content else system ++ "\n\n" ++ content

/-- The text and tool calls of an assistant. -/
def toolUseBlocks (unmarshal : UnmarshalObject) (m : Message) : List WireContent :=
  (if m.content = "" then [] else [{ type := "text", text := m.content }]) ++
    m.toolCalls.map fun tc =>
      { type := "tool_use", id := tc.id, name := tc.function.name,
        input := (unmarshal tc.function.arguments).1 }

/-- The loop body of `toWireRequest`. -/
def Build.step (unmarshal : UnmarshalObject) (b : Build) (m : Message) : Build :=
  if m.role = "tool" then
    { b with pendingResults := b.pendingResults ++
        [{ type := "tool_result", toolUseID := m.toolCallID, content := m.content }] }
  else
    let b := b.flushResults
    if m.role = "system" then { b with system := appendSystem b.system m.content }
    else if m.role = "assistant" ∧ m.toolCalls ≠ [] then
      { b with msgs := b.msgs ++ [{ role := "assistant", content := toolUseBlocks unmarshal m }] }
    else { b with msgs := b.msgs ++ [{ role := m.role, content := toWireContentBlocks m }] }

/-- `toWireRequest`. -/
def toWireRequest (unmarshal : UnmarshalObject) (req : RequestEnvelope) (historyLen : Int) :
    WireRequest :=
  let b := (req.messages.foldl (Build.step unmarshal) {}).flushResults
  { model := req.model
    messages := markHistoryCacheBreakpoint b.msgs historyLen req.model
    system := if b.system = "" then [] else [maybeCacheSystemBlock req.model b.system]
    maxTokens := defaultMaxTokens
    tools := toWireTools req.tools
    toolChoice := toWireToolChoice req.toolChoice }

end Anthropic

namespace Bedrock

/-- `imageSource`. -/
structure ImageSource where
  type : String
  mediaType : String := ""
  data : String := ""
  url : String := ""
deriving Repr, DecidableEq

/-- `contentBlock`. -/
structure ContentBlock where
  type : String
  text : String := ""
  source : Option ImageSource := none
deriving Repr, DecidableEq

/-- `bedrockMessage`. -/
structure BedrockMessage where
  role : String
  content : List ContentBlock
deriving Repr, DecidableEq

/-- `bedrockReq`, which `buildBody` encodes. -/
structure BedrockReq where
  anthropicVersion : String
  maxTokens : Int
  system : String := ""
  messages : List BedrockMessage
deriving Repr, DecidableEq

/-- `toImageBlock`. -/
def toImageBlock (url : String) : ContentBlock :=
  match parseDataURI url with
  | some (mediaType, data) =>
    { type := "image", source := some { type := "base64", mediaType := mediaType, data := data } }
  | none => { type := "image", source := some { type := "url", url := url } }

/-- The block of a part. -/
def toPartBlock (p : ContentPart) : Option ContentBlock :=
  if p.type = "text" then some { type := "text", text := p.text }
  else if p.type = "image_url" then p.imageURL.map fun image => toImageBlock image.url
  else none

/-- `toContentBlocks`. -/
def toContentBlocks (m : Message) : List ContentBlock :=
  if m.parts = [] then [{ type := "text", text := m.content }]
  else m.parts.filterMap toPartBlock

/-- The loop body of `buildBody`, on its `system` and `msgs`. -/
def buildStep (b : String × List BedrockMessage) (m : Message) : String × List BedrockMessage :=
  if m.role = "system" then (Anthropic.appendSystem b.1 m.content, b.2)
  else (b.1, b.2 ++ [{ role := m.role, content := toContentBlocks m }])

/-- `buildBody`, before encoding. -/
def buildBody (req : RequestEnvelope) : BedrockReq :=
  let b := req.messages.foldl buildStep ("", [])
  { anthropicVersion := "bedrock-2023-05-31"
    maxTokens := 4096
    system := b.1
    messages := b.2 }

end Bedrock

/-! ## The chunks of a stream -/

/-- Texts are sent in chunks of their own, and the last chunk has all the rest. -/
theorem textChunks_fold (textChunk : String → StreamChunk) {id model : String}
    (hchunk : ∀ t, textChunk t = { id, model, delta := { role := "assistant", content := t } })
    (texts : List String) (last : StreamChunk) (hlast : last.delta.content = "") :
    let chunks := texts.map textChunk ++ [last]
    join "" (chunks.map (·.delta.content)) = join "" texts ∧
      chunks.flatMap (·.delta.toolCalls) = last.delta.toolCalls ∧
      ((chunks.map (·.finishReason)).filter (· ≠ "")).getLastD "" = last.finishReason ∧
      (chunks.filterMap (·.usage)).getLast? = last.usage := by
  refine ⟨?_, ?_, ?_, ?_⟩
  · have hone : join "" [""] = "" := rfl
    simp [join_append, Function.comp_def, hchunk, hlast, hone]
  · simp [flatMap_map, hchunk]
  · have hskip : ((texts.map textChunk).map (·.finishReason)).filter (· ≠ "") = [] := by
      simp [hchunk]
    rw [map_append, filter_append, hskip, nil_append, map_cons, map_nil]
    by_cases hreason : last.finishReason = ""
    · rw [hreason]
      rfl
    · rw [filter_cons_of_pos (by simpa using hreason), filter_nil]
      rfl
  · cases husage : last.usage with
    | none | some => simp [filterMap_map, hchunk, husage]

end Ixr.Adapters
