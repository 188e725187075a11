import IxrGateway.Adapters.Anthropic

/-!
# The Gemini request translator

`toGenWireRequest` merges a text message into the content before it when both
have the same role.  The merge writes to the first part of that content, which
need not exist: a multimodal message whose parts are all dropped leaves a
content with no parts.  `none` is that out-of-range access.

No sampling parameter has a place in the wire request.  Its `toolConfig` is
never set and is left out.
-/

namespace Ixr.Adapters.GoogleAI

open GoStrings

/-- `genInlineData`. -/
structure GenInlineData where
  mimeType : String
  data : String
deriving Repr, DecidableEq

/-- `genFileData`, whose `mimeType` is never set. -/
structure GenFileData where
  fileURI : String
deriving Repr, DecidableEq

/-- `genFunctionCall`. -/
structure GenFunctionCall where
  name : String
  args : Option JsonObject := none
deriving Repr, DecidableEq

/-- `genFunctionResponse`. -/
structure GenFunctionResponse where
  name : String
  response : Option JsonObject
deriving Repr, DecidableEq

/-- `genPart`. -/
structure GenPart where
  text : String := ""
  functionCall : Option GenFunctionCall := none
  functionResponse : Option GenFunctionResponse := none
  inlineData : Option GenInlineData := none
  fileData : Option GenFileData := none
deriving Repr, DecidableEq

/-- `genContent`. -/
structure GenContent where
  role : String
  parts : List GenPart
deriving Repr, DecidableEq

/-- `genFunctionDeclaration`. -/
structure GenFunctionDeclaration where
  name : String
  description : String := ""
  parameters : JsonObject := []
deriving Repr, DecidableEq

/-- `genTool`. -/
structure GenTool where
  functionDeclarations : List GenFunctionDeclaration
deriving Repr, DecidableEq

/-- `genSystemInstruction`. -/
structure GenSystemInstruction where
  parts : List GenPart
deriving Repr, DecidableEq

/-- `genWireRequest`. -/
structure GenWireRequest where
  systemInstruction : Option GenSystemInstruction := none
  contents : List GenContent
  tools : List GenTool := []
deriving Repr, DecidableEq

/-- `parseImageDataURI`. -/
def parseImageDataURI (uri : String) : Option (String × String) := parseDataURI uri

/-- `toImagePart`. -/
def toImagePart (url : String) : GenPart :=
  match parseImageDataURI url with
  | some (mimeType, data) => { inlineData := some { mimeType := mimeType, data := data } }
  | none => { fileData := some { fileURI := url } }

/-- The part of a content part. -/
def toGenPart (p : ContentPart) : Option GenPart :=
  if p.type = "text" then
    if trimSpace p.text = "" then none else some { text := p.text }
  else if p.type = "image_url" then p.imageURL.map fun image => toImagePart image.url
  else none

/-- `toGenParts`. -/
def toGenParts (m : Message) : List GenPart := m.parts.filterMap toGenPart

/-- `toGenTools`. -/
def toGenTools (tools : List Tool) : List GenTool :=
  if tools = [] then []
  else
    [{ functionDeclarations := tools.map fun t =>
        { name := t.function.name, description := t.function.description,
          parameters := t.function.parameters } }]

/-- `toResponseObject`. -/
def toResponseObject (unmarshal : UnmarshalObject) (content : String) : Option JsonObject :=
  match unmarshal content with
  | (obj, true) => obj
  | (_, false) => some [("result", .str content)]

/-- The variables of `toGenWireRequest`. -/
structure Build where
  systemChunks : List String := []
  contents : List GenContent := []
  callIDToName : List (String × String) := []
  pendingResponses : List GenPart := []
deriving Repr, DecidableEq

/-- `appendOrMerge`. -/
def Build.appendOrMerge (b : Build) (role text : String) : Option Build :=
  let text := trimSpace text
  if text = "" then some b
  else
    let genRole := if role = "assistant" then "model" else role
    match b.contents.getLast? with
    | some last =>
      if last.role = genRole then
        match last.parts with
        | [] => none
        | part :: parts =>
          let merged := { part with text := trimSpace (part.text ++ "\n" ++ text) }
          some { b with contents := b.contents.dropLast ++
            [{ last with parts := merged :: parts }] }
      else some { b with contents := b.contents ++ [{ role := genRole, parts := [{ text }] }] }
    | none => some { b with contents := [{ role := genRole, parts := [{ text }] }] }

/-- `flushResponses`. -/
def Build.flushResponses (b : Build) : Build :=
  if b.pendingResponses = [] then b
  else
    { b with contents := b.contents ++ [{ role := "function", parts := b.pendingResponses }]
             pendingResponses := [] }

/-- Adds the result of a call. -/
def Build.addResponse (unmarshal : UnmarshalObject) (b : Build) (m : Message) : Build :=
  let name := if m.name = "" then (b.callIDToName.lookup m.toolCallID).getD "" else m.name
  { b with pendingResponses := b.pendingResponses ++
      [{ functionResponse := some
          { name := name, response := toResponseObject unmarshal m.content } }] }

/-- The id of a call, or a new one. -/
def callID (i : Nat) (tc : ToolCall) : String :=
  if tc.id = "" then "fc_" ++ toString i else tc.id

/-- An assistant message with tool calls.  Later entries of the map shadow earlier ones. -/
def Build.addCalls (unmarshal : UnmarshalObject) (b : Build) (m : Message) : Build :=
  let text : List GenPart := if trimSpace m.content = "" then [] else [{ text := m.content }]
  let calls : List GenPart := m.toolCalls.map fun tc =>
    { functionCall := some
        { name := tc.function.name, args := (unmarshal tc.function.arguments).1 } }
  let names := m.toolCalls.mapIdx fun i tc => (callID i tc, tc.function.name)
  { b with callIDToName := names.reverse ++ b.callIDToName
           contents := b.contents ++ [{ role := "model", parts := text ++ calls }] }

/-- The loop body of `toGenWireRequest`. -/
def Build.step (unmarshal : UnmarshalObject) (b : Build) (m : Message) : Option Build :=
  if m.role = "tool" then some (b.addResponse unmarshal m)
  else
    let b := b.flushResponses
    if m.role = "system" then
      if trimSpace m.content = "" then some b
      else some { b with systemChunks := b.systemChunks ++ [trimSpace m.content] }
    else if m.role = "assistant" then
      if m.toolCalls ≠ [] then some (b.addCalls unmarshal m)
      else b.appendOrMerge "assistant" m.content
    else if m.role = "user" ∧ m.parts ≠ [] then
      some { b with contents := b.contents ++ [{ role := "user", parts := toGenParts m }] }
    else b.appendOrMerge "user" m.content

/-- `toGenWireRequest`, or `none` where it reads out of range. -/
def toGenWireRequest (unmarshal : UnmarshalObject) (req : RequestEnvelope) :
    Option GenWireRequest :=
  (req.messages.foldlM (Build.step unmarshal) {}).map fun b =>
    let b := b.flushResponses
    { contents := b.contents
      tools := toGenTools req.tools
      systemInstruction :=
        if b.systemChunks = [] then none
        else some { parts := [{ text := join "\n\n" b.systemChunks }] } }

end Ixr.Adapters.GoogleAI
