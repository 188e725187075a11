import IxrGateway.Schema
import IxrGateway.GoStrings
import IxrGateway.JsonText.Read

/-!
# Request envelopes as JSON

How `pkg/schema` values are written to JSON and read from it.  `Message` has a
codec of its own (`Message.marshalJSON`, `Message.unmarshalJSON`).  Its
`"content"` is a string or an array of parts.  The other types have the codec
that `encoding/json` derives from their field tags.

A value of type `any` is read as a `Json` value, with the keys of objects
sorted, since a Go map has no order and is written in the order of its keys.
A nil slice is written as `null` where it is written at all.  An empty one
would be `[]`, and both are read as no elements.  Which error a bad value gives
is left out.

`RequestEnvelope.decode` is what the middlewares and the chat handler do with a
body, and `RequestEnvelope.encode` is what the middlewares pass on.
-/

namespace Ixr

open JsonText

/-! ## Values of any type -/

section

variable (floats : Floats ℚ)

mutual

/-- Decoding into an `any`. -/
def toAny : Value → Option Json
  | .null => some .null
  | .bool b => some (.bool b)
  | .number n => (floats.value n).map .num
  | .string s => some (.str s)
  | .array xs => (toAnys xs).map .arr
  | .object fields => (toAnyFields fields []).map .obj

def toAnys : List Value → Option (List Json)
  | [] => some []
  | x :: xs => (toAny x).bind fun y => (toAnys xs).map fun ys => y :: ys

def toAnyFields : List (String × Value) → List (String × Json) → Option (List (String × Json))
  | [], entries => some entries
  | (key, x) :: fields, entries =>
    (toAny x).bind fun y => toAnyFields fields (insertKey key y entries)

end

mutual

/-- Encoding an `any`. -/
def ofAny : Json → Value
  | .null => .null
  | .bool b => .bool b
  | .num q => .number (floats.format q)
  | .str s => .string s
  | .arr xs => .array (ofAnys xs)
  | .obj entries => .object (ofAnyFields entries)

def ofAnys : List Json → List Value
  | [] => []
  | x :: xs => ofAny x :: ofAnys xs

def ofAnyFields : List (String × Json) → List (String × Value)
  | [] => []
  | (key, x) :: entries => (key, ofAny x) :: ofAnyFields entries

end

mutual

/-- A value as maps, slices and scalars, with a given reading of its numbers. -/
def readAny (num : Number → Json) : Value → Json
  | .null => .null
  | .bool b => .bool b
  | .number n => num n
  | .string s => .str s
  | .array xs => .arr (readAnys num xs)
  | .object fields => .obj (readAnyFields num fields [])

def readAnys (num : Number → Json) : List Value → List Json
  | [] => []
  | x :: xs => readAny num x :: readAnys num xs

def readAnyFields (num : Number → Json) :
    List (String × Value) → List (String × Json) → List (String × Json)
  | [], entries => entries
  | (key, x) :: fields, entries =>
    readAnyFields num fields (insertKey key (readAny num x) entries)

end

/-- A number as it is decoded into an `any`.  One that is out of range is left nil. -/
def fillNumber (n : Number) : Json := ((floats.value n).map .num).getD .null

/-- What decoding into an `any` leaves, also where it reports an error. -/
def fillAny (v : Value) : Json := readAny (fillNumber floats) v

/-- `json.Marshal` of a `map[string]any`, which is nil or not. -/
def marshalObject (entries : Option (List (String × Json))) : String :=
  String.ofList (print (match entries with
    | none => .null
    | some entries => .object (entries.map fun p => (p.1, ofAny floats p.2))))

/-- `json.Unmarshal` into a `map[string]any`, which is nil for the text `null`. -/
def unmarshalObject (text : String) : Option (Option (List (String × Json))) :=
  unmarshal (pointer (table (toAny floats))) text.toList

/-- `json.Unmarshal` into a `map[string]any`: what the map is afterwards, and whether there was no
error. -/
def unmarshalMap (text : String) : Option (List (String × Json)) × Bool :=
  match parse text.toList with
  | some (.object fields) =>
    (some (readAnyFields (fillNumber floats) fields []), (toAnyFields floats fields []).isSome)
  | some .null => (none, true)
  | _ => (none, false)

/-- Decoding into a field of type `any`, which is nil for `null`. -/
def anyOf : Value → Option (Option Json)
  | .null => some none
  | v => (toAny floats v).map some

/-- A field of type `any` with `omitempty`. -/
def anyField (name : String) (x : Option Json) : List (String × Value) :=
  omitField name x.isNone (ofAny floats (x.getD .null))

/-! ## Messages -/

/-- `ImageURLPart` is read. -/
def ImageURLPart.read : Reader ImageURLPart := fun vs => do
  let fields ← objects vs
  let url ← string (given "url" fields)
  let detail ← string (given "detail" fields)
  return { url, detail }

/-- `ImageURLPart` is written. -/
def ImageURLPart.write (p : ImageURLPart) : Value :=
  .object (field "url" (.string p.url) ++ omitField "detail" (p.detail = "") (.string p.detail))

/-- `ContentPart` is read. -/
def ContentPart.read : Reader ContentPart := fun vs => do
  let fields ← objects vs
  let type ← string (given "type" fields)
  let text ← string (given "text" fields)
  let imageURL ← pointer ImageURLPart.read (given "image_url" fields)
  return { type, text, imageURL }

/-- `ContentPart` is written. -/
def ContentPart.write (p : ContentPart) : Value :=
  .object (field "type" (.string p.type) ++ omitField "text" (p.text = "") (.string p.text) ++
    omitField "image_url" p.imageURL.isNone ((p.imageURL.map ImageURLPart.write).getD .null))

/-- `ToolFunction` is read. -/
def ToolFunction.read : Reader ToolFunction := fun vs => do
  let fields ← objects vs
  let name ← string (given "name" fields)
  let arguments ← string (given "arguments" fields)
  return { name, arguments }

/-- `ToolFunction` is written. -/
def ToolFunction.write (f : ToolFunction) : Value :=
  .object (field "name" (.string f.name) ++ field "arguments" (.string f.arguments))

/-- `ToolCall` is read. -/
def ToolCall.read : Reader ToolCall := fun vs => do
  let fields ← objects vs
  let id ← string (given "id" fields)
  let type ← string (given "type" fields)
  let function ← ToolFunction.read (given "function" fields)
  return { id, type, function }

/-- `ToolCall` is written. -/
def ToolCall.write (c : ToolCall) : Value :=
  .object (field "id" (.string c.id) ++ field "type" (.string c.type) ++
    field "function" c.function.write)

/-- The text of the parts. -/
def flattenText (parts : List ContentPart) : String :=
  parts.foldl (fun text p =>
    if p.type = "text" ∧ p.text ≠ "" then GoStrings.addLine text p.text else text) ""

/-- `Message.MarshalJSON`. -/
def Message.marshalJSON (m : Message) : Value :=
  let others :=
    omitField "tool_calls" m.toolCalls.isEmpty (.array (m.toolCalls.map ToolCall.write)) ++
    omitField "tool_call_id" (m.toolCallID = "") (.string m.toolCallID) ++
    omitField "name" (m.name = "") (.string m.name)
  if m.parts = [] then
    .object (field "role" (.string m.role) ++
      omitField "content" (m.content = "") (.string m.content) ++ others)
  else
    .object (field "role" (.string m.role) ++ others ++
      field "content" (.array (m.parts.map ContentPart.write)))

/-- `Message.UnmarshalJSON`. -/
def Message.unmarshalJSON (v : Value) : Option Message := do
  let fields ← objects [v]
  let role ← string (given "role" fields)
  let toolCalls ← slice ToolCall.read (given "tool_calls" fields)
  let toolCallID ← string (given "tool_call_id" fields)
  let name ← string (given "name" fields)
  let m : Message := { role, toolCalls, toolCallID, name }
  -- the raw content, of which the last one given is kept
  match (given "content" fields).getLast? with
  | none => return m
  | some (.string s) => return { m with content := s }
  | some (.array vs) => do
    let parts ← slice ContentPart.read [.array vs]
    return { m with parts, content := flattenText parts }
  | some .null => return m
  | some _ => none

/-! ## Requests -/

/-- `FunctionDef` is read. -/
def FunctionDef.read : Reader FunctionDef := fun vs => do
  let fields ← objects vs
  let name ← string (given "name" fields)
  let description ← string (given "description" fields)
  let parameters ← table (toAny floats) (given "parameters" fields)
  let strict ← bool (given "strict" fields)
  return { name, description, parameters, strict }

/-- `FunctionDef` is written. -/
def FunctionDef.write (f : FunctionDef) : Value :=
  .object (field "name" (.string f.name) ++
    omitField "description" (f.description = "") (.string f.description) ++
    omitField "parameters" f.parameters.isEmpty
      (.object (f.parameters.map fun p => (p.1, ofAny floats p.2))) ++
    omitField "strict" (f.strict = false) (.bool f.strict))

/-- `Tool` is read. -/
def Tool.read : Reader Tool := fun vs => do
  let fields ← objects vs
  let type ← string (given "type" fields)
  let function ← FunctionDef.read floats (given "function" fields)
  return { type, function }

/-- `Tool` is written. -/
def Tool.write (t : Tool) : Value :=
  .object (field "type" (.string t.type) ++ field "function" (t.function.write floats))

/-- `RequestEnvelope` is read. -/
def RequestEnvelope.read : Reader RequestEnvelope := fun vs => do
  let fields ← objects vs
  let model ← string (given "model" fields)
  let messages ←
    slice (latest { role := "" } Message.unmarshalJSON) (given "messages" fields)
  let stream ← bool (given "stream" fields)
  let tools ← slice (Tool.read floats) (given "tools" fields)
  let toolChoice ← latest none (anyOf floats) (given "tool_choice" fields)
  let temperature ← float floats (given "temperature" fields)
  let maxTokens ← integer (given "max_tokens" fields)
  let topP ← float floats (given "top_p" fields)
  let n ← integer (given "n" fields)
  let stop ← latest none (anyOf floats) (given "stop" fields)
  let user ← string (given "user" fields)
  return { model, messages, stream, tools, toolChoice, temperature, maxTokens, topP, n, stop, user }

/-- The fields of a `RequestEnvelope` as they are written. -/
def RequestEnvelope.fields (e : RequestEnvelope) : List (String × Value) :=
  field "model" (.string e.model) ++
  field "messages"
    (if e.messages = [] then .null else .array (e.messages.map Message.marshalJSON)) ++
  omitField "stream" (e.stream = false) (.bool e.stream) ++
  omitField "tools" e.tools.isEmpty (.array (e.tools.map (Tool.write floats))) ++
  anyField floats "tool_choice" e.toolChoice ++
  omitField "temperature" (e.temperature = 0) (.number (floats.format e.temperature)) ++
  omitField "max_tokens" (e.maxTokens = 0) (.number (Number.ofInt e.maxTokens)) ++
  omitField "top_p" (e.topP = 0) (.number (floats.format e.topP)) ++
  omitField "n" (e.n = 0) (.number (Number.ofInt e.n)) ++
  anyField floats "stop" e.stop ++
  omitField "user" (e.user = "") (.string e.user)

/-- `RequestEnvelope` is written. -/
def RequestEnvelope.write (e : RequestEnvelope) : Value := .object (e.fields floats)

/-- `json.NewDecoder(body).Decode(&req)`. -/
def RequestEnvelope.decode (body : List Char) : Option RequestEnvelope :=
  (parseFirst body).bind fun v => RequestEnvelope.read floats [v]

/-- `json.Marshal(req)`. -/
def RequestEnvelope.encode (e : RequestEnvelope) : List Char := print (e.write floats)

end

/-- Floats for integers alone. -/
def wholeFloats : Floats ℚ where
  value n := n.toInt.map fun (i : Int) => (i : ℚ)
  format q := Number.ofInt q.num
  value_format := by
    intro n x h
    obtain ⟨i, -, rfl⟩ := Option.map_eq_some_iff.mp h
    rw [Rat.num_intCast, Number.toInt_ofInt, Option.map_some]

end Ixr
