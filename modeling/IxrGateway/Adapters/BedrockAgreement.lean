import IxrGateway.Adapters.Anthropic
import IxrGateway.Adapters.BedrockStream
import IxrGateway.JsonText.Read

/-!
# When a Bedrock stream folds to the whole response

A response of text blocks comes as one JSON body, or as frames: the message
starts, its text comes in pieces, the message ends with its stop reason and its
output tokens, and the stream stops (`Streaming`).  Frames that are no chunks and
events that the loop does not look at can stand anywhere.

The loop follows the events of the frames (`streamFrom_frames`), so that the
chunks are the pieces of text and one final chunk (`Streaming.chunksOf_events`).
They have the content and the usage of the whole response.  The final chunk has
the stop reason in the terms of OpenAI, while `parseResponse` passes it on as it
came.  So the chunks fold to the response exactly if the stop reason is one that
has no translation (`bedrock_stream_folds_iff`).
-/

namespace Ixr.Adapters.Bedrock

open GoIO GoStrings List JsonText

/-! ## The whole response -/

/-- A block of a whole response. -/
structure ResponseBlock where
  type : String := ""
  text : String := ""
deriving Repr, DecidableEq

/-- The body of a whole response. -/
structure ResponseWire where
  id : String := ""
  content : List ResponseBlock := []
  inputTokens : Int := 0
  outputTokens : Int := 0
  stopReason : String := ""
deriving Repr, DecidableEq

/-- Decodes a block. -/
def ResponseBlock.read : Reader ResponseBlock := fun vs => do
  let fields ← objects vs
  let type ← string (given "type" fields)
  let text ← string (given "text" fields)
  return { type, text }

/-- Decodes the body. -/
def ResponseWire.read : Reader ResponseWire := fun vs => do
  let fields ← objects vs
  let id ← string (given "id" fields)
  let _ ← string (given "type" fields)
  let _ ← string (given "role" fields)
  let content ← slice ResponseBlock.read (given "content" fields)
  let usage ← objects (given "usage" fields)
  let inputTokens ← integer (given "input_tokens" usage)
  let outputTokens ← integer (given "output_tokens" usage)
  let stopReason ← string (given "stop_reason" fields)
  return { id, content, inputTokens, outputTokens, stopReason }

/-- The text of the blocks. -/
def textOf (blocks : List ResponseBlock) : String :=
  blocks.foldl (fun content c => if c.type = "text" then content ++ c.text else content) ""

/-- What the body is translated to. -/
def ResponseWire.envelope (wire : ResponseWire) (now : Int) (model : String) :
    ResponseEnvelope where
  id := wire.id
  object := "chat.completion"
  created := now
  model := model
  choices := [{
    index := 0
    message := { role := "assistant", content := textOf wire.content }
    finishReason := wire.stopReason }]
  usage := {
    promptTokens := wire.inputTokens
    completionTokens := wire.outputTokens
    totalTokens := wire.inputTokens + wire.outputTokens }

/-- `parseResponse`, at the time `now`.  The text of the JSON error is left out. -/
def parseResponse (now : Int) (model : String) (body : List Char) :
    Except Err ResponseEnvelope :=
  match unmarshal ResponseWire.read body with
  | none => .error (.wrap (ascii "bedrock: decode response") (.new []))
  | some wire => .ok (wire.envelope now model)

/-! ## The events of the frames -/

variable {dec : ChunkDecoders} {crc : Bytes → UInt32} {fn : StreamChunk → Option Err}

/-- The event of a frame, if it is a chunk and decodes. -/
def Frame.event (f : Frame crc) (dec : ChunkDecoders) : Option BedrockStreamEvent :=
  match decodeEvent dec f.msg with
  | .ok ev? => ev?
  | .error _ => none

/-- The events in the frames. -/
def eventsOf (dec : ChunkDecoders) (frames : List (Frame crc)) : List BedrockStreamEvent :=
  frames.filterMap (·.event dec)

theorem eventsOf_cons (f : Frame crc) (frames : List (Frame crc)) :
    eventsOf dec (f :: frames) = (f.event dec).toList ++ eventsOf dec frames := by
  cases hev : f.event dec <;> simp [eventsOf, hev]

/-- The chunks of the events. -/
def chunksOf : StreamState → List BedrockStreamEvent → List StreamChunk
  | _, [] => []
  | st, ev :: evs =>
    match handleEvent st ev with
    | .stop => []
    | .next st chunk? => chunk?.toList ++ chunksOf st evs

variable {ev : BedrockStreamEvent}

theorem handleEvent_stop (st : StreamState) (h : ev.type = "message_stop") :
    handleEvent st ev = .stop := by
  simp [handleEvent, h]

theorem streamFrom_frames (hfn : ∀ chunk, fn chunk = none) (tail : Bytes) :
    ∀ (frames : List (Frame crc)) (passes : Nat) (st : StreamState),
    (∀ f ∈ frames, ¬f.Fails dec) →
    (∃ ev ∈ eventsOf dec frames, ev.type = "message_stop") →
    frames.length ≤ passes →
    streamFrom dec crc fn passes st (frames.flatMap Frame.bytes ++ tail) =
      (chunksOf st (eventsOf dec frames), none)
  | [], _, _, _, hstop, _ => by simp [eventsOf] at hstop
  | f :: frames, 0, _, _, _, hpasses => absurd hpasses (Nat.not_succ_le_zero _)
  | f :: frames, passes + 1, st, hfail, hstop, hpasses => by
    obtain ⟨hf, hframes⟩ := forall_mem_cons.mp hfail
    have hlater := fun st hstop => streamFrom_frames hfn tail frames passes st hframes hstop
      (Nat.le_of_succ_le_succ hpasses)
    rw [flatMap_cons, append_assoc, streamFrom, f.reads_append]
    dsimp only
    cases hev : decodeEvent dec f.msg with
    | error err => exact absurd ⟨err, hev⟩ hf
    | ok ev? =>
      have hevent : f.event dec = ev? := by rw [Frame.event, hev]
      rw [eventsOf_cons, hevent] at hstop ⊢
      cases ev? with
      | none => exact hlater st hstop
      | some ev =>
        rw [Option.toList_some, singleton_append] at hstop ⊢
        rw [chunksOf]
        cases hpass : handleEvent st ev with
        | stop => simp only [hpass]
        | next st' chunk? =>
          have hrest : ∃ ev ∈ eventsOf dec frames, ev.type = "message_stop" := by
            obtain ⟨ev', hmem, htype⟩ := hstop
            obtain rfl | hmem := mem_cons.mp hmem
            · rw [handleEvent_stop st htype] at hpass
              cases hpass
            · exact ⟨ev', hmem, htype⟩
          cases chunk? with
          | none => simp only [hpass, hlater st' hrest, Option.toList_none, nil_append]
          | some chunk =>
            simp only [hpass, hfn, hlater st' hrest, Option.toList_some, singleton_append]

/-! ## Streams of a response -/

/-- An event that the loop passes over. -/
def Ignored (ev : BedrockStreamEvent) : Prop :=
  ev.type ∉ ["message_start", "content_block_delta", "message_delta", "message_stop"]

/-- The event has a piece of text. -/
def IsText (ev : BedrockStreamEvent) : Prop :=
  ev.type = "content_block_delta" ∧ ev.deltaType = "text_delta"

instance (ev : BedrockStreamEvent) : Decidable (Ignored ev) :=
  inferInstanceAs (Decidable (_ ∉ _))

instance (ev : BedrockStreamEvent) : Decidable (IsText ev) :=
  inferInstanceAs (Decidable (_ ∧ _))

/-- The pieces of text. -/
def pieces (evs : List BedrockStreamEvent) : List String :=
  (evs.filter fun ev => decide (IsText ev)).map (·.deltaText)

/-- The frames stream this response. -/
structure Streaming (dec : ChunkDecoders) (wire : ResponseWire) (frames : List (Frame crc)) where
  start : BedrockStreamEvent
  /-- The text in pieces, and ignored events. -/
  middle : List BedrockStreamEvent
  delta : BedrockStreamEvent
  post : List BedrockStreamEvent
  stop : BedrockStreamEvent
  decodes : ∀ f ∈ frames, ¬f.Fails dec
  events : eventsOf dec frames = start :: (middle ++ delta :: (post ++ [stop]))
  start_type : start.type = "message_start"
  start_tokens : start.inputTokens = wire.inputTokens
  middle_type : ∀ ev ∈ middle, IsText ev ∨ Ignored ev
  text : join "" (pieces middle) = join "" (wire.content.map (·.text))
  delta_type : delta.type = "message_delta"
  delta_stop : delta.stopReason = wire.stopReason
  delta_tokens : delta.outputTokens = wire.outputTokens
  post_type : ∀ ev ∈ post, Ignored ev
  stop_type : stop.type = "message_stop"

/-- The chunk of a piece of text. -/
def StreamState.textChunk (st : StreamState) (text : String) : StreamChunk where
  id := st.msgID
  model := st.model
  delta := { role := "assistant", content := text }

/-- The chunk of `message_delta`. -/
def StreamState.finalChunk (st : StreamState) (stopReason : String) (outputTokens : Int) :
    StreamChunk where
  id := st.msgID
  model := st.model
  delta := { role := "" }
  finishReason := normalizeBedrockStopReason stopReason
  usage := some
    { promptTokens := st.inputTok
      completionTokens := outputTokens
      totalTokens := st.inputTok + outputTokens }

theorem handleEvent_ignored (st : StreamState) (h : Ignored ev) :
    handleEvent st ev = .next st none := by
  simp only [Ignored, mem_cons, not_mem_nil, or_false, not_or] at h
  simp [handleEvent, h]

theorem handleEvent_text (st : StreamState) (h : IsText ev) :
    handleEvent st ev = .next st (some (st.textChunk ev.deltaText)) := by
  simp [handleEvent, h.1, h.2, StreamState.textChunk]

theorem not_isText_of_ignored (h : Ignored ev) : ¬IsText ev :=
  fun htext => h (by simp [htext.1])

theorem chunksOf_middle (st : StreamState) (later : List BedrockStreamEvent) :
    ∀ middle : List BedrockStreamEvent, (∀ ev ∈ middle, IsText ev ∨ Ignored ev) →
    chunksOf st (middle ++ later) = (pieces middle).map st.textChunk ++ chunksOf st later
  | [], _ => rfl
  | ev :: middle, h => by
    obtain ⟨hev, hmiddle⟩ := forall_mem_cons.mp h
    have ih := chunksOf_middle st later middle hmiddle
    rw [cons_append, chunksOf]
    obtain htext | hignored := hev
    · simp [handleEvent_text st htext, pieces, htext, ih]
    · simp [handleEvent_ignored st hignored, pieces, not_isText_of_ignored hignored, ih]

section

variable {wire : ResponseWire} {frames : List (Frame crc)} (s : Streaming dec wire frames)

/-- The state after `message_start`. -/
def Streaming.state (requestedModel : String) : StreamState where
  msgID := s.start.messageID
  model := if s.start.messageModel ≠ "" then s.start.messageModel else requestedModel
  inputTok := wire.inputTokens

theorem Streaming.chunksOf_events (requestedModel : String) :
    chunksOf { model := requestedModel } (eventsOf dec frames) =
      (pieces s.middle).map (s.state requestedModel).textChunk ++
        [(s.state requestedModel).finalChunk wire.stopReason wire.outputTokens] := by
  have hstart : handleEvent { model := requestedModel } s.start =
      .next (s.state requestedModel) none := by
    simp [handleEvent, s.start_type, Streaming.state, s.start_tokens]
  have hdelta : handleEvent (s.state requestedModel) s.delta = .next (s.state requestedModel)
      (some ((s.state requestedModel).finalChunk wire.stopReason wire.outputTokens)) := by
    simp [handleEvent, s.delta_type, s.delta_stop, s.delta_tokens, StreamState.finalChunk]
  have hpost : chunksOf (s.state requestedModel) (s.post ++ [s.stop]) = [] := by
    have hnone : pieces s.post = [] := by
      rw [pieces, filter_eq_nil_iff.mpr, map_nil]
      intro ev hev
      simpa using not_isText_of_ignored (s.post_type ev hev)
    rw [chunksOf_middle _ _ _ fun ev hev => .inr (s.post_type ev hev), hnone, chunksOf,
      handleEvent_stop _ s.stop_type]
    rfl
  rw [s.events, chunksOf, hstart]
  simp only [Option.toList_none, nil_append]
  rw [chunksOf_middle _ _ _ s.middle_type, chunksOf, hdelta]
  simp only [Option.toList_some, hpost, append_nil]

end

/-! ## Folding -/

/-- The chunks of a stream fold to a response: the texts add up, and the last finish reason and the
last usage are those of the response. -/
structure Folds (chunks : List StreamChunk) (resp : ResponseEnvelope) : Prop where
  content : resp.choices.map (·.message.content) = [join "" (chunks.map (·.delta.content))]
  finishReason : resp.choices.map (·.finishReason) =
    [((chunks.map (·.finishReason)).filter (· ≠ "")).getLastD ""]
  usage : (chunks.filterMap (·.usage)).getLast? = some resp.usage

theorem foldl_text {blocks : List ResponseBlock} (h : ∀ b ∈ blocks, b.type = "text") :
    ∀ acc : String,
    blocks.foldl (fun content c => if c.type = "text" then content ++ c.text else content) acc =
      acc ++ join "" (blocks.map (·.text)) := by
  induction blocks with
  | nil => simp [join]
  | cons b blocks ih =>
    obtain ⟨hb, hblocks⟩ := forall_mem_cons.mp h
    intro acc
    rw [foldl_cons, if_pos hb, ih hblocks, map_cons, join_cons, String.append_assoc]

/-- The stop reasons with a translation. -/
def translated : List String := ["end_turn", "stop_sequence", "max_tokens", "tool_use"]

theorem normalizeBedrockStopReason_eq_iff (reason : String) :
    normalizeBedrockStopReason reason = reason ↔ reason ∉ translated := by
  unfold normalizeBedrockStopReason translated
  split_ifs with hstop hlength htools
  · obtain rfl | rfl := hstop
    · decide
    · decide
  · rw [hlength]
    decide
  · rw [htools]
    decide
  · simp only [mem_cons, not_mem_nil, or_false, true_iff, not_or]
    exact ⟨fun h => hstop (.inl h), fun h => hstop (.inr h), hlength, htools⟩

theorem Streaming.stream_eq (hfn : ∀ chunk, fn chunk = none) {wire : ResponseWire}
    {frames : List (Frame crc)} (s : Streaming dec wire frames) (tail : Bytes) (model : String) :
    streamBedrockEvents dec crc fn (frames.flatMap Frame.bytes ++ tail) model =
      ((pieces s.middle).map (s.state model).textChunk ++
        [(s.state model).finalChunk wire.stopReason wire.outputTokens], none) := by
  have hstop : ∃ ev ∈ eventsOf dec frames, ev.type = "message_stop" :=
    ⟨s.stop, by simp [s.events], s.stop_type⟩
  have hlen := length_le_flatMap_bytes frames
  rw [streamBedrockEvents, streamFrom_frames hfn tail frames _ _ s.decodes hstop
    (by rw [length_append]; omega), s.chunksOf_events]

/-- A stream of a response of text blocks ends without an error.  Its chunks fold to the response
exactly if the stop reason is none of those that the stream translates. -/
theorem bedrock_stream_folds_iff (hfn : ∀ chunk, fn chunk = none) {wire : ResponseWire}
    {frames : List (Frame crc)} (s : Streaming dec wire frames) (tail : Bytes) {body : List Char}
    (hbody : unmarshal ResponseWire.read body = some wire)
    (htext : ∀ b ∈ wire.content, b.type = "text") (now : Int) (model : String) :
    ∃ resp chunks, parseResponse now model body = .ok resp ∧
      streamBedrockEvents dec crc fn (frames.flatMap Frame.bytes ++ tail) model =
        (chunks, none) ∧
      (Folds chunks resp ↔
        wire.stopReason ∉ ["end_turn", "stop_sequence", "max_tokens", "tool_use"]) := by
  have hresp : parseResponse now model body = .ok (wire.envelope now model) := by
    rw [parseResponse, hbody]
  refine ⟨_, _, hresp, s.stream_eq hfn tail model, ?_⟩
  obtain ⟨hcontent, -, hreason, husage⟩ := textChunks_fold (s.state model).textChunk
    (fun _ => rfl) (pieces s.middle) ((s.state model).finalChunk wire.stopReason wire.outputTokens)
    rfl
  rw [← translated, ← normalizeBedrockStopReason_eq_iff]
  constructor
  · intro h
    have hfinish := h.finishReason
    rw [hreason] at hfinish
    exact (singleton_inj.mp hfinish).symm
  · intro hsame
    refine ⟨?_, ?_, ?_⟩
    · rw [hcontent, s.text, ResponseWire.envelope, map_singleton, textOf, foldl_text htext,
        String.empty_append]
    · rw [hreason, StreamState.finalChunk, hsame, ResponseWire.envelope, map_singleton]
    · exact husage

/-! ## A greeting

Decoders for ASCII payloads, and the frames of a short response. -/

/-- Decodes an event. -/
def BedrockStreamEvent.read : Reader BedrockStreamEvent := fun vs => do
  let fields ← objects vs
  let type ← string (given "type" fields)
  let message ← objects (given "message" fields)
  let messageID ← string (given "id" message)
  let messageModel ← string (given "model" message)
  let messageUsage ← objects (given "usage" message)
  let inputTokens ← integer (given "input_tokens" messageUsage)
  let delta ← objects (given "delta" fields)
  let deltaType ← string (given "type" delta)
  let deltaText ← string (given "text" delta)
  let stopReason ← string (given "stop_reason" delta)
  let usage ← objects (given "usage" fields)
  let outputTokens ← integer (given "output_tokens" usage)
  return { type, messageID, messageModel, inputTokens, deltaType, deltaText, stopReason,
           outputTokens }

/-- `bedrockChunkPayload`. -/
def chunkPayload : Reader String := fun vs => do
  string (given "bytes" (← objects vs))

/-- The value of a base64 digit. -/
def base64Digit (c : UInt8) : Option Nat :=
  let n := c.toNat
  if 65 ≤ n ∧ n ≤ 90 then some (n - 65)
  else if 97 ≤ n ∧ n ≤ 122 then some (n - 71)
  else if 48 ≤ n ∧ n ≤ 57 then some (n + 4)
  else if n = 43 then some 62
  else if n = 47 then some 63
  else none

/-- The bytes of a base64 text, with `=` to fill its last four digits. -/
def base64Decode : Bytes → Option Bytes
  | [] => some []
  | a :: b :: c :: d :: rest => do
    let high := (← base64Digit a) * 64 + (← base64Digit b)
    if rest = [] ∧ c = 61 ∧ d = 61 then return [(high / 16).toUInt8]
    let middle := high * 64 + (← base64Digit c)
    if rest = [] ∧ d = 61 then return [(middle / 1024).toUInt8, (middle / 4).toUInt8]
    let all := middle * 64 + (← base64Digit d)
    let more ← base64Decode rest
    return (all / 65536).toUInt8 :: (all / 256).toUInt8 :: all.toUInt8 :: more
  | _ => none

def asciiText (b : Bytes) : List Char := b.map fun c => Char.ofNat c.toNat

/-- The decoders, for ASCII texts. -/
def asciiDecoders : ChunkDecoders where
  envelope b := ((unmarshal chunkPayload (asciiText b)).map ascii).elim
    (.error (.new [])) .ok
  base64 b := (base64Decode b).elim (.error (.new [])) .ok
  event b := (unmarshal BedrockStreamEvent.read (asciiText b)).elim
    (.error (.new [])) .ok

def eventMessage (base64 : String) : EventStreamMessage where
  headers := [(ascii ":event-type", ascii "chunk")]
  payload := ascii ("\x7b\"bytes\":\"" ++ base64 ++ "\"\x7d")

theorem eventMessage_name_le (base64 : String) :
    ∀ h ∈ (eventMessage base64).headers, h.1.length ≤ 255 :=
  forall_mem_singleton.mpr (by decide)

theorem eventMessage_value_le (base64 : String) :
    ∀ h ∈ (eventMessage base64).headers, h.2.length ≤ 65535 :=
  forall_mem_singleton.mpr (by decide)

def eventFrame (base64 : String) (hlen : (eventMessage base64).totalLen < 2 ^ 32) :
    Frame fun _ => 0 :=
  WireMessage.frame
    { eventMessage base64 with
      distinct := nodup_singleton _
      name_le := eventMessage_name_le base64
      value_le := eventMessage_value_le base64
      totalLen_lt := hlen } _

def heartbeat : Frame fun _ => 0 :=
  WireMessage.frame
    { headers := [(ascii ":event-type", ascii "heartbeat")]
      payload := []
      distinct := nodup_singleton _
      name_le := by decide
      value_le := by decide
      totalLen_lt := by decide } _

/-- `message_start` with three input tokens. -/
def messageStart : Frame fun _ => 0 :=
  eventFrame ("eyJ0eXBlIjoibWVzc2FnZV9zdGFydCIsIm1lc3NhZ2UiOnsiaWQiOiJtMSIsIm1vZGVsIjoi" ++
    "Y2xhdWRlIiwidXNhZ2UiOnsiaW5wdXRfdG9rZW5zIjozfX19") (by decide +kernel)

/-- The text `Hi`. -/
def textHi : Frame fun _ => 0 :=
  eventFrame ("eyJ0eXBlIjoiY29udGVudF9ibG9ja19kZWx0YSIsImRlbHRhIjp7InR5cGUiOiJ0ZXh0X2Rl" ++
    "bHRhIiwidGV4dCI6IkhpIn19") (by decide +kernel)

/-- The text ` there.`. -/
def textThere : Frame fun _ => 0 :=
  eventFrame ("eyJ0eXBlIjoiY29udGVudF9ibG9ja19kZWx0YSIsImRlbHRhIjp7InR5cGUiOiJ0ZXh0X2Rl" ++
    "bHRhIiwidGV4dCI6IiB0aGVyZS4ifX0=") (by decide +kernel)

/-- `message_delta` with the stop reason `end_turn` and two output tokens. -/
def endTurn : Frame fun _ => 0 :=
  eventFrame ("eyJ0eXBlIjoibWVzc2FnZV9kZWx0YSIsImRlbHRhIjp7InN0b3BfcmVhc29uIjoiZW5kX3R1cm4i" ++
    "fSwidXNhZ2UiOnsib3V0cHV0X3Rva2VucyI6Mn19") (by decide +kernel)

/-- `message_delta` with the stop reason `refusal` and two output tokens. -/
def refusal : Frame fun _ => 0 :=
  eventFrame ("eyJ0eXBlIjoibWVzc2FnZV9kZWx0YSIsImRlbHRhIjp7InN0b3BfcmVhc29uIjoicmVmdXNhbCJ9" ++
    "LCJ1c2FnZSI6eyJvdXRwdXRfdG9rZW5zIjoyfX0=") (by decide +kernel)

/-- `message_stop`. -/
def messageStop : Frame fun _ => 0 :=
  eventFrame "eyJ0eXBlIjoibWVzc2FnZV9zdG9wIn0=" (by decide +kernel)

/-- The frames of the text `Hi there.`, with the `message_delta` event given. -/
def greetingFrames (messageDelta : Frame fun _ => 0) : List (Frame fun _ => 0) :=
  [messageStart, textHi, heartbeat, textThere, messageDelta, messageStop]

def greeting (stopReason : String) : ResponseWire where
  id := "m1"
  content := [{ type := "text", text := "Hi there." }]
  inputTokens := 3
  outputTokens := 2
  stopReason := stopReason

def greetingBody (stopReason : String) : List Char :=
  ("\x7b\"id\":\"m1\",\"content\":[\x7b\"type\":\"text\",\"text\":\"Hi there.\"\x7d]," ++
    "\"usage\":\x7b\"input_tokens\":3,\"output_tokens\":2\x7d,\"stop_reason\":\"" ++ stopReason ++
    "\"\x7d").toList

theorem Frame.decodes_of_event {f : Frame crc} (h : f.event dec = some ev) : ¬f.Fails dec := by
  rintro ⟨err, herr⟩
  rw [Frame.event, herr] at h
  cases h

def greetingStreaming {messageDelta : Frame fun _ => 0} {stopReason : String}
    (hdelta : messageDelta.event asciiDecoders =
      some { type := "message_delta", stopReason := stopReason, outputTokens := 2 }) :
    Streaming asciiDecoders (greeting stopReason) (greetingFrames messageDelta) :=
  let start : BedrockStreamEvent :=
    { type := "message_start", messageID := "m1", messageModel := "claude", inputTokens := 3 }
  let text (t : String) : BedrockStreamEvent :=
    { type := "content_block_delta", deltaType := "text_delta", deltaText := t }
  have hstart : messageStart.event asciiDecoders = some start := by decide +kernel
  have hhi : textHi.event asciiDecoders = some (text "Hi") := by decide +kernel
  have hthere : textThere.event asciiDecoders = some (text " there.") := by decide +kernel
  have hstop : messageStop.event asciiDecoders = some { type := "message_stop" } := by
    decide +kernel
  have hbeat : decodeEvent asciiDecoders heartbeat.msg = .ok none := rfl
  { start := start
    middle := [text "Hi", text " there."]
    delta := { type := "message_delta", stopReason := stopReason, outputTokens := 2 }
    post := []
    stop := { type := "message_stop" }
    decodes := by
      simp only [greetingFrames, forall_mem_cons, not_mem_nil, false_implies,
        implies_true, and_true]
      refine ⟨Frame.decodes_of_event hstart, Frame.decodes_of_event hhi, ?_,
        Frame.decodes_of_event hthere, Frame.decodes_of_event hdelta,
        Frame.decodes_of_event hstop⟩
      rintro ⟨err, herr⟩
      rw [hbeat] at herr
      cases herr
    events := by
      have hnone : heartbeat.event asciiDecoders = none := by rw [Frame.event, hbeat]
      simp only [greetingFrames, eventsOf_cons, hstart, hhi, hthere, hdelta, hstop, hnone]
      rfl
    start_type := rfl
    start_tokens := rfl
    middle_type := by decide
    text := by rfl
    delta_type := rfl
    delta_stop := rfl
    delta_tokens := rfl
    post_type := forall_mem_nil _
    stop_type := rfl }

theorem unmarshal_greetingBody :
    unmarshal ResponseWire.read (greetingBody "refusal") = some (greeting "refusal") ∧
      unmarshal ResponseWire.read (greetingBody "end_turn") =
        some (greeting "end_turn") := by
  decide +kernel

/-- A stop reason without a translation is the same in both ways. -/
theorem refused_greeting_folds :
    ∃ resp chunks, parseResponse 0 "claude" (greetingBody "refusal") = .ok resp ∧
      streamBedrockEvents asciiDecoders (fun _ => 0) (fun _ => none)
        ((greetingFrames refusal).flatMap Frame.bytes ++ []) "claude" = (chunks, none) ∧
      Folds chunks resp := by
  have hdelta : refusal.event asciiDecoders =
      some { type := "message_delta", stopReason := "refusal", outputTokens := 2 } := by
    decide +kernel
  obtain ⟨resp, chunks, hresp, hchunks, hiff⟩ := bedrock_stream_folds_iff (fun _ => rfl)
    (greetingStreaming hdelta) [] unmarshal_greetingBody.1 (by decide) 0 "claude"
  exact ⟨resp, chunks, hresp, hchunks, hiff.mpr (by decide)⟩

/-- An ordinary end is `end_turn` in the whole response and `stop` in the stream. -/
theorem ended_greeting_differs :
    ∃ resp chunks, parseResponse 0 "claude" (greetingBody "end_turn") = .ok resp ∧
      streamBedrockEvents asciiDecoders (fun _ => 0) (fun _ => none)
        ((greetingFrames endTurn).flatMap Frame.bytes ++ []) "claude" = (chunks, none) ∧
      resp.choices.map (·.finishReason) = ["end_turn"] ∧
      chunks.map (·.finishReason) = ["", "", "stop"] := by
  have hdelta : endTurn.event asciiDecoders =
      some { type := "message_delta", stopReason := "end_turn", outputTokens := 2 } := by
    decide +kernel
  refine ⟨(greeting "end_turn").envelope 0 "claude", _, ?_,
    (greetingStreaming hdelta).stream_eq (fun _ => rfl) [] "claude", rfl, rfl⟩
  rw [parseResponse, unmarshal_greetingBody.2]

end Ixr.Adapters.Bedrock
