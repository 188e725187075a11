import IxrGateway.Schema
import IxrGateway.Adapters.EventStream

/-!
# The Bedrock stream

`streamBedrockEvents` reads frames until the stream ends, a frame reports an
exception, or a `message_stop` event arrives.  The payload of a chunk frame is
JSON around base64 around JSON; the three decoders are parameters.

The end of the stream is told from an error by `errors.Is(err, io.EOF)`.  A
stream cut inside a frame should be an error.  It is one, except for a cut right
after the prelude: then the body is read from an empty reader, `io.ReadFull`
reports `io.EOF`, and the wrapped error still is `io.EOF`.  A cut stream is
reported iff it is cut elsewhere or an earlier frame failed
(`truncated_reported_iff`).
-/

namespace Ixr.Adapters.Bedrock

open GoIO List

/-! ## Events -/

/-- `bedrockStreamEvent`, the inner event of a chunk. -/
structure BedrockStreamEvent where
  type : String := ""
  messageID : String := ""
  messageModel : String := ""
  inputTokens : Int := 0
  deltaType : String := ""
  deltaText : String := ""
  stopReason : String := ""
  outputTokens : Int := 0
deriving Repr, DecidableEq

/-- The decoders of a chunk's payload. -/
structure ChunkDecoders where
  /-- `json.Unmarshal` into a `bedrockChunkPayload`: its `bytes`. -/
  envelope : Bytes → Except Err Bytes
  /-- `base64.StdEncoding.DecodeString`. -/
  base64 : Bytes → Except Err Bytes
  /-- `json.Unmarshal` into a `bedrockStreamEvent`. -/
  event : Bytes → Except Err BedrockStreamEvent

/-- `normalizeBedrockStopReason`. -/
def normalizeBedrockStopReason (reason : String) : String :=
  if reason = "end_turn" ∨ reason = "stop_sequence" then "stop"
  else if reason = "max_tokens" then "length"
  else if reason = "tool_use" then "tool_calls"
  else reason

/-- `fmt.Errorf` with `%w`. -/
def wrapError {α : Type} (text : String) : Except Err α → Except Err α
  | .error err => .error (.wrap (ascii text) err)
  | .ok a => .ok a

/-- The event of a message, if any. -/
def decodeEvent (dec : ChunkDecoders) (msg : EventStreamMessage) :
    Except Err (Option BedrockStreamEvent) :=
  let excType := msg.header (ascii ":exception-type")
  if excType ≠ [] then
    .error (.new (ascii "bedrock: stream exception " ++ excType ++ ascii ": " ++ msg.payload))
  else if msg.header (ascii ":event-type") ≠ ascii "chunk" then .ok none
  else do
    let bytes ← wrapError "bedrock: decode chunk envelope" (dec.envelope msg.payload)
    let inner ← wrapError "bedrock: decode chunk base64" (dec.base64 bytes)
    let ev ← wrapError "bedrock: decode inner event" (dec.event inner)
    return some ev

/-! ## The loop -/

/-- What the loop keeps. -/
structure StreamState where
  msgID : String := ""
  model : String
  inputTok : Int := 0

/-- What one event does. -/
inductive Pass where
  | stop
  /-- The loop goes on, after a chunk or without one. -/
  | next (st : StreamState) (chunk : Option StreamChunk)

/-- The switch on the type of an event. -/
def handleEvent (st : StreamState) (ev : BedrockStreamEvent) : Pass :=
  if ev.type = "message_start" then
    .next { msgID := ev.messageID
            model := if ev.messageModel ≠ "" then ev.messageModel else st.model
            inputTok := ev.inputTokens } none
  else if ev.type = "content_block_delta" then
    if ev.deltaType ≠ "text_delta" then .next st none
    else
      .next st (some
        { id := st.msgID
          model := st.model
          delta := { role := "assistant", content := ev.deltaText } })
  else if ev.type = "message_delta" then
    .next st (some
      { id := st.msgID
        model := st.model
        delta := { role := "" }
        finishReason := normalizeBedrockStopReason ev.stopReason
        usage := some
          { promptTokens := st.inputTok
            completionTokens := ev.outputTokens
            totalTokens := st.inputTok + ev.outputTokens } })
  else if ev.type = "message_stop" then .stop
  else .next st none

section

variable (dec : ChunkDecoders) (crc : Bytes → UInt32) (fn : StreamChunk → Option Err)

/-- The loop of `streamBedrockEvents`, for a number of passes: the chunks given to the callback and
the error returned. -/
def streamFrom : Nat → StreamState → Bytes → List StreamChunk × Option Err
  | 0, _, _ => ([], none)
  | passes + 1, st, r =>
    match readEventStreamMessage crc r with
    | .error err =>
      if Err.is .eof err then ([], none)
      else ([], some (.wrap (ascii "bedrock: read stream event") err))
    | .ok (msg, r) =>
      match decodeEvent dec msg with
      | .error err => ([], some err)
      | .ok none => streamFrom passes st r
      | .ok (some ev) =>
        match handleEvent st ev with
        | .stop => ([], none)
        | .next st none => streamFrom passes st r
        | .next st (some chunk) =>
          match fn chunk with
          | some err => ([chunk], some err)
          | none =>
            let later := streamFrom passes st r
            (chunk :: later.1, later.2)

/-- `streamBedrockEvents`.  A frame has at least sixteen bytes, so the number of bytes bounds the
passes. -/
def streamBedrockEvents (r : Bytes) (requestedModel : String) : List StreamChunk × Option Err :=
  streamFrom dec crc fn (r.length + 1) { model := requestedModel } r

end

/-! ## Valid frames and cut frames -/

/-- The bytes of one message. -/
structure Frame (crc : Bytes → UInt32) where
  bytes : Bytes
  msg : EventStreamMessage
  /-- The reader takes all of the bytes. -/
  reads : readEventStreamMessage crc bytes = .ok (msg, [])

/-- The frame of an encoded message. -/
def WireMessage.frame (m : WireMessage) (crc : Bytes → UInt32) : Frame crc where
  bytes := encodeEventStreamMessage crc m.toEventStreamMessage
  msg := m.toEventStreamMessage
  reads := by
    rw [← append_nil (encodeEventStreamMessage crc _)]
    exact m.readEventStreamMessage_encode []

variable {dec : ChunkDecoders} {crc : Bytes → UInt32} {fn : StreamChunk → Option Err}

/-- The frame is a `message_stop` event. -/
def Frame.Stops (f : Frame crc) (dec : ChunkDecoders) : Prop :=
  ∃ ev, decodeEvent dec f.msg = .ok (some ev) ∧ ev.type = "message_stop"

/-- The frame makes the stream fail. -/
def Frame.Fails (f : Frame crc) (dec : ChunkDecoders) : Prop :=
  ∃ err, decodeEvent dec f.msg = .error err

theorem parsePrelude_le {prelude : Bytes} {totalLen headersLen : Nat}
    (h : parsePrelude crc prelude = .ok (totalLen, headersLen)) : 16 ≤ totalLen := by
  rw [parsePrelude] at h
  split at h
  · cases h
  · split at h
    · cases h
    · next hle =>
      cases h
      omega

theorem Frame.reads_append (f : Frame crc) (r : Bytes) :
    readEventStreamMessage crc (f.bytes ++ r) = .ok (f.msg, r) := by
  obtain ⟨prelude, rest, totalLen, headersLen, hbytes, hlen, hparse, hrest, hbody⟩ :=
    readEventStreamMessage_eq_ok.mp f.reads
  refine readEventStreamMessage_eq_ok.mpr
    ⟨prelude, rest, totalLen, headersLen, ?_, hlen, hparse, hrest, hbody⟩
  rw [hbytes, append_nil, append_assoc]

theorem Frame.reads_take (f : Frame crc) {k : Nat} (hpos : 0 < k) (hk : k < f.bytes.length) :
    ∃ err, readEventStreamMessage crc (f.bytes.take k) = .error err ∧
      (Err.is .eof err = true ↔ k = 12) := by
  obtain ⟨prelude, rest, totalLen, headersLen, hbytes, hlen, hparse, hrest, hbody⟩ :=
    readEventStreamMessage_eq_ok.mp f.reads
  rw [append_nil] at hbytes
  have htotal := parsePrelude_le hparse
  rw [hbytes, length_append] at hk
  rw [hbytes]
  by_cases hshort : k < 12
  · -- inside the prelude
    have hread : readFull 12 ((prelude ++ rest).take k) = .error .unexpectedEOF :=
      readFull_take hpos hshort (by rw [length_append]; omega)
    refine ⟨.wrap (ascii "bedrock: read event stream prelude") .unexpectedEOF, ?_, ?_⟩
    · rw [readEventStreamMessage, hread]
      rfl
    · rw [Err.is_eof_wrap, Err.is_eof_unexpectedEOF]
      exact ⟨fun h => absurd h Bool.false_ne_true, fun h => by omega⟩
  · have htake : (prelude ++ rest).take k = prelude ++ rest.take (k - 12) := by
      rw [take_append, hlen, take_of_length_le (by omega)]
    have hprelude := readFull_append prelude (rest.take (k - 12))
    rw [hlen] at hprelude
    rw [htake]
    by_cases hcut : k = 12
    · -- the body is read from an empty reader
      have hread : readFull (totalLen - 12) (rest.take (k - 12)) = .error .eof := by
        rw [hcut, Nat.sub_self, take_zero]
        exact readFull_nil (by omega)
      refine ⟨.wrap (ascii "bedrock: read event stream body") .eof, ?_, ?_⟩
      · simp only [readEventStreamMessage, hprelude, hparse, hread]
      · rw [Err.is_eof_wrap, Err.is_eof_eof]
        exact ⟨fun _ => hcut, fun _ => rfl⟩
    · have hread : readFull (totalLen - 12) (rest.take (k - 12)) = .error .unexpectedEOF :=
        readFull_take (by omega) (by omega) (by omega)
      refine ⟨.wrap (ascii "bedrock: read event stream body") .unexpectedEOF, ?_, ?_⟩
      · simp only [readEventStreamMessage, hprelude, hparse, hread]
      · rw [Err.is_eof_wrap, Err.is_eof_unexpectedEOF]
        exact ⟨fun h => absurd h Bool.false_ne_true, fun h => absurd h hcut⟩

/-! ## Cut streams -/

theorem handleEvent_eq_stop {st : StreamState} {ev : BedrockStreamEvent}
    (h : handleEvent st ev = .stop) : ev.type = "message_stop" := by
  rw [handleEvent] at h
  split at h
  · cases h
  · split at h
    · split at h <;> cases h
    · split at h
      · cases h
      · split at h
        · next htype => exact htype
        · cases h

theorem streamFrom_frame (hfn : ∀ chunk, fn chunk = none) (f : Frame crc) (hstop : ¬f.Stops dec)
    (hfail : ¬f.Fails dec) (passes : Nat) (st : StreamState) (r : Bytes) :
    ∃ st', (streamFrom dec crc fn (passes + 1) st (f.bytes ++ r)).2 =
      (streamFrom dec crc fn passes st' r).2 := by
  simp only [streamFrom, f.reads_append]
  cases hev : decodeEvent dec f.msg with
  | error err => exact absurd ⟨err, hev⟩ hfail
  | ok ev? =>
    cases ev? with
    | none => exact ⟨st, rfl⟩
    | some ev =>
      cases hpass : handleEvent st ev with
      | stop => exact absurd ⟨ev, hev, handleEvent_eq_stop hpass⟩ hstop
      | next st' chunk? =>
        refine ⟨st', ?_⟩
        cases chunk? with
        | none => simp only [hpass]
        | some chunk => simp only [hpass, hfn]

/-- Frames without `message_stop`, and then something the reader fails on. -/
theorem streamFrom_reported_iff (hfn : ∀ chunk, fn chunk = none) {tail : Bytes} {err : Err}
    (htail : readEventStreamMessage crc tail = .error err) :
    ∀ (frames : List (Frame crc)) (passes : Nat) (st : StreamState),
    (∀ f ∈ frames, ¬f.Stops dec) → frames.length < passes →
    ((streamFrom dec crc fn passes st (frames.flatMap Frame.bytes ++ tail)).2 ≠ none ↔
      Err.is .eof err = false ∨ ∃ f ∈ frames, f.Fails dec)
  | _, 0, _, _, hpasses => absurd hpasses (Nat.not_lt_zero _)
  | [], passes + 1, st, _, _ => by
    rw [flatMap_nil, nil_append, streamFrom, htail]
    by_cases heof : Err.is .eof err = true
    · simp [heof]
    · simp [heof]
  | f :: frames, passes + 1, st, hstop, hpasses => by
    obtain ⟨hf, hframes⟩ := forall_mem_cons.mp hstop
    rw [flatMap_cons, append_assoc]
    by_cases hfail : f.Fails dec
    · obtain ⟨e, he⟩ := hfail
      have hpass : (streamFrom dec crc fn (passes + 1) st
          (f.bytes ++ (frames.flatMap Frame.bytes ++ tail))).2 = some e := by
        simp only [streamFrom, f.reads_append, he]
      rw [hpass]
      exact ⟨fun _ => Or.inr ⟨f, mem_cons_self, e, he⟩, fun _ => Option.some_ne_none e⟩
    · obtain ⟨st', hpass⟩ := streamFrom_frame hfn f hf hfail passes st
        (frames.flatMap Frame.bytes ++ tail)
      have hlater := streamFrom_reported_iff hfn htail frames passes st' hframes
        (Nat.lt_of_succ_lt_succ hpasses)
      rw [hpass, hlater, exists_mem_cons_iff]
      exact ⟨fun h => h.imp_right Or.inr, fun h => h.imp_right fun h => h.resolve_left hfail⟩

theorem Frame.length_pos (f : Frame crc) : 0 < f.bytes.length := by
  obtain ⟨prelude, rest, totalLen, headersLen, hbytes, hlen, -⟩ :=
    readEventStreamMessage_eq_ok.mp f.reads
  rw [hbytes, length_append]
  omega

theorem length_le_flatMap_bytes : ∀ frames : List (Frame crc),
    frames.length ≤ (frames.flatMap Frame.bytes).length
  | [] => le_rfl
  | f :: frames => by
    have hf := f.length_pos
    have hframes := length_le_flatMap_bytes frames
    rw [flatMap_cons, length_append, length_cons]
    omega

/-- A stream without `message_stop` that is cut inside a frame is reported as an error iff it is
not cut right after the frame's prelude, or a frame before has failed already. -/
theorem truncated_reported_iff (dec : ChunkDecoders) (crc : Bytes → UInt32)
    {fn : StreamChunk → Option Err} (hfn : ∀ chunk, fn chunk = none) (requestedModel : String)
    (before : List (Frame crc)) (cut : Frame crc) (after : List (Frame crc))
    (hstop : ∀ f ∈ before ++ cut :: after, ¬f.Stops dec) {k : Nat} (hpos : 0 < k)
    (hk : k < cut.bytes.length) :
    (streamBedrockEvents dec crc fn (((before ++ cut :: after).flatMap Frame.bytes).take
        ((before.flatMap Frame.bytes).length + k)) requestedModel).2 ≠ none ↔
      k ≠ 12 ∨ ∃ f ∈ before, f.Fails dec := by
  obtain ⟨err, herr, heof⟩ := cut.reads_take hpos hk
  have htake : ((before ++ cut :: after).flatMap Frame.bytes).take
      ((before.flatMap Frame.bytes).length + k) =
      before.flatMap Frame.bytes ++ cut.bytes.take k := by
    rw [flatMap_append, flatMap_cons, take_length_add_append, take_append_of_le_length (by omega)]
  have hlen := length_le_flatMap_bytes before
  rw [htake, streamBedrockEvents, streamFrom_reported_iff hfn herr before _ _
    (fun f hf => hstop f (mem_append_left _ hf)) (by rw [length_append]; omega)]
  rw [← Bool.not_eq_true, heof]

def chunkMessage : WireMessage where
  headers := [(ascii ":event-type", ascii "chunk")]
  payload := [0]
  distinct := by decide
  name_le := by decide
  value_le := by decide
  totalLen_lt := by decide

def textDecoders : ChunkDecoders where
  envelope := .ok
  base64 := .ok
  event _ := .ok { type := "content_block_delta", deltaType := "text_delta", deltaText := "hi" }

/-- After a whole frame and the prelude of the next one, the stream ends without an error. -/
theorem cut_after_prelude_not_reported :
    let frame := chunkMessage.frame fun _ => 0
    12 < frame.bytes.length ∧ (streamBedrockEvents textDecoders (fun _ => 0) (fun _ => none)
      (frame.bytes ++ frame.bytes.take 12) "claude").2 = none := by
  decide

/-- One byte later the cut is reported. -/
theorem cut_in_body_reported :
    let frame := chunkMessage.frame fun _ => 0
    (streamBedrockEvents textDecoders (fun _ => 0) (fun _ => none)
      (([frame] ++ frame :: []).flatMap Frame.bytes |>.take
        (([frame].flatMap Frame.bytes).length + 13)) "claude").2 ≠ none := by
  intro frame
  have hstop : ∀ f ∈ [frame] ++ frame :: [], ¬f.Stops textDecoders := by
    intro f hf
    obtain rfl : f = frame := by simpa using hf
    rintro ⟨ev, hev, htype⟩
    cases hev
    exact absurd htype (by decide)
  exact (truncated_reported_iff textDecoders (fun _ => 0) (fun _ => rfl) "claude" [frame] frame []
    hstop (by decide) (by decide)).mpr (Or.inl (by decide))

end Ixr.Adapters.Bedrock
