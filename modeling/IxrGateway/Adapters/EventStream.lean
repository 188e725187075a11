import IxrGateway.Adapters.EventHeaders

/-!
# Event-stream frames

Bedrock streams its answer in binary frames instead of server-sent events.  A
frame is a prelude of twelve bytes, a section of headers, a payload and a
checksum.  The prelude holds the length of the frame, the length of the headers
and a checksum of these two.

`readEventStreamMessage` reads one frame.  The checksum is a parameter: reader
and writer use the same one.  Only string headers are ever sent, so
`encodeEventStreamMessage` writes those.

`readMessages_encode` says that reading a stream of written messages gives these
messages back and then the end of the stream.
-/

namespace Ixr.Adapters.Bedrock

open GoIO List

/-- `eventStreamMessage`.  The headers are a map, in the order in which the names were first
met. -/
structure EventStreamMessage where
  headers : List (Bytes × Bytes)
  payload : Bytes
deriving Repr, DecidableEq

/-- `errEventStreamCRCMismatch`. -/
def errEventStreamCRCMismatch : Err := .new (ascii "bedrock: event stream CRC mismatch")

/-- `msg.Headers[name]`. -/
def EventStreamMessage.header (m : EventStreamMessage) (name : Bytes) : Bytes :=
  (m.headers.lookup name).getD []

/-! ## Reading a frame -/

section

variable (crc : Bytes → UInt32)

/-- The two lengths, checked. -/
def parsePrelude (prelude : Bytes) : Except Err (Nat × Nat) :=
  let totalLen := decodeBE (prelude.take 4)
  let headersLen := decodeBE ((prelude.drop 4).take 4)
  let preludeCRC := decodeBE (prelude.drop 8)
  if (crc (prelude.take 8)).toNat ≠ preludeCRC then .error errEventStreamCRCMismatch
  else if totalLen < 16 ∨ totalLen < headersLen + 16 then
    .error (.new (ascii ("bedrock: malformed event stream message (total=" ++ toString totalLen ++
      " headers=" ++ toString headersLen ++ ")")))
  else .ok (totalLen, headersLen)

/-- The headers and payload, checked. -/
def parseBody (prelude : Bytes) (headersLen : Nat) (rest : Bytes) :
    Except Err EventStreamMessage :=
  let body := rest.take (rest.length - 4)
  let msgCRC := decodeBE (rest.drop (rest.length - 4))
  if (crc (prelude ++ body)).toNat ≠ msgCRC then .error errEventStreamCRCMismatch
  else
    match parseEventStreamHeaders (rest.take headersLen) with
    | .error err => .error err
    | .ok headers => .ok { headers := headers, payload := body.drop headersLen }

/-- `readEventStreamMessage`: the message and the reader after it. -/
def readEventStreamMessage (r : Bytes) : Except Err (EventStreamMessage × Bytes) :=
  match readFull 12 r with
  | .error err =>
    if Err.is .eof err then .error .eof
    else .error (.wrap (ascii "bedrock: read event stream prelude") err)
  | .ok (prelude, r) =>
    match parsePrelude crc prelude with
    | .error err => .error err
    | .ok (totalLen, headersLen) =>
      match readFull (totalLen - 12) r with
      | .error err => .error (.wrap (ascii "bedrock: read event stream body") err)
      | .ok (rest, r) =>
        match parseBody crc prelude headersLen rest with
        | .error err => .error err
        | .ok msg => .ok (msg, r)

/-- Up to `calls` calls of `readEventStreamMessage`, until one fails: each message with the number
of bytes it took, and the error. -/
def readMessages : Nat → Bytes → List (EventStreamMessage × Nat) × Option Err
  | 0, _ => ([], none)
  | calls + 1, r =>
    match readEventStreamMessage crc r with
    | .error err => ([], some err)
    | .ok (msg, r') =>
      let later := readMessages calls r'
      ((msg, r.length - r'.length) :: later.1, later.2)

variable {crc}

theorem readEventStreamMessage_eq_ok {r r' : Bytes} {msg : EventStreamMessage} :
    readEventStreamMessage crc r = .ok (msg, r') ↔
      ∃ prelude rest totalLen headersLen,
        r = prelude ++ (rest ++ r') ∧ prelude.length = 12 ∧
        parsePrelude crc prelude = .ok (totalLen, headersLen) ∧ rest.length = totalLen - 12 ∧
        parseBody crc prelude headersLen rest = .ok msg := by
  constructor
  · intro h
    rw [readEventStreamMessage] at h
    split at h
    · split at h <;> cases h
    · next prelude r₁ hprelude =>
      obtain ⟨rfl, hlen⟩ := readFull_eq_ok.mp hprelude
      split at h
      · cases h
      · next totalLen headersLen hparse =>
        split at h
        · cases h
        · next rest r₂ hrest =>
          obtain ⟨rfl, hrestlen⟩ := readFull_eq_ok.mp hrest
          split at h
          · cases h
          · next hbody =>
            cases h
            exact ⟨prelude, rest, totalLen, headersLen, rfl, hlen, hparse, hrestlen, hbody⟩
  · rintro ⟨prelude, rest, totalLen, headersLen, rfl, hlen, hparse, hrestlen, hbody⟩
    have hprelude := readFull_append prelude (rest ++ r')
    have hrest := readFull_append rest r'
    rw [hlen] at hprelude
    rw [hrestlen] at hrest
    simp only [readEventStreamMessage, hprelude, hparse, hrest, hbody]

end

/-! ## Writing a frame -/

section

/-- A string header in bytes. -/
def encodeHeader (h : Bytes × Bytes) : Bytes :=
  h.1.length.toUInt8 :: (h.1 ++ 7 :: (encodeBE 2 h.2.length ++ h.2))

/-- The headers in bytes. -/
def encodeHeaders (headers : List (Bytes × Bytes)) : Bytes := headers.flatMap encodeHeader

/-- The length of the message. -/
def EventStreamMessage.totalLen (m : EventStreamMessage) : Nat :=
  12 + (encodeHeaders m.headers).length + m.payload.length + 4

/-- The prelude of a message. -/
def encodePrelude (crc : Bytes → UInt32) (m : EventStreamMessage) : Bytes :=
  let lengths := encodeBE 4 m.totalLen ++ encodeBE 4 (encodeHeaders m.headers).length
  lengths ++ encodeBE 4 (crc lengths).toNat

/-- `encodeEventStreamMessage`, the writer that the reader is tested with. -/
def encodeEventStreamMessage (crc : Bytes → UInt32) (m : EventStreamMessage) : Bytes :=
  let body := encodeHeaders m.headers ++ m.payload
  encodePrelude crc m ++ (body ++ encodeBE 4 (crc (encodePrelude crc m ++ body)).toNat)

/-- A message that has a frame with string headers. -/
structure WireMessage extends EventStreamMessage where
  /-- The headers are a map. -/
  distinct : (headers.map Prod.fst).Nodup
  /-- The length of a name takes one byte. -/
  name_le : ∀ h ∈ headers, h.1.length ≤ 255
  /-- The length of a value takes two bytes. -/
  value_le : ∀ h ∈ headers, h.2.length ≤ 65535
  /-- The length of the frame takes four bytes. -/
  totalLen_lt : toEventStreamMessage.totalLen < 2 ^ 32

variable {crc : Bytes → UInt32}

theorem parseHeadersFrom_encodeHeader {headers parsed : List (Bytes × Bytes)} {name value b : Bytes}
    {passes : Nat} (hfresh : name ∉ headers.map Prod.fst) (hname : name.length ≤ 255)
    (hvalue : value.length ≤ 65535)
    (h : parseHeadersFrom passes (headers ++ [(name, value)]) b = .ok parsed) :
    parseHeadersFrom (passes + 1) headers (encodeHeader (name, value) ++ b) = .ok parsed := by
  have hlen : decodeBE (encodeBE 2 value.length) = value.length :=
    decodeBE_encodeBE_of_lt (by omega)
  have hsize : valueSize 7 (encodeBE 2 value.length ++ value) =
      some (encodeBE 2 value.length ++ value).length := by
    rw [length_append, length_encodeBE]
    show some (2 + decodeBE _) = _
    rw [take_left' (length_encodeBE _ 2), hlen]
  refine parseHeadersFrom_cons.mpr ⟨⟨name, 7, _, Nat.lt_succ_of_le hname, hsize⟩, b, rfl, ?_⟩
  have hdecoded : decodeValue 7 (encodeBE 2 value.length ++ value) = value :=
    drop_left' (length_encodeBE _ 2)
  rwa [addEntry, Entry.decoded, hdecoded, setHeader, if_neg hfresh]

theorem parseHeadersFrom_encodeHeaders : ∀ (later headers : List (Bytes × Bytes)) (passes : Nat),
    ((headers ++ later).map Prod.fst).Nodup → (∀ h ∈ later, h.1.length ≤ 255) →
    (∀ h ∈ later, h.2.length ≤ 65535) → (encodeHeaders later).length ≤ passes →
    parseHeadersFrom passes headers (encodeHeaders later) = .ok (headers ++ later)
  | [], headers, passes, _, _, _, _ => by
    rw [append_nil]
    cases passes <;> rfl
  | (name, value) :: later, headers, passes, hnodup, hnames, hvalues, hpasses => by
    obtain ⟨hname, hnames⟩ := forall_mem_cons.mp hnames
    obtain ⟨hvalue, hvalues⟩ := forall_mem_cons.mp hvalues
    have hfresh : name ∉ headers.map Prod.fst := by
      rw [map_append, map_cons] at hnodup
      intro hmem
      exact (nodup_append.mp hnodup).2.2 name hmem name mem_cons_self rfl
    have hlen : (encodeHeaders ((name, value) :: later)).length =
        (encodeHeader (name, value)).length + (encodeHeaders later).length := by
      rw [encodeHeaders, flatMap_cons, length_append, encodeHeaders]
    have hpos : 0 < (encodeHeader (name, value)).length := by
      rw [encodeHeader, length_cons]
      omega
    cases passes with
    | zero => omega
    | succ passes =>
      have hrest := parseHeadersFrom_encodeHeaders later (headers ++ [(name, value)]) passes
        (by rwa [append_assoc, singleton_append]) hnames hvalues (by omega)
      rw [append_assoc, singleton_append] at hrest
      exact parseHeadersFrom_encodeHeader hfresh hname hvalue hrest

theorem WireMessage.parseEventStreamHeaders_encode (m : WireMessage) :
    parseEventStreamHeaders (encodeHeaders m.headers) = .ok m.headers :=
  parseHeadersFrom_encodeHeaders m.headers [] _ m.distinct m.name_le m.value_le le_rfl

theorem length_encodePrelude (m : EventStreamMessage) : (encodePrelude crc m).length = 12 := by
  simp only [encodePrelude, length_append, length_encodeBE]

theorem length_encodeEventStreamMessage (m : EventStreamMessage) :
    (encodeEventStreamMessage crc m).length = m.totalLen := by
  simp only [encodeEventStreamMessage, EventStreamMessage.totalLen, length_append,
    length_encodePrelude, length_encodeBE]
  omega

theorem decodeBE_encodeBE_crc (b : Bytes) :
    decodeBE (encodeBE 4 (crc b).toNat) = (crc b).toNat :=
  decodeBE_encodeBE_of_lt (crc b).toNat_lt

theorem WireMessage.parsePrelude_encode (m : WireMessage) :
    parsePrelude crc (encodePrelude crc m.toEventStreamMessage) =
      .ok (m.totalLen, (encodeHeaders m.headers).length) := by
  have hle : (encodeHeaders m.headers).length + 16 ≤ m.totalLen := by
    rw [EventStreamMessage.totalLen]
    omega
  have htotal : decodeBE (encodeBE 4 m.totalLen) = m.totalLen :=
    decodeBE_encodeBE_of_lt m.totalLen_lt
  have hheaders : decodeBE (encodeBE 4 (encodeHeaders m.headers).length) =
      (encodeHeaders m.headers).length :=
    decodeBE_encodeBE_of_lt (lt_of_le_of_lt (by omega) m.totalLen_lt)
  -- the three numbers of the prelude, four bytes each
  have hlengths : (encodeBE 4 m.totalLen ++ encodeBE 4 (encodeHeaders m.headers).length).length =
      8 := by
    rw [length_append, length_encodeBE, length_encodeBE]
  rw [parsePrelude, encodePrelude, take_left' hlengths, drop_left' hlengths,
    decodeBE_encodeBE_crc, if_neg (not_not_intro rfl), append_assoc,
    take_left' (length_encodeBE _ 4), drop_left' (length_encodeBE _ 4),
    take_left' (length_encodeBE _ 4), htotal, hheaders, if_neg (by omega)]

theorem WireMessage.parseBody_encode (m : WireMessage) (prelude : Bytes) :
    parseBody crc prelude (encodeHeaders m.headers).length
      (encodeHeaders m.headers ++ m.payload ++
        encodeBE 4 (crc (prelude ++ (encodeHeaders m.headers ++ m.payload))).toNat) =
      .ok m.toEventStreamMessage := by
  have hlen (b : Bytes) (n : Nat) :
      (b ++ encodeBE 4 n).length - 4 = b.length := by
    rw [length_append, length_encodeBE, Nat.add_sub_cancel]
  rw [parseBody, hlen, take_left, drop_left, decodeBE_encodeBE_crc, if_neg (not_not_intro rfl),
    append_assoc, take_left, m.parseEventStreamHeaders_encode, drop_left]

theorem WireMessage.readEventStreamMessage_encode (m : WireMessage) (r : Bytes) :
    readEventStreamMessage crc (encodeEventStreamMessage crc m.toEventStreamMessage ++ r) =
      .ok (m.toEventStreamMessage, r) := by
  refine readEventStreamMessage_eq_ok.mpr
    ⟨encodePrelude crc m.toEventStreamMessage, _, _, _, ?_, length_encodePrelude _,
      m.parsePrelude_encode, ?_, m.parseBody_encode (encodePrelude crc m.toEventStreamMessage)⟩
  · rw [encodeEventStreamMessage, append_assoc]
  · rw [length_append, length_append, length_encodeBE, EventStreamMessage.totalLen]
    omega

theorem readEventStreamMessage_nil : readEventStreamMessage crc [] = .error .eof := by
  rw [readEventStreamMessage, readFull_nil (by omega)]
  rfl

/-- Reading a stream of written messages gives them back in order, each for the bytes of its frame,
and then the end of the stream. -/
theorem readMessages_encode (crc : Bytes → UInt32) (extra : Nat) : ∀ msgs : List WireMessage,
    readMessages crc (msgs.length + 1 + extra)
      (msgs.flatMap fun m => encodeEventStreamMessage crc m.toEventStreamMessage) =
      (msgs.map fun m => (m.toEventStreamMessage, m.totalLen), some .eof)
  | [] => by
    rw [length_nil, Nat.zero_add, Nat.add_comm, readMessages, flatMap_nil,
      readEventStreamMessage_nil]
    rfl
  | m :: msgs => by
    have hcalls : (m :: msgs).length + 1 + extra = (msgs.length + 1 + extra) + 1 := by
      rw [length_cons]
      omega
    simp only [hcalls, readMessages, flatMap_cons, m.readEventStreamMessage_encode,
      readMessages_encode crc extra msgs, length_append, Nat.add_sub_cancel,
      length_encodeEventStreamMessage, map_cons]

end

end Ixr.Adapters.Bedrock
