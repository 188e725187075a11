import IxrGateway.Ingress.Middleware
import IxrGateway.LineScanner
import IxrGateway.SchemaRoundTrip

/-!
# Session capture reads what the stream writer writes

`writeSSEChunk` writes a chunk as one `data: ` line of JSON and an empty line.
When the stream is over, `parseSSEAssistantTurn` reads the assistant's turn off
the text that the client got, line by line.

A chunk takes one line whatever its text is, since JSON has no control
character in it, and the payload of the line is read back as the chunk's delta
(`captureLine_sseLine`).  So the turn has the text of all chunks and the last
tool calls (`capture_exact`), which is the turn that the session middleware is
modelled with (`streamedTurn_eq_capture`).
-/

namespace Ixr.Ingress

open List

open GoStrings (join)
open LineScanner (after after_append dataPrefix doneMark scanText)
open JsonText

/-! ## The envelope of a chunk -/

/-- `sseDelta`. -/
structure SseDelta where
  role : String := ""
  content : String := ""
  toolCalls : List ToolCall := []

/-- `sseDeltaChoice`. -/
structure SseDeltaChoice where
  index : Int := 0
  delta : SseDelta := {}
  finishReason : Option String := none

/-- `sseChunkEnvelope`. -/
structure SseChunkEnvelope where
  id : String := ""
  object : String := ""
  created : Int := 0
  model : String := ""
  choices : List SseDeltaChoice := []

/-- `sseDelta` is read. -/
def SseDelta.read : Reader SseDelta := fun vs => do
  let fields ← objects vs
  let role ← string (given "role" fields)
  let content ← string (given "content" fields)
  let toolCalls ← slice ToolCall.read (given "tool_calls" fields)
  return { role, content, toolCalls }

/-- `sseDelta` is written. -/
def SseDelta.write (d : SseDelta) : Value :=
  .object (omitField "role" (d.role = "") (.string d.role) ++
    omitField "content" (d.content = "") (.string d.content) ++
    omitField "tool_calls" d.toolCalls.isEmpty (.array (d.toolCalls.map ToolCall.write)))

/-- `sseDeltaChoice` is read. -/
def SseDeltaChoice.read : Reader SseDeltaChoice := fun vs => do
  let fields ← objects vs
  let index ← integer (given "index" fields)
  let delta ← SseDelta.read (given "delta" fields)
  let finishReason ← pointer string (given "finish_reason" fields)
  return { index, delta, finishReason }

/-- `sseDeltaChoice` is written. -/
def SseDeltaChoice.write (c : SseDeltaChoice) : Value :=
  .object (field "index" (.number (Number.ofInt c.index)) ++ field "delta" c.delta.write ++
    field "finish_reason" ((c.finishReason.map Value.string).getD .null))

/-- `sseChunkEnvelope` is read. -/
def SseChunkEnvelope.read : Reader SseChunkEnvelope := fun vs => do
  let fields ← objects vs
  let id ← string (given "id" fields)
  let object ← string (given "object" fields)
  let created ← integer (given "created" fields)
  let model ← string (given "model" fields)
  let choices ← slice SseDeltaChoice.read (given "choices" fields)
  return { id, object, created, model, choices }

/-- `sseChunkEnvelope` is written. -/
def SseChunkEnvelope.write (e : SseChunkEnvelope) : Value :=
  .object (field "id" (.string e.id) ++ field "object" (.string e.object) ++
    field "created" (.number (Number.ofInt e.created)) ++ field "model" (.string e.model) ++
    field "choices"
      (if e.choices.isEmpty then .null else .array (e.choices.map SseDeltaChoice.write)))

/-! ## Writing -/

/-- The envelope that `writeSSEChunk` makes of a chunk at the time `now`. -/
def sseEnvelope (now : Int64) (chunk : StreamChunk) : SseChunkEnvelope :=
  { id := chunk.id
    object := "chat.completion.chunk"
    created := now.toInt
    model := chunk.model
    choices :=
      [{ index := 0
         delta :=
           { role := chunk.delta.role
             content := chunk.delta.content
             toolCalls := chunk.delta.toolCalls }
         finishReason := if chunk.finishReason = "" then none else some chunk.finishReason }] }

/-- The line of a chunk. -/
def sseLine (now : Int64) (chunk : StreamChunk) : List Char :=
  dataPrefix ++ print (sseEnvelope now chunk).write

/-- `writeSSEChunk`. -/
def writeSSEChunk (now : Int64) (chunk : StreamChunk) : List Char :=
  sseLine now chunk ++ ['\n', '\n']

/-- `writeSSEDone`. -/
def writeSSEDone : List Char := dataPrefix ++ doneMark ++ ['\n', '\n']

/-! ## Reading -/

/-- The variables of `parseSSEAssistantTurn`. -/
structure Capture where
  content : String := ""
  toolCalls : List ToolCall := []
  found : Bool := false

/-- Captures a delta. -/
def Capture.add (c : Capture) (delta : SseDelta) : Capture :=
  let c :=
    if delta.content ≠ "" then { c with content := c.content ++ delta.content, found := true }
    else c
  if delta.toolCalls ≠ [] then { c with toolCalls := delta.toolCalls, found := true } else c

/-- The body of the loop of `parseSSEAssistantTurn`. -/
def captureLine (c : Capture) (line : List Char) : Capture :=
  match after dataPrefix line with
  | none => c
  | some payload =>
    if payload = doneMark then c
    else
      match unmarshal SseChunkEnvelope.read payload with
      | none => c
      | some env =>
        match env.choices with
        | [] => c
        | choice :: _ => c.add choice.delta

/-- The longest line that is captured. -/
def captureLimit : Nat := 10 * 1024 * 1024

/-- `parseSSEAssistantTurn`. -/
def parseSSEAssistantTurn (data : List Char) : Message × Bool :=
  let c := (scanText captureLimit data).foldl captureLine {}
  ({ role := "assistant", content := c.content, toolCalls := c.toolCalls }, c.found)

/-! ## One chunk -/

theorem SseDelta.read_write (d : SseDelta) : SseDelta.read [d.write] = some d := by
  have hcalls := slice_omit d.toolCalls fun c _ => c.read_write
  simp (disch := decide) [SseDelta.read, SseDelta.write, hcalls]

theorem SseDeltaChoice.read_write {c : SseDeltaChoice} (h : FitsInt64 c.index) :
    SseDeltaChoice.read [c.write] = some c := by
  obtain ⟨index, delta, finishReason⟩ := c
  have hreason : pointer string [(finishReason.map Value.string).getD .null] =
      some finishReason := by
    cases finishReason with
    | none | some => rfl
  simp (disch := decide) [SseDeltaChoice.read, SseDeltaChoice.write, integer_ofInt h,
    SseDelta.read_write, hreason]

theorem SseChunkEnvelope.read_write {e : SseChunkEnvelope} (hcreated : FitsInt64 e.created)
    (hchoices : ∀ c ∈ e.choices, FitsInt64 c.index) :
    SseChunkEnvelope.read [e.write] = some e := by
  have hslice := slice_nullable e.choices fun c hc =>
    SseDeltaChoice.read_write (hchoices c hc)
  simp (disch := decide) [SseChunkEnvelope.read, SseChunkEnvelope.write,
    integer_ofInt hcreated, hslice]

theorem read_sseEnvelope (now : Int64) (chunk : StreamChunk) :
    SseChunkEnvelope.read [(sseEnvelope now chunk).write] = some (sseEnvelope now chunk) := by
  refine SseChunkEnvelope.read_write ⟨now.le_toInt, now.toInt_lt⟩ fun c hc => ?_
  rw [mem_singleton.mp hc]
  show FitsInt64 0
  decide

/-- The delta that is sent. -/
def sentDelta (chunk : StreamChunk) : SseDelta :=
  { role := chunk.delta.role, content := chunk.delta.content, toolCalls := chunk.delta.toolCalls }

theorem captureLine_sseLine (c : Capture) (now : Int64) (chunk : StreamChunk) :
    captureLine c (sseLine now chunk) = c.add (sentDelta chunk) := by
  have hpayload : after dataPrefix (sseLine now chunk) =
      some (print (sseEnvelope now chunk).write) := after_append _ _
  have hnotDone : ¬ print (sseEnvelope now chunk).write = doneMark := by
    intro h
    have hhead : some '{' = doneMark.head? := by
      rw [← h, SseChunkEnvelope.write, head_print_object]
    exact absurd hhead (by decide)
  simp only [captureLine, hpayload, hnotDone, if_false,
    unmarshal_print (read_sseEnvelope now chunk)]
  rfl

theorem captureLine_nil (c : Capture) : captureLine c [] = c := rfl

theorem captureLine_done (c : Capture) : captureLine c (dataPrefix ++ doneMark) = c := by
  simp only [captureLine, after_append, if_true]

/-! ## The whole stream -/

/-- The lines of the response. -/
def sseLines (sent : List (Int64 × StreamChunk)) : List (List Char) :=
  sent.flatMap (fun p => [sseLine p.1 p.2, []]) ++ [dataPrefix ++ doneMark, []]

/-- What the client gets. -/
def sseText (sent : List (Int64 × StreamChunk)) : List Char :=
  sent.flatMap (fun p => writeSSEChunk p.1 p.2) ++ writeSSEDone

theorem sseText_eq_join (sent : List (Int64 × StreamChunk)) :
    sseText sent = LineScanner.join '\n' (sseLines sent) := by
  have hlines (p : Int64 × StreamChunk) :
      LineScanner.join '\n' [sseLine p.1 p.2, []] = writeSSEChunk p.1 p.2 := by
    simp [LineScanner.join, writeSSEChunk]
  induction sent with
  | nil => rfl
  | cons p sent ih =>
    have hcons : sseLines (p :: sent) = [sseLine p.1 p.2, []] ++ sseLines sent := by
      simp [sseLines]
    rw [hcons, LineScanner.join_append, hlines, ← ih, sseText, sseText, flatMap_cons, append_assoc]

theorem sseLines_printable (sent : List (Int64 × StreamChunk)) :
    ∀ line ∈ sseLines sent, Printable line := by
  have hdata : Printable dataPrefix := by simp [Printable, dataPrefix]
  have hdone : Printable doneMark := by simp [Printable, doneMark]
  intro line hline
  simp only [sseLines, mem_append, mem_flatMap, mem_cons, not_mem_nil, or_false] at hline
  rcases hline with ⟨p, -, rfl | rfl⟩ | rfl | rfl
  · exact printable_append.mpr ⟨hdata, print_printable _⟩
  · exact printable_nil
  · exact printable_append.mpr ⟨hdata, hdone⟩
  · exact printable_nil

variable {sent : List (Int64 × StreamChunk)}

theorem sseLines_short
    (h : ∀ p ∈ sent, LineScanner.size Char.utf8Size (sseLine p.1 p.2) < captureLimit) :
    ∀ line ∈ sseLines sent, LineScanner.size Char.utf8Size line < captureLimit := by
  intro line hline
  simp only [sseLines, mem_append, mem_flatMap, mem_cons, not_mem_nil, or_false] at hline
  rcases hline with ⟨p, hp, rfl | rfl⟩ | rfl | rfl
  · exact h p hp
  · decide
  · decide
  · decide

theorem scan_sseText
    (h : ∀ p ∈ sent, LineScanner.size Char.utf8Size (sseLine p.1 p.2) < captureLimit) :
    scanText captureLimit (sseText sent) = sseLines sent := by
  have hprintable := sseLines_printable sent
  have hshort : (sseLines sent).takeWhile
      (fun line => LineScanner.size Char.utf8Size line < captureLimit) = sseLines sent :=
    takeWhile_eq_self_iff.mpr fun line hline => decide_eq_true (sseLines_short h line hline)
  have hcr : (sseLines sent).map (LineJournal.dropCR '\r') = sseLines sent :=
    (map_congr_left fun line hline =>
      LineScanner.dropCR_of_notMem ((hprintable line hline).notMem (by decide))).trans
      (map_id _)
  rw [sseText_eq_join, scanText, LineScanner.scan_join, hshort, hcr]
  exact fun line hline => (hprintable line hline).notMem (by decide)

theorem foldl_captureLine (sent : List (Int64 × StreamChunk)) (c : Capture) :
    (sseLines sent).foldl captureLine c =
      (sent.map Prod.snd).foldl (fun c chunk => c.add (sentDelta chunk)) c := by
  induction sent generalizing c with
  | nil =>
    show captureLine (captureLine c (dataPrefix ++ doneMark)) [] = c
    rw [captureLine_nil, captureLine_done]
  | cons p sent ih =>
    have hcons : sseLines (p :: sent) = sseLine p.1 p.2 :: [] :: sseLines sent := by
      simp [sseLines]
    rw [hcons, foldl_cons, foldl_cons, captureLine_sseLine, captureLine_nil, ih,
      map_cons, foldl_cons]

/-- All the text that is sent. -/
def sentContent (chunks : List StreamChunk) : String := join "" (chunks.map (·.delta.content))

/-- The last tool calls that are sent. -/
def lastToolCalls (chunks : List StreamChunk) : List ToolCall :=
  ((chunks.map (·.delta.toolCalls)).filter (· ≠ [])).getLastD []

/-- A chunk with something in it. -/
def Carries (chunk : StreamChunk) : Prop :=
  chunk.delta.content ≠ "" ∨ chunk.delta.toolCalls ≠ []

instance (chunk : StreamChunk) : Decidable (Carries chunk) := inferInstanceAs (Decidable (_ ∨ _))

theorem Capture.add_sentDelta (c : Capture) (chunk : StreamChunk) :
    c.add (sentDelta chunk) =
      { content := c.content ++ chunk.delta.content
        toolCalls := if chunk.delta.toolCalls = [] then c.toolCalls else chunk.delta.toolCalls
        found := c.found || decide (Carries chunk) } := by
  by_cases hcontent : chunk.delta.content = "" <;> by_cases hcalls : chunk.delta.toolCalls = [] <;>
    simp [Capture.add, sentDelta, Carries, hcontent, hcalls]

theorem getLastD_filter_cons (calls old : List ToolCall) (rest : List (List ToolCall)) :
    ((calls :: rest).filter (· ≠ [])).getLastD old =
      (rest.filter (· ≠ [])).getLastD (if calls = [] then old else calls) := by
  by_cases hcalls : calls = []
  · simp [hcalls]
  · rw [filter_cons_of_pos (by simpa using hcalls), getLastD_cons, if_neg hcalls]

theorem foldl_add (chunks : List StreamChunk) (c : Capture) :
    chunks.foldl (fun c chunk => c.add (sentDelta chunk)) c =
      { content := c.content ++ sentContent chunks
        toolCalls := ((chunks.map (·.delta.toolCalls)).filter (· ≠ [])).getLastD c.toolCalls
        found := c.found || chunks.any fun chunk => Carries chunk } := by
  induction chunks generalizing c with
  | nil => simp [sentContent, join]
  | cons chunk chunks ih =>
    have hcontent : sentContent (chunk :: chunks) =
        chunk.delta.content ++ sentContent chunks := by
      rw [sentContent, map_cons, GoStrings.join_cons, sentContent]
    rw [foldl_cons, ih, Capture.add_sentDelta, hcontent, map_cons,
      getLastD_filter_cons, any_cons, ← String.append_assoc, Bool.or_assoc]

theorem parseSSEAssistantTurn_sseText
    (h : ∀ p ∈ sent, LineScanner.size Char.utf8Size (sseLine p.1 p.2) < captureLimit) :
    parseSSEAssistantTurn (sseText sent) =
      ({ role := "assistant"
         content := sentContent (sent.map Prod.snd)
         toolCalls := lastToolCalls (sent.map Prod.snd) },
        (sent.map Prod.snd).any fun chunk => Carries chunk) := by
  have hfold := foldl_captureLine sent {}
  rw [foldl_add, String.empty_append, Bool.false_or] at hfold
  simp only [parseSSEAssistantTurn, scan_sseText h, hfold]
  rfl

/-- What is captured of a stream is its text and its last tool calls, and something is found if some
chunk has something in it. -/
theorem capture_exact (sent : List (Int64 × StreamChunk))
    (h : ∀ p ∈ sent, LineScanner.size Char.utf8Size (sseLine p.1 p.2) < captureLimit) :
    (parseSSEAssistantTurn (sseText sent)).1 =
        { role := "assistant"
          content := sentContent (sent.map Prod.snd)
          toolCalls := lastToolCalls (sent.map Prod.snd) } ∧
      ((parseSSEAssistantTurn (sseText sent)).2 = true ↔ ∃ p ∈ sent, Carries p.2) := by
  rw [parseSSEAssistantTurn_sseText h]
  refine ⟨rfl, ?_⟩
  simp only [any_map, any_eq_true, Function.comp_apply, decide_eq_true_eq]

/-- Two chunks of a stream whose text looks like the end of one. -/
def doneTalk : List (Int64 × StreamChunk) :=
  [(0, { delta := { role := "assistant", content := "data: [DONE]\n" } }),
   (1, { delta := { role := "", content := "\"" } })]

theorem done_talk_captured :
    parseSSEAssistantTurn (sseText doneTalk) =
      ({ role := "assistant", content := "data: [DONE]\n\"" }, true) := by
  have hshort : ∀ p ∈ doneTalk,
      LineScanner.size Char.utf8Size (sseLine p.1 p.2) < captureLimit := by decide +kernel
  obtain ⟨hmessage, hfound⟩ := capture_exact doneTalk hshort
  exact Prod.ext hmessage (hfound.mpr (by decide))

/-! ## The turn that is stored -/

theorem sentContent_eq_empty_iff {chunks : List StreamChunk} :
    sentContent chunks = "" ↔ ∀ chunk ∈ chunks, chunk.delta.content = "" := by
  induction chunks with
  | nil => simp [sentContent, join]
  | cons chunk chunks ih =>
    rw [sentContent, map_cons, GoStrings.join_cons, ← sentContent,
      String.append_eq_empty_iff, ih, forall_mem_cons]

theorem lastToolCalls_eq_nil_iff {chunks : List StreamChunk} :
    lastToolCalls chunks = [] ↔ ∀ chunk ∈ chunks, chunk.delta.toolCalls = [] := by
  have hnil : ∀ calls ∈ (chunks.map (·.delta.toolCalls)).filter (· ≠ []), calls ≠ [] :=
    fun calls hcalls => of_decide_eq_true (mem_filter.mp hcalls).2
  rw [lastToolCalls]
  constructor
  · intro h chunk hchunk
    by_contra hne
    have hmem : chunk.delta.toolCalls ∈ (chunks.map (·.delta.toolCalls)).filter (· ≠ []) :=
      mem_filter.mpr ⟨mem_map_of_mem hchunk, decide_eq_true hne⟩
    have hne := ne_nil_of_mem hmem
    rw [getLastD_eq_getLast?, getLast?_eq_getLast_of_ne_nil hne] at h
    exact hnil _ (getLast_mem hne) h
  · intro h
    have hempty : (chunks.map (·.delta.toolCalls)).filter (· ≠ []) = [] := by
      simpa using h
    rw [hempty]
    rfl

/-- The turn that the session middleware stores is the one that is read off the text. -/
theorem streamedTurn_eq_capture
    (h : ∀ p ∈ sent, LineScanner.size Char.utf8Size (sseLine p.1 p.2) < captureLimit) :
    streamedTurn (sent.map Prod.snd) =
      if (parseSSEAssistantTurn (sseText sent)).2 then
        some (parseSSEAssistantTurn (sseText sent)).1
      else none := by
  have hnone : (sentContent (sent.map Prod.snd) = "" ∧ lastToolCalls (sent.map Prod.snd) = []) ↔
      ((sent.map Prod.snd).any fun chunk => Carries chunk) = false := by
    rw [sentContent_eq_empty_iff, lastToolCalls_eq_nil_iff, ← forall₂_and, any_eq_false]
    refine forall₂_congr fun chunk _ => ?_
    rw [decide_eq_true_eq, Carries, not_or, not_not, not_not]
  rw [parseSSEAssistantTurn_sseText h, streamedTurn]
  show (if sentContent (sent.map Prod.snd) = "" ∧ lastToolCalls (sent.map Prod.snd) = [] then none
    else _) = _
  cases hany : (sent.map Prod.snd).any fun chunk => Carries chunk with
  | false => rw [if_pos (hnone.mpr hany), if_neg Bool.false_ne_true]
  | true =>
    rw [if_neg fun hempty => by simp [hnone.mp hempty] at hany, if_pos rfl]
    rfl

theorem streamedTurn_doneTalk :
    streamedTurn (doneTalk.map Prod.snd) =
      if (parseSSEAssistantTurn (sseText doneTalk)).2 then
        some (parseSSEAssistantTurn (sseText doneTalk)).1
      else none :=
  streamedTurn_eq_capture (by decide +kernel)

end Ixr.Ingress
