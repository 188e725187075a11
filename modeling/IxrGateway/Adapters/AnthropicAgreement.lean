import IxrGateway.Adapters.AnthropicStream
import IxrGateway.SchemaRoundTrip

/-!
# When an Anthropic stream folds to the whole response

The API streams a response as events, each on two lines (`Sent`).  The message
starts, the blocks come one after another in fragments, and the message ends with
its stop reason and its output tokens (`Streaming`).  Events that `Stream` does
not look at and lines that are no event can stand anywhere.

The loop over the lines follows the events (`streamLoop_sent`), and the events of
the blocks pass on the text and collect the calls (`run_blocks`).  A call has the
fragments of its input as arguments.  An empty input can come without a fragment.
Its arguments are then the empty text, which is no JSON, while the whole response
has `{}`.  So the chunks fold to the whole response exactly if every tool input
comes in fragments and the scanner gets past the end of the message
(`stream_folds_iff`).
-/

namespace Ixr.Adapters.Anthropic

open List ToolCallAccumulator JsonText

open GoStrings (join)
open JsonText (Floats)
open LineScanner (after after_append dataPrefix maxScanTokenSize scanText)

/-! ## Events -/

/-- What an event of a stream says. -/
inductive Event where
  | messageStart (ms : StreamMessageStart)
  | blockStart (cbs : StreamContentBlockStart)
  | blockDelta (cbd : StreamContentBlockDelta)
  | messageDelta (md : StreamMessageDelta)
  | messageStop
  /-- An event that `Stream` does not look at, such as a ping or the end of a block. -/
  | other
deriving Repr, DecidableEq

/-- The event types that `Stream` looks at. -/
def handledTypes : List String :=
  ["message_start", "content_block_start", "content_block_delta", "message_delta", "message_stop"]

/-- The type and the data of an event. -/
inductive Event.Encoded : String → List Char → Event → Prop where
  | messageStart {data : List Char} {ms : StreamMessageStart}
      (h : unmarshal StreamMessageStart.read data = some ms) :
      Event.Encoded "message_start" data (.messageStart ms)
  | blockStart {data : List Char} {cbs : StreamContentBlockStart}
      (h : unmarshal StreamContentBlockStart.read data = some cbs) :
      Event.Encoded "content_block_start" data (.blockStart cbs)
  | blockDelta {data : List Char} {cbd : StreamContentBlockDelta}
      (h : unmarshal StreamContentBlockDelta.read data = some cbd) :
      Event.Encoded "content_block_delta" data (.blockDelta cbd)
  | messageDelta {data : List Char} {md : StreamMessageDelta}
      (h : unmarshal StreamMessageDelta.read data = some md) :
      Event.Encoded "message_delta" data (.messageDelta md)
  | messageStop {data : List Char} : Event.Encoded "message_stop" data .messageStop
  | other {type : String} {data : List Char} (h : type ∉ handledTypes) :
      Event.Encoded type data .other

/-- What `Stream` does with an event. -/
def Event.apply (st : StreamState) : Event → StreamState × List StreamChunk
  | .messageStart ms => (st.messageStart ms, [])
  | .blockStart cbs =>
    if cbs.type = "tool_use" then
      ({ st with toolCalls := st.toolCalls.start cbs.index cbs.id cbs.name }, [])
    else (st, [])
  | .blockDelta cbd =>
    if cbd.type = "text_delta" then (st, [st.textChunk cbd.text])
    else if cbd.type = "input_json_delta" then
      ({ st with toolCalls := st.toolCalls.appendArgs cbd.index cbd.partialJSON }, [])
    else (st, [])
  | .messageDelta md => (st, [st.finalChunk md])
  | .messageStop => (st, [])
  | .other => (st, [])

variable {type : String} {ev : Event} {evs : List Event} {lines : List (List Char)} {index : Int}
  {calls : List (Int × ToolCall)}

theorem handleData_of_encoded {data : List Char} (h : Event.Encoded type data ev)
    (st : StreamState) : handleData type st data = ev.apply st := by
  cases h with
  | messageStart h | blockStart h | blockDelta h | messageDelta h =>
    simp [handleData, Event.apply, h]
  | messageStop => simp [handleData, Event.apply]
  | other h =>
    simp only [handledTypes, mem_cons, not_or] at h
    simp [handleData, Event.apply, h]

/-! ## Lines -/

/-- A line that is neither the type nor the data of an event. -/
def Filler (line : List Char) : Prop :=
  after eventPrefix line = none ∧ after dataPrefix line = none

/-- The lines that carry some events, with other lines in between. -/
inductive Sent : List Event → List (List Char) → Prop where
  | nil : Sent [] []
  | filler {evs : List Event} {lines : List (List Char)} {line : List Char} (hline : Filler line)
      (h : Sent evs lines) : Sent evs (line :: lines)
  | event {ev : Event} {evs : List Event} {type : String} {mid lines : List (List Char)}
      {data : List Char} (hmid : ∀ line ∈ mid, Filler line) (hdata : Event.Encoded type data ev)
      (h : Sent evs lines) :
      Sent (ev :: evs)
        ((eventPrefix ++ type.toList) :: (mid ++ (dataPrefix ++ data) :: lines))

/-- The events one after the other. -/
def run (st : StreamState) : List Event → StreamState × List StreamChunk
  | [] => (st, [])
  | ev :: evs => ((run (ev.apply st).1 evs).1, (ev.apply st).2 ++ (run (ev.apply st).1 evs).2)

theorem streamLoop_filler {line : List Char} (h : Filler line) (type : String) (st : StreamState)
    (lines : List (List Char)) : streamLoop type st (line :: lines) = streamLoop type st lines := by
  simp only [streamLoop, h.1, h.2]

theorem streamLoop_fillers {mid : List (List Char)} (h : ∀ line ∈ mid, Filler line) (type : String)
    (st : StreamState) (lines : List (List Char)) :
    streamLoop type st (mid ++ lines) = streamLoop type st lines := by
  induction mid with
  | nil => rfl
  | cons line mid ih =>
    obtain ⟨hline, hmid⟩ := forall_mem_cons.mp h
    rw [cons_append, streamLoop_filler hline, ih hmid]

theorem streamLoop_type (type type' : String) (st : StreamState) (lines : List (List Char)) :
    streamLoop type st ((eventPrefix ++ type'.toList) :: lines) = streamLoop type' st lines := by
  simp only [streamLoop, after_append, String.ofList_toList]

theorem after_eventPrefix_data (data : List Char) :
    after eventPrefix (dataPrefix ++ data) = none := by
  simp [LineScanner.after, eventPrefix, dataPrefix]

theorem streamLoop_data {data : List Char} (h : Event.Encoded type data ev)
    (hstop : ev ≠ .messageStop) (st : StreamState) (lines : List (List Char)) :
    streamLoop type st ((dataPrefix ++ data) :: lines) =
      (ev.apply st).2 ++ streamLoop type (ev.apply st).1 lines := by
  have htype : type ≠ "message_stop" := by
    cases h with
    | messageStop => exact absurd rfl hstop
    | other h => exact fun heq => h (heq ▸ by decide)
    | _ => decide
  simp only [streamLoop, after_eventPrefix_data, after_append, if_neg htype,
    handleData_of_encoded h]

theorem streamLoop_sent (h : Sent evs lines) (hstop : .messageStop ∉ evs) (type : String)
    (st : StreamState) (rest : List (List Char)) :
    ∃ type', streamLoop type st (lines ++ rest) =
      (run st evs).2 ++ streamLoop type' (run st evs).1 rest := by
  induction h generalizing type st with
  | nil => exact ⟨type, rfl⟩
  | filler hline h ih =>
    obtain ⟨type', heq⟩ := ih hstop type st
    exact ⟨type', by rw [cons_append, streamLoop_filler hline, heq]⟩
  | @event ev evs evType mid lines data hmid hdata h ih =>
    have hev : ev ≠ .messageStop := fun heq => hstop (heq ▸ mem_cons_self)
    obtain ⟨type', heq⟩ := ih (fun hmem => hstop (mem_cons_of_mem _ hmem)) evType
      (ev.apply st).1
    refine ⟨type', ?_⟩
    rw [cons_append, streamLoop_type, append_assoc, streamLoop_fillers hmid,
      cons_append, streamLoop_data hdata hev, heq, run, append_assoc]

theorem streamLoop_post (h : Sent evs lines) (hpost : ∀ ev ∈ evs, ev = .other ∨ ev = .messageStop)
    (type : String) (st : StreamState) : streamLoop type st lines = [] := by
  induction h generalizing type with
  | nil => rfl
  | filler hline h ih => rw [streamLoop_filler hline, ih hpost]
  | @event ev evs evType mid lines data hmid hdata h ih =>
    obtain ⟨hev, hevs⟩ := forall_mem_cons.mp hpost
    rw [streamLoop_type, streamLoop_fillers hmid]
    rcases hev with rfl | rfl
    · rw [streamLoop_data hdata (by decide)]
      exact ih hevs evType
    · cases hdata
      simp only [streamLoop, after_eventPrefix_data, after_append, if_true]

theorem streamLoop_mono (type : String) (st : StreamState) (lines rest : List (List Char)) :
    streamLoop type st lines <+: streamLoop type st (lines ++ rest) := by
  induction lines generalizing type st with
  | nil => exact nil_prefix
  | cons line lines ih =>
    rw [cons_append, streamLoop, streamLoop]
    cases after eventPrefix line with
    | some name => exact ih _ st
    | none =>
      cases after dataPrefix line with
      | none => exact ih type st
      | some data =>
        simp only
        split
        · exact nil_prefix
        · exact (prefix_append_right_inj _).mpr (ih type _)

/-! ## Runs of events -/

theorem run_append (st : StreamState) (xs ys : List Event) :
    run st (xs ++ ys) = ((run (run st xs).1 ys).1, (run st xs).2 ++ (run (run st xs).1 ys).2) := by
  induction xs generalizing st with
  | nil => rfl
  | cons ev xs ih => rw [cons_append, run, ih, run, append_assoc]

theorem run_filter_other (st : StreamState) (evs : List Event) :
    run st (evs.filter (· ≠ .other)) = run st evs := by
  induction evs generalizing st with
  | nil => rfl
  | cons ev evs ih =>
    by_cases hev : ev = .other
    · subst hev
      exact ih st
    · rw [filter_cons_of_pos (by simpa using hev), run, run, ih]

/-! ## Blocks -/

/-- A block, and how it is streamed. -/
inductive Block where
  | text (fragments : List String)
  | tool (id name : String) (input : JsonObject) (fragments : List String)

/-- The block in a whole response. -/
def Block.wire : Block → WireContent
  | .text fragments => { type := "text", text := join "" fragments }
  | .tool id name input _ => { type := "tool_use", id := id, name := name, input := some input }

/-- The block as events. -/
def Block.events (index : Int) : Block → List Event
  | .text fragments =>
    .blockStart { index := index, type := "text" } :: fragments.map fun text =>
      .blockDelta { index := index, type := "text_delta", text := text }
  | .tool id name _ fragments =>
    .blockStart { index := index, type := "tool_use", id := id, name := name } ::
      fragments.map fun partialJSON =>
        .blockDelta { index := index, type := "input_json_delta", partialJSON := partialJSON }

/-- The blocks as events, from an index on. -/
def blockEvents (index : Int) : List Block → List Event
  | [] => []
  | b :: bs => b.events index ++ blockEvents (index + 1) bs

/-- The pieces of all text blocks. -/
def textFragments : List Block → List String
  | [] => []
  | .text fragments :: bs => fragments ++ textFragments bs
  | .tool .. :: bs => textFragments bs

/-- The calls of the blocks, by index. -/
def blockCalls (index : Int) : List Block → List (Int × ToolCall)
  | [] => []
  | .text _ :: bs => blockCalls (index + 1) bs
  | .tool id name _ fragments :: bs =>
    (index, { id := id, type := "function",
              function := { name := name, arguments := join "" fragments } }) ::
      blockCalls (index + 1) bs

/-- The accumulator that holds calls. -/
def ToolCallAccumulator.of (calls : List (Int × ToolCall)) : ToolCallAccumulator :=
  { byIndex := calls, order := calls.map Prod.fst }

/-- All calls stand before the given place. -/
def Below (index : Int) (calls : List (Int × ToolCall)) : Prop := ∀ p ∈ calls, p.1 < index

theorem start_of_notMem (h : index ∉ calls.map Prod.fst) (id name : String) :
    (of calls).start index id name =
      .of (calls ++ [(index, { id := id, type := "function", function := { name := name } })]) := by
  have hkeep : calls.filter (fun p => p.1 ≠ index) = calls :=
    filter_eq_self.mpr fun p hp =>
      decide_eq_true fun heq => h (heq ▸ mem_map_of_mem hp)
  rw [start, of, hkeep, of, map_append]
  rfl

theorem start_of (h : Below index calls) (id name : String) :
    (of calls).start index id name =
      .of (calls ++ [(index, { id := id, type := "function", function := { name := name } })]) := by
  apply start_of_notMem
  intro hmem
  obtain ⟨p, hp, heq⟩ := mem_map.mp hmem
  exact ne_of_lt (h p hp) heq

theorem appendArgs_of (h : Below index calls) (call : ToolCall) (partialJSON : String) :
    (of (calls ++ [(index, call)])).appendArgs index partialJSON =
      .of (calls ++ [(index, addArguments call partialJSON)]) := by
  have hkeep : calls.map (fun p =>
      if p.1 = index then (p.1, addArguments p.2 partialJSON) else p) = calls :=
    (map_congr_left fun p hp => if_neg (ne_of_lt (h p hp))).trans (map_id _)
  simp only [appendArgs, of, map_append, hkeep, map_cons, map_nil, if_true]

theorem filterMap_lookup_keys {α β : Type} [DecidableEq α] {entries : List (α × β)}
    (h : (entries.map Prod.fst).Nodup) :
    (entries.map Prod.fst).filterMap (fun key => entries.lookup key) =
      entries.map Prod.snd := by
  induction entries with
  | nil => rfl
  | cons p entries ih =>
    rw [map_cons, nodup_cons] at h
    have hrest : (entries.map Prod.fst).filterMap (fun key => (p :: entries).lookup key) =
        (entries.map Prod.fst).filterMap fun key => entries.lookup key := by
      refine filterMap_congr fun key hkey => ?_
      have hne : (key == p.1) = false := beq_false_of_ne fun heq => h.1 (heq ▸ hkey)
      rw [lookup_cons, hne]
    rw [map_cons, filterMap_cons, lookup_cons_self, hrest, ih h.2, map_cons]

theorem finalize_of (h : (calls.map Prod.fst).Nodup) :
    (ToolCallAccumulator.of calls).finalize = calls.map Prod.snd := filterMap_lookup_keys h

theorem run_text (st : StreamState) (index : Int) (fragments : List String) :
    run st ((Block.text fragments).events index) = (st, fragments.map st.textChunk) := by
  have hdeltas : run st (fragments.map fun text =>
      .blockDelta { index := index, type := "text_delta", text := text }) =
      (st, fragments.map st.textChunk) := by
    induction fragments with
    | nil => rfl
    | cons text fragments ih =>
      rw [map_cons, run, Event.apply, if_pos rfl, ih]
      rfl
  rw [Block.events, run]
  exact hdeltas

theorem run_fragments (h : Below index calls) (fragments : List String) (st : StreamState)
    (call : ToolCall) (hst : st.toolCalls = .of (calls ++ [(index, call)])) :
    run st (fragments.map fun partialJSON =>
        .blockDelta { index := index, type := "input_json_delta", partialJSON := partialJSON }) =
      ({ st with toolCalls := .of (calls ++ [(index, addArguments call (join "" fragments))]) },
        []) := by
  induction fragments generalizing st call with
  | nil =>
    have hcall : addArguments call (join "" []) = call := by simp [addArguments, join]
    rw [hcall, ← hst]
    rfl
  | cons text fragments ih =>
    have hargs : addArguments (addArguments call text) (join "" fragments) =
        addArguments call (join "" (text :: fragments)) := by
      simp [addArguments, GoStrings.join_cons, String.append_assoc]
    have hkind : ¬ "input_json_delta" = "text_delta" := by decide
    rw [map_cons, run, Event.apply, if_neg hkind, if_pos rfl, hst, appendArgs_of h,
      ih _ (addArguments call text) rfl, hargs]
    rfl

theorem run_tool (h : Below index calls) (st : StreamState) (hst : st.toolCalls = .of calls)
    (id name : String) (input : JsonObject) (fragments : List String) :
    run st ((Block.tool id name input fragments).events index) =
      ({ st with toolCalls := .of (calls ++ [(index,
          { id := id, type := "function",
            function := { name := name, arguments := join "" fragments } })]) }, []) := by
  rw [Block.events, run, Event.apply, if_pos rfl, hst, start_of h, run_fragments h _ _ _ rfl]
  simp [addArguments]

variable {bs : List Block}

theorem run_blocks (h : Below index calls) (st : StreamState) (hst : st.toolCalls = .of calls) :
    run st (blockEvents index bs) =
      ({ st with toolCalls := .of (calls ++ blockCalls index bs) },
        (textFragments bs).map st.textChunk) := by
  induction bs generalizing index calls st with
  | nil =>
    rw [blockCalls, append_nil, ← hst]
    rfl
  | cons b bs ih =>
    have hbelow {calls : List (Int × ToolCall)} (h : Below index calls) :
        Below (index + 1) calls := fun p hp => lt_trans (h p hp) (lt_add_one index)
    rw [blockEvents, run_append]
    cases b with
    | text fragments =>
      rw [run_text, ih (hbelow h) st hst, textFragments, map_append, blockCalls]
    | tool id name input fragments =>
      have hnext : Below (index + 1) (calls ++ [(index,
          ({ id := id, type := "function",
             function := { name := name, arguments := join "" fragments } } : ToolCall))]) := by
        intro p hp
        rcases mem_append.mp hp with hp | hp
        · exact hbelow h p hp
        · rw [mem_singleton.mp hp]
          exact lt_add_one index
      rw [run_tool h st hst, ih hnext _ rfl, textFragments, blockCalls, append_assoc]
      rfl

theorem blockCalls_ge : ∀ p ∈ blockCalls index bs, index ≤ p.1 := by
  induction bs generalizing index with
  | nil => exact forall_mem_nil _
  | cons b bs ih =>
    have hrest : ∀ p ∈ blockCalls (index + 1) bs, index ≤ p.1 :=
      fun p hp => le_trans (le_of_lt (lt_add_one index)) (ih p hp)
    cases b with
    | text fragments => exact hrest
    | tool id name input fragments =>
      rw [blockCalls]
      exact forall_mem_cons.mpr ⟨le_refl index, hrest⟩

theorem blockCalls_nodup (bs : List Block) (index : Int) :
    ((blockCalls index bs).map Prod.fst).Nodup := by
  induction bs generalizing index with
  | nil => exact nodup_nil
  | cons b bs ih =>
    cases b with
    | text fragments => exact ih (index + 1)
    | tool id name input fragments =>
      rw [blockCalls, map_cons, nodup_cons]
      refine ⟨fun hmem => ?_, ih (index + 1)⟩
      obtain ⟨p, hp, heq⟩ := mem_map.mp hmem
      have hge := blockCalls_ge p hp
      simp only at heq
      omega

/-! ## Responses -/

/-- What the model answers. -/
structure Response where
  id : String
  model : String
  blocks : List Block
  stopReason : String
  usage : WireUsage

/-- The answer in one body. -/
def Response.wire (r : Response) : WireResponse :=
  { id := r.id
    content := r.blocks.map Block.wire
    model := r.model
    stopReason := r.stopReason
    usage := r.usage }

/-- The fragments of a tool input are the text of a JSON object, or there are none for an empty
object. -/
def Block.Valid (floats : Floats ℚ) : Block → Prop
  | .text _ => True
  | .tool _ _ input fragments =>
    unmarshalObject floats (join "" fragments) = some (some input) ∨
      (input = [] ∧ join "" fragments = "")

/-- A way in which the API streams a response. -/
structure Streaming (floats : Floats ℚ) (r : Response) (body : List Char) where
  initialTokens : Int
  /-- The events before the end of the message, and those after it. -/
  pre : List Event
  post : List Event
  /-- The lines around the type and the data of the `message_delta` event. -/
  before : List (List Char)
  mid : List (List Char)
  data : List Char
  rest : List (List Char)
  lines : LineScanner.lines body =
    before ++ (eventPrefix ++ "message_delta".toList) :: (mid ++ (dataPrefix ++ data) :: rest)
  sentPre : Sent pre before
  preEvents : pre.filter (· ≠ .other) =
    .messageStart
      { id := r.id, model := r.model, usage := { r.usage with outputTokens := initialTokens } } ::
      blockEvents 0 r.blocks
  fillers : ∀ line ∈ mid, Filler line
  delta : JsonText.unmarshal StreamMessageDelta.read data =
    some { stopReason := r.stopReason, outputTokens := r.usage.outputTokens }
  sentPost : Sent post rest
  postEvents : ∀ ev ∈ post, ev = .other ∨ ev = .messageStop
  valid : ∀ b ∈ r.blocks, b.Valid floats

/-! ## Folding -/

/-- Two calls are the same, and their arguments are texts of the same JSON object. -/
structure SameCall (floats : Floats ℚ) (a b : ToolCall) : Prop where
  id : a.id = b.id
  type : a.type = b.type
  name : a.function.name = b.function.name
  arguments : ∃ object, unmarshalObject floats a.function.arguments = some (some object) ∧
    unmarshalObject floats b.function.arguments = some (some object)

/-- The chunks of a stream fold to a response: the texts and the calls add up, and the last finish
reason and the last usage are those of the response. -/
structure Folds (floats : Floats ℚ) (chunks : List StreamChunk) (resp : ResponseEnvelope) :
    Prop where
  content : resp.choices.map (·.message.content) = [join "" (chunks.map (·.delta.content))]
  toolCalls : ∃ calls, resp.choices.map (·.message.toolCalls) = [calls] ∧
    Forall₂ (SameCall floats) (chunks.flatMap (·.delta.toolCalls)) calls
  finishReason : resp.choices.map (·.finishReason) =
    [((chunks.map (·.finishReason)).filter (· ≠ "")).getLastD ""]
  usage : (chunks.filterMap (·.usage)).getLast? = some resp.usage

/-- The calls as the body has them. -/
def wireCalls (floats : Floats ℚ) : List Block → List ToolCall
  | [] => []
  | .text _ :: bs => wireCalls floats bs
  | .tool id name input _ :: bs =>
    { id := id, type := "function",
      function := { name := name, arguments := marshalObject floats (some input) } } ::
      wireCalls floats bs

variable {floats : Floats ℚ}

theorem foldl_splitStep_blocks (bs : List Block) (acc : String × List ToolCall) :
    (bs.map Block.wire).foldl (splitStep floats) acc =
      (acc.1 ++ join "" (textFragments bs), acc.2 ++ wireCalls floats bs) := by
  induction bs generalizing acc with
  | nil => simp [textFragments, wireCalls, join]
  | cons b bs ih =>
    rw [map_cons, foldl_cons, ih]
    cases b with
    | text fragments =>
      simp [Block.wire, splitStep, textFragments, wireCalls, GoStrings.join_append,
        String.append_assoc]
    | tool id name input fragments => simp [Block.wire, splitStep, textFragments, wireCalls]

/-- A tool block whose input comes in fragments. -/
def Block.HasArguments : Block → Prop
  | .text _ => True
  | .tool _ _ _ fragments => join "" fragments ≠ ""

theorem unmarshalObject_empty : unmarshalObject floats "" = none := rfl

theorem forall₂_sameCall_iff (hvalid : ∀ b ∈ bs, b.Valid floats) (index : Int) :
    Forall₂ (SameCall floats) ((blockCalls index bs).map Prod.snd) (wireCalls floats bs) ↔
      ∀ b ∈ bs, b.HasArguments := by
  induction bs generalizing index with
  | nil => simp [blockCalls, wireCalls]
  | cons b bs ih =>
    obtain ⟨hb, hbs⟩ := forall_mem_cons.mp hvalid
    rw [forall_mem_cons]
    cases b with
    | text fragments =>
      rw [blockCalls, wireCalls, ih hbs]
      simp [Block.HasArguments]
    | tool id name input fragments =>
      rw [blockCalls, wireCalls, map_cons, forall₂_cons, ih hbs]
      refine and_congr_left fun _ => ⟨fun h hempty => ?_, fun h => ?_⟩
      · obtain ⟨object, hobject, -⟩ := h.arguments
        simp only [hempty, unmarshalObject_empty] at hobject
        cases hobject
      · have hinput := hb.resolve_right fun hnone => h hnone.2
        exact
          { id := rfl
            type := rfl
            name := rfl
            arguments := ⟨input, hinput,
              unmarshalObject_marshalObject (unmarshalObject_tidy hinput)⟩ }

/-! ## The stream of a response -/

theorem messageStop_notMem_blockEvents (bs : List Block) (index : Int) :
    .messageStop ∉ blockEvents index bs := by
  induction bs generalizing index with
  | nil => exact not_mem_nil
  | cons b bs ih =>
    rw [blockEvents, mem_append, not_or]
    refine ⟨?_, ih (index + 1)⟩
    cases b with
    | text | tool => simp [Block.events]

/-- The state when the blocks are done. -/
def Response.state (r : Response) : StreamState :=
  { msgID := r.id
    model := r.model
    inputTok := r.usage.inputTokens
    cacheReadTok := r.usage.cacheReadInputTokens
    cacheCreationTok := r.usage.cacheCreationInputTokens
    toolCalls := .of (blockCalls 0 r.blocks) }

/-- The chunk of `message_delta`. -/
def Response.finalChunk (r : Response) : StreamChunk :=
  r.state.finalChunk { stopReason := r.stopReason, outputTokens := r.usage.outputTokens }

namespace Streaming

variable {r : Response} {body : List Char}

variable (s : Streaming floats r body)

theorem messageStop_notMem_pre : .messageStop ∉ s.pre := by
  intro hmem
  have hfilter : .messageStop ∈ s.pre.filter (· ≠ .other) :=
    mem_filter.mpr ⟨hmem, by decide⟩
  rw [s.preEvents, mem_cons] at hfilter
  rcases hfilter with h | h
  · cases h
  · exact messageStop_notMem_blockEvents r.blocks 0 h

theorem run_pre : run {} s.pre = (r.state, (textFragments r.blocks).map r.state.textChunk) := by
  have hbelow : Below 0 [] := fun _ hp => absurd hp not_mem_nil
  rw [← run_filter_other, s.preEvents, run, Event.apply, run_blocks hbelow _ rfl]
  rfl

/-- The lines before the data of the `message_delta` event. -/
def head (s : Streaming floats r body) : List (List Char) :=
  s.before ++ (eventPrefix ++ "message_delta".toList) :: s.mid

theorem lines_eq : LineScanner.lines body = s.head ++ (dataPrefix ++ s.data) :: s.rest := by
  rw [s.lines, head, append_assoc, cons_append]

/-- Up to the data of the `message_delta` event the text has been passed on. -/
theorem streamLoop_head (rest : List (List Char)) :
    streamLoop "" {} (s.head ++ rest) =
      (textFragments r.blocks).map r.state.textChunk ++
        streamLoop "message_delta" r.state rest := by
  obtain ⟨type, hloop⟩ := streamLoop_sent s.sentPre s.messageStop_notMem_pre "" {}
    ((eventPrefix ++ "message_delta".toList) :: (s.mid ++ rest))
  rw [streamLoop_type, streamLoop_fillers s.fillers, s.run_pre] at hloop
  rw [head, append_assoc, cons_append, hloop]

/-- If the scanner gets past the end of the message, all chunks are there. -/
theorem stream_of_short (h : LineScanner.Short maxScanTokenSize (s.head.length + 1) body) :
    stream body = (textFragments r.blocks).map r.state.textChunk ++ [r.finalChunk] := by
  have htake : (LineScanner.lines body).take (s.head.length + 1) =
      s.head ++ [dataPrefix ++ s.data] := by
    rw [s.lines_eq, take_length_add_append]
    rfl
  obtain ⟨seen, hseen⟩ := h.lines_seen
  rw [htake, append_assoc, singleton_append] at hseen
  have hrest : seen <+: s.rest := by
    have hall := LineScanner.scanText_prefix_lines maxScanTokenSize body
    rw [← hseen, s.lines_eq, prefix_append_right_inj, cons_prefix_cons] at hall
    exact hall.2
  -- the scanner may stop after the end of the message, where nothing is left to be passed on
  have hnone (type : String) (st : StreamState) : streamLoop type st seen = [] := by
    obtain ⟨more, hmore⟩ := hrest
    have hfewer := streamLoop_mono type st seen more
    rw [hmore, streamLoop_post s.sentPost s.postEvents] at hfewer
    exact prefix_nil.mp hfewer
  rw [stream, ← hseen, s.streamLoop_head, streamLoop_data (.messageDelta s.delta) (by simp), hnone,
    append_nil]
  rfl

theorem stream_of_not_short (h : ¬ LineScanner.Short maxScanTokenSize (s.head.length + 1) body) :
    stream body <+: (textFragments r.blocks).map r.state.textChunk := by
  have hseen := LineScanner.scanText_prefix_of_not_short h
  rw [s.lines_eq, take_left] at hseen
  obtain ⟨more, hmore⟩ := hseen
  have hfewer := streamLoop_mono "" {} (scanText maxScanTokenSize body) more
  have hhead := s.streamLoop_head []
  rw [append_nil, streamLoop, append_nil] at hhead
  rwa [hmore, hhead] at hfewer

end Streaming

/-! ## When the stream folds to the response -/

theorem finalChunk_usage (r : Response) : r.finalChunk.usage = some (usageFromWire r.usage) := by
  have hprompt : r.usage.inputTokens + r.usage.cacheReadInputTokens +
      r.usage.cacheCreationInputTokens =
      r.usage.inputTokens + r.usage.cacheCreationInputTokens + r.usage.cacheReadInputTokens := by
    omega
  simp only [Response.finalChunk, StreamState.finalChunk, Response.state, usageFromWire, hprompt]

/-- The chunks of a stream fold to the whole response exactly if the scanner gets past the end of
the message and no tool input is streamed without a fragment. -/
theorem stream_folds_iff (now : Int) {r : Response} {body : List Char}
    (s : Streaming floats r body) :
    Folds floats (stream body) (fromWireResponse floats now r.wire) ↔
      LineScanner.Short maxScanTokenSize (s.head.length + 1) body ∧
        ∀ b ∈ r.blocks, b.HasArguments := by
  have hwire : splitContent floats (r.blocks.map Block.wire) =
      (join "" (textFragments r.blocks), wireCalls floats r.blocks) := by
    rw [splitContent, foldl_splitStep_blocks, String.empty_append, nil_append]
  have hcontent : (fromWireResponse floats now r.wire).choices.map (·.message.content) =
      [join "" (textFragments r.blocks)] := by
    simp [fromWireResponse, Response.wire, hwire]
  have hcalls : (fromWireResponse floats now r.wire).choices.map (·.message.toolCalls) =
      [wireCalls floats r.blocks] := by
    simp [fromWireResponse, Response.wire, hwire]
  by_cases hshort : LineScanner.Short maxScanTokenSize (s.head.length + 1) body
  · obtain ⟨htexts, hcollected, hreason, husage⟩ :=
      textChunks_fold r.state.textChunk (fun _ => rfl) (textFragments r.blocks) r.finalChunk rfl
    have hcollected := hcollected.trans (finalize_of (blockCalls_nodup r.blocks 0))
    rw [s.stream_of_short hshort, ← forall₂_sameCall_iff s.valid 0]
    constructor
    · intro h
      obtain ⟨calls, hresp, hsame⟩ := h.toolCalls
      rw [hcalls, singleton_inj] at hresp
      rw [hcollected, ← hresp] at hsame
      exact ⟨hshort, hsame⟩
    · rintro ⟨-, hsame⟩
      exact
        { content := by rw [hcontent, htexts]
          toolCalls := ⟨_, hcalls, by rw [hcollected]; exact hsame⟩
          finishReason := by rw [hreason]; rfl
          usage := husage.trans (finalChunk_usage r) }
  · refine iff_of_false (fun h => ?_) fun h => hshort h.1
    have hnone : (stream body).filterMap (·.usage) = [] := by
      refine filterMap_eq_nil_iff.mpr fun chunk hchunk => ?_
      obtain ⟨t, -, rfl⟩ := mem_map.mp ((s.stream_of_not_short hshort).subset hchunk)
      rfl
    have husage := h.usage
    rw [hnone] at husage
    cases husage

/-! ## A call without arguments -/

/-- The lines of an event. -/
def eventLines (type data : String) : List (List Char) :=
  [eventPrefix ++ type.toList, dataPrefix ++ data.toList, []]

theorem sent_eventLines {data : String} (hdata : Event.Encoded type data.toList ev)
    (h : Sent evs lines) : Sent (ev :: evs) (eventLines type data ++ lines) :=
  .event (forall_mem_nil _) hdata (.filler ⟨rfl, rfl⟩ h)

def inputData (text : String) : String :=
  "\x7b\"delta\":\x7b\"type\":\"input_json_delta\",\"partial_json\":\"" ++ text ++ "\"\x7d\x7d"

def startData : String :=
  "\x7b\"message\":\x7b\"id\":\"i\",\"model\":\"m\",\"usage\":\x7b\"input_tokens\":1\x7d\x7d\x7d"

def blockData : String :=
  "\x7b\"content_block\":\x7b\"type\":\"tool_use\",\"id\":\"t\",\"name\":\"f\"\x7d\x7d"

def endData : String :=
  "\x7b\"delta\":\x7b\"stop_reason\":\"tool_use\"\x7d,\"usage\":\x7b\"output_tokens\":2\x7d\x7d"

def toolResponse (fragments : List String) : Response :=
  { id := "i"
    model := "m"
    blocks := [.tool "t" "f" [] fragments]
    stopReason := "tool_use"
    usage := { inputTokens := 1, outputTokens := 2 } }

def toolLines (fragments : List String) : List (List Char) :=
  eventLines "message_start" startData ++ (eventLines "content_block_start" blockData ++
    fragments.flatMap fun text => eventLines "content_block_delta" (inputData text))

def toolBody (fragments : List String) : List Char :=
  LineScanner.join '\n' (toolLines fragments ++ eventLines "message_delta" endData)

def toolEvents (fragments : List String) : List Event :=
  .messageStart { id := "i", model := "m", usage := { inputTokens := 1 } } ::
    blockEvents 0 (toolResponse fragments).blocks

theorem unmarshal_endData :
    unmarshal StreamMessageDelta.read endData.toList =
      some { stopReason := "tool_use", outputTokens := 2 } := by decide +kernel

def toolStreaming (fragments : List String)
    (lines : LineScanner.lines (toolBody fragments) =
      toolLines fragments ++ eventLines "message_delta" endData)
    (sent : Sent (toolEvents fragments) (toolLines fragments))
    (valid : (Block.tool "t" "f" [] fragments).Valid wholeFloats) :
    Streaming wholeFloats (toolResponse fragments) (toolBody fragments) where
  initialTokens := 0
  pre := toolEvents fragments
  post := []
  before := toolLines fragments
  mid := []
  data := endData.toList
  rest := [[]]
  lines := lines
  sentPre := sent
  preEvents := by simp [toolEvents, toolResponse, blockEvents, Block.events]
  fillers := forall_mem_nil _
  delta := unmarshal_endData
  sentPost := .filler ⟨rfl, rfl⟩ .nil
  postEvents := forall_mem_nil _
  valid := forall_mem_singleton.mpr valid

def braces : String := "\x7b\x7d"

def bracesStreaming : Streaming wholeFloats (toolResponse [braces]) (toolBody [braces]) :=
  toolStreaming [braces] (by decide +kernel)
    (sent_eventLines (.messageStart (by decide +kernel)) <|
      sent_eventLines (.blockStart (by decide +kernel)) <|
        sent_eventLines (.blockDelta (by decide +kernel)) .nil)
    (Or.inl (by decide +kernel))

def bareStreaming : Streaming wholeFloats (toolResponse []) (toolBody []) :=
  toolStreaming [] (by decide +kernel)
    (sent_eventLines (.messageStart (by decide +kernel)) <|
      sent_eventLines (.blockStart (by decide +kernel)) .nil)
    (Or.inr ⟨rfl, rfl⟩)

theorem braces_stream_folds :
    Folds wholeFloats (stream (toolBody [braces]))
      (fromWireResponse wholeFloats 0 (toolResponse [braces]).wire) := by
  refine (stream_folds_iff 0 bracesStreaming).mpr ⟨by decide +kernel, ?_⟩
  exact forall_mem_singleton.mpr (by decide : join "" [braces] ≠ "")

/-- Without a fragment the arguments are no JSON text at all. -/
theorem bare_stream_differs :
    Nonempty (Streaming wholeFloats (toolResponse []) (toolBody [])) ∧
      ((stream (toolBody [])).flatMap (·.delta.toolCalls)).map (·.function.arguments) = [""] ∧
      (splitContent wholeFloats (toolResponse []).wire.content).2.map (·.function.arguments) =
        [braces] ∧
      ¬ Folds wholeFloats (stream (toolBody []))
        (fromWireResponse wholeFloats 0 (toolResponse []).wire) := by
  have hstream : (stream (toolBody [])).flatMap (·.delta.toolCalls) =
      [{ id := "t", type := "function", function := { name := "f" } }] := by
    rw [bareStreaming.stream_of_short (by decide +kernel)]
    rfl
  refine ⟨⟨bareStreaming⟩, by rw [hstream]; rfl, by decide +kernel, fun h => ?_⟩
  obtain ⟨calls, -, hsame⟩ := h.toolCalls
  rw [hstream] at hsame
  cases hsame with
  | cons hcall _ =>
    obtain ⟨object, hobject, -⟩ := hcall.arguments
    exact absurd hobject (by simp [unmarshalObject_empty])

end Ixr.Adapters.Anthropic
