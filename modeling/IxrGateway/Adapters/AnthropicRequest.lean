import IxrGateway.Adapters.Anthropic
import IxrGateway.SchemaCodec

/-!
# What the Anthropic translator does to a conversation

The loop of `toWireRequest` collects tool results until another message comes.
`wireMessages` is the same as a recursion over the messages, with the results
that wait as an argument (`foldl_step`).  The rest is about this recursion:

* the messages can be read back from it, and a run of tool messages becomes one
  user message (`translation_lossless`);
* a breakpoint of the prompt cache changes no content, and for a plain history it
  stands at its end (`breakpoint_at_history`);
* without tools the messages are those of the Bedrock translator
  (`bedrock_translation_agrees`).
-/

namespace Ixr.Adapters.Anthropic

open GoStrings List WireMessage
open JsonText (Floats)

/-! ## The loop as a recursion -/

/-- The block of a tool message. -/
def toolResult (m : Message) : WireContent :=
  { type := "tool_result", toolUseID := m.toolCallID, content := m.content }

/-- The wire message of a message that is no tool result, unless it is a system message. -/
def ownMessage (unmarshal : UnmarshalObject) (m : Message) : List WireMessage :=
  if m.role = "system" then []
  else if m.role = "assistant" ∧ m.toolCalls ≠ [] then
    [{ role := "assistant", content := toolUseBlocks unmarshal m }]
  else [{ role := m.role, content := toWireContentBlocks m }]

/-- The message of the pending results. -/
def flushed (pending : List WireContent) : List WireMessage :=
  if pending = [] then [] else [{ role := "user", content := pending }]

/-- What the messages are translated to. -/
def wireMessages (unmarshal : UnmarshalObject) :
    (pending : List WireContent) → List Message → List WireMessage
  | pending, [] => flushed pending
  | pending, m :: ms =>
    if m.role = "tool" then wireMessages unmarshal (pending ++ [toolResult m]) ms
    else flushed pending ++ ownMessage unmarshal m ++ wireMessages unmarshal [] ms

/-- What the system messages say. -/
def systemContents (ms : List Message) : List String :=
  (ms.filter fun m => m.role = "system").map (·.content)

@[simp] theorem flushed_nil : flushed [] = [] := rfl

theorem Build.flushResults_eq (b : Build) :
    b.flushResults = ⟨b.system, b.msgs ++ flushed b.pendingResults, []⟩ := by
  unfold Build.flushResults flushed
  split
  · next h => simp [← h]
  · rfl

theorem foldl_step (unmarshal : UnmarshalObject) (ms : List Message) (b : Build) :
    (ms.foldl (Build.step unmarshal) b).flushResults =
      ⟨(systemContents ms).foldl appendSystem b.system,
        b.msgs ++ wireMessages unmarshal b.pendingResults ms, []⟩ := by
  induction ms generalizing b with
  | nil => exact b.flushResults_eq
  | cons m ms ih =>
    rw [foldl_cons, ih, Build.step]
    by_cases htool : m.role = "tool"
    · simp [htool, wireMessages, systemContents, toolResult]
    · by_cases hsystem : m.role = "system"
      · simp [Build.flushResults_eq, hsystem, wireMessages, systemContents, ownMessage]
      · by_cases hcalls : m.role = "assistant" ∧ m.toolCalls ≠ []
        · simp [Build.flushResults_eq, hcalls, wireMessages, systemContents, ownMessage]
        · simp [Build.flushResults_eq, htool, hsystem, hcalls, wireMessages, systemContents,
            ownMessage]

/-- The system text of a request. -/
def systemText (ms : List Message) : String := (systemContents ms).foldl appendSystem ""

theorem toWireRequest_messages (unmarshal : UnmarshalObject) (req : RequestEnvelope)
    (historyLen : Int) :
    (toWireRequest unmarshal req historyLen).messages =
      markHistoryCacheBreakpoint (wireMessages unmarshal [] req.messages) historyLen
        req.model := by
  rw [toWireRequest, foldl_step]
  rfl

theorem toWireRequest_system (unmarshal : UnmarshalObject) (req : RequestEnvelope)
    (historyLen : Int) :
    (toWireRequest unmarshal req historyLen).system =
      if systemText req.messages = "" then []
      else [maybeCacheSystemBlock req.model (systemText req.messages)] := by
  rw [toWireRequest, foldl_step]
  rfl

/-! ## Runs of tool messages -/

variable {unmarshal : UnmarshalObject}

variable {m : Message} {before ms : List Message}

theorem wireMessages_tool (h : m.role = "tool") (pending : List WireContent) (ms : List Message) :
    wireMessages unmarshal pending (m :: ms) =
      wireMessages unmarshal (pending ++ [toolResult m]) ms := if_pos h

theorem wireMessages_other (h : m.role ≠ "tool") (pending : List WireContent) (ms : List Message) :
    wireMessages unmarshal pending (m :: ms) =
      flushed pending ++ ownMessage unmarshal m ++ wireMessages unmarshal [] ms := if_neg h

theorem wireMessages_run {run : List Message} (h : ∀ m ∈ run, m.role = "tool")
    (pending : List WireContent) (rest : List Message) :
    wireMessages unmarshal pending (run ++ rest) =
      wireMessages unmarshal (pending ++ run.map toolResult) rest := by
  induction run generalizing pending with
  | nil => simp
  | cons m run ih =>
    obtain ⟨hm, hrun⟩ := forall_mem_cons.mp h
    rw [cons_append, wireMessages_tool hm, ih hrun, map_cons, append_assoc, singleton_append]

/-- The list does not end with a tool message. -/
def EndsRun (ms : List Message) : Prop := ∀ m, ms.getLast? = some m → m.role ≠ "tool"

/-- The list does not start with a tool message. -/
def StartsRun (ms : List Message) : Prop := ∀ m, ms.head? = some m → m.role ≠ "tool"

theorem wireMessages_append (h : EndsRun before) (hne : before ≠ []) (pending : List WireContent)
    (rest : List Message) :
    wireMessages unmarshal pending (before ++ rest) =
      wireMessages unmarshal pending before ++ wireMessages unmarshal [] rest := by
  induction before generalizing pending with
  | nil => exact absurd rfl hne
  | cons m before ih =>
    by_cases hbefore : before = []
    · subst hbefore
      have hm : m.role ≠ "tool" := h m rfl
      rw [singleton_append, wireMessages_other hm, wireMessages_other hm, wireMessages,
        flushed_nil, append_nil]
    · have hends : EndsRun before := by
        intro m' hm'
        exact h m' (by rw [getLast?_cons_of_ne_nil hbefore]; exact hm')
      by_cases hm : m.role = "tool"
      · rw [cons_append, wireMessages_tool hm, wireMessages_tool hm, ih hends hbefore]
      · rw [cons_append, wireMessages_other hm, wireMessages_other hm, ih hends hbefore,
          append_assoc _ (wireMessages unmarshal [] before)]

theorem wireMessages_flush {rest : List Message} (h : StartsRun rest) (pending : List WireContent) :
    wireMessages unmarshal pending rest = flushed pending ++ wireMessages unmarshal [] rest := by
  cases rest with
  | nil => rw [wireMessages, wireMessages, flushed_nil, append_nil]
  | cons m rest =>
    have hm : m.role ≠ "tool" := h m rfl
    rw [wireMessages_other hm, wireMessages_other hm, flushed_nil, nil_append, append_assoc]

/-- A maximal run of tool messages becomes one user message. -/
theorem wireMessages_maximal_run {run after : List Message} (hbefore : EndsRun before)
    (hrun : ∀ m ∈ run, m.role = "tool") (hne : run ≠ []) (hafter : StartsRun after) :
    wireMessages unmarshal [] (before ++ run ++ after) =
      wireMessages unmarshal [] before ++
        [{ role := "user", content := run.map toolResult }] ++ wireMessages unmarshal [] after := by
  have hmiddle : wireMessages unmarshal [] (run ++ after) =
      [{ role := "user", content := run.map toolResult }] ++ wireMessages unmarshal [] after := by
    rw [wireMessages_run hrun, wireMessages_flush hafter, nil_append, flushed,
      if_neg (by simpa using hne)]
  rw [append_assoc, append_assoc, ← hmiddle]
  by_cases hnil : before = []
  · rw [hnil, nil_append, wireMessages, flushed_nil, nil_append]
  · exact wireMessages_append hbefore hnil [] _

/-! ## Reading the messages back -/

/-- What a message says, or the result of a tool call. -/
inductive Turn where
  | said (role text : String) (calls : List (String × String × Option JsonObject))
  | result (callID content : String)
deriving Repr, DecidableEq

/-- What a message says. -/
def Turn.ofMessage (arguments : String → Option JsonObject) (m : Message) : List Turn :=
  if m.role = "system" then []
  else if m.role = "tool" then [.result m.toolCallID m.content]
  else
    [.said m.role m.content
      (if m.role = "assistant" then
        m.toolCalls.map fun tc => (tc.id, tc.function.name, arguments tc.function.arguments)
       else [])]

/-- The text of a text block. -/
def blockText (c : WireContent) : Option String := if c.type = "text" then some c.text else none

/-- The call of a `tool_use` block. -/
def blockCall (c : WireContent) : Option (String × String × Option JsonObject) :=
  if c.type = "tool_use" then some (c.id, c.name, c.input) else none

/-- The result of a `tool_result` block. -/
def blockResult (c : WireContent) : Option Turn :=
  if c.type = "tool_result" then some (.result c.toolUseID c.content) else none

/-- A wire message as it is read: the results in it, or else what it says. -/
def Turn.ofWire (w : WireMessage) : List Turn :=
  match w.content.filterMap blockResult with
  | [] => [.said w.role (join "" (w.content.filterMap blockText)) (w.content.filterMap blockCall)]
  | results => results

theorem ofWire_flushed (results : List Message) :
    (flushed (results.map toolResult)).flatMap Turn.ofWire =
      results.map fun m => .result m.toolCallID m.content := by
  cases results with
  | nil => rfl
  | cons m results =>
    have hread : ((m :: results).map toolResult).filterMap blockResult =
        (m :: results).map fun m => .result m.toolCallID m.content := by
      rw [filterMap_map, ← filterMap_eq_map]
      rfl
    rw [flushed, if_neg (by simp), flatMap_singleton, Turn.ofWire, hread]
    rfl

theorem ofWire_ownMessage (hparts : m.parts = []) (htool : m.role ≠ "tool") :
    (ownMessage unmarshal m).flatMap Turn.ofWire =
      Turn.ofMessage (fun text => (unmarshal text).1) m := by
  unfold ownMessage Turn.ofMessage
  by_cases hsystem : m.role = "system"
  · simp [hsystem]
  · by_cases hcalls : m.role = "assistant" ∧ m.toolCalls ≠ []
    · by_cases htext : m.content = ""
      · simp [hcalls, htext, Turn.ofWire, toolUseBlocks, blockResult, blockText, blockCall, join,
          Function.comp_def]
      · simp [hcalls, htext, Turn.ofWire, toolUseBlocks, blockResult, blockText, blockCall, join,
          Function.comp_def]
    · have hnone : (if m.role = "assistant" then
          m.toolCalls.map fun tc => (tc.id, tc.function.name, (unmarshal tc.function.arguments).1)
          else []) = [] := by
        split
        · next hrole =>
          have hnil : m.toolCalls = [] := by simpa [hrole] using hcalls
          rw [hnil, map_nil]
        · rfl
      simp [hsystem, htool, hcalls, hnone, hparts, Turn.ofWire, toWireContentBlocks, blockResult,
        blockText, blockCall, join]

theorem ofWire_wireMessages (h : ∀ m ∈ ms, m.parts = []) (results : List Message) :
    (wireMessages unmarshal (results.map toolResult) ms).flatMap Turn.ofWire =
      (results.map fun m => .result m.toolCallID m.content) ++
        ms.flatMap (Turn.ofMessage fun text => (unmarshal text).1) := by
  induction ms generalizing results with
  | nil => rw [wireMessages, ofWire_flushed, flatMap_nil, append_nil]
  | cons m ms ih =>
    obtain ⟨hm, hms⟩ := forall_mem_cons.mp h
    by_cases htool : m.role = "tool"
    · have hlater := ih hms (results ++ [m])
      rw [map_append, map_append, map_singleton, map_singleton] at hlater
      rw [wireMessages_tool htool, hlater, flatMap_cons, Turn.ofMessage,
        if_neg (by rw [htool]; decide), if_pos htool, append_assoc]
    · have hlater := ih hms []
      rw [map_nil, map_nil, nil_append] at hlater
      rw [wireMessages_other htool, flatMap_append, flatMap_append, ofWire_flushed,
        ofWire_ownMessage hm htool, hlater, flatMap_cons, append_assoc]

/-- A wire message holds a run of results, or stems from one message. -/
theorem mem_wireMessages {w : WireMessage} (results : List Message)
    (hw : w ∈ wireMessages unmarshal (results.map toolResult) ms) :
    (∃ results : List Message, w = { role := "user", content := results.map toolResult }) ∨
      ∃ m : Message, m.role ≠ "system" ∧ m.role ≠ "tool" ∧
        (w = { role := "assistant", content := toolUseBlocks unmarshal m } ∨
          w = { role := m.role, content := toWireContentBlocks m }) := by
  have hflushed {results : List Message} (hw : w ∈ flushed (results.map toolResult)) :
      ∃ results : List Message, w = { role := "user", content := results.map toolResult } := by
    unfold flushed at hw
    split at hw
    · cases hw
    · exact ⟨results, mem_singleton.mp hw⟩
  induction ms generalizing results with
  | nil => exact .inl (hflushed hw)
  | cons m ms ih =>
    by_cases htool : m.role = "tool"
    · rw [wireMessages_tool htool] at hw
      exact ih (results ++ [m]) (by simpa using hw)
    · rw [wireMessages_other htool, append_assoc, mem_append, mem_append] at hw
      rcases hw with hw | hw | hw
      · exact .inl (hflushed hw)
      · unfold ownMessage at hw
        split at hw
        · cases hw
        · next hsystem =>
          refine .inr ⟨m, hsystem, htool, ?_⟩
          split at hw
          · exact .inl (mem_singleton.mp hw)
          · exact .inr (mem_singleton.mp hw)
      · exact ih [] hw

theorem wireMessages_role :
    ∀ w ∈ wireMessages unmarshal [] ms, w.role ≠ "system" ∧ w.role ≠ "tool" := by
  intro w hw
  obtain ⟨results, rfl⟩ | ⟨m, hsystem, htool, rfl | rfl⟩ := mem_wireMessages [] hw
  · simp
  · simp
  · exact ⟨hsystem, htool⟩

/-! ## The system text -/

theorem foldl_appendSystem (contents : List String) :
    contents.foldl appendSystem "" = join "\n\n" (contents.dropWhile (· = "")) := by
  have hmore (contents : List String) {system : String} (h : system ≠ "") :
      contents.foldl appendSystem system = join "\n\n" (system :: contents) := by
    induction contents generalizing system with
    | nil => simp [join]
    | cons content contents ih =>
      rw [foldl_cons, appendSystem, if_neg h, ih (by simp), join_merge]
  induction contents with
  | nil => rfl
  | cons content contents ih =>
    rw [foldl_cons, appendSystem, if_pos rfl]
    by_cases hempty : content = ""
    · rw [hempty, ih, dropWhile_cons_of_pos (by simp)]
    · rw [hmore contents hempty, dropWhile_cons_of_neg (by simpa using hempty)]

theorem systemText_eq_empty_iff :
    systemText ms = "" ↔ ∀ content ∈ systemContents ms, content = "" := by
  rw [systemText, foldl_appendSystem]
  cases hdrop : (systemContents ms).dropWhile (· = "") with
  | nil =>
    rw [dropWhile_eq_nil_iff] at hdrop
    exact ⟨fun _ content hcontent => by simpa using hdrop content hcontent, fun _ => rfl⟩
  | cons content contents =>
    have hhead := head?_dropWhile_not (fun s : String => decide (s = "")) (systemContents ms)
    rw [hdrop, head?_cons] at hhead
    have hne : content ≠ "" := of_decide_eq_false hhead
    have hmem : content ∈ systemContents ms :=
      (dropWhile_sublist _).subset (hdrop ▸ mem_cons_self)
    exact ⟨fun h => absurd h (join_ne_empty hne), fun h => absurd (h content hmem) hne⟩

@[simp] theorem maybeCacheSystemBlock_type (model system : String) :
    (maybeCacheSystemBlock model system).type = "text" := by
  unfold maybeCacheSystemBlock
  dsimp only
  split <;> rfl

@[simp] theorem maybeCacheSystemBlock_text (model system : String) :
    (maybeCacheSystemBlock model system).text = system := by
  unfold maybeCacheSystemBlock
  dsimp only
  split <;> rfl

/-! ## Breakpoints of the prompt cache -/

/-- A block without its `cache_control`. -/
def WireContent.erase (c : WireContent) : WireContent := { c with cacheControl := none }

/-- A message without the `cache_control` of its blocks. -/
def WireMessage.erase (w : WireMessage) : WireMessage :=
  { w with content := w.content.map WireContent.erase }

/-- A request without any `cache_control`. -/
def WireRequest.erase (r : WireRequest) : WireRequest :=
  { r with
    messages := r.messages.map WireMessage.erase
    system := r.system.map WireContent.erase }

theorem map_modify_of_eq {α β : Type} {f : α → α} {g : α → β} (h : ∀ x, g (f x) = g x)
    (l : List α) (i : Nat) : (l.modify i f).map g = l.map g := by
  induction l generalizing i with
  | nil => simp
  | cons x l ih =>
    cases i with
    | zero => simp [h]
    | succ i => simp [ih]

theorem erase_markLastBlock (w : WireMessage) : (markLastBlock w).erase = w.erase := by
  have hblocks : (markLastBlock w).content.map WireContent.erase =
      w.content.map WireContent.erase := by
    apply map_modify_of_eq
    intro c
    rfl
  rw [WireMessage.erase, hblocks]
  rfl

theorem erase_mark (msgs : List WireMessage) (historyLen : Int) (model : String) :
    (markHistoryCacheBreakpoint msgs historyLen model).map erase =
      msgs.map erase := by
  unfold markHistoryCacheBreakpoint
  split
  · rfl
  · split
    · rfl
    · exact map_modify_of_eq erase_markLastBlock msgs _

theorem erase_toWireRequest (unmarshal : UnmarshalObject) (req : RequestEnvelope)
    (historyLen : Int) :
    (toWireRequest unmarshal req historyLen).messages.map erase =
      (wireMessages unmarshal [] req.messages).map erase := by
  rw [toWireRequest_messages, erase_mark]

theorem toWireRequest_systemBlocks (unmarshal : UnmarshalObject) (req : RequestEnvelope)
    (historyLen : Int) :
    (toWireRequest unmarshal req historyLen).system.map (fun c => (c.type, c.text)) =
      if systemText req.messages = "" then [] else [("text", systemText req.messages)] := by
  rw [toWireRequest_system]
  split
  · rfl
  · rw [map_singleton, maybeCacheSystemBlock_type, maybeCacheSystemBlock_text]

theorem ofWire_map_erase (ms : List WireMessage) :
    (ms.map erase).flatMap Turn.ofWire = ms.flatMap Turn.ofWire := by
  rw [flatMap_map]
  refine flatMap_congr fun w _ => ?_
  simp only [Turn.ofWire, WireMessage.erase, filterMap_map]
  rfl

/-! ## The translation -/

/-- The object that a text stands for. -/
def argumentsObject (floats : Floats ℚ) (text : String) : Option JsonObject :=
  match JsonText.parse text.toList with
  | some (.object fields) => some (readAnyFields (fillNumber floats) fields [])
  | _ => none

theorem unmarshalMap_fst (floats : Floats ℚ) (text : String) :
    (unmarshalMap floats text).1 = argumentsObject floats text := by
  unfold unmarshalMap argumentsObject
  cases JsonText.parse text.toList with
  | none => rfl
  | some v => cases v <;> rfl

/-- The messages of a translated request have no system or tool role and are read back as the
messages that were given.  Each maximal run of tool messages becomes one user message, between the
messages of what stands before and after it.  The system text is that of the system messages. -/
theorem translation_lossless (floats : Floats ℚ) (req : RequestEnvelope)
    (hparts : ∀ m ∈ req.messages, m.parts = []) (historyLen : Int) :
    let wire := toWireRequest (unmarshalMap floats) req historyLen
    let given := Turn.ofMessage (argumentsObject floats)
    (∀ w ∈ wire.messages, w.role ≠ "system" ∧ w.role ≠ "tool") ∧
      wire.messages.flatMap Turn.ofWire = req.messages.flatMap given ∧
      (∀ before run after, req.messages = before ++ run ++ after → EndsRun before →
        (∀ m ∈ run, m.role = "tool") → run ≠ [] → StartsRun after →
        ∃ front back, wire.messages.map erase =
            front ++ [{ role := "user", content := run.map toolResult }] ++ back ∧
          front.flatMap Turn.ofWire = before.flatMap given ∧
          back.flatMap Turn.ofWire = after.flatMap given) ∧
      wire.system.map (fun c => (c.type, c.text)) =
        if ∀ content ∈ systemContents req.messages, content = "" then []
        else [("text", join "\n\n" ((systemContents req.messages).dropWhile (· = "")))] := by
  intro wire given
  have hgiven : given = Turn.ofMessage fun text => (unmarshalMap floats text).1 := by
    simp only [given, unmarshalMap_fst]
  have herased := erase_toWireRequest (unmarshalMap floats) req historyLen
  have hback {ms : List Message} (h : ∀ m ∈ ms, m.parts = []) :
      (wireMessages (unmarshalMap floats) [] ms).flatMap Turn.ofWire = ms.flatMap given := by
    rw [hgiven]
    exact ofWire_wireMessages h []
  refine ⟨fun w hw => ?_, ?_, ?_, ?_⟩
  · -- erasing keeps the role
    have hmem := mem_map_of_mem (f := erase) hw
    rw [herased] at hmem
    obtain ⟨w', hw', heq⟩ := mem_map.mp hmem
    have hrole : w'.role = w.role := by
      show w'.erase.role = w.erase.role
      rw [heq]
    rw [← hrole]
    exact wireMessages_role w' hw'
  · rw [← ofWire_map_erase, herased, ofWire_map_erase, hback hparts]
  · intro before run after hsplit hends hrun hne hstarts
    rw [hsplit] at hparts
    refine ⟨(wireMessages (unmarshalMap floats) [] before).map erase,
      (wireMessages (unmarshalMap floats) [] after).map erase, ?_, ?_, ?_⟩
    · have hrunErase : (run.map toolResult).map WireContent.erase = run.map toolResult := by
        rw [map_map]
        rfl
      rw [herased, hsplit, wireMessages_maximal_run hends hrun hne hstarts, map_append,
        map_append, map_singleton, erase, hrunErase]
    · rw [ofWire_map_erase, hback fun m hm => hparts m (by simp [hm])]
    · rw [ofWire_map_erase, hback fun m hm => hparts m (by simp [hm])]
  · rw [toWireRequest_systemBlocks, ← foldl_appendSystem, ← systemText]
    exact if_congr systemText_eq_empty_iff rfl rfl

def weatherTalk : RequestEnvelope where
  model := "claude"
  messages :=
    [{ role := "system", content := "Be brief." },
     { role := "user", content := "Weather?" },
     { role := "assistant", toolCalls :=
        [{ id := "a", type := "function", function := { name := "sky", arguments := "\x7b\x7d" } },
         { id := "b", type := "function", function := { name := "sea", arguments := "no" } }] },
     { role := "tool", toolCallID := "a", content := "blue" },
     { role := "tool", toolCallID := "b", content := "calm" },
     { role := "user", content := "Thanks." }]

/-- The two results are one user message. -/
theorem weatherTalk_results_merged :
    ∃ front back, (toWireRequest (unmarshalMap wholeFloats) weatherTalk 0).messages.map
        erase =
      front ++
        [{ role := "user"
           content :=
             [{ type := "tool_result", toolUseID := "a", content := "blue" },
              { type := "tool_result", toolUseID := "b", content := "calm" }] }] ++ back := by
  obtain ⟨-, -, hruns, -⟩ := translation_lossless wholeFloats weatherTalk (by decide) 0
  obtain ⟨front, back, hmessages, -, -⟩ := hruns (weatherTalk.messages.take 3)
    (weatherTalk.messages.drop 3 |>.take 2) (weatherTalk.messages.drop 5) (by decide)
    (by simp [EndsRun, weatherTalk]) (by decide) (by decide) (by simp [StartsRun, weatherTalk])
  exact ⟨front, back, hmessages⟩

/-! ## The history -/

/-- No block has a breakpoint. -/
def Unmarked (blocks : List WireContent) : Prop := ∀ c ∈ blocks, c.cacheControl = none

theorem map_erase_of_unmarked {blocks : List WireContent} (h : Unmarked blocks) :
    blocks.map WireContent.erase = blocks := by
  refine (map_congr_left fun c hc => ?_).trans (map_id _)
  rw [WireContent.erase, ← h c hc]
  rfl

theorem toWireContentBlocks_plain {c : WireContent} (hc : c ∈ toWireContentBlocks m) :
    c.cacheControl = none ∧ c.type ≠ "tool_use" := by
  unfold toWireContentBlocks at hc
  split at hc
  · rw [mem_singleton.mp hc]
    simp
  · obtain ⟨p, -, hp⟩ := mem_filterMap.mp hc
    unfold toPartBlock at hp
    split at hp
    · cases hp
      simp
    · split at hp
      · obtain ⟨image, -, rfl⟩ := Option.map_eq_some_iff.mp hp
        unfold toImageBlock
        split <;> simp
      · cases hp

theorem toWireContentBlocks_unmarked (m : Message) : Unmarked (toWireContentBlocks m) :=
  fun _ hc => (toWireContentBlocks_plain hc).1

theorem toolUseBlocks_unmarked (m : Message) : Unmarked (toolUseBlocks unmarshal m) := by
  intro c hc
  rcases mem_append.mp hc with hc | hc
  · split at hc
    · cases hc
    · rw [mem_singleton.mp hc]
  · obtain ⟨tc, -, rfl⟩ := mem_map.mp hc
    rfl

theorem wireMessages_unmarked (ms : List Message) :
    ∀ w ∈ wireMessages unmarshal [] ms, Unmarked w.content := by
  intro w hw
  obtain ⟨results, rfl⟩ | ⟨m, -, -, rfl | rfl⟩ := mem_wireMessages [] hw
  · intro c hc
    obtain ⟨m, -, rfl⟩ := mem_map.mp hc
    rfl
  · exact toolUseBlocks_unmarked m
  · exact toWireContentBlocks_unmarked m

/-- How many breakpoints there are. -/
def breakpoints (msgs : List WireMessage) : Nat :=
  (msgs.flatMap (·.content)).countP fun c => c.cacheControl.isSome

theorem breakpoints_cons (w : WireMessage) (msgs : List WireMessage) :
    breakpoints (w :: msgs) =
      (w.content.countP fun c => c.cacheControl.isSome) + breakpoints msgs := by
  rw [breakpoints, flatMap_cons, countP_append, breakpoints]

theorem breakpoints_eq_zero {msgs : List WireMessage} (h : ∀ w ∈ msgs, Unmarked w.content) :
    breakpoints msgs = 0 := by
  apply countP_eq_zero.mpr
  intro c hc
  obtain ⟨w, hw, hc⟩ := mem_flatMap.mp hc
  rw [h w hw c hc]
  decide

theorem countP_modify_le {α : Type} (p : α → Bool) (f : α → α) (l : List α) (i : Nat) :
    (l.modify i f).countP p ≤ l.countP p + 1 := by
  induction l generalizing i with
  | nil => simp
  | cons x l ih =>
    cases i with
    | zero =>
      rw [modify_zero_cons, countP_cons, countP_cons]
      split <;> split <;> omega
    | succ i =>
      have := ih i
      rw [modify_succ_cons, countP_cons, countP_cons]
      omega

theorem breakpoints_modify_le (msgs : List WireMessage) (i : Nat) :
    breakpoints (msgs.modify i markLastBlock) ≤ breakpoints msgs + 1 := by
  induction msgs generalizing i with
  | nil => simp [breakpoints]
  | cons w msgs ih =>
    cases i with
    | zero =>
      have hlast : ((markLastBlock w).content.countP fun c => c.cacheControl.isSome) ≤
          (w.content.countP fun c => c.cacheControl.isSome) + 1 := countP_modify_le _ _ _ _
      rw [modify_zero_cons, breakpoints_cons, breakpoints_cons]
      omega
    | succ i =>
      have := ih i
      rw [modify_succ_cons, breakpoints_cons, breakpoints_cons]
      omega

theorem breakpoints_mark_le {msgs : List WireMessage} (h : ∀ w ∈ msgs, Unmarked w.content)
    (historyLen : Int) (model : String) :
    breakpoints (markHistoryCacheBreakpoint msgs historyLen model) ≤ 1 := by
  have hnone := breakpoints_eq_zero h
  unfold markHistoryCacheBreakpoint
  split
  · omega
  · split
    · omega
    · have := breakpoints_modify_le msgs (historyLen.toNat - 1)
      omega

/-- A message of text alone. -/
structure Plain (m : Message) : Prop where
  role : m.role = "user" ∨ m.role = "assistant"
  toolCalls : m.toolCalls = []
  parts : m.parts = []

/-- The translation of a plain message. -/
def plainMessage (m : Message) : WireMessage :=
  { role := m.role, content := [{ type := "text", text := m.content }] }

theorem wireMessages_plain (h : ∀ m ∈ before, Plain m) (rest : List Message) :
    wireMessages unmarshal [] (before ++ rest) =
      before.map plainMessage ++ wireMessages unmarshal [] rest := by
  induction before with
  | nil => rfl
  | cons m before ih =>
    obtain ⟨hm, hbefore⟩ := forall_mem_cons.mp h
    have htool : m.role ≠ "tool" := by rcases hm.role with h | h <;> simp [h]
    have hsystem : m.role ≠ "system" := by rcases hm.role with h | h <;> simp [h]
    have hown : ownMessage unmarshal m = [plainMessage m] := by
      rw [ownMessage, if_neg hsystem, if_neg fun h => h.2 hm.toolCalls, toWireContentBlocks,
        if_pos hm.parts]
      rfl
    rw [cons_append, wireMessages_other htool, ih hbefore, hown, flushed_nil]
    rfl

theorem totalChars_plain (ms : List Message) :
    totalChars (ms.map plainMessage) = (ms.map fun m => len m.content).sum := by
  rw [totalChars, map_map]
  congr 2

/-- Apart from its breakpoints, a translated request does not depend on the length of the history.
At most one block of its messages is a breakpoint.  If the history is plain text that is long
enough for the cache, this is the last block of its last message. -/
theorem breakpoint_at_history (unmarshal : UnmarshalObject) (req : RequestEnvelope)
    (historyLen : Int) :
    let wire := toWireRequest unmarshal req historyLen
    wire.erase = (toWireRequest unmarshal req 0).erase ∧ breakpoints wire.messages ≤ 1 ∧
      ∀ before m rest, req.messages = before ++ [m] ++ rest →
        historyLen = (before ++ [m]).length → (∀ m' ∈ before ++ [m], Plain m') →
        minCacheableTokens req.model ≤ ((before ++ [m]).map fun m' => len m'.content).sum / 4 →
        wire.messages[before.length]? =
          some
            { role := m.role
              content := [{ type := "text", text := m.content, cacheControl := ephemeral }] } := by
  intro wire
  refine ⟨?_, ?_, ?_⟩
  · rw [WireRequest.erase, WireRequest.erase, erase_toWireRequest, erase_toWireRequest]
    rfl
  · rw [toWireRequest_messages]
    exact breakpoints_mark_le (wireMessages_unmarked _) _ _
  · intro before m rest hsplit hlength hplain hlong
    have hmsgs : wireMessages unmarshal [] req.messages =
        (before ++ [m]).map plainMessage ++ wireMessages unmarshal [] rest := by
      rw [hsplit, wireMessages_plain hplain]
    have htake : (wireMessages unmarshal [] req.messages).take historyLen.toNat =
        (before ++ [m]).map plainMessage := by
      rw [hmsgs, hlength, Int.toNat_natCast, take_left' (length_map _)]
    rw [toWireRequest_messages, markHistoryCacheBreakpoint, if_neg, htake, totalChars_plain,
      if_neg (not_lt.mpr hlong), hmsgs, hlength]
    · simp [plainMessage, markLastBlock]
    · rw [hmsgs, hlength]
      simp

def longQuestion : Message := { role := "user", content := String.ofList (.replicate 4096 'a') }

def shortAnswer : Message := { role := "assistant", content := "Yes." }

def longTalk : RequestEnvelope where
  model := "claude"
  messages := [longQuestion, shortAnswer, { role := "user", content := "Why?" }]

theorem len_longQuestion : len longQuestion.content = 4096 := by
  have hlen (n : Nat) : String.utf8Len (replicate n 'a') = n := by
    induction n with
    | zero => rfl
    | succ n ih =>
      rw [replicate_succ, String.utf8Len_cons, ih]
      rfl
  rw [len, longQuestion, String.utf8ByteSize_ofList, hlen]
  rfl

/-- The answer is the breakpoint. -/
theorem longTalk_answer_marked :
    (toWireRequest (unmarshalMap wholeFloats) longTalk 2).messages[1]? =
      some { role := "assistant"
             content := [{ type := "text", text := "Yes.", cacheControl := ephemeral }] } := by
  obtain ⟨-, -, hmarked⟩ := breakpoint_at_history (unmarshalMap wholeFloats) longTalk 2
  refine hmarked [longQuestion] shortAnswer [{ role := "user", content := "Why?" }] rfl rfl ?_ ?_
  · intro m hm
    simp only [singleton_append, mem_cons, not_mem_nil, or_false] at hm
    rcases hm with rfl | rfl
    · exact ⟨.inl rfl, rfl, rfl⟩
    · exact ⟨.inr rfl, rfl, rfl⟩
  · simp only [singleton_append, map_cons, map_nil, sum_cons, sum_nil, len_longQuestion]
    decide

/-! ## The Bedrock translator -/

/-- A Bedrock block as one of Anthropic. -/
def ofContentBlock (c : Bedrock.ContentBlock) : WireContent where
  type := c.type
  text := c.text
  source := c.source.map fun s =>
    { type := s.type, mediaType := s.mediaType, data := s.data, url := s.url }

/-- A Bedrock message as one of Anthropic. -/
def ofBedrockMessage (w : Bedrock.BedrockMessage) : WireMessage :=
  { role := w.role, content := w.content.map ofContentBlock }

theorem ofContentBlock_toImageBlock (url : String) :
    ofContentBlock (Bedrock.toImageBlock url) = toImageBlock url := by
  unfold Bedrock.toImageBlock toImageBlock
  split
  · rfl
  · rfl

theorem ofContentBlock_toPartBlock (p : ContentPart) :
    (Bedrock.toPartBlock p).map ofContentBlock = toPartBlock p := by
  unfold Bedrock.toPartBlock toPartBlock
  split
  · rfl
  · split
    · rw [Option.map_map]
      congr 1
      funext image
      exact ofContentBlock_toImageBlock image.url
    · rfl

theorem ofContentBlock_toContentBlocks (m : Message) :
    (Bedrock.toContentBlocks m).map ofContentBlock = toWireContentBlocks m := by
  unfold Bedrock.toContentBlocks toWireContentBlocks
  split
  · rfl
  · rw [map_filterMap]
    exact filterMap_congr fun p _ => ofContentBlock_toPartBlock p

theorem foldl_buildStep (ms : List Message) (b : String × List Bedrock.BedrockMessage) :
    ms.foldl Bedrock.buildStep b =
      ((systemContents ms).foldl appendSystem b.1,
        b.2 ++ (ms.filter fun m => m.role ≠ "system").map fun m =>
          { role := m.role, content := Bedrock.toContentBlocks m }) := by
  induction ms generalizing b with
  | nil => simp [systemContents]
  | cons m ms ih =>
    rw [foldl_cons, ih, Bedrock.buildStep]
    by_cases hsystem : m.role = "system"
    · simp [hsystem, systemContents]
    · simp [hsystem, systemContents]

theorem wireMessages_without_tools (h : ∀ m ∈ ms, m.role ≠ "tool" ∧ m.toolCalls = []) :
    wireMessages unmarshal [] ms =
      (ms.filter fun m => m.role ≠ "system").map fun m =>
        { role := m.role, content := toWireContentBlocks m } := by
  induction ms with
  | nil => rfl
  | cons m ms ih =>
    obtain ⟨⟨htool, hcalls⟩, hms⟩ := forall_mem_cons.mp h
    rw [wireMessages_other htool, ih hms, flushed_nil, nil_append, ownMessage]
    by_cases hsystem : m.role = "system"
    · simp [hsystem]
    · simp [hsystem, hcalls]

/-- Without tool messages and tool calls, the two translators make the same messages and the same
system text. -/
theorem bedrock_translation_agrees (unmarshal : UnmarshalObject) (req : RequestEnvelope)
    (h : ∀ m ∈ req.messages, m.role ≠ "tool" ∧ m.toolCalls = []) (historyLen : Int) :
    let wire := (toWireRequest unmarshal req historyLen).erase
    (Bedrock.buildBody req).messages.map ofBedrockMessage = wire.messages ∧
      (Bedrock.buildBody req).system = join "" (wire.system.map (·.text)) := by
  intro wire
  have hmessages : wire.messages =
      (wireMessages unmarshal [] req.messages).map WireMessage.erase :=
    erase_toWireRequest unmarshal req historyLen
  have hsystem : wire.system.map (·.text) =
      if systemText req.messages = "" then [] else [systemText req.messages] := by
    have htexts : wire.system.map (·.text) =
        ((toWireRequest unmarshal req historyLen).system.map fun c => (c.type, c.text)).map
          Prod.snd := by
      show (map WireContent.erase _).map (·.text) = _
      rw [map_map, map_map]
      rfl
    rw [htexts, toWireRequest_systemBlocks]
    split <;> rfl
  rw [Bedrock.buildBody, foldl_buildStep, hmessages, wireMessages_without_tools h, hsystem]
  constructor
  · rw [nil_append, map_map, map_map]
    refine map_congr_left fun m _ => ?_
    show ofBedrockMessage _ = WireMessage.erase _
    rw [ofBedrockMessage, WireMessage.erase, ofContentBlock_toContentBlocks,
      map_erase_of_unmarked (toWireContentBlocks_unmarked m)]
  · rw [← systemText]
    split
    · next hempty => simpa [join] using hempty
    · simp [join]

def imageTalk : RequestEnvelope where
  model := "claude"
  messages :=
    [{ role := "system", content := "Be brief." },
     { role := "user", parts :=
        [{ type := "text", text := "What is this?" },
         { type := "image_url", imageURL := some { url := "data:image/png;base64,AAAA" } }] },
     { role := "assistant", content := "A cat." }]

theorem imageTalk_agrees :
    (Bedrock.buildBody imageTalk).messages.map ofBedrockMessage =
      (toWireRequest (unmarshalMap wholeFloats) imageTalk 2).erase.messages :=
  (bedrock_translation_agrees (unmarshalMap wholeFloats) imageTalk (by decide) 2).1

end Ixr.Adapters.Anthropic
