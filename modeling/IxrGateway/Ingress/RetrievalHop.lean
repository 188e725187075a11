import IxrGateway.Ingress.CallPaths
import IxrGateway.SchemaCodec

/-!
# The retrieval hop

When the first response calls `ixr_retrieve`, the request is sent once more, with
the response's message and the restored content at its end.  The response to it
goes to the caller, with the tokens of the first one added to its own.

Two things are left out.  Only the call that is resolved gets a tool message, so
the conversation is well formed just if there are no other calls
(`retrieval_hop_answers_iff`).  And only three of the five token counts are
added, so the cache tokens of the first hop are billed at the rate of ordinary
ones (`retrieval_billed_iff`).
-/

namespace Ixr.Ingress

open Interaction Routing Cost Retrieval

/-! ## Runs of the hop -/

/-- The tool message of the hop. -/
def restored (call : ToolCall) (content : Option String) : Message where
  role := "tool"
  toolCallID := call.id
  content := content.getD ("This content is no longer available (expired or evicted). " ++
    "Answer with what you already have.")

/-- The usage of both calls. -/
def mergedUsage (first second : Usage) : Usage :=
  { second with
    promptTokens := second.promptTokens + first.promptTokens
    completionTokens := second.completionTokens + first.completionTokens
    totalTokens := second.totalTokens + first.totalTokens }

section

variable {h : ChatHandler} {p : Provider} {req : RequestEnvelope} {first : ResponseEnvelope}
  {choice : Choice} {choices : List Choice} {call : ToolCall} {id : String}
  {t : Trace effects} {out : Option ResponseEnvelope × Option GoError}

theorem resolveRetrieval_runs (hchoices : first.choices = choice :: choices)
    (hcall : findCall choice.message.toolCalls = some call)
    (hid : parseArgs h.unmarshalID call.function.arguments = some id)
    (hrun : Runs (h.resolveRetrieval p req (some first)) t out) :
    ∃ content res,
      t = [⟨.retrievalGet id, content⟩,
        ⟨.chat p { req with messages :=
          req.messages ++ [choice.message, restored call content] }, res⟩] ∧
      ∀ second, res = .ok second →
        out = (some { second with usage := mergedUsage first.usage second.usage }, none) := by
  simp only [ChatHandler.resolveRetrieval, hchoices, hcall, hid] at hrun
  obtain ⟨content, t₁, rfl, hchat⟩ := runs_perform_bind_iff.mp hrun
  obtain ⟨res, t₂, rfl, hret⟩ := runs_perform_bind_iff.mp hchat
  cases res with
  | error e =>
    obtain ⟨rfl, rfl⟩ := runs_ret_iff.mp hret
    exact ⟨content, .error e, rfl, fun _ hok => by cases hok⟩
  | ok second =>
    obtain ⟨rfl, rfl⟩ := runs_ret_iff.mp hret
    refine ⟨content, .ok second, rfl, fun _ hok => ?_⟩
    cases hok
    rfl

/-! ## Answers to tool calls -/

/-- The results for a call. -/
def answerCount (messages : List Message) (call : ToolCall) : Nat :=
  messages.countP fun m => m.role = "tool" ∧ m.toolCallID = call.id

theorem all_same_id_iff {calls : List ToolCall} (hmem : call ∈ calls)
    (hnodup : (calls.map (·.id)).Nodup) : (∀ c ∈ calls, c.id = call.id) ↔ calls = [call] := by
  constructor
  · intro hsame
    have hids : calls.map (·.id) = List.replicate calls.length call.id :=
      List.eq_replicate_iff.mpr ⟨List.length_map .., by simpa using hsame⟩
    rw [hids, List.nodup_replicate] at hnodup
    have hpos := List.length_pos_of_mem hmem
    obtain ⟨c, hone⟩ := List.length_eq_one_iff.mp (by omega : calls.length = 1)
    rw [hone, List.mem_singleton] at hmem
    rw [hone, hmem]
  · rintro rfl
    simp

/-- On the second hop the replayed message is followed by one answer.  It answers every call of
the message just if they all have the id of the call that was resolved, and if ids are not used
twice, just if there is no other call. -/
theorem retrieval_hop_answers_iff (hchoices : first.choices = choice :: choices)
    (hcall : findCall choice.message.toolCalls = some call)
    (hid : parseArgs h.unmarshalID call.function.arguments = some id)
    (hrun : Runs (h.resolveRetrieval p req (some first)) t out) :
    ∃ sent res answers, ⟨.chat p sent, res⟩ ∈ t ∧
      sent.messages = req.messages ++ choice.message :: answers ∧
      ((∀ c ∈ choice.message.toolCalls, answerCount answers c = 1) ↔
        ∀ c ∈ choice.message.toolCalls, c.id = call.id) ∧
      ((choice.message.toolCalls.map (·.id)).Nodup →
        ((∀ c ∈ choice.message.toolCalls, answerCount answers c = 1) ↔
          choice.message.toolCalls = [call])) := by
  obtain ⟨content, res, rfl, -⟩ := resolveRetrieval_runs hchoices hcall hid hrun
  have hall : (∀ c ∈ choice.message.toolCalls, answerCount [restored call content] c = 1) ↔
      ∀ c ∈ choice.message.toolCalls, c.id = call.id :=
    forall₂_congr fun c _ => by
      simp [answerCount, restored, List.countP_cons, eq_comm]
  have hmem : call ∈ choice.message.toolCalls := List.mem_of_find?_eq_some hcall
  exact ⟨_, res, [restored call content], by simp, rfl, hall,
    fun hnodup => hall.trans (all_same_id_iff hmem hnodup)⟩

/-! ## Prices -/

/-- What a cached token costs more. -/
def cachedPremium (card : ModelCard) : ℚ :=
  (if card.cachedInputUSDPer1M = 0 then card.inputUSDPer1M else card.cachedInputUSDPer1M) -
    card.inputUSDPer1M

/-- What a token written costs more. -/
def writePremium (card : ModelCard) : ℚ :=
  (if card.cacheWriteUSDPer1M = 0 then card.inputUSDPer1M else card.cacheWriteUSDPer1M) -
    card.inputUSDPer1M

/-- What the cache tokens cost more. -/
def premium (card : ModelCard) (cacheRead cacheCreation : Int) : ℚ :=
  cacheRead * cachedPremium card + cacheCreation * writePremium card

/-- The premium that `ForUsage` charges.  It charges none if the cache tokens are more than the
prompt's. -/
def chargedPremium (card : ModelCard) (usage : Usage) : ℚ :=
  if usage.promptTokens - usage.cacheReadInputTokens - usage.cacheCreationInputTokens < 0 then 0
  else premium card usage.cacheReadInputTokens usage.cacheCreationInputTokens

variable {model : String} {card : ModelCard}

theorem forUsage_input (hcard : lookup model = some card) (usage : Usage) :
    (forUsage model usage).inputUSD =
      (usage.promptTokens * card.inputUSDPer1M + chargedPremium card usage) / 1000000 := by
  simp only [forUsage, hcard, chargedPremium, premium, cachedPremium, writePremium]
  by_cases hmiscounted :
      usage.promptTokens - usage.cacheReadInputTokens - usage.cacheCreationInputTokens < 0
  · simp only [if_pos hmiscounted]
    push_cast
    ring
  · simp only [if_neg hmiscounted]
    push_cast
    ring

theorem forUsage_output (hcard : lookup model = some card) (usage : Usage) :
    (forUsage model usage).outputUSD =
      usage.completionTokens / 1000000 * card.outputUSDPer1M := by
  simp only [forUsage, hcard]

theorem forUsage_total (model : String) (usage : Usage) :
    (forUsage model usage).totalUSD =
      (forUsage model usage).inputUSD + (forUsage model usage).outputUSD := by
  unfold forUsage
  split <;> simp

/-- The premium of both hops that is not charged for the merged usage.  It is that of the first
hop, unless the first hop's prompt tokens are negative and make those of both look miscounted. -/
def lostPremium (card : ModelCard) (first second : Usage) : ℚ :=
  if second.promptTokens + first.promptTokens - second.cacheReadInputTokens -
      second.cacheCreationInputTokens < 0 then
    premium card (first.cacheReadInputTokens + second.cacheReadInputTokens)
      (first.cacheCreationInputTokens + second.cacheCreationInputTokens)
  else premium card first.cacheReadInputTokens first.cacheCreationInputTokens

/-- Cache tokens are prompt tokens. -/
def Usage.CacheWithinPrompt (usage : Usage) : Prop :=
  usage.cacheReadInputTokens + usage.cacheCreationInputTokens ≤ usage.promptTokens

theorem chargedPremium_of_within {usage : Usage} (hwithin : Usage.CacheWithinPrompt usage) :
    chargedPremium card usage =
      premium card usage.cacheReadInputTokens usage.cacheCreationInputTokens := by
  unfold Usage.CacheWithinPrompt at hwithin
  rw [chargedPremium, if_neg (by omega)]

theorem chargedPremium_add {first second : Usage} (hfirst : Usage.CacheWithinPrompt first)
    (hsecond : Usage.CacheWithinPrompt second) :
    chargedPremium card first + chargedPremium card second =
      chargedPremium card (mergedUsage first second) + lostPremium card first second := by
  rw [chargedPremium_of_within hfirst, chargedPremium_of_within hsecond, chargedPremium,
    lostPremium]
  simp only [mergedUsage, premium]
  by_cases hmiscounted : second.promptTokens + first.promptTokens - second.cacheReadInputTokens -
      second.cacheCreationInputTokens < 0
  · simp only [hmiscounted, if_true]
    push_cast
    ring
  · simp only [hmiscounted, if_false]
    ring

/-- The sum of two costs. -/
def addCost (a b : CostBreakdown) : CostBreakdown where
  inputUSD := a.inputUSD + b.inputUSD
  outputUSD := a.outputUSD + b.outputUSD
  totalUSD := a.totalUSD + b.totalUSD

theorem forUsage_mergedUsage_iff {first second : Usage} (hcard : lookup model = some card)
    (hfirst : Usage.CacheWithinPrompt first) (hsecond : Usage.CacheWithinPrompt second) :
    forUsage model (mergedUsage first second) =
      addCost (forUsage model first) (forUsage model second) ↔
      lostPremium card first second = 0 := by
  have hinput : (forUsage model (mergedUsage first second)).inputUSD +
      lostPremium card first second / 1000000 =
      (forUsage model first).inputUSD + (forUsage model second).inputUSD := by
    have hadd : chargedPremium card first + chargedPremium card second = _ :=
      chargedPremium_add hfirst hsecond
    have htokens : (mergedUsage first second).promptTokens =
        second.promptTokens + first.promptTokens := rfl
    rw [forUsage_input hcard, forUsage_input hcard, forUsage_input hcard, htokens]
    push_cast
    linarith
  have houtput : (forUsage model (mergedUsage first second)).outputUSD =
      (forUsage model first).outputUSD + (forUsage model second).outputUSD := by
    rw [forUsage_output hcard, forUsage_output hcard, forUsage_output hcard]
    simp only [mergedUsage]
    push_cast
    ring
  have htotal := forUsage_total model (mergedUsage first second)
  rw [houtput] at htotal
  constructor
  · intro heq
    rw [heq, addCost] at hinput
    simpa using hinput
  · intro hlost
    rw [hlost, zero_div, add_zero] at hinput
    rw [hinput] at htotal
    generalize forUsage model (mergedUsage first second) = merged at hinput houtput htotal
    obtain ⟨input, output, total⟩ := merged
    rw [addCost, forUsage_total model first, forUsage_total model second, CostBreakdown.mk.injEq]
    exact ⟨hinput, houtput, by linarith⟩

/-- The response that goes to the caller is billed for both hops just if the cache tokens of the
first hop cost what other tokens cost. -/
theorem retrieval_billed_iff {model : String} {card : ModelCard} {sent : RequestEnvelope}
    {second : ResponseEnvelope} (hcard : lookup model = some card)
    (hchoices : first.choices = choice :: choices)
    (hcall : findCall choice.message.toolCalls = some call)
    (hid : parseArgs h.unmarshalID call.function.arguments = some id)
    (hrun : Runs (h.resolveRetrieval p req (some first)) t out)
    (hsecond : ⟨.chat p sent, .ok second⟩ ∈ t)
    (hwithin₁ : first.usage.cacheReadInputTokens + first.usage.cacheCreationInputTokens ≤
      first.usage.promptTokens)
    (hwithin₂ : second.usage.cacheReadInputTokens + second.usage.cacheCreationInputTokens ≤
      second.usage.promptTokens) :
    ∃ final, out = (some final, none) ∧
      (forUsage model final.usage =
        addCost (forUsage model first.usage) (forUsage model second.usage) ↔
        lostPremium card first.usage second.usage = 0) := by
  obtain ⟨content, res, rfl, hout⟩ := resolveRetrieval_runs hchoices hcall hid hrun
  have hres : res = .ok second := by
    obtain heq | heq := List.mem_pair.mp hsecond
    · cases heq
    · cases heq
      rfl
  exact ⟨_, hout second hres, forUsage_mergedUsage_iff hcard hwithin₁ hwithin₂⟩

end

/-! ## Responses that retrieve -/

/-- `json.Unmarshal` of the arguments into a structure with the field `id`. -/
def unmarshalID (text : String) : Option String :=
  JsonText.unmarshal (fun vs => (JsonText.objects vs).bind fun fields =>
    JsonText.string (JsonText.given "id" fields)) text.toList

def retrievingHandler : ChatHandler where
  router := fun _ => .ok ⟨0, "anthropic"⟩
  hasRetrieval := true
  unmarshalID := unmarshalID

def retrieveCall : ToolCall where
  id := "call_1"
  type := "function"
  function := { name := "ixr_retrieve", arguments := "\x7b\"id\":\"ret_1\"\x7d" }

def weatherCall : ToolCall where
  id := "call_2"
  type := "function"
  function := { name := "get_weather", arguments := "\x7b\x7d" }

def callingResponse (calls : List ToolCall) (usage : Usage) : ResponseEnvelope where
  choices := [{ message := { role := "assistant", toolCalls := calls } }]
  usage := usage

def hopTrace (req : RequestEnvelope) (calls : List ToolCall) (second : ResponseEnvelope) :
    Trace effects :=
  [⟨.retrievalGet "ret_1", some "the content"⟩,
    ⟨.chat ⟨0, "anthropic"⟩ { req with messages := req.messages ++
      [{ role := "assistant", toolCalls := calls }, restored retrieveCall (some "the content")] },
      .ok second⟩]

theorem parseArgs_retrieveCall :
    parseArgs retrievingHandler.unmarshalID retrieveCall.function.arguments =
      some "ret_1" := by
  decide +kernel

theorem runs_hopTrace (req : RequestEnvelope) {calls : List ToolCall} (usage : Usage)
    (second : ResponseEnvelope) (hcalls : findCall calls = some retrieveCall) :
    Runs (retrievingHandler.resolveRetrieval ⟨0, "anthropic"⟩ req
        (some (callingResponse calls usage)))
      (hopTrace req calls second)
      (some { second with usage := mergedUsage usage second.usage }, none) := by
  simp only [ChatHandler.resolveRetrieval, callingResponse, hcalls, parseArgs_retrieveCall]
  exact .ask (.ask .ret)

/-- A retrieval call that is alone is answered. -/
theorem lone_retrieval_answered :
    ∃ sent res answers,
      ⟨.chat ⟨0, "anthropic"⟩ sent, res⟩ ∈ hopTrace {} [retrieveCall] {} ∧
      sent.messages = [] ++ { role := "assistant", toolCalls := [retrieveCall] } :: answers ∧
      ∀ c ∈ [retrieveCall], answerCount answers c = 1 := by
  have hcalls : findCall [retrieveCall] = some retrieveCall := by decide
  obtain ⟨sent, res, answers, hmem, hmessages, hiff, -⟩ := retrieval_hop_answers_iff rfl
    hcalls parseArgs_retrieveCall (runs_hopTrace {} {} {} hcalls)
  exact ⟨sent, res, answers, hmem, hmessages, hiff.mpr (by decide)⟩

/-- The call of the caller's tool stays without an answer. -/
theorem other_call_unanswered :
    Runs (retrievingHandler.resolveRetrieval ⟨0, "anthropic"⟩ {}
        (some (callingResponse [retrieveCall, weatherCall] {})))
      (hopTrace {} [retrieveCall, weatherCall] {}) (some {}, none) ∧
    ∃ sent res answers,
      ⟨.chat ⟨0, "anthropic"⟩ sent, res⟩ ∈ hopTrace {} [retrieveCall, weatherCall] {} ∧
      sent.messages =
        [{ role := "assistant", toolCalls := [retrieveCall, weatherCall] }] ++ answers ∧
      answerCount answers weatherCall = 0 :=
  ⟨runs_hopTrace {} {} {} (by decide), _, _, [restored retrieveCall (some "the content")],
    List.mem_cons_of_mem _ List.mem_cons_self, rfl, by decide⟩

/-- Of the prompt tokens 800 come from the cache. -/
def cachedHop : Usage := { promptTokens := 1000, cacheReadInputTokens := 800 }

def plainHop : Usage := { promptTokens := 500 }

/-- If only the second hop reads from the cache, both are billed in full. -/
theorem late_cache_billed :
    forUsage "claude-sonnet-4-6" (mergedUsage plainHop cachedHop) =
      addCost (forUsage "claude-sonnet-4-6" plainHop)
        (forUsage "claude-sonnet-4-6" cachedHop) := by
  have hcalls : findCall [retrieveCall] = some retrieveCall := by decide
  obtain ⟨card, hcard⟩ : ∃ card, lookup "claude-sonnet-4-6" = some card :=
    Option.isSome_iff_exists.mp (by decide +kernel)
  obtain ⟨final, hfinal, hiff⟩ := retrieval_billed_iff hcard rfl hcalls parseArgs_retrieveCall
    (runs_hopTrace {} plainHop { usage := cachedHop } hcalls)
    (List.mem_cons_of_mem _ List.mem_cons_self) (by decide) (by decide)
  cases hfinal
  exact hiff.mpr (by simp [lostPremium, premium, callingResponse, plainHop, cachedHop])

/-- If the first hop reads from the cache, its tokens are billed at ten times their price. -/
theorem early_cache_overbilled :
    ∃ t final, Runs (retrievingHandler.resolveRetrieval ⟨0, "anthropic"⟩ {}
        (some (callingResponse [retrieveCall] cachedHop))) t (some final, none) ∧
      (∃ sent, ⟨.chat ⟨0, "anthropic"⟩ sent, .ok { usage := plainHop }⟩ ∈ t) ∧
      (forUsage "claude-sonnet-4-6" final.usage).totalUSD = 0.0045 ∧
      (forUsage "claude-sonnet-4-6" cachedHop).totalUSD +
        (forUsage "claude-sonnet-4-6" plainHop).totalUSD = 0.00234 :=
  ⟨_, _, runs_hopTrace {} cachedHop { usage := plainHop } (by decide),
    ⟨_, List.mem_cons_of_mem _ List.mem_cons_self⟩, by decide +kernel, by decide +kernel⟩

end Ixr.Ingress
