import IxrGateway.Adapters.OpenAI
import IxrGateway.Adapters.GoogleAIRequest
import IxrGateway.Reasoning.Budget

/-!
# Sampling parameters on the wire

A caller may limit the tokens of a reply and set a temperature, a nucleus
threshold and stop texts.  The handlers pass each request through
`adjustTokenBudget` and hand it to an adapter.  None of the five translators
reads any of the four parameters.  Two of them write a limit of 4096 tokens.
-/

namespace Ixr.Adapters

open Reasoning

/-- The parameters that are sent. -/
structure Sampling where
  maxTokens : Option Int := none
  temperature : Option ℚ := none
  topP : Option ℚ := none
  stop : Option Json := none
deriving Repr, DecidableEq

/-- The OpenAI wire request has no field for a nucleus threshold or stop texts. -/
def OpenAI.WireRequest.sampling (w : OpenAI.WireRequest) : Sampling :=
  { maxTokens := w.maxTokens, temperature := w.temperature }

/-- The Anthropic wire request has a token limit only. -/
def Anthropic.WireRequest.sampling (w : Anthropic.WireRequest) : Sampling :=
  { maxTokens := some w.maxTokens }

/-- The Bedrock body has a token limit only. -/
def Bedrock.BedrockReq.sampling (w : Bedrock.BedrockReq) : Sampling :=
  { maxTokens := some w.maxTokens }

/-- The Gemini wire request has no generation config. -/
def GoogleAI.GenWireRequest.sampling (_ : GoogleAI.GenWireRequest) : Sampling := {}

/-- The five adapters. -/
inductive Translator where
  | openai
  | openaicompat
  | anthropic
  | bedrock
  | googleai
deriving Repr, DecidableEq

/-- What the adapter sends. -/
def Translator.sampling (unmarshal : UnmarshalObject) (historyLen : Int) :
    Translator → RequestEnvelope → Option Sampling
  | .openai, req => some (OpenAI.toWireRequest req).sampling
  | .openaicompat, req => some (OpenAICompat.toWireRequest req).sampling
  | .anthropic, req => some (Anthropic.toWireRequest unmarshal req historyLen).sampling
  | .bedrock, req => some (Bedrock.buildBody req).sampling
  | .googleai, req => (GoogleAI.toGenWireRequest unmarshal req).map (·.sampling)

/-- The outbound request carries what the caller set. -/
structure Carries (req : RequestEnvelope) (s : Sampling) : Prop where
  maxTokens : 0 < req.maxTokens → s.maxTokens = some (adjustTokenBudget req).maxTokens
  temperature : req.temperature ≠ 0 → s.temperature = some req.temperature
  topP : req.topP ≠ 0 → s.topP = some req.topP
  stop : req.stop ≠ none → s.stop = req.stop

/-- The limit the adapter sets itself. -/
def Translator.ownLimit : Translator → Option Int
  | .anthropic | .bedrock => some 4096
  | .openai | .openaicompat | .googleai => none

theorem Translator.sampling_eq {unmarshal : UnmarshalObject} {historyLen : Int} {a : Translator}
    {req : RequestEnvelope} {s : Sampling} (h : a.sampling unmarshal historyLen req = some s) :
    s = { maxTokens := a.ownLimit } := by
  cases a with
  | openai | openaicompat | anthropic | bedrock => exact (Option.some.inj h).symm
  | googleai =>
    obtain ⟨w, _, hw⟩ := Option.map_eq_some_iff.mp h
    exact hw.symm

/-- The request sets no sampling parameter but a limit that is the translator's own. -/
def OnlyOwnLimit (a : Translator) (req : RequestEnvelope) : Prop :=
  (req.maxTokens ≤ 0 ∨ a.ownLimit = some (adjustTokenBudget req).maxTokens) ∧
    req.temperature = 0 ∧ req.topP = 0 ∧ req.stop = none

theorem carries_iff (a : Translator) (req : RequestEnvelope) :
    Carries req { maxTokens := a.ownLimit } ↔ OnlyOwnLimit a req := by
  constructor
  · intro h
    refine ⟨?_, ?_, ?_, ?_⟩
    · rcases lt_or_ge 0 req.maxTokens with hpos | hneg
      · exact .inr (h.maxTokens hpos)
      · exact .inl hneg
    · by_contra hne
      cases h.temperature hne
    · by_contra hne
      cases h.topP hne
    · by_contra hne
      exact hne (h.stop hne).symm
  · rintro ⟨hmax, htemp, htopP, hstop⟩
    refine ⟨fun hpos => ?_, fun hne => absurd htemp hne, fun hne => absurd htopP hne,
      fun hne => absurd hstop hne⟩
    cases hmax with
    | inl hneg => exact absurd hpos (not_lt.mpr hneg)
    | inr hown => exact hown

/-- Only Gemini's translator can fail, where it reads out of range. -/
theorem Translator.sampling_eq_none_iff (unmarshal : UnmarshalObject) (historyLen : Int)
    (a : Translator) (req : RequestEnvelope) :
    a.sampling unmarshal historyLen req = none ↔
      a = .googleai ∧ GoogleAI.OutOfRange req.messages := by
  cases a with
  | openai | openaicompat | anthropic | bedrock => simp [Translator.sampling]
  | googleai =>
    simp [Translator.sampling, GoogleAI.toGenWireRequest_eq_none_iff unmarshal req]

/-- A translator's outbound request carries the caller's sampling parameters just when there are
none, apart from a token limit that the scaling happens to turn into the translator's own.  Gemini's
translator sends nothing for messages that it reads out of range. -/
theorem sampling_carried_iff (unmarshal : UnmarshalObject) (historyLen : Int) (a : Translator)
    (req : RequestEnvelope) :
    (∀ s, a.sampling unmarshal historyLen (adjustTokenBudget req) = some s → Carries req s) ↔
      a = .googleai ∧ GoogleAI.OutOfRange req.messages ∨ OnlyOwnLimit a req := by
  have hmessages : (adjustTokenBudget req).messages = req.messages := by rw [adjustTokenBudget_eq]
  rw [← hmessages, ← Translator.sampling_eq_none_iff unmarshal historyLen]
  cases hs : a.sampling unmarshal historyLen (adjustTokenBudget req) with
  | none => simp
  | some s =>
    have heq := Translator.sampling_eq hs
    simp only [Option.some.injEq, forall_eq', reduceCtorEq, false_or, heq]
    exact carries_iff a req

def hundredTokens : RequestEnvelope where
  model := "claude-sonnet-4-6"
  messages := [{ role := "user", content := "hi" }]
  maxTokens := 100

/-- The request goes to Anthropic with a limit of 4096 tokens. -/
theorem anthropic_replaces_limit :
    ∃ s, Translator.anthropic.sampling (fun _ => (none, false)) 0
        (adjustTokenBudget hundredTokens) = some s ∧
      s.maxTokens = some 4096 ∧ ¬ Carries hundredTokens s := by
  refine ⟨_, rfl, rfl, fun h => ?_⟩
  have hlimit := h.maxTokens (by decide)
  exact absurd hlimit (by decide)

end Ixr.Adapters
