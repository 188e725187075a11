import IxrGateway.Schema

/-!
# The model catalog

The curated catalog that auto-routing scores, the pricing table behind it, and
the two lookups the rest of the gateway uses: prices by model (`lookup`) and
context windows by model (`contextWindowFor`).
-/

namespace Ixr.Routing

/-- `routing.ModelCard`. -/
structure ModelCard where
  id : String
  inputUSDPer1M : ℚ := 0
  outputUSDPer1M : ℚ := 0
  cachedInputUSDPer1M : ℚ := 0
  cacheWriteUSDPer1M : ℚ := 0
  latencySec : ℚ := 0
  failureRate : ℚ := 0
  reasoning : ℚ := 0
  coding : ℚ := 0
  math : ℚ := 0
  multilingual : ℚ := 0
  contextWindow : Int := 0
deriving Repr, DecidableEq, Inhabited

/-- The candidate set of `model: "auto"`. -/
def catalog : List ModelCard := [
  { id := "claude-opus-4.7", inputUSDPer1M := 5, outputUSDPer1M := 25,
    cachedInputUSDPer1M := 5 * 0.1, cacheWriteUSDPer1M := 5 * 1.25,
    latencySec := 1.8, failureRate := 0.02,
    reasoning := 0.98, coding := 0.90, math := 0.99, multilingual := 0.88,
    contextWindow := 200000 },
  { id := "claude-sonnet-4-6", inputUSDPer1M := 3, outputUSDPer1M := 15,
    cachedInputUSDPer1M := 3 * 0.1, cacheWriteUSDPer1M := 3 * 1.25,
    latencySec := 1.1, failureRate := 0.02,
    reasoning := 0.92, coding := 0.91, math := 0.90, multilingual := 0.85,
    contextWindow := 200000 },
  { id := "gpt-5.2", inputUSDPer1M := 1.5, outputUSDPer1M := 14,
    latencySec := 0.6, failureRate := 0.025,
    reasoning := 0.94, coding := 0.93, math := 0.95, multilingual := 0.86,
    contextWindow := 128000 },
  { id := "gpt-5.3-codex", inputUSDPer1M := 1.75, outputUSDPer1M := 14,
    latencySec := 0.003, failureRate := 0.03,
    reasoning := 0.84, coding := 0.98, math := 0.88, multilingual := 0.78,
    contextWindow := 128000 },
  { id := "gemini-3.1-pro", inputUSDPer1M := 2, outputUSDPer1M := 12,
    cachedInputUSDPer1M := 2 * 0.25,
    latencySec := 30.3, failureRate := 0.022,
    reasoning := 0.96, coding := 0.88, math := 1.00, multilingual := 0.94,
    contextWindow := 1000000 },
  { id := "deepseek-v3-0324", inputUSDPer1M := 0.27, outputUSDPer1M := 1.10,
    cachedInputUSDPer1M := 0.27 * 0.1,
    latencySec := 4, failureRate := 0.035,
    reasoning := 0.84, coding := 0.78, math := 0.88, multilingual := 0.76,
    contextWindow := 128000 },
  { id := "llama-4-scout", inputUSDPer1M := 0.11, outputUSDPer1M := 0.34,
    latencySec := 0.33, failureRate := 0.04,
    reasoning := 0.76, coding := 0.70, math := 0.78, multilingual := 0.74,
    contextWindow := 10000000 },
  { id := "gemma-3-27b", inputUSDPer1M := 0.07, outputUSDPer1M := 0.07,
    latencySec := 0.72, failureRate := 0.045,
    reasoning := 0.68, coding := 0.62, math := 0.70, multilingual := 0.72,
    contextWindow := 128000 },
  { id := "gpt-oss-120b", inputUSDPer1M := 0.35, outputUSDPer1M := 0.75,
    latencySec := 0.25, failureRate := 0.03,
    reasoning := 0.85, coding := 0.80, math := 0.85, multilingual := 0.75,
    contextWindow := 128000 },
  { id := "llama-3.1-8b-instant", inputUSDPer1M := 0.05, outputUSDPer1M := 0.08,
    latencySec := 0.15, failureRate := 0.035,
    reasoning := 0.55, coding := 0.50, math := 0.55, multilingual := 0.55,
    contextWindow := 128000 },
  { id := "mistral-small-latest", inputUSDPer1M := 0.15, outputUSDPer1M := 0.60,
    latencySec := 0.90, failureRate := 0.03,
    reasoning := 0.75, coding := 0.72, math := 0.74, multilingual := 0.78,
    contextWindow := 128000 }]

/-- The windows by prefix. -/
def knownContextWindows : List (String × Int) := [
  ("gpt-4o", 128000),
  ("gpt-4o-mini", 128000),
  ("gpt-4-turbo", 128000),
  ("gpt-4", 8192),
  ("gpt-3.5-turbo", 16385),
  ("o1", 200000),
  ("o1-mini", 128000),
  ("o3", 200000),
  ("o3-mini", 200000),
  ("claude-3-5-sonnet-20241022", 200000),
  ("claude-3-5-haiku-20241022", 200000),
  ("claude-3-opus-20240229", 200000),
  ("claude-opus-4-5", 200000),
  ("claude-sonnet-4-5", 200000),
  ("claude-haiku-4-5", 200000),
  ("gemini-1.5-pro", 1000000),
  ("gemini-1.5-flash", 1000000),
  ("gemini-2.0-flash", 1000000),
  ("llama-4-maverick", 1000000),
  ("mistral-large-latest", 128000),
  ("mistral-small-latest", 128000),
  ("deepseek-chat", 64000),
  ("deepseek-coder", 128000)]

/-- The window of other models. -/
def defaultContextWindow : Int := 128000

/-- `ContextWindowFor`: the catalog first, then the known windows, then the default. -/
def contextWindowFor (model : String) : Int :=
  match catalog.find? (fun card => card.id == model) with
  | some card => card.contextWindow
  | none => (knownContextWindows.lookup model).getD defaultContextWindow

/-- The prices by prefix. -/
def pricingTable : List (String × ℚ × ℚ) := [
  ("gpt-4o", 2.50, 10.00),
  ("gpt-4o-mini", 0.15, 0.30),
  ("gpt-4-turbo", 10.00, 30.00),
  ("gpt-4", 30.00, 60.00),
  ("gpt-3.5-turbo", 0.50, 1.50),
  ("o1", 15.00, 60.00),
  ("o1-mini", 1.10, 4.40),
  ("o3", 2.00, 8.00),
  ("o3-mini", 1.10, 4.40),
  ("claude-3-5-sonnet-20241022", 3.00, 15.00),
  ("claude-3-5-haiku-20241022", 0.80, 4.00),
  ("claude-3-opus-20240229", 15.00, 75.00),
  ("claude-opus-4-5", 5.00, 25.00),
  ("claude-sonnet-4-5", 3.00, 15.00),
  ("claude-haiku-4-5", 1.00, 5.00),
  ("claude-haiku-4-5-20251001", 1.00, 5.00),
  ("gemini-1.5-pro", 1.25, 5.00),
  ("gemini-1.5-flash", 0.075, 0.30),
  ("gemini-2.0-flash", 0.10, 0.40),
  ("gemini-3.5-flash", 1.50, 9.00),
  ("gemini-3-flash", 0.50, 3.00),
  ("gemini-3.1-flash-lite", 0.25, 1.50),
  ("gemini-2.5-flash-lite", 0.10, 0.40),
  ("llama-3.3-70b-versatile", 0.59, 0.79),
  ("llama-3.1-8b-instant", 0.05, 0.08),
  ("mistral-large-latest", 2.00, 6.00),
  ("mistral-small-latest", 0.10, 0.30),
  ("deepseek-chat", 0.14, 0.28),
  ("deepseek-coder", 0.14, 0.28),
  ("deepseek-v4-flash", 0.14, 0.28),
  ("deepseek-v4-pro", 0.435, 0.87),
  ("gpt-oss-120b", 0.35, 0.75)]

/-- `lookupPricingTable`. -/
def lookupPricingTable (model : String) : Option ModelCard :=
  (pricingTable.lookup model).map fun p =>
    { id := model, inputUSDPer1M := p.1, outputUSDPer1M := p.2 }

/-- `Lookup`: the catalog first, then the pricing table. -/
def lookup (model : String) : Option ModelCard :=
  match catalog.find? (fun card => card.id == model) with
  | some card => some card
  | none => lookupPricingTable model

end Ixr.Routing
