import IxrGateway.Schema
import IxrGateway.GoStrings

/-!
# Token budgets of reasoning models

A reasoning model spends part of `max_tokens` on text the caller never sees.
`adjustTokenBudget` scales the caller's limit up to make room for it.
-/

namespace Ixr.Reasoning

open GoStrings

/-- The share of the tokens that a model spends on reasoning, by the start of its name. -/
def reasoningOverhead : List (String × ℚ) := [
  ("o3-mini", 0.80),
  ("o3", 0.90),
  ("o1-mini", 0.75),
  ("o1", 0.85),
  ("gemini-2.0-flash-thinking", 0.85),
  ("gemini-2.5-flash-thinking", 0.85),
  ("gemini-2.5-pro", 0.80),
  ("deepseek-r1", 0.82)]

/-- The loop of `overheadFor`: the longest matching start wins. -/
def longestOverhead (lower : String) : List (String × ℚ) → (best : String) → ℚ → ℚ
  | [], _, bestOverhead => bestOverhead
  | (start, overhead) :: rest, best, bestOverhead =>
    if hasPrefix lower start && decide (len best < len start) then
      longestOverhead lower rest start overhead
    else longestOverhead lower rest best bestOverhead

/-- `overheadFor`. -/
def overheadFor (model : String) : ℚ := longestOverhead (toLower model) reasoningOverhead "" 0

/-- `maxAdjusted`. -/
def maxAdjusted : Int := 100000

/-- `AdjustTokenBudget` in exact numbers.  The rounding and the overflow of floats are left out, as
for every call that the handlers make, and modelled by `adjustTokenBudgetFloat`. -/
def adjustTokenBudget (req : RequestEnvelope) : RequestEnvelope :=
  let overhead := overheadFor req.model
  if overhead = 0 ∨ req.maxTokens ≤ 0 then req
  else
    let adjusted := truncate (req.maxTokens / (1 - overhead) + 0.999)
    { req with maxTokens := min adjusted maxAdjusted }

theorem adjustTokenBudget_eq (req : RequestEnvelope) :
    adjustTokenBudget req = { req with maxTokens := (adjustTokenBudget req).maxTokens } := by
  unfold adjustTokenBudget
  dsimp only
  split
  · rfl
  · rfl

end Ixr.Reasoning
