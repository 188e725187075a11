import IxrGateway.Routing.Catalog

/-!
# The price of a call
-/

namespace Ixr.Cost

open Routing

/-- `cost.ForUsage`, zero for a model without a price. -/
def forUsage (model : String) (usage : Usage) : CostBreakdown :=
  match lookup model with
  | none => {}
  | some card =>
    let rest := usage.promptTokens - usage.cacheReadInputTokens - usage.cacheCreationInputTokens
    -- Cache counts above the prompt's are taken for miscounted.
    let (regular, cacheRead, cacheCreation) :=
      if rest < 0 then (usage.promptTokens, 0, 0)
      else (rest, usage.cacheReadInputTokens, usage.cacheCreationInputTokens)
    let cachedRate :=
      if card.cachedInputUSDPer1M = 0 then card.inputUSDPer1M else card.cachedInputUSDPer1M
    let writeRate :=
      if card.cacheWriteUSDPer1M = 0 then card.inputUSDPer1M else card.cacheWriteUSDPer1M
    let input : ℚ := (regular : ℚ) / 1000000 * card.inputUSDPer1M +
      (cacheCreation : ℚ) / 1000000 * writeRate + (cacheRead : ℚ) / 1000000 * cachedRate
    let output : ℚ := (usage.completionTokens : ℚ) / 1000000 * card.outputUSDPer1M
    { inputUSD := input, outputUSD := output, totalUSD := input + output }

end Ixr.Cost
