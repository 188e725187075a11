import IxrGateway.Routing.Catalog

/-!
# Static scoring and fallback chains

`scoreAll` ranks the catalog against a task hint.  `routeWithDecision` and
`fallbackChainFor` read a primary model and a fallback chain off that ranking.
`sort.Slice` runs an insertion sort on lists of at most twelve elements, and the
catalog has eleven, so the sort is stable here.
-/

namespace Ixr.Routing

open List

/-- `routing.Candidate`.  The `Provider` field is never set or read. -/
structure Candidate where
  model : String
  score : ℚ := 0
deriving Repr, DecidableEq, Inhabited

/-- `routing.RoutingDecision`. -/
structure RoutingDecision where
  model : String := ""
  fallbackChain : List Candidate := []
deriving Repr, DecidableEq, Inhabited

/-- `routing.TaskHint`.  The `Tenant` field is never set or read. -/
structure TaskHint where
  promptChars : Int := 0
  reasoningScore : ℚ := 0
  codingScore : ℚ := 0
  mathScore : ℚ := 0
  multilingualScore : ℚ := 0
  latencySensitive : Bool := false
  maxCostUSDPer1M : ℚ := 0
deriving Repr, DecidableEq, Inhabited

/-- `store.ModelStats`, as far as scoring reads it. -/
structure ModelStats where
  sampleCount : Int := 0
  successRate : ℚ := 0
  p50LatencyMS : ℚ := 0
deriving Repr, DecidableEq, Inhabited

/-- The weight of capability. -/
def wCapability : ℚ := 1
/-- The weight of cost. -/
def wCost : ℚ := 0.18
/-- The weight of latency. -/
def wLatency : ℚ := 0.12
/-- The weight of failures. -/
def wFailure : ℚ := 0.10

/-- `clamp01`. -/
def clamp01 (x : ℚ) : ℚ := if x < 0 then 0 else if 1 < x then 1 else x

/-- `minMax` of a nonempty list. -/
def minMax : List ℚ → ℚ × ℚ
  | [] => (0, 0)
  | v :: vs => (vs.foldl min v, vs.foldl max v)

/-- `normalizeMinMax`. -/
def normalizeMinMax (v lo hi : ℚ) : ℚ :=
  if |hi - lo| < 1e-9 then 0 else clamp01 ((v - lo) / (hi - lo))

/-- `estimateInputShare`. -/
def estimateInputShare (promptChars : Int) : ℚ :=
  if promptChars ≤ 0 then 0.45
  else
    let x : ℚ := promptChars / 8000
    clamp01 (0.25 + 0.5 * x / (x + 1))

/-- `blendedCost`. -/
def blendedCost (m : ModelCard) (inputShare : ℚ) : ℚ :=
  inputShare * m.inputUSDPer1M + (1 - inputShare) * m.outputUSDPer1M

/-- `capabilityMatch`. -/
def capabilityMatch (m : ModelCard) (hint : TaskHint) : ℚ :=
  let sum := hint.reasoningScore + hint.codingScore + hint.mathScore + hint.multilingualScore
  if sum < 1e-9 then 0.75
  else
    let score := hint.reasoningScore * m.reasoning + hint.codingScore * m.coding +
      hint.mathScore * m.math + hint.multilingualScore * m.multilingual
    clamp01 (score / sum)

/-- The hint caps the price and the model is above the cap. -/
def overCostCap (m : ModelCard) (hint : TaskHint) : Bool :=
  decide (0 < hint.maxCostUSDPer1M) &&
    decide (hint.maxCostUSDPer1M < blendedCost m (estimateInputShare hint.promptChars))

/-- `Score`. -/
def score (m : ModelCard) (hint : TaskHint) (stats : ModelStats) (weights : ℚ × ℚ × ℚ)
    (inputShare : ℚ) : ℚ :=
  let live := decide (10 ≤ stats.sampleCount)
  let successRate := if live then stats.successRate else 1 - m.failureRate
  let latencySec := if live then stats.p50LatencyMS / 1000 else m.latencySec
  wCapability * capabilityMatch m hint - weights.1 * blendedCost m inputShare -
    weights.2.1 * latencySec - weights.2.2 * (1 - successRate)

/-- The best score first. -/
def sortByScore (cs : List Candidate) : List Candidate :=
  cs.mergeSort fun a b => decide (b.score ≤ a.score)

/-- `scoreAll`. -/
def scoreAll (hint : TaskHint) (models : List ModelCard) : List Candidate :=
  let inputShare := estimateInputShare hint.promptChars
  let (minCost, maxCost) := minMax (models.map fun m => blendedCost m inputShare)
  let (minLat, maxLat) := minMax (models.map fun m => m.latencySec)
  let latencyWeight := if hint.latencySensitive then wLatency * 1.5 else wLatency
  let picks := (models.filter fun m => !overCostCap m hint).map fun m =>
    let normCost := normalizeMinMax (blendedCost m inputShare) minCost maxCost
    let normLat := normalizeMinMax m.latencySec minLat maxLat
    { model := m.id
      score := wCapability * capabilityMatch m hint - wCost * normCost -
        latencyWeight * normLat - wFailure * m.failureRate }
  sortByScore picks

/-- The loop of `BuildFallbackChain` with `chain` collected so far. -/
def buildFallbackChainLoop (primary : String) (n : Int) :
    List Candidate → List Candidate → List Candidate
  | [], chain => chain
  | c :: cs, chain =>
    if c.model = primary then buildFallbackChainLoop primary n cs chain
    else if n ≤ (chain ++ [c]).length then chain ++ [c]
    else buildFallbackChainLoop primary n cs (chain ++ [c])

/-- `BuildFallbackChain`. -/
def buildFallbackChain (candidates : List Candidate) (primary : String) (n : Int) :
    List Candidate :=
  buildFallbackChainLoop primary n candidates []

/-- `FallbackChainFor`. -/
def fallbackChainFor (primaryModel : String) (hint : TaskHint) (n : Int) : List Candidate :=
  buildFallbackChain (scoreAll hint catalog) primaryModel n

/-- `RouteWithDecision`. -/
def routeWithDecision (hint : TaskHint) : RoutingDecision :=
  match scoreAll hint catalog with
  | [] => {}
  | primary :: rest =>
    { model := primary.model
      fallbackChain := buildFallbackChain (primary :: rest) primary.model 2 }

/-! ## Fallback chains -/

variable {primary : String} {n : Int} {c : Candidate} {hint : TaskHint}

theorem buildFallbackChainLoop_ne_nil :
    ∀ {cs chain : List Candidate}, chain ≠ [] ∨ (∃ c ∈ cs, c.model ≠ primary) →
      buildFallbackChainLoop primary n cs chain ≠ []
  | [], chain, h => by
    obtain h | ⟨c, hc, _⟩ := h
    · exact h
    · cases hc
  | c :: cs, chain, h => by
    unfold buildFallbackChainLoop
    split
    · rename_i hprimary
      refine buildFallbackChainLoop_ne_nil (h.imp_right ?_)
      rintro ⟨c', hc', hne⟩
      obtain rfl | hc' := mem_cons.mp hc'
      · exact absurd hprimary hne
      · exact ⟨c', hc', hne⟩
    · split
      · simp
      · exact buildFallbackChainLoop_ne_nil (.inl (by simp))

theorem mem_buildFallbackChainLoop :
    ∀ {cs chain : List Candidate}, c ∈ buildFallbackChainLoop primary n cs chain →
      c ∈ chain ∨ c ∈ cs ∧ c.model ≠ primary
  | [], chain, h => .inl h
  | c' :: cs, chain, h => by
    unfold buildFallbackChainLoop at h
    split at h
    · exact (mem_buildFallbackChainLoop h).imp_right (.imp_left (mem_cons_of_mem _))
    · rename_i hne
      have hlast : c ∈ chain ++ [c'] → c ∈ chain ∨ c ∈ c' :: cs ∧ c.model ≠ primary := by
        intro hmem
        obtain hmem | hmem := mem_append.mp hmem
        · exact .inl hmem
        · obtain rfl := mem_singleton.mp hmem
          exact .inr ⟨mem_cons_self, hne⟩
      split at h
      · exact hlast h
      · obtain h | h := mem_buildFallbackChainLoop h
        · exact hlast h
        · exact .inr ⟨mem_cons_of_mem _ h.1, h.2⟩

theorem mem_buildFallbackChain {candidates : List Candidate}
    (h : c ∈ buildFallbackChain candidates primary n) : c ∈ candidates ∧ c.model ≠ primary :=
  (mem_buildFallbackChainLoop h).resolve_left not_mem_nil

theorem mem_scoreAll {models : List ModelCard} (hc : c ∈ scoreAll hint models) :
    ∃ m ∈ models, m.id = c.model := by
  simp only [scoreAll, sortByScore, mem_mergeSort, mem_map, mem_filter] at hc
  obtain ⟨m, ⟨hm, _⟩, rfl⟩ := hc
  exact ⟨m, hm, rfl⟩

theorem exists_mem_scoreAll (hcap : hint.maxCostUSDPer1M = 0) {models : List ModelCard}
    {m : ModelCard} (hm : m ∈ models) : ∃ c ∈ scoreAll hint models, c.model = m.id := by
  have hunder : overCostCap m hint = false := by simp [overCostCap, hcap]
  simp only [scoreAll, sortByScore, mem_mergeSort, mem_map, mem_filter]
  exact ⟨_, ⟨m, ⟨hm, by simp [hunder]⟩, rfl⟩, rfl⟩

theorem fallbackChainFor_ne_nil (primary : String) (hcap : hint.maxCostUSDPer1M = 0) (n : Int) :
    fallbackChainFor primary hint n ≠ [] := by
  obtain ⟨m, m', rest, hcatalog, hids⟩ : ∃ m m' rest, catalog = m :: m' :: rest ∧ m.id ≠ m'.id :=
    ⟨_, _, _, rfl, by decide⟩
  obtain ⟨other, hother, hne⟩ : ∃ other ∈ catalog, other.id ≠ primary := by
    rw [hcatalog]
    by_cases hm : m.id = primary
    · exact ⟨m', by simp, fun hm' => hids (hm.trans hm'.symm)⟩
    · exact ⟨m, by simp, hm⟩
  obtain ⟨c, hc, hmodel⟩ := exists_mem_scoreAll hcap hother
  exact buildFallbackChainLoop_ne_nil (.inr ⟨c, hc, hmodel ▸ hne⟩)

end Ixr.Routing
