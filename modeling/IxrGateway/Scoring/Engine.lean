import IxrGateway.Effects

/-!
# Auto-routing

`Engine.decide` filters the catalog by price and breaker state, scores what is
left with live statistics, and lets a bandit pick the primary model.
-/

namespace Ixr.Scoring

open Interaction Routing List

/-- `routing.Filter`.  The breaker of a model is asked only if its price passes. -/
def filter (hint : TaskHint) (hasRegistry : Bool) : List ModelCard → Go (List ModelCard)
  | [] => pure []
  | m :: models =>
    if overCostCap m hint then filter hint hasRegistry models
    else do
      let allowed ← if hasRegistry then Go.isAllowed .filter m.id else pure true
      let out ← filter hint hasRegistry models
      pure (if allowed then m :: out else out)

/-- `intentFromHint`. -/
def intentFromHint (hint : TaskHint) : String :=
  if 0 < hint.reasoningScore then "reasoning"
  else if 0 < hint.codingScore then "coding"
  else if 0 < hint.mathScore then "math"
  else if 0 < hint.multilingualScore then "multilingual"
  else "general"

/-- `scoring.Engine`, without its stores. -/
structure Engine where
  catalog : List ModelCard
  hasBandit : Bool := false

/-- The scoring loop of `Decide`. -/
def scoreModels (hint : TaskHint) (intent : String) (weights : ℚ × ℚ × ℚ) :
    List ModelCard → Go (List Candidate)
  | [] => pure []
  | m :: models => do
    let stats ← Go.perfGet m.id intent
    let rest ← scoreModels hint intent weights models
    pure (⟨m.id, score m hint stats weights (estimateInputShare hint.promptChars)⟩ :: rest)

/-- The primary of the sorted candidates, the best one unless the bandit picks another. -/
def Engine.pick (e : Engine) (best : String) (candidates : List Candidate) : Go String := do
  if e.hasBandit then
    let picked ← Go.banditSelect candidates
    pure (if picked = "" then best else picked)
  else pure best

/-- `Engine.Decide`. -/
def Engine.decide (e : Engine) (hint : TaskHint) (hasRegistry : Bool) :
    Go (Except GoError RoutingDecision) := do
  let intent := intentFromHint hint
  match ← Go.getPolicy intent with
  | .error err => pure (.error { err with msg := "scoring engine: get policy: " ++ err.msg })
  | .ok weights =>
    let filtered ← filter hint hasRegistry e.catalog
    let scored ← scoreModels hint intent weights filtered
    match sortByScore scored with
    | [] => pure (.error { msg := "scoring engine: no models pass filter constraints" })
    | best :: rest =>
      let primary ← e.pick best.model (best :: rest)
      pure (.ok { model := primary
                  fallbackChain := buildFallbackChain (best :: rest) primary 2 })

/-! ## What a decision asks -/

section

variable {P : Event effects → Prop} {hint : TaskHint}

theorem filter_emits (hasRegistry : Bool)
    (hallowed : ∀ model allowed, P ⟨.isAllowed .filter model, allowed⟩) :
    ∀ models, Emits (filter hint hasRegistry models) P := by
  intro models
  induction models with
  | nil => exact emits_ret
  | cons m models ih =>
    unfold filter
    split
    · exact ih
    · cases hasRegistry with
      | false => exact ih.bind fun _ => emits_ret
      | true => exact emits_ask (hallowed _) fun _ => ih.bind fun _ => emits_ret

theorem scoreModels_emits {intent : String} (weights : ℚ × ℚ × ℚ)
    (hperf : ∀ model stats, P ⟨.perfGet model intent, stats⟩) :
    ∀ models, Emits (scoreModels hint intent weights models) P := by
  intro models
  induction models with
  | nil => exact emits_ret
  | cons m models ih => exact emits_ask (hperf _) fun _ => ih.bind fun _ => emits_ret

/-- A decision reads the policy and the statistics of its own intent. -/
theorem Engine.decide_emits {e : Engine} {hasRegistry : Bool}
    (hpolicy : ∀ policy, P ⟨.getPolicy (intentFromHint hint), policy⟩)
    (hallowed : ∀ model allowed, P ⟨.isAllowed .filter model, allowed⟩)
    (hperf : ∀ model stats, P ⟨.perfGet model (intentFromHint hint), stats⟩)
    (hselect : ∀ candidates picked, P ⟨.banditSelect candidates, picked⟩) :
    Emits (e.decide hint hasRegistry) P := by
  refine emits_ask hpolicy ?_
  rintro (err | weights)
  · exact emits_ret
  · refine (filter_emits hasRegistry hallowed _).bind fun filtered =>
      (scoreModels_emits weights hperf filtered).bind fun scored => ?_
    split
    · exact emits_ret
    · exact Emits.bind (emits_ite (emits_ask (hselect _) fun _ => emits_ret) emits_ret)
        fun _ => emits_ret

end

/-! ## What a decision takes -/

theorem filter_allowed (hint : TaskHint) : ∀ models, Ensures (filter hint true models) fun t out =>
    ∀ m ∈ out, (⟨.isAllowed .filter m.id, true⟩ : Event effects) ∈ t := by
  intro models
  induction models with
  | nil => exact ensures_ret.mpr (forall_mem_nil _)
  | cons m models ih =>
    unfold filter
    split
    · exact ih
    · rw [if_pos rfl, Prog.perform_bind, ensures_ask]
      refine fun allowed => ensures_bind.mpr (ih.mono fun t out hout => ensures_ret.mpr ?_)
      rw [append_nil]
      cases allowed with
      | false => exact fun m' hm' => mem_cons_of_mem _ (hout m' hm')
      | true =>
        exact forall_mem_cons.mpr
          ⟨mem_cons_self, fun m' hm' => mem_cons_of_mem _ (hout m' hm')⟩

theorem scoreModels_models (hint : TaskHint) (intent : String) (weights : ℚ × ℚ × ℚ) :
    ∀ models, Ensures (scoreModels hint intent weights models) fun _ out =>
      ∀ c ∈ out, ∃ m ∈ models, c.model = m.id := by
  intro models
  induction models with
  | nil => exact ensures_ret.mpr (forall_mem_nil _)
  | cons m models ih =>
    rw [scoreModels, Prog.perform_bind, ensures_ask]
    refine fun stats => ensures_bind.mpr (ih.mono fun t out hout => ensures_ret.mpr
      (forall_mem_cons.mpr ⟨⟨m, mem_cons_self, rfl⟩, fun c hc => ?_⟩))
    obtain ⟨m', hm', hc⟩ := hout c hc
    exact ⟨m', mem_cons_of_mem _ hm', hc⟩

/-- The breakers of the fallbacks have been asked. -/
theorem Engine.decide_allowed (e : Engine) (hint : TaskHint) :
    Ensures (e.decide hint true) fun t out => ∀ d, out = .ok d → ∀ c ∈ d.fallbackChain,
      (⟨.isAllowed .filter c.model, true⟩ : Event effects) ∈ t := by
  rw [Engine.decide, Prog.perform_bind, ensures_ask]
  rintro (err | weights)
  · exact ensures_ret.mpr fun d hd => by cases hd
  · refine ensures_bind.mpr ((filter_allowed hint _).mono fun t₁ filtered hfiltered =>
      ensures_bind.mpr ((scoreModels_models hint _ weights _).mono fun t₂ scored hscored => ?_))
    split
    · exact ensures_ret.mpr fun d hd => by cases hd
    · rename_i best rest hsorted
      refine ensures_bind.mpr fun t₃ primary _ => ensures_ret.mpr ?_
      rintro _ ⟨⟩ c hc
      have hmem : c ∈ scored := by
        have hc := (mem_buildFallbackChain hc).1
        rwa [← hsorted, sortByScore, mem_mergeSort] at hc
      obtain ⟨m, hm, hmodel⟩ := hscored c hmem
      rw [hmodel]
      exact mem_cons_of_mem _ (mem_append_left _ (hfiltered m hm))

end Ixr.Scoring
