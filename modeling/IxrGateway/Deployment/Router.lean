import IxrGateway.Ingress.Accounting
import IxrGateway.Scoring.Decisions

/-!
# The router of a deployment

`buildRouter` finds the provider of a model by the name of the model, among the
providers that are configured.  `Start` gives the scoring engine only those
models of the catalog that this router resolves.
-/

namespace Ixr.Deployment

open Interaction GoStrings Routing Scoring Ingress Ranking List

/-- A case of the switch in `buildRouter`: the models that it takes, by name and by name in lower
case, the key of their provider, and what an error adds if there is none. -/
structure RouterCase where
  takes : (model m : String) → Bool
  provider : String
  advice : String := ""

/-- How to get a missing provider. -/
def useKey (key provider : String) : String :=
  " (use " ++ key ++ " or ixr.yaml providers." ++ provider ++ ")"

/-- The switch in `buildRouter`. -/
def routerCases : List RouterCase := [
  ⟨fun _ m => hasPrefix m "ollama/", "ollama",
    " (start Ollama and set OLLAMA_BASE_URL or ixr.yaml providers.ollama)"⟩,
  ⟨fun _ m => hasPrefix m "llamacpp/", "llamacpp",
    " (start llama.cpp server and set LLAMACPP_BASE_URL or ixr.yaml providers.llamacpp)"⟩,
  ⟨fun _ m => hasPrefix m "local/", "local",
    " (set LOCAL_BASE_URL or ixr.yaml providers.local)"⟩,
  ⟨fun _ m => hasPrefix m "amazon." || hasPrefix m "anthropic." || hasPrefix m "meta.", "bedrock",
    " (set AWS_ACCESS_KEY_ID, AWS_SECRET_ACCESS_KEY, AWS_REGION or ixr.yaml providers.bedrock)"⟩,
  ⟨fun _ m => hasPrefix m "gpt-oss", "cerebras", useKey "CEREBRAS_API_KEY" "cerebras"⟩,
  ⟨fun model _ => hasPrefix model "gpt-" || hasPrefix model "o1" || hasPrefix model "o3",
    "openai", ""⟩,
  ⟨fun model _ => hasPrefix model "claude-", "anthropic", ""⟩,
  ⟨fun _ m => hasPrefix m "gemma" || contains m "gemma-", "gemma", ""⟩,
  ⟨fun _ m => hasPrefix m "gemini", "gemini", ""⟩,
  ⟨fun _ m => hasPrefix m "openai/", "github", useKey "GITHUB_TOKEN" "github"⟩,
  ⟨fun _ m => contains m "/", "openrouter", useKey "OPENROUTER_API_KEY" "openrouter"⟩,
  ⟨fun _ m => hasPrefix m "mistral-" || hasPrefix m "codestral" || hasPrefix m "magistral" ||
    hasPrefix m "devstral", "mistral", useKey "MISTRAL_API_KEY" "mistral"⟩,
  ⟨fun _ m => m == "gemma-3-12b-it", "sambanova", useKey "SAMBANOVA_API_KEY" "sambanova"⟩,
  ⟨fun _ m => hasPrefix m "meta-llama", "sambanova", useKey "SAMBANOVA_API_KEY" "sambanova"⟩,
  ⟨fun _ m => m == "deepseek-v3.2", "sambanova", useKey "SAMBANOVA_API_KEY" "sambanova"⟩,
  ⟨fun _ m => hasPrefix m "qwen3" || hasPrefix m "qwen-3", "cerebras",
    useKey "CEREBRAS_API_KEY" "cerebras"⟩,
  ⟨fun _ m => hasPrefix m "llama-4-maverick", "cerebras", useKey "CEREBRAS_API_KEY" "cerebras"⟩,
  ⟨fun _ m => hasPrefix m "glm-", "zhipu", useKey "ZHIPU_API_KEY" "zhipu"⟩,
  ⟨fun _ m => contains m "llama", "llama", useKey "GROQ_API_KEY" "llama"⟩,
  ⟨fun _ m => hasPrefix m "deepseek", "deepseek", ""⟩]

/-- `buildRouter`.  The quoted name of a model in an error is what `strconv.Quote` makes of it. -/
def buildRouter (quote : String → String) (registry : String → Option Provider) : ProviderLookup :=
  fun model =>
    match routerCases.find? fun c => c.takes model (toLower model) with
    | none => .error { msg := "no provider found for model " ++ quote model }
    | some c =>
      match registry c.provider with
      | none => .error { msg := c.provider ++ " provider not configured" ++ c.advice }
      | some p => .ok p

/-- `availableCatalog`. -/
def availableCatalog (cat : List ModelCard) (resolve : ProviderLookup) : List ModelCard :=
  cat.filter fun m => (resolve m.id).isOk

/-- What `Start` gives the chat handler. -/
structure Deployed (quote : String → String) (registry : String → Option Provider)
    (h : ChatHandler) : Prop where
  router : h.router = buildRouter quote registry
  engine : ∃ hasBandit, h.engine =
    some ⟨availableCatalog catalog (buildRouter quote registry), hasBandit⟩

variable {hint : TaskHint} {hasRegistry : Bool} {t : Trace effects} {d : RoutingDecision}

/-- A decision names models of the catalog only. -/
theorem decided_models {e : Engine} (hdistinct : (e.catalog.map ModelCard.id).Nodup)
    (hrun : Runs (e.decide hint hasRegistry) t (.ok d)) (hbandit : BanditAnswers t) :
    ∀ model ∈ d.model :: d.fallbackChain.map Candidate.model,
      model ∈ e.catalog.map ModelCard.id := by
  rw [Engine.decide_eq] at hrun
  obtain ⟨t', out, t'', rfl, hdecide, hret⟩ := runs_bind_iff.mp hrun
  obtain ⟨rfl, hout⟩ := runs_ret_iff.mp hret
  cases out with
  | error err => cases hout
  | ok d' =>
    cases hout
    obtain ⟨weights, t₁, filtered, t₂, scored, t₃, best, rest, rfl, hfilter, hscore, hsort,
      hpick, hchain⟩ := runs_decideBy hdecide
    have hsub := (filter_passes hdistinct hfilter).1
    have hkeys := map_key_eq (scoreModelsBy_scores hscore).2
    have hperm : (best :: rest).Perm scored := hsort ▸ exactScorer.sorts.perm scored
    have hknown : ∀ c ∈ best :: rest, c.key ∈ e.catalog.map ModelCard.id := by
      intro c hc
      have hscored : c.key ∈ scored.map Scored.key :=
        mem_map_of_mem (hperm.mem_iff.mp hc)
      rw [hkeys] at hscored
      exact (hsub.map _).subset hscored
    have hbandit₃ : BanditAnswers t₃ := fun ev hev => hbandit ev (by simp [hev])
    obtain ⟨-, ⟨c, hc, hkey⟩, -⟩ := Engine.pickBy_mem hpick hbandit₃
    have hprimary := hknown c hc
    rw [hkey] at hprimary
    refine forall_mem_cons.mpr ⟨hprimary, ?_⟩
    intro model hmodel
    obtain ⟨_, hmem, rfl⟩ := mem_map.mp hmodel
    obtain ⟨c, hc, rfl⟩ := mem_map.mp hmem
    have hchain' : d'.fallbackChain = chainOf d'.model 2 (best :: rest) := by
      rw [hchain]
      exact buildChainLoop_eq d'.model (best :: rest) [] Nat.two_pos
    rw [hchain'] at hc
    exact hknown c (mem_of_mem_filter (mem_of_mem_take hc))

theorem resolves_of_available {cat : List ModelCard} {resolve : ProviderLookup} {model : String}
    (h : model ∈ (availableCatalog cat resolve).map ModelCard.id) : ∃ p, resolve model = .ok p := by
  obtain ⟨m, hm, rfl⟩ := mem_map.mp h
  have hok := (mem_filter.mp hm).2
  cases hresolve : resolve m.id with
  | error err =>
    rw [hresolve] at hok
    cases hok
  | ok p => exact ⟨p, rfl⟩

theorem Deployed.route_resolves {quote : String → String} {registry : String → Option Provider}
    {h : ChatHandler} (hdeployed : Deployed quote registry h) {r : HttpRequest}
    {req : RequestEnvelope} (hauto : req.model = "auto") {out : Except Reply RoutingDecision}
    (hrun : Runs (h.route r req) t out) (hbandit : BanditAnswers t) :
    out = .error (.error 400 "auto_route_failed" "no catalog model matched the given constraints") ∨
    ∃ d, out = .ok d ∧ ∀ model ∈ d.model :: d.fallbackChain.map Candidate.model,
      ∃ p, h.router model = .ok p := by
  obtain ⟨hasBandit, hengine⟩ := hdeployed.engine
  simp only [ChatHandler.route, hauto, if_true, hengine] at hrun
  obtain ⟨t₁, decided, t₂, rfl, hdecide, hret⟩ := runs_bind_iff.mp hrun
  cases decided with
  | error err => exact .inl (runs_ret_iff.mp hret).2
  | ok d =>
    by_cases hempty : d.model = ""
    · simp only [hempty, if_true] at hret
      exact .inl (runs_ret_iff.mp hret).2
    · simp only [hempty, if_false] at hret
      refine .inr ⟨d, (runs_ret_iff.mp hret).2, fun model hmodel => ?_⟩
      rw [hdeployed.router]
      refine resolves_of_available (decided_models ?_ hdecide ?_ model hmodel)
      · exact (filter_sublist.map _).nodup (by decide)
      · exact fun ev hev => hbandit ev (mem_append_left _ hev)

/-- A deployment never turns an `auto` request away for want of a provider.  Either no model passes
the constraints, or the request goes to a configured provider with fallbacks that resolve too. -/
theorem auto_reaches_provider (quote : String → String) (registry : String → Option Provider)
    (h : ChatHandler) (hdeployed : Deployed quote registry h) (r : HttpRequest)
    (req : RequestEnvelope) (hauto : req.model = "auto") (t : Trace effects) (reply : Reply)
    (hrun : Runs (h.serveModel r req) t reply) (hbandit : BanditAnswers t) :
    reply = .error 400 "auto_route_failed" "no catalog model matched the given constraints" ∨
    ∃ (d : RoutingDecision) (p : Provider) (t₁ t₂ : Trace effects),
      t = t₁ ++ ⟨.lookup d.model, ()⟩ :: t₂ ∧ h.router d.model = .ok p ∧
      (∀ c ∈ d.fallbackChain, ∃ q, h.router c.model = .ok q) ∧
      Runs (if req.stream then
          h.handleStream r p { req with model := d.model } true d.fallbackChain
        else h.serveChat r p { req with model := d.model } true d.fallbackChain) t₂ reply := by
  obtain ⟨t₁, out, t₂, rfl, hroute, hserve⟩ := runs_bind_iff.mp hrun
  obtain rfl | ⟨d, rfl, hresolves⟩ := hdeployed.route_resolves hauto hroute
    fun ev hev => hbandit ev (mem_append_left _ hev)
  · exact .inl (runs_ret_iff.mp hserve).2
  · obtain ⟨⟨p, hp⟩, hfallbacks⟩ := forall_mem_cons.mp hresolves
    change Runs (h.serveDecision r req d) t₂ reply at hserve
    rw [serveDecision_of_ok hp, hauto] at hserve
    obtain ⟨_, t₃, rfl, hcall⟩ := runs_ask_iff.mp hserve
    exact .inr ⟨d, p, t₁, t₃, rfl, hp,
      fun c hc => hfallbacks c.model (mem_map_of_mem hc), hcall⟩

/-- A deployment with one provider. -/
def deepseekOnly (key : String) : Option Provider :=
  if key = "deepseek" then some ⟨0, "deepseek"⟩ else none

def deepseekHandler : ChatHandler where
  router := buildRouter id deepseekOnly
  engine := some { catalog := availableCatalog catalog (buildRouter id deepseekOnly) }
  hasBus := false

/-- The one model of the catalog that this deployment can ask. -/
theorem availableCatalog_deepseekOnly :
    (availableCatalog catalog (buildRouter id deepseekOnly)).map ModelCard.id =
      ["deepseek-v3-0324"] := by
  decide +kernel

/-- The decision over one model that passes. -/
theorem runs_decide_singleton (m : ModelCard) (hint : TaskHint) (hcap : overCostCap m hint = false)
    (weights : ℚ × ℚ × ℚ) (stats : ModelStats) :
    Runs (Engine.decide { catalog := [m] } hint true)
      [⟨.getPolicy (intentFromHint hint), .ok weights⟩, ⟨.isAllowed .filter m.id, true⟩,
        ⟨.perfGet m.id (intentFromHint hint), stats⟩] (.ok ⟨m.id, []⟩) := by
  refine .ask ?_
  simp only [Scoring.filter, hcap, Bool.false_eq_true, if_false]
  refine .ask (.ask ?_)
  simp [Prog.bind, scoreModels, sortByScore, Engine.pick, buildFallbackChain,
    buildFallbackChainLoop, runs_ret_iff]

/-- The breaker lets the model through, and its provider answers. -/
theorem deepseekHandler_reaches_provider :
    ∃ t, Runs (deepseekHandler.serveModel {} { model := "auto" }) t (.ok (some {})) ∧
      ∃ (d : RoutingDecision) (p : Provider) (t₁ t₂ : Trace effects),
        t = t₁ ++ ⟨.lookup d.model, ()⟩ :: t₂ ∧ deepseekHandler.router d.model = .ok p := by
  obtain ⟨m, hcatalog, hid⟩ := map_eq_singleton_iff.mp availableCatalog_deepseekOnly
  have hprovider : deepseekHandler.router m.id = .ok ⟨0, "deepseek"⟩ := by
    rw [hid]
    decide +kernel
  have hroute : Runs (deepseekHandler.route {} { model := "auto" })
      [⟨.getPolicy "general", .ok (1, 0, 0)⟩, ⟨.isAllowed .filter m.id, true⟩,
        ⟨.perfGet m.id "general", {}⟩] (.ok ⟨m.id, []⟩) := by
    have hdecide := runs_decide_singleton m {} rfl (1, 0, 0) {}
    rw [← hcatalog] at hdecide
    refine runs_bind_iff.mpr ⟨_, _, [], (append_nil _).symm, hdecide, ?_⟩
    have hname : m.id ≠ "" := by simp [hid]
    simp only [hname, if_false]
    exact .ret
  have hserve : Runs (deepseekHandler.serveDecision {} { model := "auto" } ⟨m.id, []⟩)
      [⟨.lookup m.id, ()⟩, ⟨.isAllowed .admission m.id, true⟩, ⟨.now, (0 : Int)⟩,
        ⟨.chat ⟨0, "deepseek"⟩ (Reasoning.adjustTokenBudget { model := m.id }), .ok {}⟩,
        ⟨.now, (1 : Int)⟩, ⟨.recordOutcome m.id true, ()⟩] (.ok (some {})) := by
    rw [serveDecision_of_ok hprovider]
    exact .ask (.ask (.ask (.ask (.ask (.ask .ret)))))
  have hrun : Runs (deepseekHandler.serveModel {} { model := "auto" }) (_ ++ _) _ :=
    runs_bind_iff.mpr ⟨_, _, _, rfl, hroute, hserve⟩
  obtain hfailed | ⟨d, p, t₁, t₂, hsplit, hp, -⟩ := auto_reaches_provider id deepseekOnly
    deepseekHandler ⟨rfl, _, rfl⟩ {} { model := "auto" } rfl _ _ hrun (by simp [BanditAnswers])
  · cases hfailed
  · exact ⟨_, hrun, d, p, t₁, t₂, hsplit, hp⟩

end Ixr.Deployment
