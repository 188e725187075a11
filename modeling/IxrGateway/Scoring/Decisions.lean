import IxrGateway.Scoring.Engine
import IxrGateway.Scoring.Bandit
import IxrGateway.Ranking

/-!
# Sound decisions

`Engine.Decide` once more, with scores in any linear order and any way of
sorting (`Engine.decideBy`).  `Engine.decide` is the case of exact scores and a
stable sort (`Engine.decide_eq`).  What the filter lets through is read off the
answers of the breakers (`filter_passes`).  Whatever a bandit picks is one of the
candidates, so the decision is sound for them.
-/

namespace Ixr.Scoring

open Interaction Routing Ranking List

/-- How models are scored and sorted, and what a bandit sees of a candidate. -/
structure Scorer (S : Type) [LinearOrder S] where
  /-- `Score`. -/
  score : ModelCard → TaskHint → ModelStats → ℚ × ℚ × ℚ → S
  /-- `sort.Slice` by descending score. -/
  sort : List (Scored String S) → List (Scored String S)
  sorts : Sorts sort
  shown : Scored String S → Candidate
  shown_model : ∀ c, (shown c).model = c.key

/-- `routing.RoutingDecision`. -/
structure Decision (S : Type) where
  model : String
  fallbackChain : List (Scored String S)

section

variable {S : Type} [LinearOrder S]

/-- The scoring loop of `Decide`. -/
def scoreModelsBy (scorer : Scorer S) (hint : TaskHint) (intent : String)
    (weights : ℚ × ℚ × ℚ) : List ModelCard → Go (List (Scored String S))
  | [] => pure []
  | m :: models => do
    let stats ← Go.perfGet m.id intent
    let rest ← scoreModelsBy scorer hint intent weights models
    pure (⟨m.id, scorer.score m hint stats weights⟩ :: rest)

/-- The primary of the sorted candidates. -/
def Engine.pickBy (e : Engine) (scorer : Scorer S) (best : String)
    (candidates : List (Scored String S)) : Go String := do
  if e.hasBandit then
    let picked ← Go.banditSelect (candidates.map scorer.shown)
    pure (if picked = "" then best else picked)
  else pure best

/-- The loop of `BuildFallbackChain` with `chain` collected so far. -/
def buildChainLoop (primary : String) (n : Int) :
    List (Scored String S) → List (Scored String S) → List (Scored String S)
  | [], chain => chain
  | c :: cs, chain =>
    if c.key = primary then buildChainLoop primary n cs chain
    else if n ≤ (chain ++ [c]).length then chain ++ [c]
    else buildChainLoop primary n cs (chain ++ [c])

/-- `Engine.Decide`. -/
def Engine.decideBy (e : Engine) (scorer : Scorer S) (hint : TaskHint) (hasRegistry : Bool) :
    Go (Except GoError (Decision S)) := do
  let intent := intentFromHint hint
  match ← Go.getPolicy intent with
  | .error err => pure (.error { err with msg := "scoring engine: get policy: " ++ err.msg })
  | .ok weights =>
    let filtered ← filter hint hasRegistry e.catalog
    let scored ← scoreModelsBy scorer hint intent weights filtered
    match scorer.sort scored with
    | [] => pure (.error { msg := "scoring engine: no models pass filter constraints" })
    | best :: rest =>
      let primary ← e.pickBy scorer best.key (best :: rest)
      pure (.ok { model := primary
                  fallbackChain := buildChainLoop primary 2 (best :: rest) [] })

end

/-! ## Exact scores -/

/-- A scored model as a candidate. -/
def toCandidate (c : Scored String ℚ) : Candidate := ⟨c.key, c.score⟩

/-- The scores without rounding. -/
def exactScorer : Scorer ℚ where
  score m hint stats weights := score m hint stats weights (estimateInputShare hint.promptChars)
  sort cs := cs.mergeSort fun a b => decide (b.score ≤ a.score)
  sorts := sorts_mergeSort
  shown := toCandidate
  shown_model := by
    intro c
    rfl

theorem scoreModels_eq (hint : TaskHint) (intent : String) (weights : ℚ × ℚ × ℚ)
    (models : List ModelCard) :
    scoreModels hint intent weights models =
      scoreModelsBy exactScorer hint intent weights models >>= fun cs =>
        .ret (cs.map toCandidate) := by
  induction models with
  | nil => rfl
  | cons m models ih =>
    rw [scoreModels, scoreModelsBy, ih]
    simp only [Prog.bind_assoc, Prog.pure_def, Prog.ret_bind, map_cons]
    rfl

theorem sortByScore_eq (cs : List (Scored String ℚ)) :
    sortByScore (cs.map toCandidate) = (exactScorer.sort cs).map toCandidate := by
  symm
  apply map_mergeSort
  intro a _ b _
  rfl

theorem buildFallbackChainLoop_eq (primary : String) (n : Int) (cs chain : List (Scored String ℚ)) :
    buildFallbackChainLoop primary n (cs.map toCandidate) (chain.map toCandidate) =
      (buildChainLoop primary n cs chain).map toCandidate := by
  induction cs generalizing chain with
  | nil => rfl
  | cons c cs ih =>
    have hlast : chain.map toCandidate ++ [toCandidate c] = (chain ++ [c]).map toCandidate := by
      rw [map_append, map_singleton]
    rw [map_cons, buildFallbackChainLoop, buildChainLoop, hlast, length_map, ih, ih,
      apply_ite (map toCandidate), apply_ite (map toCandidate)]
    rfl

/-- The decision for the executor. -/
def Decision.toRouting (d : Decision ℚ) : RoutingDecision where
  model := d.model
  fallbackChain := d.fallbackChain.map toCandidate

theorem Engine.decide_eq (e : Engine) (hint : TaskHint) (hasRegistry : Bool) :
    e.decide hint hasRegistry =
      e.decideBy exactScorer hint hasRegistry >>= fun out => .ret (out.map Decision.toRouting) := by
  rw [Engine.decide, Engine.decideBy, Prog.bind_assoc]
  congr 1
  funext policy
  cases policy with
  | error err => rfl
  | ok weights =>
    simp only [Prog.bind_assoc, scoreModels_eq, Prog.ret_bind, sortByScore_eq]
    congr 1
    funext filtered
    congr 1
    funext scored
    cases exactScorer.sort scored with
    | nil => rfl
    | cons best rest =>
      -- what the bandit sees are the candidates of the source
      show (e.pickBy exactScorer best.key (best :: rest) >>= fun primary =>
        Prog.ret (Except.ok (RoutingDecision.mk primary
          (buildFallbackChain ((best :: rest).map toCandidate) primary 2)))) = _
      simp only [Prog.bind_assoc, Prog.pure_def, Prog.ret_bind]
      congr 1
      funext primary
      have hchain := buildFallbackChainLoop_eq primary 2 (best :: rest) []
      rw [buildFallbackChain, ← map_nil, hchain]
      rfl

/-! ## What the filter lets through -/

/-- The model and the answer, if the event is a question of the filter to a breaker. -/
def breakerAnswer (e : Event effects) : Option (String × Bool) :=
  match e with
  | ⟨.isAllowed .filter model, allowed⟩ => some (model, allowed)
  | _ => none

/-- What the breakers answer. -/
def breakerAnswers (t : Trace effects) : List (String × Bool) := t.filterMap breakerAnswer

theorem breakerAnswers_append (t t' : Trace effects) :
    breakerAnswers (t ++ t') = breakerAnswers t ++ breakerAnswers t' :=
  filterMap_append

/-- The model passes the filter: its price is within the cap, and its breaker allows it. -/
def Passes (hint : TaskHint) (hasRegistry : Bool) (t : Trace effects) (m : ModelCard) : Prop :=
  overCostCap m hint = false ∧ (hasRegistry = true → (m.id, true) ∈ breakerAnswers t)

variable {hint : TaskHint} {hasRegistry : Bool} {models out : List ModelCard} {t : Trace effects}

theorem runs_filter_cons {m : ModelCard} (h : Runs (filter hint hasRegistry (m :: models)) t out) :
    ∃ t' out', Runs (filter hint hasRegistry models) t' out' ∧
      (overCostCap m hint = true ∧ t = t' ∧ out = out' ∨
        overCostCap m hint = false ∧ hasRegistry = false ∧ t = t' ∧ out = m :: out' ∨
        overCostCap m hint = false ∧ hasRegistry = true ∧ ∃ allowed : Bool,
          t = ⟨.isAllowed .filter m.id, allowed⟩ :: t' ∧
          out = if allowed then m :: out' else out') := by
  rw [filter] at h
  cases hcap : overCostCap m hint with
  | true =>
    rw [hcap, if_pos rfl] at h
    exact ⟨t, out, h, .inl ⟨rfl, rfl, rfl⟩⟩
  | false =>
    rw [hcap, if_neg Bool.false_ne_true] at h
    cases hasRegistry with
    | false =>
      have hgo : Runs (filter hint false models >>= fun out => .ret (m :: out)) t out := h
      obtain ⟨t', out', t'', rfl, hrest, hret⟩ := runs_bind_iff.mp hgo
      obtain ⟨rfl, rfl⟩ := runs_ret_iff.mp hret
      rw [append_nil]
      exact ⟨t', out', hrest, .inr (.inl ⟨rfl, rfl, rfl, rfl⟩)⟩
    | true =>
      obtain ⟨allowed, t₁, rfl, hask⟩ := runs_ask_iff.mp h
      have hgo : Runs (filter hint true models >>= fun out =>
          .ret (if allowed = true then m :: out else out)) t₁ out := hask
      obtain ⟨t', out', t'', rfl, hrest, hret⟩ := runs_bind_iff.mp hgo
      obtain ⟨rfl, rfl⟩ := runs_ret_iff.mp hret
      rw [append_nil]
      exact ⟨t', out', hrest, .inr (.inr ⟨rfl, rfl, allowed, rfl, rfl⟩)⟩

theorem filter_asks (h : Runs (filter hint hasRegistry models) t out) :
    ∀ a ∈ breakerAnswers t, a.1 ∈ models.map ModelCard.id := by
  induction models generalizing t out with
  | nil =>
    obtain ⟨rfl, -⟩ := runs_ret_iff.mp h
    exact forall_mem_nil _
  | cons m models ih =>
    obtain ⟨t', out', hrest, hstep⟩ := runs_filter_cons h
    have hlater : ∀ a ∈ breakerAnswers t', a.1 ∈ (m :: models).map ModelCard.id := by
      intro a ha
      exact mem_cons_of_mem _ (ih hrest a ha)
    rcases hstep with ⟨-, rfl, -⟩ | ⟨-, -, rfl, -⟩ | ⟨-, -, allowed, rfl, -⟩
    · exact hlater
    · exact hlater
    · exact forall_mem_cons.mpr ⟨mem_cons_self, hlater⟩

section

variable {m : ModelCard} {models out : List ModelCard} {P : ModelCard → Prop}

theorem mem_iff_of_kept (hm : m ∉ models) (h : ∀ m' ∈ models, m' ∈ out ↔ P m') (hpass : P m) :
    ∀ m' ∈ m :: models, m' ∈ m :: out ↔ P m' := by
  refine forall_mem_cons.mpr ⟨iff_of_true mem_cons_self hpass, ?_⟩
  intro m' hm'
  rw [mem_cons, or_iff_right (ne_of_mem_of_not_mem hm' hm)]
  exact h m' hm'

theorem mem_iff_of_dropped (hm : m ∉ out) (h : ∀ m' ∈ models, m' ∈ out ↔ P m') (hpass : ¬ P m) :
    ∀ m' ∈ m :: models, m' ∈ out ↔ P m' :=
  forall_mem_cons.mpr ⟨iff_of_false hm hpass, h⟩

end

theorem filter_passes (hdistinct : (models.map ModelCard.id).Nodup)
    (h : Runs (filter hint hasRegistry models) t out) :
    out.Sublist models ∧ ∀ m ∈ models, m ∈ out ↔ Passes hint hasRegistry t m := by
  induction models generalizing t out with
  | nil =>
    obtain ⟨rfl, rfl⟩ := runs_ret_iff.mp h
    exact ⟨Sublist.refl _, forall_mem_nil _⟩
  | cons m models ih =>
    rw [map_cons, nodup_cons] at hdistinct
    obtain ⟨hm, hdistinct⟩ := hdistinct
    obtain ⟨t', out', hrest, hstep⟩ := runs_filter_cons h
    obtain ⟨hsub, hiff⟩ := ih hdistinct hrest
    have hmodels : m ∉ models := fun hmem => hm (mem_map_of_mem hmem)
    have hfresh : m ∉ out' := fun hmem => hmodels (hsub.subset hmem)
    rcases hstep with ⟨hcap, rfl, rfl⟩ | ⟨hcap, rfl, rfl, rfl⟩ | ⟨hcap, rfl, allowed, rfl, rfl⟩
    · refine ⟨hsub.cons m, mem_iff_of_dropped hfresh hiff ?_⟩
      simp [Passes, hcap]
    · refine ⟨hsub.cons_cons m, mem_iff_of_kept hmodels hiff ?_⟩
      simp [Passes, hcap]
    · -- the answer about `m` is its own, since the models have different ids
      have hanswers : breakerAnswers (⟨.isAllowed .filter m.id, allowed⟩ :: t') =
          (m.id, allowed) :: breakerAnswers t' := rfl
      have hnone : (m.id, true) ∉ breakerAnswers t' := by
        intro hmem
        exact hm (filter_asks hrest _ hmem)
      have hiff' : ∀ m' ∈ models, m' ∈ out' ↔
          Passes hint true (⟨.isAllowed .filter m.id, allowed⟩ :: t') m' := by
        intro m' hm'
        have hid : m'.id ≠ m.id := fun hid => hm (hid ▸ mem_map_of_mem hm')
        rw [hiff m' hm', Passes, Passes, hanswers]
        simp [hid]
      cases allowed with
      | true =>
        rw [if_pos rfl]
        refine ⟨hsub.cons_cons m, mem_iff_of_kept hmodels hiff' ?_⟩
        rw [Passes, hanswers]
        simp [hcap]
      | false =>
        rw [if_neg Bool.false_ne_true]
        refine ⟨hsub.cons m, mem_iff_of_dropped hfresh hiff' ?_⟩
        rw [Passes, hanswers]
        simp [hnone]

/-! ## The scores -/

section

variable {S : Type} [LinearOrder S]

/-- The candidate of a model, with the score its statistics give it. -/
def ScoredIn (scorer : Scorer S) (hint : TaskHint) (t : Trace effects) (m : ModelCard)
    (c : Scored String S) : Prop :=
  c.key = m.id ∧ ∃ weights stats,
    (⟨.getPolicy (intentFromHint hint), .ok weights⟩ : Event effects) ∈ t ∧
    (⟨.perfGet m.id (intentFromHint hint), stats⟩ : Event effects) ∈ t ∧
    c.score = scorer.score m hint stats weights

variable {scorer : Scorer S} {t : Trace effects}

theorem scoreModelsBy_scores {intent : String} {weights : ℚ × ℚ × ℚ} {out : List (Scored String S)}
    (h : Runs (scoreModelsBy scorer hint intent weights models) t out) :
    breakerAnswers t = [] ∧ Forall₂ (fun m c => c.key = m.id ∧ ∃ stats,
      (⟨.perfGet m.id intent, stats⟩ : Event effects) ∈ t ∧
        c.score = scorer.score m hint stats weights) models out := by
  induction models generalizing t out with
  | nil =>
    obtain ⟨rfl, rfl⟩ := runs_ret_iff.mp h
    exact ⟨rfl, .nil⟩
  | cons m models ih =>
    rw [scoreModelsBy] at h
    obtain ⟨stats, t₁, rfl, hgo⟩ := runs_perform_bind_iff.mp h
    obtain ⟨t', out', t'', rfl, hrest, hret⟩ := runs_bind_iff.mp hgo
    obtain ⟨rfl, rfl⟩ := runs_ret_iff.mp hret
    obtain ⟨hquiet, hscores⟩ := ih hrest
    rw [append_nil]
    refine ⟨hquiet, .cons ⟨rfl, stats, mem_cons_self, rfl⟩ ?_⟩
    apply hscores.imp
    rintro m c ⟨hkey, stats, hmem, hscore⟩
    exact ⟨hkey, stats, mem_cons_of_mem _ hmem, hscore⟩

omit [LinearOrder S] in
theorem map_key_eq {R : ModelCard → Scored String S → Prop} {out : List (Scored String S)}
    (h : Forall₂ (fun m c => c.key = m.id ∧ R m c) models out) :
    out.map Scored.key = models.map ModelCard.id := by
  induction h with
  | nil => rfl
  | cons hhead _ ih => rw [map_cons, map_cons, hhead.1, ih]

omit [LinearOrder S] in
theorem buildChainLoop_eq (primary : String) {n : Nat} (ranked chain : List (Scored String S))
    (hroom : chain.length < n) :
    buildChainLoop primary n ranked chain = chain ++ chainOf primary (n - chain.length) ranked := by
  induction ranked generalizing chain with
  | nil => simp [buildChainLoop, chainOf]
  | cons c ranked ih =>
    rw [buildChainLoop]
    split
    · next hprimary =>
      rw [ih chain hroom, chainOf, chainOf, filter_cons_of_neg (by simpa using hprimary)]
    · next hother =>
      have hchain : chainOf primary (n - chain.length) (c :: ranked) =
          c :: chainOf primary (n - (chain.length + 1)) ranked := by
        obtain ⟨k, hk⟩ : ∃ k, n - chain.length = k + 1 := ⟨n - chain.length - 1, by omega⟩
        rw [chainOf, chainOf, filter_cons_of_pos (by simpa using hother), hk,
          take_succ_cons, show n - (chain.length + 1) = k by omega]
      have hlength : (chain ++ [c]).length = chain.length + 1 := by simp
      rw [hchain]
      split
      · next hfull =>
        have hnone : n - (chain.length + 1) = 0 := by omega
        rw [hnone, chainOf, take_zero]
      · next hmore =>
        rw [ih (chain ++ [c]) (by omega), hlength, append_assoc, singleton_append]

/-! ## The decision -/

/-- Every question to a bandit is answered by one of the two. -/
def BanditAnswers (t : Trace effects) : Prop :=
  ∀ e ∈ t, match e with
    | ⟨.banditSelect candidates, picked⟩ => Selects candidates picked
    | _ => True

variable {e : Engine}

/-- The primary is one of the candidates, and without a bandit it is the first. -/
theorem Engine.pickBy_mem {best : Scored String S} {rest : List (Scored String S)}
    {primary : String} (h : Runs (e.pickBy scorer best.key (best :: rest)) t primary)
    (hbandit : BanditAnswers t) :
    breakerAnswers t = [] ∧ (∃ c ∈ best :: rest, c.key = primary) ∧
      (e.hasBandit = false → primary = best.key) := by
  rw [Engine.pickBy] at h
  cases hhas : e.hasBandit with
  | false =>
    rw [hhas, if_neg Bool.false_ne_true] at h
    obtain ⟨rfl, rfl⟩ := runs_ret_iff.mp h
    exact ⟨rfl, ⟨best, mem_cons_self, rfl⟩, fun _ => rfl⟩
  | true =>
    rw [hhas, if_pos rfl] at h
    obtain ⟨picked, t', rfl, hret⟩ := runs_perform_bind_iff.mp h
    obtain ⟨rfl, rfl⟩ := runs_ret_iff.mp hret
    refine ⟨rfl, ?_, fun h => absurd h.symm Bool.false_ne_true⟩
    have hselects : Selects ((best :: rest).map scorer.shown) picked :=
      hbandit _ mem_cons_self
    split
    · exact ⟨best, mem_cons_self, rfl⟩
    · next hsome =>
      obtain ⟨_, hshown, hmodel⟩ := hselects.picked.resolve_left hsome
      obtain ⟨c, hc, rfl⟩ := mem_map.mp hshown
      exact ⟨c, hc, (scorer.shown_model c).symm.trans hmodel⟩

/-- A decision is sound for the models that pass the filter, with the scores of their
statistics. -/
structure DecisionSound (e : Engine) (scorer : Scorer S) (hint : TaskHint) (hasRegistry : Bool)
    (t : Trace effects) (d : Decision S) (passing : List ModelCard)
    (scored : List (Scored String S)) : Prop where
  passing_iff : ∀ m, m ∈ passing ↔ m ∈ e.catalog ∧ Passes hint hasRegistry t m
  order : passing.Sublist e.catalog
  scores : Forall₂ (ScoredIn scorer hint t) passing scored
  sound : Sound 2 scored d.model d.fallbackChain
  best : e.hasBandit = false → ∀ p ∈ scored, p.key = d.model → ∀ c ∈ scored, c.score ≤ p.score

/-- What a run of `Decide` that succeeds did. -/
theorem runs_decideBy {d : Decision S} (h : Runs (e.decideBy scorer hint hasRegistry) t (.ok d)) :
    ∃ weights t₁ filtered t₂ scored t₃ best rest,
      t = ⟨.getPolicy (intentFromHint hint), .ok weights⟩ :: (t₁ ++ (t₂ ++ t₃)) ∧
      Runs (filter hint hasRegistry e.catalog) t₁ filtered ∧
      Runs (scoreModelsBy scorer hint (intentFromHint hint) weights filtered) t₂ scored ∧
      scorer.sort scored = best :: rest ∧
      Runs (e.pickBy scorer best.key (best :: rest)) t₃ d.model ∧
      d.fallbackChain = buildChainLoop d.model 2 (best :: rest) [] := by
  rw [Engine.decideBy] at h
  obtain ⟨policy, t', rfl, hgo⟩ := runs_perform_bind_iff.mp h
  cases policy with
  | error err =>
    obtain ⟨-, hout⟩ := runs_ret_iff.mp hgo
    cases hout
  | ok weights =>
    obtain ⟨t₁, filtered, t'', rfl, hfilter, hgo⟩ := runs_bind_iff.mp hgo
    obtain ⟨t₂, scored, t₃, rfl, hscore, hgo⟩ := runs_bind_iff.mp hgo
    cases hsort : scorer.sort scored with
    | nil =>
      rw [hsort] at hgo
      obtain ⟨-, hout⟩ := runs_ret_iff.mp hgo
      cases hout
    | cons best rest =>
      rw [hsort] at hgo
      obtain ⟨t₃, primary, t₄, rfl, hpick, hret⟩ := runs_bind_iff.mp hgo
      obtain ⟨rfl, hout⟩ := runs_ret_iff.mp hret
      cases hout
      rw [append_nil]
      exact ⟨weights, t₁, filtered, t₂, scored, t₃, best, rest, rfl, hfilter, hscore, hsort,
        hpick, rfl⟩

/-- Every decision is sound, whatever the stores, the breakers and the bandit answer. -/
theorem decision_sound (e : Engine) (hdistinct : (e.catalog.map ModelCard.id).Nodup)
    (scorer : Scorer S) (hint : TaskHint) (hasRegistry : Bool) (t : Trace effects) (d : Decision S)
    (hrun : Runs (e.decideBy scorer hint hasRegistry) t (.ok d)) (hbandit : BanditAnswers t) :
    ∃ passing scored, DecisionSound e scorer hint hasRegistry t d passing scored := by
  obtain ⟨weights, t₁, filtered, t₂, scored, t₃, best, rest, rfl, hfilter, hscore, hsort, hpick,
    hchain⟩ := runs_decideBy hrun
  have hbandit₃ : BanditAnswers t₃ := by
    intro ev hev
    exact hbandit ev (mem_cons_of_mem _ (mem_append_right _
      (mem_append_right _ hev)))
  obtain ⟨hsub, hpasses⟩ := filter_passes hdistinct hfilter
  obtain ⟨hquiet₂, hscores⟩ := scoreModelsBy_scores hscore
  obtain ⟨hquiet₃, hprimary, hfirst⟩ := Engine.pickBy_mem hpick hbandit₃
  have hperm : (best :: rest).Perm scored := hsort ▸ scorer.sorts.perm scored
  have hsorted : Descending (best :: rest) := hsort ▸ scorer.sorts.descending scored
  have hdistinct' : (scored.map Scored.key).Nodup := by
    rw [map_key_eq hscores]
    exact (hsub.map _).nodup hdistinct
  -- only the filter asks the breakers
  have hanswers : breakerAnswers (⟨.getPolicy (intentFromHint hint), .ok weights⟩ ::
      (t₁ ++ (t₂ ++ t₃))) = breakerAnswers t₁ := by
    show breakerAnswers (t₁ ++ (t₂ ++ t₃)) = _
    rw [breakerAnswers_append, breakerAnswers_append, hquiet₂, hquiet₃, append_nil, append_nil]
  refine ⟨filtered, scored, ?_, hsub, ?_, ?_, ?_⟩
  · intro m
    rw [Passes, hanswers]
    constructor
    · intro hm
      exact ⟨hsub.subset hm, (hpasses m (hsub.subset hm)).mp hm⟩
    · rintro ⟨hm, hpass⟩
      exact (hpasses m hm).mpr hpass
  · apply hscores.imp
    rintro m c ⟨hkey, stats, hmem, hvalue⟩
    refine ⟨hkey, weights, stats, mem_cons_self, ?_, hvalue⟩
    exact mem_cons_of_mem _ (mem_append_right _ (mem_append_left _ hmem))
  · have hchain' : d.fallbackChain = chainOf d.model 2 (best :: rest) := by
      rw [hchain]
      exact buildChainLoop_eq d.model (best :: rest) [] Nat.two_pos
    rw [hchain']
    apply sound_chain hperm hsorted hdistinct'
    obtain ⟨c, hc, hkey⟩ := hprimary
    exact ⟨c, hperm.mem_iff.mp hc, hkey⟩
  · intro hnone p hp hkey c hc
    have hbest : p = best := by
      apply inj_on_of_nodup_map hdistinct' hp (hperm.mem_iff.mp mem_cons_self)
      rw [hkey, hfirst hnone]
    rw [hbest]
    exact score_le_head hsorted (hperm.mem_iff.mpr hc)

end

/-! ## A bandit that takes the second best -/

def windowScorer : Scorer Nat where
  score m _ _ _ := m.contextWindow.toNat
  sort cs := cs.insertionSort fun a b => b.score ≤ a.score
  sorts := by
    have htotal : Std.Total fun a b : Scored String Nat => b.score ≤ a.score :=
      ⟨fun a b => le_total b.score a.score⟩
    have htrans : IsTrans (Scored String Nat) fun a b => b.score ≤ a.score :=
      ⟨fun _ _ _ hab hbc => hbc.trans hab⟩
    constructor
    · intro cs
      exact perm_insertionSort _ cs
    · intro cs
      exact pairwise_insertionSort _ cs
  shown c := ⟨c.key, c.score⟩
  shown_model := by
    intro c
    rfl

def threeModels : Engine where
  catalog := [{ id := "small", contextWindow := 1 }, { id := "large", contextWindow := 3 },
    { id := "middle", contextWindow := 2 }]
  hasBandit := true

def middleTrace : Trace effects := [
  ⟨.getPolicy "general", .ok (0, 0, 0)⟩, ⟨.perfGet "small" "general", {}⟩,
  ⟨.perfGet "large" "general", {}⟩, ⟨.perfGet "middle" "general", {}⟩,
  ⟨.banditSelect [⟨"large", 3⟩, ⟨"middle", 2⟩, ⟨"small", 1⟩], "middle"⟩]

theorem banditAnswers_middle : BanditAnswers middleTrace := by
  have hpick : Selects [⟨"large", 3⟩, ⟨"middle", 2⟩, ⟨"small", 1⟩] "middle" :=
    .epsilonGreedy (0 : Nat) (fun _ => none) 0 true 1
  intro ev hev
  simp only [middleTrace, mem_cons, not_mem_nil, or_false] at hev
  rcases hev with rfl | rfl | rfl | rfl | rfl
  · trivial
  · trivial
  · trivial
  · trivial
  · exact hpick

theorem middle_decision_sound :
    ∃ passing scored, DecisionSound threeModels windowScorer {} false middleTrace
      ⟨"middle", [⟨"large", 3⟩, ⟨"small", 1⟩]⟩ passing scored :=
  decision_sound threeModels (by decide) windowScorer {} false middleTrace _
    (.ask (.ask (.ask (.ask (.ask .ret))))) banditAnswers_middle

end Ixr.Scoring
