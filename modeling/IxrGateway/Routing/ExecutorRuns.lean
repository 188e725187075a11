import IxrGateway.Routing.Executor

/-!
# The runs of the executor

What a run of the executor can look like.  A candidate's attempts emit what
their calls emit, and they end at once on a success or a client error.  The
candidate loop has one kind of run for each way through its body (`Walk`), so
facts about it are inductions over `Walk`.
-/

namespace Ixr.Routing

open Interaction List

/-! ## The attempts of one candidate -/

variable {σ : Type} {cfg : RetryConfig} {call : σ → Go (Bool × Option GoError × σ)}
  {P : Event effects → Prop} {s s' : σ} {t : Trace effects} {primary : String}
  {lookup : ProviderLookup} {attempt : Provider → σ → Go (σ × Int × Option GoError)}
  {rest : List Candidate} {i : Nat} {st : LoopState} {r : ExecuteResult × Option GoError × σ}

theorem retryLoop_emits (hcall : ∀ s, Emits (call s) P) (hwait : ∀ d r, P ⟨.backoff d, r⟩) :
    ∀ left i backoff lastErr s, Emits (retryLoop cfg call left i backoff lastErr s) P := by
  intro left
  induction left with
  | zero =>
    intro i backoff lastErr s
    exact emits_ret
  | succ left ih =>
    intro i backoff lastErr s
    refine (hcall s).bind ?_
    rintro ⟨final, err, s'⟩
    cases err with
    | none => exact emits_ret
    | some e =>
      dsimp only
      split
      · exact emits_ret
      · split
        · refine emits_ask (hwait backoff) ?_
          rintro (_ | ctxErr)
          · exact ih _ _ _ _
          · exact emits_ret
        · exact ih _ _ _ _

theorem withRetry_emits (hcall : ∀ s, Emits (call s) P) (hwait : ∀ d r, P ⟨.backoff d, r⟩) (s : σ) :
    Emits (withRetry cfg call s) P :=
  retryLoop_emits hcall hwait _ _ _ _ _

theorem withRetry_of_nonpos (h : cfg.maxAttempts ≤ 0) (call : σ → Go (Bool × Option GoError × σ))
    (s : σ) : withRetry cfg call s = .ret (s, cfg.maxAttempts, none) := by
  simp only [withRetry, Int.toNat_of_nonpos h]
  rfl

theorem withRetry_stop (h : 1 ≤ cfg.maxAttempts) {final : Bool} {e : GoError}
    (hcall : Runs (call s) t (final, some e, s'))
    (hstop : (final || e.aborted || isClientError e) = true) :
    Runs (withRetry cfg call s) t (s', 1, some e) := by
  obtain ⟨left, hleft⟩ : ∃ left, cfg.maxAttempts.toNat = left + 1 :=
    ⟨cfg.maxAttempts.toNat - 1, by omega⟩
  rw [withRetry, hleft, retryLoop]
  refine runs_bind_iff.mpr ⟨t, _, [], (append_nil t).symm, hcall, ?_⟩
  simp only [hstop, if_true]
  exact .ret

theorem withRetry_success (h : 1 ≤ cfg.maxAttempts) {final : Bool}
    (hcall : Runs (call s) t (final, none, s')) : Runs (withRetry cfg call s) t (s', 1, none) := by
  obtain ⟨left, hleft⟩ : ∃ left, cfg.maxAttempts.toNat = left + 1 :=
    ⟨cfg.maxAttempts.toNat - 1, by omega⟩
  rw [withRetry, hleft, retryLoop]
  exact runs_bind_iff.mpr ⟨t, _, [], (append_nil t).symm, hcall, .ret⟩

theorem retryLoop_last :
    ∀ left i backoff lastErr s, Ensures (retryLoop cfg call left i backoff lastErr s) fun t r =>
      r.2.2 = none → left = 0 ∧ lastErr = none ∨
        ∃ t₁ t₂ s₁ final, t = t₁ ++ t₂ ∧ Runs (call s₁) t₂ (final, none, r.1) := by
  intro left
  induction left with
  | zero =>
    intro i backoff lastErr s
    exact ensures_ret.mpr fun h => .inl ⟨rfl, h⟩
  | succ left ih =>
    intro i backoff lastErr s
    rw [retryLoop, ensures_bind]
    rintro t ⟨final, err, s'⟩ hcall
    -- Whatever comes after a failed attempt, the last attempt is in the rest of the run.
    have hlater : ∀ i backoff e t', Ensures (retryLoop cfg call left i backoff (some e) s')
        fun t'' r => r.2.2 = none → left + 1 = 0 ∧ lastErr = none ∨
          ∃ t₁ t₂ s₁ final,
            t ++ (t' ++ t'') = t₁ ++ t₂ ∧ Runs (call s₁) t₂ (final, none, r.1) := by
      intro i backoff e t' t'' r hr hnone
      obtain ⟨_, hlast⟩ | ⟨t₁, t₂, s₁, final, rfl, hlast⟩ :=
        ih i backoff (some e) s' t'' r hr hnone
      · cases hlast
      · exact .inr ⟨t ++ (t' ++ t₁), t₂, s₁, final, by simp, hlast⟩
    cases err with
    | none =>
      exact ensures_ret.mpr fun _ => .inr ⟨[], t, s, final, by simp, hcall⟩
    | some e =>
      dsimp only
      split
      · exact ensures_ret.mpr fun h => by cases h
      · split
        · rw [Prog.perform_bind, ensures_ask]
          rintro (_ | ctxErr)
          · exact hlater _ _ _ [_]
          · exact ensures_ret.mpr fun h => by cases h
        · exact hlater _ _ _ []

theorem withRetry_last (h : 1 ≤ cfg.maxAttempts) {n : Int}
    (hrun : Runs (withRetry cfg call s) t (s', n, none)) :
    ∃ t₁ t₂ s₁ final, t = t₁ ++ t₂ ∧ Runs (call s₁) t₂ (final, none, s') := by
  obtain ⟨hzero, _⟩ | hlast := retryLoop_last _ _ _ _ _ t _ hrun rfl
  · omega
  · exact hlast

theorem chatWithRetry_clientError (h : 1 ≤ cfg.maxAttempts) (req : RequestEnvelope) (p : Provider)
    (s : Option ResponseEnvelope) :
    Runs (chatWithRetry cfg req p s) [⟨.chat p req, .error badRequest⟩]
      (none, 1, some badRequest) :=
  withRetry_stop h (.ask .ret) isClientError_badRequest

theorem chatWithRetry_success (h : 1 ≤ cfg.maxAttempts) (req : RequestEnvelope) (p : Provider)
    (s : Option ResponseEnvelope) (resp : ResponseEnvelope) :
    Runs (chatWithRetry cfg req p s) [⟨.chat p req, .ok resp⟩] (some resp, 1, none) :=
  withRetry_success h (.ask .ret)

theorem playStream_emits {fn : Callback σ} (hdeliver : ∀ chunk r, P ⟨.deliver chunk, r⟩) :
    ∀ script wrote s, Emits (playStream fn script wrote s) P := by
  intro script
  induction script with
  | done err =>
    intro wrote s
    exact emits_ret
  | emit chunk next ih =>
    intro wrote s
    exact emits_ask (hdeliver _) fun r => ih r _ _

/-! ## The runs of the candidate loop -/

/-- The runs of `candidateLoop`, one constructor for each way through its body. -/
inductive Walk {σ : Type} (primary : String) (lookup : ProviderLookup)
    (attempt : Provider → σ → Go (σ × Int × Option GoError)) :
    List Candidate → Nat → LoopState → σ → Trace effects →
      ExecuteResult × Option GoError × σ → Prop where
  | exhausted {i : Nat} {st : LoopState} {s : σ} :
      Walk primary lookup attempt [] i st s []
        ({ model := st.lastCandidate, provider := st.lastProvider,
           fallbackUsed := st.usedFallback, fallbackFrom := primary,
           attempts := st.totalAttempts }, st.lastErr, s)
  | skip {c : Candidate} {rest : List Candidate} {i : Nat} {st : LoopState} {s : σ} {err : GoError}
      {t : Trace effects} {r : ExecuteResult × Option GoError × σ} :
      lookup c.model = .error err →
      Walk primary lookup attempt rest (i + 1) { st.enter i c with lastErr := some err } s t r →
      Walk primary lookup attempt (c :: rest) i st s (⟨.lookup c.model, ()⟩ :: t) r
  | success {c : Candidate} {rest : List Candidate} {i : Nat} {st : LoopState} {s s' : σ}
      {p : Provider} {n : Int} {t : Trace effects} :
      lookup c.model = .ok p →
      Runs (attempt p s) t (s', n, none) →
      Walk primary lookup attempt (c :: rest) i st s (⟨.lookup c.model, ()⟩ :: t)
        ({ provider := some p, model := c.model, fallbackUsed := (st.enter i c).usedFallback,
           fallbackFrom := primary, attempts := (st.enter i c).totalAttempts + n }, none, s')
  | abort {c : Candidate} {rest : List Candidate} {i : Nat} {st : LoopState} {s s' : σ}
      {p : Provider} {n : Int} {e : GoError} {t : Trace effects} :
      lookup c.model = .ok p →
      Runs (attempt p s) t (s', n, some e) → e.aborted = true →
      Walk primary lookup attempt (c :: rest) i st s (⟨.lookup c.model, ()⟩ :: t)
        ({ provider := some p, model := c.model,
           attempts := (st.enter i c).totalAttempts + n }, some e, s')
  | escalate {c : Candidate} {rest : List Candidate} {i : Nat} {st : LoopState} {s s' : σ}
      {p : Provider} {n : Int} {e : GoError} {t t' : Trace effects}
      {r : ExecuteResult × Option GoError × σ} :
      lookup c.model = .ok p →
      Runs (attempt p s) t (s', n, some e) → e.aborted = false → isContextLengthError e = true →
      Walk primary lookup attempt (escalateCandidates rest (contextWindowFor c.model)) 0
        { (st.enter i c).failed p n e with usedFallback := true } s' t' r →
      Walk primary lookup attempt (c :: rest) i st s (⟨.lookup c.model, ()⟩ :: (t ++ t')) r
  | next {c : Candidate} {rest : List Candidate} {i : Nat} {st : LoopState} {s s' : σ}
      {p : Provider} {n : Int} {e : GoError} {t t' : Trace effects}
      {r : ExecuteResult × Option GoError × σ} :
      lookup c.model = .ok p →
      Runs (attempt p s) t (s', n, some e) → e.aborted = false → isContextLengthError e = false →
      Walk primary lookup attempt rest (i + 1) ((st.enter i c).failed p n e) s' t' r →
      Walk primary lookup attempt (c :: rest) i st s (⟨.lookup c.model, ()⟩ :: (t ++ t')) r

theorem Walk.runs (h : Walk primary lookup attempt rest i st s t r) :
    Runs (candidateLoop primary lookup attempt rest i st s) t r := by
  induction h with
  | exhausted =>
    rw [candidateLoop]
    exact .ret
  | skip hl _ ih =>
    rw [candidateLoop, Prog.perform_bind, hl]
    exact .ask ih
  | success hl ha =>
    rw [candidateLoop, Prog.perform_bind, hl]
    exact .ask (runs_bind_iff.mpr ⟨_, _, [], (append_nil _).symm, ha, .ret⟩)
  | abort hl ha hab =>
    rw [candidateLoop, Prog.perform_bind, hl]
    refine .ask (runs_bind_iff.mpr ⟨_, _, [], (append_nil _).symm, ha, ?_⟩)
    simp only [hab, if_true]
    exact .ret
  | escalate hl ha hab hctx _ ih =>
    rw [candidateLoop, Prog.perform_bind, hl]
    refine .ask (runs_bind_iff.mpr ⟨_, _, _, rfl, ha, ?_⟩)
    simpa only [hab, hctx, if_true, Bool.false_eq_true, if_false] using ih
  | next hl ha hab hctx _ ih =>
    rw [candidateLoop, Prog.perform_bind, hl]
    refine .ask (runs_bind_iff.mpr ⟨_, _, _, rfl, ha, ?_⟩)
    simpa only [hab, hctx, Bool.false_eq_true, if_false] using ih

theorem walk_of_runs :
    ∀ {rest : List Candidate} {i : Nat} {st : LoopState} {s : σ} {t : Trace effects}
      {r : ExecuteResult × Option GoError × σ},
      Runs (candidateLoop primary lookup attempt rest i st s) t r →
      Walk primary lookup attempt rest i st s t r
  | [], i, st, s, t, r, h => by
    rw [candidateLoop] at h
    obtain ⟨rfl, rfl⟩ := runs_ret_iff.mp h
    exact .exhausted
  | c :: rest, i, st, s, t, r, h => by
    rw [candidateLoop, Prog.perform_bind] at h
    obtain ⟨_, t', rfl, hbody⟩ := runs_ask_iff.mp h
    cases hl : lookup c.model with
    | error err =>
      simp only [hl] at hbody
      exact .skip hl (walk_of_runs hbody)
    | ok p =>
      simp only [hl] at hbody
      obtain ⟨t₁, ⟨s', n, err⟩, t₂, rfl, ha, htail⟩ := runs_bind_iff.mp hbody
      cases err with
      | none =>
        obtain ⟨rfl, rfl⟩ := runs_ret_iff.mp htail
        rw [append_nil]
        exact .success hl ha
      | some e =>
        cases hab : e.aborted with
        | true =>
          simp only [hab, if_true] at htail
          obtain ⟨rfl, rfl⟩ := runs_ret_iff.mp htail
          rw [append_nil]
          exact .abort hl ha hab
        | false =>
          cases hctx : isContextLengthError e with
          | true =>
            simp only [hab, hctx, if_true, Bool.false_eq_true, if_false] at htail
            exact .escalate hl ha hab hctx (walk_of_runs htail)
          | false =>
            simp only [hab, hctx, Bool.false_eq_true, if_false] at htail
            exact .next hl ha hab hctx (walk_of_runs htail)
termination_by rest => rest.length
decreasing_by
  · exact Nat.lt_succ_self _
  · exact Nat.lt_succ_self _
  · exact Nat.lt_succ_of_le (escalateCandidates_length_le _ _)

theorem runs_candidateLoop_iff :
    Runs (candidateLoop primary lookup attempt rest i st s) t r ↔
      Walk primary lookup attempt rest i st s t r :=
  ⟨walk_of_runs, Walk.runs⟩

theorem Walk.emits (hattempt : ∀ p s, Emits (attempt p s) P) (hlookup : ∀ m, P ⟨.lookup m, ()⟩)
    (h : Walk primary lookup attempt rest i st s t r) : ∀ e ∈ t, P e := by
  induction h with
  | exhausted => simp
  | skip _ _ ih => exact forall_mem_cons.mpr ⟨hlookup _, ih⟩
  | success _ ha | abort _ ha _ =>
    exact forall_mem_cons.mpr ⟨hlookup _, hattempt _ _ _ _ ha⟩
  | escalate _ ha _ _ _ ih | next _ ha _ _ _ ih =>
    exact forall_mem_cons.mpr
      ⟨hlookup _, forall_mem_append.mpr ⟨hattempt _ _ _ _ ha, ih⟩⟩

/-! ## Candidates with and without a provider -/

/-- The model has a provider. -/
def Resolves (lookup : ProviderLookup) (model : String) : Prop :=
  ∃ p, lookup model = .ok p

theorem Walk.err_of_unresolved (h : Walk primary lookup attempt rest i st s t r)
    (hrest : ∀ c ∈ rest, ¬ Resolves lookup c.model) (hlast : st.lastErr ≠ none) : r.2.1 ≠ none := by
  induction h with
  | exhausted => exact hlast
  | skip _ _ ih => exact ih (fun c hc => hrest c (mem_cons_of_mem _ hc)) (by simp)
  | success hl _ | abort hl _ _ | escalate hl _ _ _ _ | next hl _ _ _ _ =>
    exact absurd ⟨_, hl⟩ (hrest _ mem_cons_self)

theorem exists_walk_rescued {plain : σ → Prop}
    (hserves : ∀ p s, ∃ t s' n, plain s' ∧ Runs (attempt p s) t (s', n, none)) :
    ∀ (rest : List Candidate) (i : Nat) (st : LoopState) (s : σ),
      (∃ c ∈ rest, Resolves lookup c.model) →
      ∃ m t result s', plain s' ∧
        Walk primary lookup attempt rest i st s (⟨.lookup m, ()⟩ :: t) (result, none, s')
  | [], _, _, _, h => by
    obtain ⟨c, hc, _⟩ := h
    cases hc
  | c :: rest, i, st, s, h => by
    cases hl : lookup c.model with
    | ok p =>
      obtain ⟨t, s', n, hplain, hrun⟩ := hserves p s
      exact ⟨c.model, t, _, s', hplain, .success hl hrun⟩
    | error err =>
      obtain ⟨c', hc', hres⟩ := h
      obtain rfl | hc' := mem_cons.mp hc'
      · obtain ⟨p, hp⟩ := hres
        rw [hl] at hp
        cases hp
      · obtain ⟨m, t, result, s', hplain, hw⟩ := exists_walk_rescued hserves rest (i + 1)
          { st.enter i c with lastErr := some err } s ⟨c', hc', hres⟩
        exact ⟨c.model, _, result, s', hplain, .skip hl hw⟩

theorem exists_walk_failed {e : GoError} (hab : e.aborted = false)
    (hctx : isContextLengthError e = false)
    (hfails : ∀ p s, ∃ t s' n, Runs (attempt p s) t (s', n, some e)) :
    ∀ (rest : List Candidate) (i : Nat) (st : LoopState) (s : σ),
      (∀ c ∈ rest, Resolves lookup c.model) → rest ≠ [] ∨ st.lastErr = some e →
      ∃ t result s', Walk primary lookup attempt rest i st s t (result, some e, s')
  | [], _, st, s, _, hlast => by
    rw [← hlast.resolve_left (not_not_intro rfl)]
    exact ⟨[], _, s, .exhausted⟩
  | c :: rest, i, st, s, hres, _ => by
    obtain ⟨⟨p, hl⟩, hres⟩ := forall_mem_cons.mp hres
    obtain ⟨t, s', n, hrun⟩ := hfails p s
    obtain ⟨t', result, s'', hw⟩ := exists_walk_failed hab hctx hfails rest (i + 1)
      ((st.enter i c).failed p n e) s' hres (.inr rfl)
    exact ⟨_, result, s'', .next hl hrun hab hctx hw⟩

theorem runs_execute_iff {decision : RoutingDecision} {req : RequestEnvelope}
    {r : ExecuteResult × Option GoError} :
    Runs (execute decision req lookup cfg) t r ↔
      ∃ result err response, r = ({ result with response := response }, err) ∧
        Walk decision.model lookup (chatWithRetry cfg req) (orderedCandidates decision) 0 {} none t
          (result, err, response) := by
  simp only [execute, runs_bind_iff, runs_candidateLoop_iff]
  constructor
  · rintro ⟨t₁, ⟨result, err, response⟩, t₂, rfl, hw, hret⟩
    obtain ⟨rfl, rfl⟩ := runs_ret_iff.mp hret
    rw [append_nil]
    exact ⟨result, err, response, rfl, hw⟩
  · rintro ⟨result, err, response, rfl, hw⟩
    exact ⟨t, _, [], (append_nil t).symm, hw, .ret⟩

/-! ## A decision with one fallback -/

def gptThenClaude : RoutingDecision where
  model := "gpt-5.2"
  fallbackChain := [{ model := "claude-sonnet-4-6" }]

def twoProviders : ProviderLookup := fun model =>
  if GoStrings.hasPrefix model "gpt-" then .ok ⟨0, "openai"⟩ else .ok ⟨1, "anthropic"⟩

def gptRequest : RequestEnvelope where
  model := "gpt-5.2"
  messages := [{ role := "user", content := "hi" }]

end Ixr.Routing
