import IxrGateway.Routing.Calls

/-!
# `Execute` and `ExecuteStream` side by side

The two functions are written twice in the source.  Take a run of each, where
the providers answer alike: the `k`-th call to a provider ends the same way in
both, and the `k`-th wait does too.  If no stream fails after it has written,
the runs make the same calls in the same order and end with the same result.

The runs are followed in step.  What has been compared is dropped from both
traces, and the rest still agrees.
-/

namespace Ixr.Routing

open Interaction List

/-! ## Traces that agree -/

/-- The calls of a provider. -/
def callsTo (p : Provider) (l : List Called) : List Called := l.filter (·.provider = p)

/-- The `k`-th call to a provider has the same error in both lists, if both have such a call. -/
def CallsAgree (l l' : List Called) : Prop :=
  ∀ (p : Provider) (k : Nat) (c c' : Called), (callsTo p l)[k]? = some c →
    (callsTo p l')[k]? = some c' → c.err = c'.err

/-- The `k`-th wait ends the same way in both lists, if both have one. -/
def WaitsAgree (l l' : List (Option CtxErr)) : Prop :=
  ∀ (k : Nat) (r r' : Option CtxErr), l[k]? = some r → l'[k]? = some r' → r = r'

/-- No call fails after it has written. -/
def FailsSilently (l : List Called) : Prop := ∀ c ∈ l, c.err ≠ none → c.wrote = false

/-- The calls without their chunks. -/
def outcomes (l : List Called) : List (Provider × Option GoError) :=
  l.map fun c => (c.provider, c.err)

theorem CallsAgree.head {c c' : Called} {l l' : List Called} (h : CallsAgree (c :: l) (c' :: l'))
    (hp : c'.provider = c.provider) : c'.err = c.err := by
  refine (h c.provider 0 c c' ?_ ?_).symm
  · simp [callsTo]
  · simp [callsTo, hp]

theorem CallsAgree.tail {c c' : Called} {l l' : List Called} (h : CallsAgree (c :: l) (c' :: l'))
    (hp : c'.provider = c.provider) : CallsAgree l l' := by
  intro p k d d' hd hd'
  by_cases hc : c.provider = p
  · refine h p (k + 1) d d' ?_ ?_
    · simpa [callsTo, hc] using hd
    · simpa [callsTo, hp, hc] using hd'
  · refine h p k d d' ?_ ?_
    · simpa [callsTo, hc] using hd
    · simpa [callsTo, hp, hc] using hd'

variable {r r' : Option CtxErr} {p : Provider} {err : Option GoError} {t t' : Trace effects}
  {σ σ' : Type} {primary : String} {lookup : ProviderLookup}
  {attempt : Provider → σ → Go (σ × Int × Option GoError)} {rest : List Candidate} {i : Nat}
  {st : LoopState} {s : σ}

theorem WaitsAgree.head {l l' : List (Option CtxErr)} (h : WaitsAgree (r :: l) (r' :: l')) :
    r' = r :=
  (h 0 r r' rfl rfl).symm

theorem WaitsAgree.tail {l l' : List (Option CtxErr)} (h : WaitsAgree (r :: l) (r' :: l')) :
    WaitsAgree l l' :=
  fun k => h (k + 1)

/-- Two traces with answers that agree. -/
structure Agree (t t' : Trace effects) : Prop where
  calls : CallsAgree (calls t) (calls t')
  waits : WaitsAgree (waits t) (waits t')
  silent : FailsSilently (Routing.calls t')

theorem Agree.call {wrote wrote' : Bool} {err' : Option GoError} {u u' : Trace effects}
    (h : Agree (t ++ u) (t' ++ u'))
    (hcalls : Routing.calls (t ++ u) = ⟨p, wrote, err⟩ :: Routing.calls u)
    (hcalls' : Routing.calls (t' ++ u') = ⟨p, wrote', err'⟩ :: Routing.calls u')
    (hwaits : Routing.waits (t ++ u) = Routing.waits u)
    (hwaits' : Routing.waits (t' ++ u') = Routing.waits u') :
    err' = err ∧ (err ≠ none → wrote' = false) ∧ Agree u u' := by
  obtain ⟨hc, hw, hsilent⟩ := h
  rw [hcalls, hcalls'] at hc
  rw [hwaits, hwaits'] at hw
  rw [hcalls'] at hsilent
  obtain ⟨hfirst, hrest⟩ := forall_mem_cons.mp hsilent
  have herr : err' = err := hc.head rfl
  exact ⟨herr, herr ▸ hfirst, hc.tail rfl, hw, hrest⟩

theorem Agree.wait {d : Int} (h : Agree (⟨.backoff d, r⟩ :: t) (⟨.backoff d, r'⟩ :: t')) :
    r' = r ∧ Agree t t' :=
  ⟨h.waits.head, h.calls, h.waits.tail, h.silent⟩

/-! ## The attempts of one candidate -/

/-- Two pieces of run made the same calls, and what comes after them agrees. -/
structure InStep (t t' u u' : Trace effects) : Prop where
  same : outcomes (calls t') = outcomes (calls t)
  rest : Agree u u'

theorem InStep.call {wrote wrote' : Bool} {t₁ t₁' u u' : Trace effects} (h : InStep t t' u u')
    (hcalls : calls (t₁ ++ t) = ⟨p, wrote, err⟩ :: calls t)
    (hcalls' : calls (t₁' ++ t') = ⟨p, wrote', err⟩ :: calls t') :
    InStep (t₁ ++ t) (t₁' ++ t') u u' := by
  refine ⟨?_, h.rest⟩
  rw [hcalls, hcalls', outcomes, outcomes, map_cons, map_cons]
  exact congrArg _ h.same

theorem retryLoop_inStep {cfg : RetryConfig} {call : σ → Go (Bool × Option GoError × σ)}
    {call' : σ' → Go (Bool × Option GoError × σ')} (hcall : CallsOnce p call)
    (hsilent : ∀ s, Ensures (call s) fun _ r => r.1 = false) (hcall' : CallsOnce p call') :
    ∀ left i backoff lastErr s s' {t r t' r'} {u u' : Trace effects},
      Runs (retryLoop cfg call left i backoff lastErr s) t r →
      Runs (retryLoop cfg call' left i backoff lastErr s') t' r' →
      Agree (t ++ u) (t' ++ u') → r'.2 = r.2 ∧ InStep t t' u u' := by
  intro left
  induction left with
  | zero =>
    intro i backoff lastErr s s' t r t' r' u u' h h' hagree
    obtain ⟨rfl, rfl⟩ := runs_ret_iff.mp h
    obtain ⟨rfl, rfl⟩ := runs_ret_iff.mp h'
    exact ⟨rfl, rfl, hagree⟩
  | succ left ih =>
    intro i backoff lastErr s s' t r t' r' u u' h h' hagree
    obtain ⟨t₁, ⟨wrote, err, s₁⟩, t₂, rfl, h₁, h₂⟩ := runs_bind_iff.mp h
    obtain ⟨t₁', ⟨wrote', err', s₁'⟩, t₂', rfl, h₁', h₂'⟩ := runs_bind_iff.mp h'
    obtain ⟨_, hcalls, hwaits⟩ := hcall s t₁ _ h₁
    obtain ⟨_, hcalls', hwaits'⟩ := hcall' s' t₁' _ h₁'
    have hwrote : wrote = false := hsilent s t₁ _ h₁
    dsimp only at hcalls hcalls'
    rw [append_assoc, append_assoc] at hagree
    obtain ⟨rfl, hwrote', hrest⟩ := hagree.call (hcalls _) (hcalls' _) (hwaits _) (hwaits' _)
    -- It remains to compare what follows the first call.
    suffices hafter : r'.2 = r.2 ∧ InStep t₂ t₂' u u' from
      ⟨hafter.1, hafter.2.call (hcalls _) (hcalls' _)⟩
    cases err' with
    | none =>
      obtain ⟨rfl, rfl⟩ := runs_ret_iff.mp h₂
      obtain ⟨rfl, rfl⟩ := runs_ret_iff.mp h₂'
      exact ⟨rfl, rfl, hrest⟩
    | some e =>
      rw [hwrote] at h₂
      rw [hwrote' (by simp)] at h₂'
      dsimp only at h₂ h₂'
      split at h₂
      · next hstop =>
        rw [if_pos hstop] at h₂'
        obtain ⟨rfl, rfl⟩ := runs_ret_iff.mp h₂
        obtain ⟨rfl, rfl⟩ := runs_ret_iff.mp h₂'
        exact ⟨rfl, rfl, hrest⟩
      · next hstop =>
        rw [if_neg hstop] at h₂'
        split at h₂
        · next hmore =>
          rw [if_pos hmore] at h₂'
          obtain ⟨w, t₃, rfl, h₃⟩ := runs_ask_iff.mp h₂
          obtain ⟨w', t₃', rfl, h₃'⟩ := runs_ask_iff.mp h₂'
          obtain ⟨rfl, hlater⟩ := hrest.wait
          cases w' with
          | none =>
            obtain ⟨hr, hstep⟩ := ih _ _ _ _ _ h₃ h₃' hlater
            exact ⟨hr, hstep.same, hstep.rest⟩
          | some ctxErr =>
            obtain ⟨rfl, rfl⟩ := runs_ret_iff.mp h₃
            obtain ⟨rfl, rfl⟩ := runs_ret_iff.mp h₃'
            exact ⟨rfl, rfl, hlater⟩
        · next hmore =>
          rw [if_neg hmore] at h₂'
          exact ih _ _ _ _ _ h₂ h₂' hrest

/-! ## The candidates -/

/-- What a walk does after the attempts on `c`, which ended with `err`. -/
def AfterAttempts {σ : Type} (primary : String) (lookup : ProviderLookup)
    (attempt : Provider → σ → Go (σ × Int × Option GoError)) (c : Candidate)
    (rest : List Candidate) (i : Nat) (st : LoopState) (p : Provider) (s : σ) (n : Int)
    (err : Option GoError) (t : Trace effects) (r : ExecuteResult × Option GoError × σ) : Prop :=
  match err with
  | none => t = [] ∧
      r = ({ provider := some p, model := c.model, fallbackUsed := (st.enter i c).usedFallback,
             fallbackFrom := primary, attempts := (st.enter i c).totalAttempts + n }, none, s)
  | some e =>
    if e.aborted then t = [] ∧
      r = ({ provider := some p, model := c.model,
             attempts := (st.enter i c).totalAttempts + n }, some e, s)
    else if isContextLengthError e then
      Walk primary lookup attempt (escalateCandidates rest (contextWindowFor c.model)) 0
        { (st.enter i c).failed p n e with usedFallback := true } s t r
    else Walk primary lookup attempt rest (i + 1) ((st.enter i c).failed p n e) s t r

theorem Walk.inv {c : Candidate} {r : ExecuteResult × Option GoError × σ}
    (h : Walk primary lookup attempt (c :: rest) i st s t r) (hl : lookup c.model = .ok p) :
    ∃ t₁ s' n err t₂, t = ⟨.lookup c.model, ()⟩ :: (t₁ ++ t₂) ∧
      Runs (attempt p s) t₁ (s', n, err) ∧
      AfterAttempts primary lookup attempt c rest i st p s' n err t₂ r := by
  cases h with
  | skip hl' _ =>
    rw [hl] at hl'
    cases hl'
  | success hl' ha =>
    cases hl.symm.trans hl'
    exact ⟨_, _, _, _, [], by rw [append_nil], ha, rfl, rfl⟩
  | abort hl' ha hab =>
    cases hl.symm.trans hl'
    refine ⟨_, _, _, _, [], by rw [append_nil], ha, ?_⟩
    simp only [AfterAttempts, hab, if_true, and_self]
  | escalate hl' ha hab hctx hw =>
    cases hl.symm.trans hl'
    refine ⟨_, _, _, _, _, rfl, ha, ?_⟩
    simpa only [AfterAttempts, hab, hctx, Bool.false_eq_true, if_true, if_false] using hw
  | next hl' ha hab hctx hw =>
    cases hl.symm.trans hl'
    refine ⟨_, _, _, _, _, rfl, ha, ?_⟩
    simpa only [AfterAttempts, hab, hctx, Bool.false_eq_true, if_false] using hw

/-- Attempts on the same candidate go in step, and no call of theirs is still open after them. -/
def AttemptsInStep {σ σ' : Type} (attempt : Provider → σ → Go (σ × Int × Option GoError))
    (attempt' : Provider → σ' → Go (σ' × Int × Option GoError)) : Prop :=
  ∀ p s s' t r t' r' (u u' : Trace effects), Runs (attempt p s) t r →
    Runs (attempt' p s') t' r' → Agree (t ++ u) (t' ++ u') →
      r'.2 = r.2 ∧ InStep t t' u u' ∧ calls (t ++ u) = calls t ++ calls u ∧
        calls (t' ++ u') = calls t' ++ calls u'

theorem Walk.head_inStep {attempt' : Provider → σ' → Go (σ' × Int × Option GoError)}
    (hstep : AttemptsInStep attempt attempt') {c : Candidate} {s₁ : σ} {n : Int}
    {t₁ t₂ : Trace effects} (hl : lookup c.model = .ok p)
    (ha : Runs (attempt p s) t₁ (s₁, n, err)) {s' : σ'} {r' : ExecuteResult × Option GoError × σ'}
    (h' : Walk primary lookup attempt' (c :: rest) i st s' t' r')
    (hagree : Agree (⟨.lookup c.model, ()⟩ :: (t₁ ++ t₂)) t') :
    ∃ s₁' t₂', AfterAttempts primary lookup attempt' c rest i st p s₁' n err t₂' r' ∧
      Agree t₂ t₂' ∧
      (outcomes (calls t₂') = outcomes (calls t₂) →
        outcomes (calls t') = outcomes (calls (⟨.lookup c.model, ()⟩ :: (t₁ ++ t₂)))) := by
  obtain ⟨t₁', s₁', n', err', t₂', rfl, ha', hafter⟩ := h'.inv hl
  obtain ⟨heq, htrace, hcalls, hcalls'⟩ := hstep p s s' t₁ _ t₁' _ t₂ t₂' ha ha'
    ⟨hagree.calls, hagree.waits, hagree.silent⟩
  cases heq
  refine ⟨s₁', t₂', hafter, htrace.rest, fun hrest => ?_⟩
  have hsame := htrace.same
  change outcomes (calls (t₁' ++ t₂')) = outcomes (calls (t₁ ++ t₂))
  unfold outcomes at hsame hrest ⊢
  rw [hcalls, hcalls', map_append, map_append, hsame, hrest]

theorem Walk.inStep {attempt' : Provider → σ' → Go (σ' × Int × Option GoError)}
    (hstep : AttemptsInStep attempt attempt') {r : ExecuteResult × Option GoError × σ}
    (h : Walk primary lookup attempt rest i st s t r) :
    ∀ {s' t' r'}, Walk primary lookup attempt' rest i st s' t' r' → Agree t t' →
      r'.1 = r.1 ∧ r'.2.1 = r.2.1 ∧ outcomes (calls t') = outcomes (calls t) := by
  induction h with
  | exhausted =>
    intro s' t' r' h' hagree
    cases h'
    exact ⟨rfl, rfl, rfl⟩
  | skip hl _ ih =>
    intro s' t' r' h' hagree
    cases h' with
    | skip hl' h' =>
      cases hl.symm.trans hl'
      have hrest := ih h' ⟨hagree.calls, hagree.waits, hagree.silent⟩
      exact hrest
    | success hl' | abort hl' | escalate hl' | next hl' => simp [hl] at hl'
  | @success _ _ _ _ _ _ _ _ t hl ha =>
    intro s' t' r' h' hagree
    rw [← append_nil t] at hagree ⊢
    obtain ⟨s₁', t₂', ⟨rfl, rfl⟩, _, hcalls⟩ := head_inStep hstep hl ha h' hagree
    exact ⟨rfl, rfl, hcalls rfl⟩
  | @abort _ _ _ _ _ _ _ _ _ t hl ha hab =>
    intro s' t' r' h' hagree
    rw [← append_nil t] at hagree ⊢
    obtain ⟨s₁', t₂', hafter, _, hcalls⟩ := head_inStep hstep hl ha h' hagree
    simp only [AfterAttempts, hab, if_true] at hafter
    obtain ⟨rfl, rfl⟩ := hafter
    exact ⟨rfl, rfl, hcalls rfl⟩
  | escalate hl ha hab hctx _ ih =>
    intro s' t' r' h' hagree
    obtain ⟨s₁', t₂', hafter, hrest, hcalls⟩ := head_inStep hstep hl ha h' hagree
    simp only [AfterAttempts, hab, hctx, Bool.false_eq_true, if_true, if_false] at hafter
    obtain ⟨hresult, herr, hsame⟩ := ih hafter hrest
    exact ⟨hresult, herr, hcalls hsame⟩
  | next hl ha hab hctx _ ih =>
    intro s' t' r' h' hagree
    obtain ⟨s₁', t₂', hafter, hrest, hcalls⟩ := head_inStep hstep hl ha h' hagree
    simp only [AfterAttempts, hab, hctx, Bool.false_eq_true, if_false] at hafter
    obtain ⟨hresult, herr, hsame⟩ := ih hafter hrest
    exact ⟨hresult, herr, hcalls hsame⟩

theorem attemptsInStep_retry (cfg : RetryConfig) (req : RequestEnvelope) (fn : Callback σ) :
    AttemptsInStep (chatWithRetry cfg req) (streamWithRetry cfg fn req) := by
  intro p s s' t r t' r' u u' h h' hagree
  obtain ⟨hr, hstep⟩ := retryLoop_inStep (chatOnce_callsOnce p req) (chatOnce_silent p req)
    (streamOnce_callsOnce fn p req) _ _ _ _ _ _ h h' hagree
  exact ⟨hr, hstep, (withRetry_attempts (chatOnce_callsOnce p req) s t r h).whole u,
    (withRetry_attempts (streamOnce_callsOnce fn p req) s' t' r' h').whole u'⟩

/-- Where chats and streams end alike, waits end alike and no stream fails after it has written,
`Execute` and `ExecuteStream` report the same and have made the same calls. -/
theorem execute_agrees_executeStream {decision : RoutingDecision} {req : RequestEnvelope}
    {lookup : ProviderLookup} {cfg : RetryConfig} {σ : Type} {fn : Callback σ} {s s' : σ}
    {t t' : Trace effects} {result result' : ExecuteResult} {err err' : Option GoError}
    (h : Runs (execute decision req lookup cfg) t (result, err))
    (h' : Runs (executeStream decision req lookup cfg fn s) t' (result', err', s'))
    (hcalls : CallsAgree (calls t) (calls t')) (hsilent : FailsSilently (calls t'))
    (hwaits : WaitsAgree (waits t) (waits t')) :
    err' = err ∧ result'.model = result.model ∧ result'.provider = result.provider ∧
      result'.fallbackUsed = result.fallbackUsed ∧ result'.fallbackFrom = result.fallbackFrom ∧
      result'.attempts = result.attempts ∧ outcomes (calls t') = outcomes (calls t) := by
  obtain ⟨found, _, response, heq, hwalk⟩ := runs_execute_iff.mp h
  cases heq
  obtain ⟨hresult, herr, hsame⟩ := hwalk.inStep (attemptsInStep_retry cfg req fn)
    (walk_of_runs h') ⟨hcalls, hwaits, hsilent⟩
  cases hresult
  exact ⟨herr, rfl, rfl, rfl, rfl, rfl, hsame⟩

theorem streamOnce_done (fn : Callback σ) (p : Provider) (req : RequestEnvelope)
    (err : Option GoError) (s : σ) :
    Runs (streamOnce fn p req s) [⟨.stream p req, .done err⟩] (false, err, s) :=
  .ask .ret

/-- A callback that hands chunks on. -/
def passOn : Callback Unit := ⟨fun _ _ s => s, id⟩

/-- A primary that refuses the request and a fallback that serves it. -/
theorem refused_then_served_agree :
    ∃ t t' result result',
      Runs (execute gptThenClaude gptRequest twoProviders defaultRetryConfig) t (result, none) ∧
      Runs (executeStream gptThenClaude gptRequest twoProviders defaultRetryConfig passOn ())
        t' (result', none, ()) ∧
      result'.model = result.model ∧ result'.attempts = result.attempts := by
  have hgpt : twoProviders "gpt-5.2" = .ok ⟨0, "openai"⟩ := by decide
  have hclaude : twoProviders "claude-sonnet-4-6" = .ok ⟨1, "anthropic"⟩ := by decide
  have hchat : Runs (execute gptThenClaude gptRequest twoProviders defaultRetryConfig) _ _ :=
    runs_execute_iff.mpr ⟨_, _, _, rfl,
      .next hgpt (chatWithRetry_clientError (by decide) _ _ _) rfl isContextLengthError_badRequest
        (.success hclaude (chatWithRetry_success (by decide) _ _ _ default))⟩
  have hstream : Runs (executeStream gptThenClaude gptRequest twoProviders defaultRetryConfig
      passOn ()) _ _ :=
    Walk.runs (.next hgpt (withRetry_stop (by decide) (streamOnce_done _ _ _ (some badRequest) _)
      isClientError_badRequest) rfl isContextLengthError_badRequest
        (.success hclaude (withRetry_success (by decide) (streamOnce_done _ _ _ none _))))
  have hagrees := execute_agrees_executeStream hchat hstream
    (fun p k c c' hc hc' => congrArg Called.err (Option.some.inj (hc.symm.trans hc')))
    (by simp [FailsSilently, calls, StreamScript.emits])
    (by simp [WaitsAgree, waits])
  exact ⟨_, _, _, _, hchat, hstream, hagrees.2.1, hagrees.2.2.2.2.2.1⟩

end Ixr.Routing
