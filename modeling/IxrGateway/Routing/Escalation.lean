import IxrGateway.Routing.Calls

/-!
# Escalation

The loop of the source has an index and a list, and a context-length error
changes both: the list becomes the larger candidates that are left, sorted, and
the index is reset.  `indexedLoop` is that loop with a bound on its iterations.
Each iteration leaves fewer candidates ahead, so as many iterations as there are
candidates are enough, and the loop is `candidateLoop`.

A run is then a sequence of visits to candidates.  No position is visited twice,
a visit makes a bounded number of calls, and what is visited after a visit that
ends with a context-length error has a larger window.  The loop looks only at the
last error of a candidate: a context-length error that is retried and followed by
another one is forgotten (`retried_overflow_forgotten`).
-/

namespace Ixr.Routing

open Interaction List

/-! ## The loop of the source -/

/-- The candidate loop with its variables `ordered` and `i`, for at most `fuel` tests of its
condition.  It returns nothing if they do not suffice. -/
def indexedLoop {σ : Type} (primary : String) (lookup : ProviderLookup)
    (attempt : Provider → σ → Go (σ × Int × Option GoError)) :
    (fuel : Nat) → (ordered : List Candidate) → (i : Nat) → LoopState → σ →
      Go (Option (ExecuteResult × Option GoError × σ))
  | 0, _, _, _, _ => pure none
  | fuel + 1, ordered, i, st, s =>
    if h : i < ordered.length then do
      let c := ordered[i]
      let st := st.enter i c
      Go.lookup c.model
      match lookup c.model with
      | .error err =>
        indexedLoop primary lookup attempt fuel ordered (i + 1)
          { st with lastErr := some err } s
      | .ok p => do
        let (s, n, err) ← attempt p s
        match err with
        | none =>
          pure (some ({ provider := some p, model := c.model,
                        fallbackUsed := st.usedFallback, fallbackFrom := primary,
                        attempts := st.totalAttempts + n }, none, s))
        | some e =>
          if e.aborted then
            pure (some ({ provider := some p, model := c.model,
                          attempts := st.totalAttempts + n }, some e, s))
          else if isContextLengthError e then
            -- `i = -1`, and the loop adds one.
            indexedLoop primary lookup attempt fuel
              (escalateCandidates (ordered.drop (i + 1)) (contextWindowFor c.model)) 0
              { st.failed p n e with usedFallback := true } s
          else
            indexedLoop primary lookup attempt fuel ordered (i + 1) (st.failed p n e) s
    else
      pure (some ({ model := st.lastCandidate, provider := st.lastProvider,
                    fallbackUsed := st.usedFallback, fallbackFrom := primary,
                    attempts := st.totalAttempts }, st.lastErr, s))

/-- `Execute` with the loop of the source. -/
def executeIndexed (fuel : Nat) (decision : RoutingDecision) (req : RequestEnvelope)
    (lookup : ProviderLookup) (cfg : RetryConfig) :
    Go (Option (ExecuteResult × Option GoError)) := do
  let result ← indexedLoop decision.model lookup (chatWithRetry cfg req) fuel
    (orderedCandidates decision) 0 {} none
  pure (result.map fun (result, err, response) => ({ result with response := response }, err))

/-- `ExecuteStream` with the loop of the source. -/
def executeStreamIndexed {σ : Type} (fuel : Nat) (decision : RoutingDecision)
    (req : RequestEnvelope) (lookup : ProviderLookup) (cfg : RetryConfig) (fn : Callback σ)
    (s : σ) : Go (Option (ExecuteResult × Option GoError × σ)) :=
  indexedLoop decision.model lookup (streamWithRetry cfg fn req) fuel
    (orderedCandidates decision) 0 {} s

variable {σ : Type} {lookup : ProviderLookup} {n : Nat} {ordered : List Candidate}
  {t : Trace effects}

theorem indexedLoop_eq (primary : String) (lookup : ProviderLookup)
    (attempt : Provider → σ → Go (σ × Int × Option GoError)) :
    ∀ (fuel : Nat) (ordered : List Candidate) (i : Nat) (st : LoopState) (s : σ),
      ordered.length - i < fuel →
      indexedLoop primary lookup attempt fuel ordered i st s =
        some <$> candidateLoop primary lookup attempt (ordered.drop i) i st s := by
  intro fuel
  induction fuel with
  | zero =>
    intro ordered i st s hfuel
    omega
  | succ fuel ih =>
    intro ordered i st s hfuel
    rw [indexedLoop]
    split
    · next hi =>
      have hnext : ordered.length - (i + 1) < fuel := by omega
      have hescalated (w : Int) :
          (escalateCandidates (ordered.drop (i + 1)) w).length - 0 < fuel := by
        have := escalateCandidates_length_le (ordered.drop (i + 1)) w
        rw [length_drop] at this
        omega
      rw [drop_eq_getElem_cons hi, candidateLoop, Prog.perform_bind, Prog.perform_bind]
      simp only [Prog.map_def, Prog.ask_bind]
      congr 1
      funext _
      cases lookup ordered[i].model with
      | error err => exact ih _ _ _ _ hnext
      | ok p =>
        dsimp only
        rw [Prog.bind_assoc]
        congr 1
        funext ⟨s', n, err⟩
        cases err with
        | none => rfl
        | some e =>
          dsimp only
          split
          · rfl
          · split
            · exact ih _ _ _ _ (hescalated _)
            · exact ih _ _ _ _ hnext
    · next hi =>
      rw [drop_eq_nil_of_le (by omega), candidateLoop]
      rfl

/-! ## Visits -/

/-- The loop looks up the candidate at a position, and then does what `trace` says. -/
structure Visit (ordered : List Candidate) where
  /-- Where the candidate stands. -/
  position : Fin ordered.length
  /-- The attempts. -/
  trace : Trace effects

namespace Visit

variable {ordered : List Candidate}

/-- The model of the candidate. -/
def model (v : Visit ordered) : String := (ordered.get v.position).model

/-- The part of a run that belongs to the visit. -/
def run (v : Visit ordered) : Trace effects := ⟨.lookup v.model, ()⟩ :: v.trace

/-- The last call ended with a context-length error. -/
def Overflows (v : Visit ordered) : Prop :=
  ∃ c e, (calls v.trace).getLast? = some c ∧ c.err = some e ∧ isContextLengthError e = true

/-- Some call ended with a context-length error. -/
def Exceeds (v : Visit ordered) : Prop :=
  ∃ c ∈ calls v.trace, ∃ e, c.err = some e ∧ isContextLengthError e = true

end Visit

/-- After a context-length error only larger windows are tried. -/
def WindowsGrow {ordered : List Candidate} (visits : List (Visit ordered)) : Prop :=
  visits.Pairwise fun v w => v.Exceeds → contextWindowFor v.model < contextWindowFor w.model

/-- The run consists of these visits.  They are to different positions, each makes at most
`maxAttempts` calls, all to the provider of its model, and windows grow after a visit that ends
with a context-length error. -/
structure Tour (lookup : ProviderLookup) (maxAttempts : Nat) (ordered : List Candidate)
    (visits : List (Visit ordered)) (t : Trace effects) : Prop where
  covers : t = visits.flatMap Visit.run
  once : (visits.map Visit.position).Nodup
  noLookup : ∀ v ∈ visits, ∀ e ∈ v.trace, ∀ m, e.op ≠ .lookup m
  onProvider : ∀ v ∈ visits, ∀ c ∈ calls v.trace, lookup v.model = .ok c.provider
  bounded : ∀ v ∈ visits, (calls v.trace).length ≤ maxAttempts
  grows : visits.Pairwise fun v w =>
    v.Overflows → contextWindowFor v.model < contextWindowFor w.model

variable {visits : List (Visit ordered)} {attempt : Provider → σ → Go (σ × Int × Option GoError)}
  {s : σ} {r : ExecuteResult × Option GoError × σ}

theorem Tour.cons {v : Visit ordered} (h : Tour lookup n ordered visits t)
    (hnew : v.position ∉ visits.map Visit.position) (hlookup : ∀ e ∈ v.trace, ∀ m, e.op ≠ .lookup m)
    (hprovider : ∀ c ∈ calls v.trace, lookup v.model = .ok c.provider)
    (hcalls : (calls v.trace).length ≤ n)
    (hgrows : v.Overflows → ∀ w ∈ visits, contextWindowFor v.model < contextWindowFor w.model) :
    Tour lookup n ordered (v :: visits) (v.run ++ t) where
  covers := by rw [flatMap_cons, h.covers]
  once := nodup_cons.mpr ⟨hnew, h.once⟩
  noLookup := forall_mem_cons.mpr ⟨hlookup, h.noLookup⟩
  onProvider := forall_mem_cons.mpr ⟨hprovider, h.onProvider⟩
  bounded := forall_mem_cons.mpr ⟨hcalls, h.bounded⟩
  grows := pairwise_cons.mpr ⟨fun w hw hover => hgrows hover w hw, h.grows⟩

theorem tour_nil :
    Tour lookup n ordered [] [] where
  covers := rfl
  once := nodup_nil
  noLookup := by simp
  onProvider := by simp
  bounded := by simp
  grows := List.Pairwise.nil

theorem Tour.attempts {j : Fin ordered.length} {p : Provider} {t' : Trace effects}
    {err : Option GoError} (h : Tour lookup n ordered visits t')
    (hnew : j ∉ visits.map Visit.position) (hl : lookup (ordered.get j).model = .ok p)
    (ha : AttemptsOn p n none t err)
    (hgrows : Visit.Overflows ⟨j, t⟩ → ∀ w ∈ visits,
      contextWindowFor (ordered.get j).model < contextWindowFor w.model) :
    Tour lookup n ordered (⟨j, t⟩ :: visits)
      (⟨.lookup (ordered.get j).model, ()⟩ :: (t ++ t')) := by
  refine h.cons (v := ⟨j, t⟩) hnew ha.noLookup (fun c hc => ?_) ha.bounded hgrows
  rw [ha.onProvider c hc]
  exact hl

theorem Walk.tour {primary : String}
    (hattempt : ∀ p s, Ensures (attempt p s) fun t r => AttemptsOn p n none t r.2.2)
    {rest : List Candidate} {i : Nat} {st : LoopState}
    (h : Walk primary lookup attempt rest i st s t r) {positions : List (Fin ordered.length)}
    (hrest : rest = positions.map ordered.get) (hnodup : positions.Nodup) :
    ∃ visits, visits.map Visit.position ⊆ positions ∧ Tour lookup n ordered visits t := by
  induction h generalizing positions with
  | exhausted => exact ⟨[], by simp, tour_nil⟩
  | skip hl _ ih =>
    obtain ⟨j, positions, rfl, rfl, rfl⟩ := map_eq_cons_iff.mp hrest.symm
    obtain ⟨hj, hnodup⟩ := nodup_cons.mp hnodup
    obtain ⟨visits, hsub, htour⟩ := ih rfl hnodup
    refine ⟨⟨j, []⟩ :: visits, cons_subset_cons j hsub, ?_⟩
    refine htour.cons (v := ⟨j, []⟩) (fun hmem => hj (hsub hmem)) ?_ ?_ ?_ ?_
    · simp
    · simp [calls]
    · simp [calls]
    · rintro ⟨_, _, hlast, _⟩
      cases hlast
  | success hl ha | abort hl ha _ =>
    obtain ⟨j, positions, rfl, rfl, rfl⟩ := map_eq_cons_iff.mp hrest.symm
    have htour := tour_nil.attempts (by simp) hl (hattempt _ _ _ _ ha) (by simp)
    rw [append_nil] at htour
    exact ⟨_, by simp, htour⟩
  | escalate hl ha hab hctx _ ih =>
    obtain ⟨j, positions, rfl, rfl, rfl⟩ := map_eq_cons_iff.mp hrest.symm
    obtain ⟨hj, hnodup⟩ := nodup_cons.mp hnodup
    obtain ⟨left, heq, hperm⟩ := exists_escalated_positions ordered.get positions
      (contextWindowFor (ordered.get j).model)
    obtain ⟨visits, hsub, htour⟩ := ih heq (hperm.nodup_iff.mpr (hnodup.filter _))
    -- What escalation leaves is ahead, and its windows are larger.
    have hleft (k : Fin ordered.length) (hk : k ∈ left) : k ∈ positions ∧
        contextWindowFor (ordered.get j).model < contextWindowFor (ordered.get k).model := by
      simpa using hperm.mem_iff.mp hk
    refine ⟨_, ?_, htour.attempts ?_ hl (hattempt _ _ _ _ ha) ?_⟩
    · exact cons_subset_cons j fun k hk => (hleft k (hsub hk)).1
    · exact fun hmem => hj (hleft j (hsub hmem)).1
    · exact fun _ w hw => (hleft _ (hsub (mem_map_of_mem hw))).2
  | next hl ha hab hctx _ ih =>
    obtain ⟨j, positions, rfl, rfl, rfl⟩ := map_eq_cons_iff.mp hrest.symm
    obtain ⟨hj, hnodup⟩ := nodup_cons.mp hnodup
    obtain ⟨visits, hsub, htour⟩ := ih rfl hnodup
    refine ⟨_, ?_, htour.attempts (fun hmem => hj (hsub hmem)) hl (hattempt _ _ _ _ ha) ?_⟩
    · exact cons_subset_cons j hsub
    -- The visit's error is that of its last call, and it is not a context-length error.
    rintro ⟨c, e, hlast, hc, hover⟩
    obtain ⟨_, hnone⟩ | ⟨earlier, wrote, heq⟩ := (hattempt _ _ _ _ ha).last _ rfl hab
    · cases hnone
    · rw [heq, getLast?_concat] at hlast
      cases hlast
      cases hc
      rw [hctx] at hover
      cases hover

/-- The run is a tour of the decision's candidates, on which windows grow if each context-length
error is the last one of its candidate. -/
def Escalates (decision : RoutingDecision) (lookup : ProviderLookup) (cfg : RetryConfig)
    (t : Trace effects) : Prop :=
  ∃ visits, Tour lookup cfg.maxAttempts.toNat (orderedCandidates decision) visits t ∧
    ((∀ v ∈ visits, v.Exceeds → v.Overflows) → WindowsGrow visits)

theorem Walk.escalates {decision : RoutingDecision}
    {cfg : RetryConfig}
    (hattempt : ∀ p s, Ensures (attempt p s) fun t r =>
      AttemptsOn p cfg.maxAttempts.toNat none t r.2.2)
    (h : Walk decision.model lookup attempt (orderedCandidates decision) 0 {} s t r) :
    Escalates decision lookup cfg t := by
  obtain ⟨visits, _, htour⟩ :=
    h.tour hattempt (map_get_finRange _).symm (nodup_finRange _)
  exact ⟨visits, htour, fun hlast => htour.grows.imp_of_mem fun hv _ hgrows hexceeds =>
    hgrows (hlast _ hv hexceeds)⟩

/-! ## Reading visits off a trace -/

/-- The event is no lookup. -/
def within : Event effects → Bool
  | ⟨.lookup _, _⟩ => false
  | _ => true

/-- The parts of a trace between lookups, each with the model that was looked up. -/
def segments : Trace effects → List (String × Trace effects)
  | [] => []
  | ⟨.lookup m, _⟩ :: t => (m, t.takeWhile within) :: segments t
  | _ :: t => segments t

theorem segments_append {t' : Trace effects} (h : ∀ e ∈ t, ∀ m, e.op ≠ .lookup m) :
    segments (t ++ t') = segments t' := by
  induction t with
  | nil => rfl
  | cons e t ih =>
    obtain ⟨he, ht⟩ := forall_mem_cons.mp h
    obtain ⟨o, r⟩ := e
    cases o with
    | lookup m => exact absurd rfl (he m)
    | _ => exact ih ht

/-- The visits of a tour are read off its trace. -/
theorem segments_flatMap_run (h : ∀ v ∈ visits, ∀ e ∈ v.trace, ∀ m, e.op ≠ .lookup m) :
    segments (visits.flatMap Visit.run) = visits.map fun v => (v.model, v.trace) := by
  induction visits with
  | nil => rfl
  | cons v visits ih =>
    obtain ⟨hv, hrest⟩ := forall_mem_cons.mp h
    have hhead : (visits.flatMap Visit.run).takeWhile within = [] := by cases visits <;> rfl
    rw [flatMap_cons, Visit.run, cons_append, segments, segments_append hv, ih hrest,
      takeWhile_append_of_pos, hhead, append_nil, map_cons]
    intro e he
    obtain ⟨o, r⟩ := e
    cases o with
    | lookup m => exact absurd rfl (hv _ he m)
    | _ => rfl

theorem Visit.overflows_of_length_le {v : Visit ordered} (h : (calls v.trace).length ≤ 1)
    (hexceeds : v.Exceeds) : v.Overflows := by
  obtain ⟨c, hc, e, he, hctx⟩ := hexceeds
  obtain ⟨first, hfirst⟩ := length_eq_one_iff.mp
    (le_antisymm h (length_pos_of_mem hc))
  rw [hfirst, mem_singleton] at hc
  refine ⟨c, e, ?_, he, hctx⟩
  rw [hfirst, ← hc]
  rfl

theorem chatOnce_fails (p : Provider) (req : RequestEnvelope) (e : GoError) :
    Runs (chatOnce p req none) [⟨.chat p req, .error e⟩] (false, some e, none) := .ask .ret

section

variable {cfg : RetryConfig} {call : σ → Go (Bool × Option GoError × σ)} {i backoff : Int}
  {e : GoError} {s' : σ}

/-- A failed attempt that is not the last. -/
theorem retryLoop_again {left : Nat} {t' : Trace effects} {out : σ × Int × Option GoError}
    (lastErr : Option GoError) (hcall : Runs (call s) t (false, some e, s'))
    (hab : e.aborted = false) (hclient : isClientError e = false) (hi : i < cfg.maxAttempts - 1)
    (h : Runs (retryLoop cfg call left (i + 1) (nextBackoff cfg backoff) (some e) s') t' out) :
    Runs (retryLoop cfg call (left + 1) i backoff lastErr s) (t ++ ⟨.backoff backoff, none⟩ :: t')
      out := by
  rw [retryLoop]
  refine runs_bind_iff.mpr ⟨t, _, _, rfl, hcall, ?_⟩
  simp only [hab, hclient, hi, Bool.or_false, Bool.false_eq_true, if_false, if_true]
  exact .ask h

/-- A failed attempt that is the last. -/
theorem retryLoop_fail (lastErr : Option GoError) (hcall : Runs (call s) t (false, some e, s'))
    (hab : e.aborted = false) (hclient : isClientError e = false) (hi : ¬ i < cfg.maxAttempts - 1) :
    Runs (retryLoop cfg call 1 i backoff lastErr s) t (s', cfg.maxAttempts, some e) := by
  rw [retryLoop]
  refine runs_bind_iff.mpr ⟨t, _, [], (append_nil t).symm, hcall, ?_⟩
  simp only [hab, hclient, hi, Bool.or_false, Bool.false_eq_true, if_false]
  exact .ret

end

/-- The window of the primary is the larger one. -/
def claudeThenGpt : RoutingDecision where
  model := "claude-sonnet-4-6"
  fallbackChain := [{ model := "gpt-5.2" }]

/-- A context-length error with a status, which is not retried. -/
def tooLarge : GoError := { msg := "openai: status 400: maximum context length exceeded" }

/-- A context-length error without a status. -/
def tooLong : GoError := { msg := "anthropic: stream error: prompt is too long" }

/-- An error of the network. -/
def connectionReset : GoError := { msg := "anthropic: read: connection reset by peer" }

/-! ## Every run escalates -/

/-- The loops of `Execute` and `ExecuteStream` end within one test more than there are candidates,
and every run of them is a tour. -/
theorem execute_escalates (decision : RoutingDecision) (req : RequestEnvelope)
    (lookup : ProviderLookup) (cfg : RetryConfig) :
    (∀ fuel, (orderedCandidates decision).length < fuel →
      executeIndexed fuel decision req lookup cfg = some <$> execute decision req lookup cfg) ∧
    (Ensures (execute decision req lookup cfg) fun t _ => Escalates decision lookup cfg t) ∧
    ∀ {σ : Type} (fn : Callback σ) (s : σ),
      (∀ fuel, (orderedCandidates decision).length < fuel →
        executeStreamIndexed fuel decision req lookup cfg fn s =
          some <$> executeStream decision req lookup cfg fn s) ∧
      Ensures (executeStream decision req lookup cfg fn s) fun t _ =>
        Escalates decision lookup cfg t := by
  refine ⟨fun fuel hfuel => ?_, fun t r hrun => ?_, fun fn s => ⟨fun fuel hfuel => ?_, ?_⟩⟩
  · rw [executeIndexed, indexedLoop_eq _ _ _ _ _ _ _ _ (by omega), execute]
    simp only [Prog.map_def, Prog.bind_assoc]
    rfl
  · obtain ⟨_, _, _, rfl, hwalk⟩ := runs_execute_iff.mp hrun
    exact hwalk.escalates fun p s => withRetry_attempts (chatOnce_callsOnce p req) s
  · exact indexedLoop_eq _ _ _ _ _ _ _ _ (by omega)
  · intro t r hrun
    exact (walk_of_runs hrun).escalates fun p s =>
      withRetry_attempts (streamOnce_callsOnce fn p req) s

/-- Three tests are enough for a primary and one fallback.  A prompt that the primary refuses goes
on to the larger window. -/
theorem gptThenClaude_escalates :
    (orderedCandidates gptThenClaude).length < 3 ∧
      executeIndexed 3 gptThenClaude gptRequest twoProviders defaultRetryConfig =
        some <$> execute gptThenClaude gptRequest twoProviders defaultRetryConfig ∧
      ∃ t r, Runs (execute gptThenClaude gptRequest twoProviders defaultRetryConfig) t r ∧
        ∃ visits : List (Visit (orderedCandidates gptThenClaude)),
          t = visits.flatMap Visit.run ∧ (∃ v ∈ visits, v.Exceeds) ∧ WindowsGrow visits := by
  have hescalates := execute_escalates gptThenClaude gptRequest twoProviders defaultRetryConfig
  have hattempt : Runs (chatWithRetry defaultRetryConfig gptRequest ⟨0, "openai"⟩ none) _
      (none, 1, some tooLarge) :=
    withRetry_stop (by decide) (chatOnce_fails _ _ _) (by decide)
  have hleft : escalateCandidates gptThenClaude.fallbackChain
      (contextWindowFor gptThenClaude.model) = gptThenClaude.fallbackChain := by decide
  have hwalk : Walk gptThenClaude.model twoProviders (chatWithRetry defaultRetryConfig gptRequest)
      (orderedCandidates gptThenClaude) 0 {} none _ _ :=
    .escalate (by decide) hattempt rfl (by decide) (by
      rw [hleft]
      exact .success (by decide)
        (chatWithRetry_success (by decide) gptRequest ⟨1, "anthropic"⟩ _ default))
  have hrun := runs_execute_iff.mpr ⟨_, _, _, rfl, hwalk⟩
  obtain ⟨visits, htour, hgrow⟩ := hescalates.2.1 _ _ hrun
  have hsegments := segments_flatMap_run htour.noLookup
  rw [← htour.covers] at hsegments
  refine ⟨by decide, hescalates.1 3 (by decide), _, _, hrun, visits, htour.covers, ?_, ?_⟩
  · obtain ⟨v, rest, rfl, hv, -⟩ := map_eq_cons_iff.mp hsegments.symm
    refine ⟨v, mem_cons_self, ?_⟩
    rw [Visit.Exceeds, (Prod.mk.inj hv).2]
    exact ⟨_, mem_cons_self, tooLarge, rfl, by decide⟩
  · refine hgrow fun v hv => Visit.overflows_of_length_le ?_
    have hmem : (v.model, v.trace) ∈ segments _ := hsegments ▸ mem_map_of_mem hv
    rcases mem_cons.mp hmem with heq | hmem
    · rw [(Prod.mk.inj heq).2]
      rfl
    · rw [(Prod.mk.inj (mem_singleton.mp hmem)).2]
      rfl

/-- The first attempt on a window of 200000 ends with a context-length error and the last two with
another one.  The window tried next has 128000. -/
theorem retried_overflow_forgotten :
    ∃ t r, Runs (execute claudeThenGpt gptRequest twoProviders defaultRetryConfig) t r ∧
      ∀ visits, Tour twoProviders defaultRetryConfig.maxAttempts.toNat
        (orderedCandidates claudeThenGpt) visits t → ¬ WindowsGrow visits := by
  let p : Provider := ⟨1, "anthropic"⟩
  have hcall := chatOnce_fails p gptRequest
  have hattempts : Runs (chatWithRetry defaultRetryConfig gptRequest p none) _
      (none, 3, some connectionReset) :=
    retryLoop_again none (hcall tooLong) rfl (by decide) (by decide)
      (retryLoop_again _ (hcall connectionReset) rfl (by decide) (by decide)
        (retryLoop_fail _ (hcall connectionReset) rfl (by decide) (by decide)))
  have hwalk : Walk claudeThenGpt.model twoProviders (chatWithRetry defaultRetryConfig gptRequest)
      (orderedCandidates claudeThenGpt) 0 {} none _ _ :=
    .next (by decide) hattempts rfl (by decide)
      (.success (by decide) (chatWithRetry_success (by decide) gptRequest ⟨0, "openai"⟩ _ default))
  refine ⟨_, _, runs_execute_iff.mpr ⟨_, _, _, rfl, hwalk⟩, fun visits htour hgrow => ?_⟩
  have hsegments := segments_flatMap_run htour.noLookup
  rw [← htour.covers] at hsegments
  obtain ⟨v, rest, rfl, hv, hrest⟩ := map_eq_cons_iff.mp hsegments.symm
  obtain ⟨w, _, rfl, hw, -⟩ := map_eq_cons_iff.mp hrest
  obtain ⟨hmodel, htrace⟩ := Prod.mk.inj hv
  have hexceeds : v.Exceeds := by
    rw [Visit.Exceeds, htrace]
    exact ⟨_, mem_cons_self, tooLong, rfl, by decide⟩
  have hlt := rel_of_pairwise_cons hgrow mem_cons_self hexceeds
  rw [hmodel, (Prod.mk.inj hw).1] at hlt
  exact absurd hlt (by decide)

end Ixr.Routing
