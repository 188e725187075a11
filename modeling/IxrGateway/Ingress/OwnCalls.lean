import IxrGateway.Ingress.Reporting
import IxrGateway.Interaction.Pool
import IxrGateway.ModelPerf.Writers

/-!
# Whose calls the statistics count

Telemetry takes a sample from every call event, for the model that the event
names.  Most events come after a call for that model.  But an event for a
request that was blocked names the model of the request, and an event for a
call that failed names the candidate that was looked up last, also if it has no
provider.  In these two cases a sample is taken without a call
(`samples_earned_iff`).

A call is made for a model if it goes to the model's provider, and the request
names the model or the router was asked for the model last.  A fallback gets the
request of the primary model, so there it is the lookup that tells.
-/

namespace Ixr

open List ModelPerf Telemetry

/-- The statistics that `telemetry.Plugin.OnEvent` upserts. -/
def Telemetry.stats (ev : CallEvent) : ModelStats where
  model := ev.model
  intent := ev.useCaseID
  successRate := successFloat (ev.error == "")
  p50LatencyMS := milliseconds ev.latency
  p95LatencyMS := milliseconds ev.latency

namespace Ingress

open Interaction Routing Reasoning

/-! ## Samples and calls -/

/-- The samples of a model. -/
def samplesFor (m : String) (t : Trace effects) : Nat :=
  (publishes t).countP fun ev => (stats ev).model = m

@[simp] theorem samplesFor_append (m : String) (t t' : Trace effects) :
    samplesFor m (t ++ t') = samplesFor m t + samplesFor m t' := by
  simp only [samplesFor, publishes_append, countP_append]

theorem samplesFor_perm (m : String) {t t' : Trace effects} (h : t.Perm t') :
    samplesFor m t = samplesFor m t' :=
  (h.filterMap _).countP_eq _

theorem samplesFor_eq_zero (m : String) {t : Trace effects} (h : ∀ e ∈ t, published e = none) :
    samplesFor m t = 0 := by
  rw [samplesFor, publishes_eq_nil h, countP_nil]

/-- Who is called with what. -/
def asked (e : Event effects) : Option (Provider × RequestEnvelope) :=
  match e.op with
  | .chat p req | .stream p req => some (p, req)
  | _ => none

/-- The router gives the provider. -/
def isProviderOf (lookup : ProviderLookup) (m : String) (p : Provider) : Bool :=
  match lookup m with
  | .ok q => decide (q = p)
  | .error _ => false

/-- One if the event is a call for the model, with the model that was looked up last. -/
def madeFor (lookup : ProviderLookup) (m : String) (last : Option String) (e : Event effects) :
    Nat :=
  match asked e with
  | some (p, req) =>
    if isProviderOf lookup m p && (decide (req.model = m) || decide (last = some m)) then 1
    else 0
  | none => 0

/-- The calls made for a model. -/
def callsFor (lookup : ProviderLookup) (m : String) : Option String → Trace effects → Nat
  | _, [] => 0
  | last, e :: t => madeFor lookup m last e + callsFor lookup m ((lookedUp e).or last) t

/-- The calls that name a model. -/
def namedCalls (lookup : ProviderLookup) (m : String) (t : Trace effects) : Nat :=
  (t.map (madeFor lookup m none)).sum

section

variable {lookup : ProviderLookup} {m : String} {p : Provider} {req : RequestEnvelope}

theorem isProviderOf_of_ok (h : lookup m = .ok p) : isProviderOf lookup m p = true := by
  simp [isProviderOf, h]

theorem resolves_of_isProviderOf (h : isProviderOf lookup m p = true) : Resolves lookup m := by
  unfold isProviderOf at h
  split at h
  · exact ⟨_, ‹_›⟩
  · cases h

theorem madeFor_none_le (last : Option String) (e : Event effects) :
    madeFor lookup m none e ≤ madeFor lookup m last e := by
  unfold madeFor
  split
  · split
    · rename_i h
      rw [if_pos (by simp_all)]
    · exact Nat.zero_le _
  · exact le_refl 0

theorem namedCalls_le_callsFor (last : Option String) (t : Trace effects) :
    namedCalls lookup m t ≤ callsFor lookup m last t := by
  induction t generalizing last with
  | nil => exact le_refl 0
  | cons e t ih => exact Nat.add_le_add (madeFor_none_le last e) (ih _)

@[simp] theorem namedCalls_append (t t' : Trace effects) :
    namedCalls lookup m (t ++ t') = namedCalls lookup m t + namedCalls lookup m t' := by
  simp [namedCalls]

variable {t t' : Trace effects}

theorem namedCalls_perm (h : t.Perm t') : namedCalls lookup m t = namedCalls lookup m t' :=
  (h.map _).sum_eq

theorem callsFor_append (lookup : ProviderLookup) (m : String) (last : Option String)
    (t t' : Trace effects) :
    ∃ last', callsFor lookup m last (t ++ t') =
      callsFor lookup m last t + callsFor lookup m last' t' := by
  induction t generalizing last with
  | nil => exact ⟨last, (Nat.zero_add _).symm⟩
  | cons e t ih =>
    obtain ⟨last', h⟩ := ih ((lookedUp e).or last)
    exact ⟨last', by simp only [cons_append, callsFor, h, Nat.add_assoc]⟩

/-- The trace has a call for the model, whatever was looked up before it. -/
def HasCallFor (lookup : ProviderLookup) (m : String) (t : Trace effects) : Prop :=
  ∀ last, 1 ≤ callsFor lookup m last t

theorem HasCallFor.append_left (h : HasCallFor lookup m t) (t' : Trace effects) :
    HasCallFor lookup m (t ++ t') := by
  intro last
  obtain ⟨last', happend⟩ := callsFor_append lookup m last t t'
  rw [happend]
  exact (h last).trans (Nat.le_add_right ..)

theorem HasCallFor.append_right (h : HasCallFor lookup m t') (t : Trace effects) :
    HasCallFor lookup m (t ++ t') := by
  intro last
  obtain ⟨last', happend⟩ := callsFor_append lookup m last t t'
  rw [happend]
  exact (h last').trans (Nat.le_add_left ..)

theorem called_of_callsFor {last : Option String} (h : 1 ≤ callsFor lookup m last t) :
    Resolves lookup m ∧ Called t := by
  induction t generalizing last with
  | nil => cases h
  | cons e t ih =>
    by_cases hmade : madeFor lookup m last e = 0
    · rw [callsFor, hmade, Nat.zero_add] at h
      obtain ⟨hres, e', hmem, hcall⟩ := ih h
      exact ⟨hres, e', mem_cons_of_mem _ hmem, hcall⟩
    · unfold madeFor at hmade
      split at hmade
      · rename_i p req hasked
        split at hmade
        · rename_i hp
          refine ⟨resolves_of_isProviderOf (Bool.and_eq_true_iff.mp hp).1, e, mem_cons_self,
            ?_⟩
          obtain ⟨op, r⟩ := e
          cases op with
          | chat | stream => trivial
          | _ => cases hasked
        · exact absurd rfl hmade
      · exact absurd rfl hmade

end

/-! ## Samples that a call stands behind -/

/-- Of a model with a provider there are no more samples than calls. -/
def Earned (lookup : ProviderLookup) (t : Trace effects) : Prop :=
  ∀ m, Resolves lookup m → ∀ last, samplesFor m t ≤ callsFor lookup m last t

/-- The same with calls that name the model.  This does not depend on the order of events. -/
def EarnedByName (lookup : ProviderLookup) (t : Trace effects) : Prop :=
  ∀ m, Resolves lookup m → samplesFor m t ≤ namedCalls lookup m t

section

variable {lookup : ProviderLookup} {t t' : Trace effects}

theorem EarnedByName.earned (h : EarnedByName lookup t) : Earned lookup t :=
  fun m hm last => (h m hm).trans (namedCalls_le_callsFor last t)

theorem earnedByName_mixable (lookup : ProviderLookup) : Mixable (EarnedByName lookup) where
  nil := fun _ _ => le_refl 0
  append h h' m hm := by
    rw [samplesFor_append, namedCalls_append]
    exact Nat.add_le_add (h m hm) (h' m hm)
  perm hperm h m hm := by
    rw [← samplesFor_perm m hperm, ← namedCalls_perm hperm]
    exact h m hm

theorem earnedByName_of_mute (h : ∀ e ∈ t, published e = none) : EarnedByName lookup t := by
  intro m _
  rw [samplesFor_eq_zero m h]
  exact Nat.zero_le _

theorem Earned.append (h : Earned lookup t) (h' : Earned lookup t') : Earned lookup (t ++ t') := by
  intro m hm last
  obtain ⟨last', hcalls⟩ := callsFor_append lookup m last t t'
  rw [samplesFor_append, hcalls]
  exact Nat.add_le_add (h m hm last) (h' m hm last')

theorem earned_of_mute (h : ∀ e ∈ t, published e = none) : Earned lookup t :=
  (earnedByName_of_mute h).earned

end

/-! ## The samples of a call -/

/-- The program publishes at most one event, and for this model. -/
def Samples {α : Type} (model : String) (p : Go α) : Prop :=
  Ensures p fun t _ => ∀ m, samplesFor m t ≤ if m = model then 1 else 0

section

variable {α β : Type} {model : String} {p : Go α} {f : α → Go β}

theorem Mute.samples (hp : Mute p) : Samples model p :=
  hp.mono fun _ _ ht m => by
    rw [samplesFor_eq_zero m ht]
    exact Nat.zero_le _

theorem Samples.after (hp : Mute p) (hf : ∀ a, Samples model (f a)) : Samples model (p >>= f) :=
  Ensures.bind hp fun t a ht => (hf a).mono fun t' _ ht' m => by
    rw [samplesFor_append, samplesFor_eq_zero m ht, Nat.zero_add]
    exact ht' m

theorem Samples.before (hp : Samples model p) (hf : ∀ a, Mute (f a)) : Samples model (p >>= f) :=
  Ensures.bind hp fun t a ht => (hf a).mono fun t' _ ht' m => by
    rw [samplesFor_append, samplesFor_eq_zero m ht', Nat.add_zero]
    exact ht m

theorem samples_publish {ev : CallEvent} (hev : ev.model = model) :
    Samples model (Go.publish ev) := by
  refine ensures_ask.mpr fun _ => ensures_ret.mpr fun m => ?_
  subst hev
  by_cases hm : m = ev.model
  · simp [samplesFor, publishes, published, hm, stats]
  · simp [samplesFor, publishes, published, hm, Ne.symm hm, stats]

end

@[simp] theorem withOutcome_model (ev : CallEvent) (model : String) (err : Option GoError)
    (resp : ResponseEnvelope) : (withOutcome ev model err resp).model = ev.model := by
  cases err with
  | none | some => rfl

@[simp] theorem withStream_model (ev : CallEvent) (model : String) (err : Option GoError)
    (totals : StreamTotals) : (withStream ev model err totals).model = ev.model := by
  cases err with
  | none | some => rfl

@[simp] theorem withResult_model (ev : CallEvent) (autoRouted : Bool) (provider : String)
    (err : Option GoError) (result : ExecuteResult) :
    (withResult ev autoRouted provider err result).model = ev.model := by
  cases err with
  | none | some => rfl

section

variable {h : ChatHandler} {r : HttpRequest}

theorem publish_samples {model : String} {ev : CallEvent} (hev : ev.model = model) :
    Samples model (h.publish ev) := by
  unfold ChatHandler.publish
  split
  · exact samples_publish hev
  · exact Mute.samples emits_ret

theorem settleChat_samples (req : RequestEnvelope) (autoRouted : Bool) (start : Int)
    (out : CallOutcome) :
    Samples (usedModel req out.result) (settleChat h r req autoRouted start out) := by
  refine .after now_mute fun stop => .after (recordOutcome_mute _ _) fun _ => ?_
  unfold ChatHandler.report
  split
  · exact Mute.samples (by split <;> exact emits_ret)
  · refine .after (recordMetrics_mute _ _ _ _ _ _) fun _ => ?_
    dsimp only
    split
    · refine .before (samples_publish (by simp [baseEvent])) fun _ => ?_
      exact Emits.bind (startShadow_mute req _) fun _ => emits_ret
    · exact Mute.samples emits_ret

theorem settleStream_samples (req : RequestEnvelope) (autoRouted : Bool) (start : Int)
    (out : ExecuteResult × Provider × Option GoError × StreamTotals) :
    Samples (usedModel req out.1) (settleStream h r req autoRouted start out) := by
  obtain ⟨result, p, err, totals⟩ := out
  refine .after (recordOutcome_mute _ _) fun _ => .after now_mute fun stop =>
    .after (recordMetrics_mute _ _ _ _ _ _) fun _ => ?_
  exact .before (publish_samples (by simp [baseEvent])) fun _ => emits_ret

theorem settleStep_samples (stepReq : RequestEnvelope) (start : Int)
    (out : ExecuteResult × Option GoError) :
    Samples stepReq.model (settleStep h r stepReq start out) := by
  obtain ⟨result, err⟩ := out
  refine .after now_mute fun stop => .after (recordOutcome_mute _ _) fun _ => ?_
  dsimp only
  split
  · exact Mute.samples emits_ret
  · refine .after (recordMetrics_mute _ _ _ _ _ _) fun _ => ?_
    refine .before (publish_samples (by simp [baseEvent, withProvider])) fun _ => ?_
    split
    · exact emits_ret
    · exact emits_ret

theorem settleLastStep_samples (stepReq : RequestEnvelope) (start : Int)
    (out : ExecuteResult × Option GoError × StreamTotals) :
    Samples stepReq.model (settleLastStep h r stepReq start out) := by
  obtain ⟨result, err, totals⟩ := out
  refine .after (recordOutcome_mute _ _) fun _ => .after now_mute fun stop =>
    .after (recordMetrics_mute _ _ _ _ _ _) fun _ => ?_
  exact .before (publish_samples (by simp [baseEvent, withProvider])) fun _ => emits_ret

end

/-! ## The calls of a candidate -/

/-- The event calls the provider. -/
def CallsWith (p : Provider) (req : RequestEnvelope) (e : Event effects) : Prop :=
  asked e = some (p, req)

/-- The program starts with the call. -/
def StartsCall {α : Type} (p : Provider) (req : RequestEnvelope) (call : Go α) : Prop :=
  Ensures call fun t _ => ∃ e t', t = e :: t' ∧ CallsWith p req e

section

variable {lookup : ProviderLookup} {m : String} {p : Provider} {req : RequestEnvelope}
  {e : Event effects}

theorem CallsWith.made (he : CallsWith p req e) (hm : lookup m = .ok p) :
    madeFor lookup m (some m) e = 1 := by
  simp [madeFor, show asked e = some (p, req) from he, isProviderOf_of_ok hm]

theorem CallsWith.made_named (he : CallsWith p req e) (hm : lookup m = .ok p)
    (hname : req.model = m) (last : Option String) : madeFor lookup m last e = 1 := by
  simp [madeFor, show asked e = some (p, req) from he, isProviderOf_of_ok hm, hname]

theorem chatOnce_startsCall (p : Provider) (req : RequestEnvelope) (s : Option ResponseEnvelope) :
    StartsCall p req (chatOnce p req s) :=
  ensures_ask.mpr fun _ _ _ _ => ⟨_, _, rfl, rfl⟩

theorem streamOnce_startsCall {σ : Type} (fn : Callback σ) (p : Provider) (req : RequestEnvelope)
    (s : σ) : StartsCall p req (streamOnce fn p req s) :=
  ensures_ask.mpr fun _ _ _ _ => ⟨_, _, rfl, rfl⟩

theorem withRetry_startsCall {σ : Type} {cfg : RetryConfig} (hmax : 1 ≤ cfg.maxAttempts)
    {call : σ → Go (Bool × Option GoError × σ)} {s : σ} (hcall : StartsCall p req (call s)) :
    StartsCall p req (withRetry cfg call s) := by
  obtain ⟨left, hleft⟩ : ∃ left, cfg.maxAttempts.toNat = left + 1 :=
    ⟨cfg.maxAttempts.toNat - 1, by omega⟩
  rw [withRetry, hleft, retryLoop]
  refine Ensures.bind hcall ?_
  rintro _ _ ⟨e, t, rfl, he⟩ t' _ _
  exact ⟨e, t ++ t', rfl, he⟩

variable {σ : Type} {primary : String} {attempt : Provider → σ → Go (σ × Int × Option GoError)}
  {c : Candidate} {rest : List Candidate} {i : Nat} {st : LoopState} {s : σ} {t : Trace effects}
  {out : ExecuteResult × Option GoError × σ}

theorem walk_calls_first (hattempt : ∀ p s, StartsCall p req (attempt p s))
    (h : Walk primary lookup attempt (c :: rest) i st s t out) (hc : lookup c.model = .ok p) :
    ∃ e t', t = ⟨.lookup c.model, ()⟩ :: e :: t' ∧ CallsWith p req e := by
  cases h with
  | skip hl => exact absurd (hl.symm.trans hc) (by simp)
  | success hl ha | abort hl ha | escalate hl ha | next hl ha =>
    cases hl.symm.trans hc
    obtain ⟨e, t', rfl, he⟩ := hattempt _ _ _ _ ha
    exact ⟨e, _, rfl, he⟩

theorem hasCallFor_lookup (he : CallsWith p req e) (hm : lookup m = .ok p) (t : Trace effects) :
    HasCallFor lookup m (⟨.lookup m, ()⟩ :: e :: t) := by
  intro last
  change 1 ≤ 0 + (madeFor lookup m (some m) e + _)
  rw [he.made hm]
  omega

theorem walk_calls_last (hattempt : ∀ p s, StartsCall p req (attempt p s))
    (h : Walk primary lookup attempt rest i st s t out) :
    (rest = [] ∧ out.1.model = st.lastCandidate) ∨
      (Resolves lookup out.1.model → HasCallFor lookup out.1.model t) := by
  have hcalled : ∀ {c : Candidate} {p : Provider} {s : σ} {t : Trace effects}
      {r : σ × Int × Option GoError}, lookup c.model = .ok p → Runs (attempt p s) t r →
      HasCallFor lookup c.model (⟨.lookup c.model, ()⟩ :: t) := by
    intro c p s t r hl ha
    obtain ⟨e, t, rfl, he⟩ := hattempt _ _ _ _ ha
    exact hasCallFor_lookup he hl t
  induction h with
  | exhausted => exact .inl ⟨rfl, rfl⟩
  | @skip c _ _ _ _ err t r hl _ ih =>
    refine .inr fun hres => ?_
    obtain ⟨_, hlast⟩ | hcalls := ih
    · obtain ⟨p, hp⟩ := hres
      rw [show r.1.model = c.model from hlast, hl] at hp
      cases hp
    · exact (hcalls hres).append_right [_]
  | success hl ha | abort hl ha => exact .inr fun _ => hcalled hl ha
  | escalate hl ha _ _ _ ih | next hl ha _ _ _ ih =>
    refine .inr fun hres => ?_
    obtain ⟨_, hlast⟩ | hcalls := ih
    · rw [hlast]
      exact (hcalled hl ha).append_left _
    · exact (hcalls hres).append_right (_ :: _)

end

theorem adjustTokenBudget_model (req : RequestEnvelope) :
    (adjustTokenBudget req).model = req.model := by
  rw [adjustTokenBudget_eq]

section

variable {h : ChatHandler} {p : Provider} {req : RequestEnvelope} {chain : List Candidate}

/-- The model that the outcome names is called if it has a provider. -/
def NamesCalled {α : Type} (h : ChatHandler) (used : α → String) (call : Go α) : Prop :=
  Ensures call fun t out => Resolves h.router (used out) → HasCallFor h.router (used out) t

variable {σ : Type} {call : Provider → σ → Go (Bool × Option GoError × σ)} {s : σ}
  {t : Trace effects} {out : ExecuteResult × Option GoError × σ}

theorem hasCallFor_of_named {e : Event effects} (hp : h.router req.model = .ok p)
    (he : CallsWith p (adjustTokenBudget req) e) :
    HasCallFor h.router (usedModel req { model := req.model }) (e :: t) := by
  intro last
  have hused : usedModel req { model := req.model } = req.model := by simp [usedModel]
  rw [hused, callsFor, he.made_named hp (adjustTokenBudget_model req)]
  omega

variable (hmax : 1 ≤ h.retryCfg.maxAttempts)

include hmax

theorem walk_namesCalled {sent : RequestEnvelope}
    (hcall : ∀ p s, StartsCall p sent (call p s))
    (hwalk : Walk req.model h.router (fun p => withRetry h.retryCfg (call p))
      (orderedCandidates ⟨req.model, chain⟩) 0 {} s t out) :
    Resolves h.router (usedModel req out.1) → HasCallFor h.router (usedModel req out.1) t := by
  have hattempt := fun p s => withRetry_startsCall hmax (hcall p s)
  unfold usedModel
  split
  · rintro ⟨p, hp⟩
    obtain ⟨e, t', rfl, he⟩ := walk_calls_first hattempt hwalk hp
    exact hasCallFor_lookup he hp t'
  · exact (walk_calls_last hattempt hwalk).resolve_left fun hnil => cons_ne_nil _ _ hnil.1

theorem callModel_namesCalled (hp : h.router req.model = .ok p) :
    NamesCalled h (fun out => usedModel req out.result) (h.callModel p req chain) := by
  unfold ChatHandler.callModel
  split
  · refine ensures_ask.mpr ?_
    rintro (e | resp)
    · exact ensures_ret.mpr fun _ => hasCallFor_of_named hp (by rfl)
    · exact ensures_ret.mpr fun _ => hasCallFor_of_named hp (by rfl)
  · refine ensures_bind.mpr fun t out hrun => ensures_ret.mpr ?_
    obtain ⟨result, err, response, rfl, hwalk⟩ := runs_execute_iff.mp hrun
    rw [append_nil]
    exact walk_namesCalled hmax (fun p => chatOnce_startsCall p _) hwalk

theorem callAndResolve_namesCalled (hp : h.router req.model = .ok p) :
    NamesCalled h (fun out => usedModel req out.result) (h.callAndResolve p req chain) := by
  refine (callModel_namesCalled hmax hp).bind fun t out hcalled => ?_
  split
  · refine ensures_bind.mpr fun t' _ _ => ensures_ret.mpr fun hres => ?_
    exact (hcalled hres).append_left _
  · exact ensures_ret.mpr fun hres => (hcalled hres).append_left []

theorem streamModel_namesCalled (hp : h.router req.model = .ok p) :
    NamesCalled h (fun out => usedModel req out.1) (h.streamModel p req chain) := by
  unfold ChatHandler.streamModel
  split
  · refine Ensures.bind (streamOnce_startsCall (onChunk id) p _ {}) ?_
    rintro _ _ ⟨e, t, rfl, he⟩
    exact ensures_ret.mpr fun _ => hasCallFor_of_named hp he
  · refine ensures_bind.mpr fun t out hrun => ensures_ret.mpr ?_
    rw [append_nil]
    exact walk_namesCalled hmax (fun p => streamOnce_startsCall (onChunk id) p _)
      (runs_candidateLoop_iff.mp hrun)

theorem walk_calls_step (req : RequestEnvelope)
    (hcall : ∀ p s, StartsCall p (adjustTokenBudget req) (call p s))
    (hwalk : Walk req.model h.router (fun p => withRetry h.retryCfg (call p))
      (orderedCandidates { model := req.model }) 0 {} s t out)
    (hres : Resolves h.router req.model) : 1 ≤ namedCalls h.router req.model t := by
  obtain ⟨p, hp⟩ := hres
  obtain ⟨e, t', rfl, he⟩ :=
    walk_calls_first (fun p s => withRetry_startsCall hmax (hcall p s)) hwalk hp
  have hmade := he.made_named hp (adjustTokenBudget_model req) none
  simp only [namedCalls, map_cons, sum_cons, hmade]
  omega

end

/-! ## The handler -/

section

variable {h : ChatHandler} {r : HttpRequest}

variable {α β : Type} {model : String} {call : Go α} {settle : Int → α → Go β} {refused : β}

theorem accounted_samples_le {used : α → String} {b : β} {t : Trace effects} {m : String}
    {count : Trace effects → Nat} (hcalling : Emits call Calling)
    (hsettle : ∀ start out, Samples (used out) (settle start out))
    (hcalled : ∀ before t₁ out t₂, Runs call t₁ out → used out = m →
      1 ≤ count (before ++ (t₁ ++ t₂)))
    (hrun : Runs (accounted h model call settle refused) t b) : samplesFor m t ≤ count t := by
  obtain ⟨_, rfl, _⟩ | ⟨start, t₁, out, t₂, rfl, hmade, hsettled⟩ := runs_accounted_iff.mp hrun
  · exact Nat.zero_le _
  · have hadmission : ∀ e ∈ h.admission model ++ [⟨.now, start⟩], published e = none := by
      unfold ChatHandler.admission
      split <;> simp [published]
    have hcall : ∀ e ∈ t₁, published e = none :=
      fun e he => (hcalling t₁ out hmade e he).published_eq
    rw [append_cons, samplesFor_append m (_ ++ _), samplesFor_append m t₁,
      samplesFor_eq_zero m hadmission, samplesFor_eq_zero m hcall, Nat.zero_add, Nat.zero_add]
    refine (hsettle start out t₂ b hsettled m).trans ?_
    split
    · next hused => exact hcalled _ t₁ out t₂ hmade hused.symm
    · exact Nat.zero_le _

theorem accounted_earned {used : α → String} (hcalling : Emits call Calling)
    (hcalled : NamesCalled h used call)
    (hsettle : ∀ start out, Samples (used out) (settle start out)) :
    Ensures (accounted h model call settle refused) fun t _ => Earned h.router t := by
  intro t b hrun m hm last
  refine accounted_samples_le hcalling hsettle (fun before t₁ out t₂ hmade hused => ?_) hrun
  subst hused
  exact ((hcalled t₁ out hmade hm).append_left t₂).append_right before last

theorem accounted_earnedByName (hcalling : Emits call Calling)
    (hcalled : Resolves h.router model → Ensures call fun t _ => 1 ≤ namedCalls h.router model t)
    (hsettle : ∀ start out, Samples model (settle start out)) :
    Ensures (accounted h model call settle refused) fun t _ => EarnedByName h.router t := by
  intro t b hrun m hm
  refine accounted_samples_le hcalling hsettle (fun before t₁ out t₂ hmade hused => ?_) hrun
  subst hused
  have hone := hcalled hm t₁ out hmade
  simp only [namedCalls_append]
  omega

theorem earnedByName_pathClosed (lookup : ProviderLookup) :
    PathClosed fun _ p => Ensures p fun t _ => EarnedByName lookup t where
  ret _ := ensures_ret.mpr (earnedByName_mixable lookup).nil
  bind hp hf := (earnedByName_mixable lookup).bind hp hf
  consult hp := hp.mono fun _ _ ht => earnedByName_of_mute fun e he => (ht e he).published_eq
  lookup _ := ensures_ask.mpr fun _ => ensures_ret.mpr
    (earnedByName_of_mute (forall_mem_singleton.mpr rfl))
  parList hps := (earnedByName_mixable lookup).parList (P := fun e => published e = none)
    (emits_perform fun _ => rfl) (fun _ ht => earnedByName_of_mute ht) hps

theorem earned_of_call {lookup : ProviderLookup} {p : Provider} {req : RequestEnvelope}
    {e : Event effects} {t : Trace effects} (he : CallsWith p req e) (hl : lookup model = .ok p)
    (hname : req.model = model) (ht : ∀ m, samplesFor m t ≤ if m = model then 1 else 0) :
    Earned lookup (e :: t) := by
  intro m _ last
  have hmute : published e = none := by
    obtain ⟨op, r⟩ := e
    cases op with
    | publish => cases he
    | _ => rfl
  have hsame : samplesFor m (e :: t) = samplesFor m t := by
    rw [samplesFor, publishes, filterMap_cons_none hmute]
    rfl
  rw [hsame]
  refine (ht m).trans ?_
  split
  · rename_i hm
    subst hm
    rw [callsFor, he.made_named hl hname]
    omega
  · exact Nat.zero_le _

theorem runShadow_earned (job : ShadowJob) :
    Ensures (h.runShadow job) fun t _ => Earned h.router t := by
  have hlooked : ∀ {t : Trace effects} {start : Int} {u : Unit}, Earned h.router t →
      Earned h.router (⟨.now, start⟩ :: ⟨.lookup job.shadowModel, u⟩ :: t) :=
    (earned_of_mute (t := [_, _]) (by simp [published])).append
  rw [ChatHandler.runShadow, Prog.perform_bind, ensures_ask]
  intro start
  rw [Prog.perform_bind, ensures_ask]
  refine fun _ => Ensures.mono (Q := fun t _ => Earned h.router t) ?_ fun _ _ => hlooked
  cases hl : h.router job.shadowModel with
  | error err =>
    have hsamples : Samples job.shadowModel (Go.now >>= fun stop => Go.publish
        { baseEvent job.request { job.req with model := job.shadowModel } job.shadowModel start
            stop with
          shadow := some ⟨job.primaryID, job.primaryModel, job.shadowModel⟩
          error := err.msg }) :=
      .after now_mute fun _ => samples_publish rfl
    refine hsamples.mono fun t _ ht m hm last => (ht m).trans ?_
    rw [if_neg]
    · exact Nat.zero_le _
    · rintro rfl
      obtain ⟨p, hp⟩ := hm
      rw [hl] at hp
      cases hp
  | ok sp =>
    have hrecord : ∀ (success : Bool) (latency : Int) (choices : List Choice),
        Mute (if h.hasShadow then Go.shadowRecord job.shadowModel success latency choices
          else pure ()) :=
      fun _ _ _ => emits_ite (emits_perform fun _ => rfl) emits_ret
    dsimp only
    rw [Prog.perform_bind, ensures_ask]
    refine fun outcome => Ensures.mono
      (Q := fun t _ => ∀ m, samplesFor m t ≤ if m = job.shadowModel then 1 else 0) ?_
      fun t _ ht => earned_of_call rfl hl (adjustTokenBudget_model _) ht
    cases outcome with
    | ok | error =>
      exact Samples.after now_mute fun stop =>
        .before (samples_publish (by simp [baseEvent])) fun _ => hrecord _ _ _

variable (hmax : 1 ≤ h.retryCfg.maxAttempts)

include hmax

theorem serveDecision_earned (req : RequestEnvelope) (d : RoutingDecision) :
    Ensures (h.serveDecision r req d) fun t _ => Earned h.router t := by
  have hlookup : ∀ {t : Trace effects} {u : Unit}, Earned h.router t →
      Earned h.router (⟨.lookup d.model, u⟩ :: t) :=
    (earned_of_mute (t := [_]) (forall_mem_singleton.mpr rfl)).append
  cases hl : h.router d.model with
  | error err =>
    rw [serveDecision_of_error hl, ensures_ask]
    exact fun _ => ensures_ret.mpr (hlookup (earned_of_mute (forall_mem_nil _)))
  | ok p =>
    rw [serveDecision_of_ok hl, ensures_ask]
    refine fun _ => Ensures.mono (Q := fun t _ => Earned h.router t) ?_ fun _ _ => hlookup
    split
    · rw [handleStream_eq]
      split
      · exact ensures_ret.mpr (earned_of_mute (forall_mem_nil _))
      · exact accounted_earned (streamModel_calling h p _ _) (streamModel_namesCalled hmax hl)
          (settleStream_samples _ _)
    · rw [serveChat_eq]
      exact accounted_earned (callAndResolve_calling h p _ _)
        (callAndResolve_namesCalled hmax hl) (settleChat_samples _ _)

theorem runChainStep_earned (model : String) (messages : List Message) :
    Ensures (h.runChainStep r model messages) fun t _ => EarnedByName h.router t := by
  rw [runChainStep_eq]
  refine accounted_earnedByName (execute_calling _ _ _ _) (fun hres t out hrun => ?_)
    (settleStep_samples _)
  obtain ⟨result, err, response, rfl, hwalk⟩ := runs_execute_iff.mp hrun
  exact walk_calls_step hmax { model := model, messages := messages }
    (fun p => chatOnce_startsCall p _) hwalk hres

theorem streamChainStep_earned (name model : String) (messages : List Message) :
    Ensures (h.streamChainStep r name model messages) fun t _ => EarnedByName h.router t := by
  rw [streamChainStep_eq]
  split
  · exact ensures_ret.mpr (earnedByName_mixable _).nil
  · refine accounted_earnedByName (executeStream_calling _ _ _ _ _ _) (fun hres t out hrun => ?_)
      (settleLastStep_samples _)
    exact walk_calls_step hmax { model := model, messages := messages }
      (fun p => streamOnce_startsCall _ p _) (runs_candidateLoop_iff.mp hrun) hres

theorem serveHTTP_earned : Ensures (h.serveHTTP r) fun t _ => Earned h.router t := by
  have hnil : Earned h.router [] := earned_of_mute (forall_mem_nil _)
  obtain ⟨reply, hserve⟩ | ⟨req, -, ⟨c, -, hserve⟩ | hserve⟩ := serveHTTP_cases h r
  · rw [hserve]
    exact ensures_ret.mpr hnil
  · rw [hserve]
    refine Ensures.mono (Q := fun t _ => EarnedByName h.router t) ?_ fun _ _ ht => ht.earned
    exact handleChain_closed (earnedByName_pathClosed h.router) (runChainStep_earned hmax)
      (streamChainStep_earned hmax) c req
  · rw [hserve]
    refine Ensures.bind (route_emits h r req) fun t out ht => ?_
    have hroute : Earned h.router t := earned_of_mute fun e he => (ht e he).published_eq
    cases out with
    | error reply => exact ensures_ret.mpr (hroute.append hnil)
    | ok d => exact (serveDecision_earned hmax req d).mono fun _ _ => hroute.append

end

/-! ## Requests that are rejected -/

/-- The budget or a guardrail rejects the request. -/
def Rejecting : Event effects → Prop
  | ⟨.budgetIntercept _, some _⟩ => True
  | ⟨.intercept _ _, .error _⟩ => True
  | _ => False

/-- The request of this run was rejected. -/
def Rejected (t : Trace effects) : Prop := ∃ e ∈ t, Rejecting e

theorem not_rejected {t : Trace effects} (h : ∀ e ∈ t, ¬ Rejecting e) : ¬ Rejected t := by
  rintro ⟨e, he, hrejecting⟩
  exact h e he hrejecting

theorem spans_not_rejecting (r : HttpRequest) : Spans r fun e => ¬ Rejecting e where
  now _ := id
  metrics _ _ _ _ _ _ := id
  publish _ _ := id
  goShadow _ _ := id
  calling e he := by
    obtain ⟨op, res⟩ := e
    cases op with
    | budgetIntercept | intercept => exact he.elim
    | _ => exact id
  consults e he := by
    obtain ⟨op, res⟩ := e
    cases op with
    | budgetIntercept | intercept => exact he.elim
    | _ => exact id
  admission _ _ := id
  outcome _ _ := id
  schedule _ := id

theorem runShadow_not_rejecting (h : ChatHandler) (job : ShadowJob) :
    Emits (h.runShadow job) fun e => ¬ Rejecting e :=
  runShadow_emits (fun _ => id) (fun _ => id) (fun _ _ _ => id) (fun _ _ => id) fun _ _ _ _ => id

theorem runInterceptors_rejects (id : Identity) : ∀ (chain : List Interceptor)
    (req : RequestEnvelope), Ensures (runInterceptors id chain req) fun t out =>
      Rejected t ↔ out.2 ≠ none
  | [], req => ensures_ret.mpr (by simp [Rejected])
  | .budget :: chain, req => by
    rw [runInterceptors, Prog.perform_bind, ensures_ask]
    rintro (_ | err)
    · refine (runInterceptors_rejects id chain req).mono fun t out hout => ?_
      rw [← hout]
      simp [Rejected, Rejecting]
    · exact ensures_ret.mpr (by simp [Rejected, Rejecting])
  | .other name :: chain, req => by
    rw [runInterceptors, Prog.perform_bind, ensures_ask]
    rintro (err | given)
    · exact ensures_ret.mpr (by simp [Rejected, Rejecting])
    · refine (runInterceptors_rejects id chain given).mono fun t out hout => ?_
      rw [← hout]
      simp [Rejected, Rejecting]

theorem writeBlocked_publishes (hasBus : Bool) (r : HttpRequest) (req : RequestEnvelope)
    (err : BlockedError) : Ensures (writeBlocked hasBus r req err) fun t _ =>
      if hasBus then ∃ ev, publishes t = [ev] else publishes t = [] := by
  cases hasBus with
  | true => exact ensures_ask.mpr fun _ => ensures_ask.mpr fun _ => ensures_ret.mpr ⟨_, rfl⟩
  | false => exact ensures_ret.mpr rfl

/-! ## Tasks -/

/-- What the gateway runs: a request, or a shadow call that a request has started. -/
inductive Task where
  | request (r : HttpRequest)
  | shadow (job : ShadowJob)

/-- The program of a task. -/
def Task.run (chain : List Interceptor) (hasBus : Bool) (h : ChatHandler) : Task → Go Unit
  | .request r => (interceptorMiddleware chain hasBus h.serveHTTP r).void
  | .shadow job => h.runShadow job

/-- The task was not rejected and earned its samples, or it was rejected without a call. -/
def Fares (h : ChatHandler) (hasBus : Bool) (t : Trace effects) : Prop :=
  (¬ Rejected t ∧ Earned h.router t) ∨
    (Rejected t ∧ ¬ Called t ∧ if hasBus then ∃ ev, publishes t = [ev] else publishes t = [])

section

variable {h : ChatHandler} {chain : List Interceptor} {hasBus : Bool}

theorem serveHTTP_fares (hmax : 1 ≤ h.retryCfg.maxAttempts) (r : HttpRequest) :
    Ensures (h.serveHTTP r) fun t _ => ¬ Rejected t ∧ Earned h.router t :=
  fun t reply hrun => ⟨not_rejected (serveHTTP_emits (spans_not_rejecting r) t reply hrun),
    serveHTTP_earned hmax t reply hrun⟩

theorem interceptorMiddleware_fares (hmax : 1 ≤ h.retryCfg.maxAttempts) (r : HttpRequest) :
    Ensures (interceptorMiddleware chain hasBus h.serveHTTP r) fun t _ => Fares h hasBus t := by
  have hpassed : ∀ r, Ensures (h.serveHTTP r) fun t _ => Fares h hasBus t :=
    fun r => (serveHTTP_fares hmax r).mono fun _ _ => .inl
  unfold interceptorMiddleware
  split
  · exact hpassed r
  · split
    · exact hpassed r
    · rename_i req _
      refine ensures_bind.mpr ?_
      rintro t ⟨req', err⟩ hrun
      have hscreens := (runInterceptors_screens h _ _ _ t _ hrun).1
      have hrejected := runInterceptors_rejects _ _ _ t _ hrun
      have hmute : ∀ e ∈ t, published e = none := fun e he => (hscreens e he).published_eq
      cases err with
      | none =>
        refine (serveHTTP_fares hmax _).mono fun t' _ hserved => .inl ⟨?_, ?_⟩
        · rintro ⟨e, hmem, he⟩
          obtain hmem | hmem := mem_append.mp hmem
          · exact absurd rfl (hrejected.mp ⟨e, hmem, he⟩)
          · exact hserved.1 ⟨e, hmem, he⟩
        · exact (earned_of_mute hmute).append hserved.2
      | some err =>
        intro t' reply hblocked
        obtain ⟨e, hmem, he⟩ := hrejected.mpr (Option.some_ne_none err)
        refine .inr ⟨⟨e, mem_append_left _ hmem, he⟩, ?_, ?_⟩
        · intro hcalled
          obtain hcalled | hcalled := called_append.mp hcalled
          · exact not_called (fun e he => (hscreens e he).no_call) hcalled
          · exact not_called (writeBlocked_no_calls _ _ _ t' reply hblocked) hcalled
        · rw [publishes_append, publishes_eq_nil hmute, nil_append]
          exact writeBlocked_publishes _ _ _ _ t' reply hblocked

theorem task_fares (hmax : 1 ≤ h.retryCfg.maxAttempts) (task : Task) :
    Ensures (task.run chain hasBus h) fun t _ => Fares h hasBus t := by
  cases task with
  | request r =>
    refine (interceptorMiddleware_fares hmax r).bind fun t _ ht => ensures_ret.mpr ?_
    rwa [append_nil]
  | shadow job =>
    exact fun t u hrun => .inl ⟨not_rejected (runShadow_not_rejecting h job t u hrun),
      runShadow_earned job t u hrun⟩

/-- The same but for the time. -/
structure SameStats (s s' : ModelPerf.ModelStats) : Prop where
  sampleCount : s.sampleCount = s'.sampleCount
  successRate : s.successRate = s'.successRate
  p50LatencyMS : s.p50LatencyMS = s'.p50LatencyMS
  p95LatencyMS : s.p95LatencyMS = s'.p95LatencyMS

/-- The telemetry of a trace. -/
def consume (now : Int) (perf : Memory) (t : Trace effects) : Memory :=
  (publishes t).foldl (onEvent now) perf

/-- A run takes no more samples for a model than it makes calls for it if and only if it was not
rejected and each event names a model with a provider, or it published nothing.  A task that was
rejected leaves all statistics as they are if and only if there is no bus. -/
theorem samples_earned_iff (hmax : 1 ≤ h.retryCfg.maxAttempts) {task : Task} {t : Trace effects}
    (hrun : Runs (task.run chain hasBus h) t ()) (now : Int) (perf : Memory) :
    ((∀ m, samplesFor m t ≤ callsFor h.router m none t) ↔
      ∀ ev ∈ publishes t, ¬ Rejected t ∧ Resolves h.router ev.model) ∧
    (Rejected t → ((∀ model intent,
      SameStats ((consume now perf t).get model intent) (perf.get model intent)) ↔
        hasBus = false)) := by
  have hfares := task_fares hmax task t () hrun
  refine ⟨⟨fun hcalls ev hev => ?_, fun hevents m => ?_⟩, fun hrejected => ?_⟩
  · have hsample : 1 ≤ samplesFor ev.model t :=
      countP_pos_iff.mpr ⟨ev, hev, by simp [Telemetry.stats]⟩
    obtain ⟨hres, hcalled⟩ := called_of_callsFor (hsample.trans (hcalls ev.model))
    exact ⟨fun hrejected => (hfares.resolve_left fun hpassed => hpassed.1 hrejected).2.1 hcalled,
      hres⟩
  · by_cases hm : samplesFor m t = 0
    · rw [hm]
      exact Nat.zero_le _
    · obtain ⟨ev, hev, hmodel⟩ := countP_pos_iff.mp (Nat.pos_of_ne_zero hm)
      obtain ⟨hpassed, hres⟩ := hevents ev hev
      rw [show ev.model = m from of_decide_eq_true hmodel] at hres
      exact (hfares.resolve_right fun hblocked => hpassed hblocked.1).2 m hres none
  · obtain ⟨_, _, hpublishes⟩ := hfares.resolve_left fun hpassed => hpassed.1 hrejected
    cases hasBus with
    | false =>
      have hnone : publishes t = [] := hpublishes
      simp only [consume, hnone, foldl_nil, iff_true]
      exact fun _ _ => ⟨rfl, rfl, rfl, rfl⟩
    | true =>
      obtain ⟨ev, hone⟩ : ∃ ev, publishes t = [ev] := hpublishes
      simp only [consume, hone, foldl_cons, foldl_nil, Bool.true_eq_false, iff_false]
      intro hsame
      have hcount := (hsame ev.model ev.useCaseID).sampleCount
      rw [onEvent, ModelPerf.Memory.get_upsert_sampleCount] at hcount
      simp at hcount

end

/-! ## A request that is served and one that is blocked -/

def oneModel : ChatHandler where
  router := fun model => if model = "m" then .ok ⟨0, "openai"⟩ else .error { msg := "no provider" }
  hasRegistry := false

def askModel : RequestEnvelope where
  model := "m"
  messages := [{ role := "user", content := "hi" }]

def servedTrace : Trace effects :=
  [⟨.budgetIntercept {}, none⟩, ⟨.lookup "m", ()⟩, ⟨.now, 0⟩,
    ⟨.chat ⟨0, "openai"⟩ (adjustTokenBudget askModel), .ok {}⟩, ⟨.now, 5⟩,
    ⟨.publish (withResult (withOutcome (baseEvent { body := some askModel } askModel "m" 0 5) "m"
      none {}) false "openai" none { model := "m" }), ()⟩]

theorem runs_servedTrace :
    Runs ((Task.request { body := some askModel }).run [.budget] true oneModel) servedTrace () := by
  have hbody : ({ body := some askModel } : HttpRequest).body = some askModel := rfl
  have hserve : oneModel.serveHTTP { body := some askModel } = .ask (.lookup "m") fun _ =>
      oneModel.serveChat { body := some askModel } ⟨0, "openai"⟩ askModel false [] :=
    serveHTTP_unlisted rfl hbody (by decide) (by decide) rfl (by decide) (by decide) rfl rfl
  refine Runs.void (a := .ok (some {})) ?_
  refine .ask ?_
  change Runs (oneModel.serveHTTP { body := some askModel }) _ _
  rw [hserve]
  exact .ask (.ask (.ask (.ask (.ask .ret))))

/-- A served request takes a sample for its call. -/
theorem served_request_earned :
    (∃ ev, publishes servedTrace = [ev]) ∧
      ∀ m, samplesFor m servedTrace ≤ callsFor oneModel.router m none servedTrace := by
  refine ⟨⟨_, rfl⟩, (samples_earned_iff (by decide) runs_servedTrace 0 {}).1.mpr ?_⟩
  refine forall_mem_singleton.mpr ⟨?_, ⟨0, "openai"⟩, rfl⟩
  simp [Rejected, Rejecting, servedTrace]

def overBudget : BlockedError where
  interceptor := "budget"
  message := "over"

def blockedTrace : Trace effects :=
  [⟨.budgetIntercept {}, some overBudget⟩, ⟨.now, 0⟩,
    ⟨.publish (blockedEvent { body := some askModel } askModel overBudget 0), ()⟩]

def goodStats : Memory :=
  ({} : Memory).upsert 0
    { model := "m", successRate := 1, p50LatencyMS := 800, p95LatencyMS := 800 }

def strayShadow : ShadowJob := ⟨{}, "", "m", "x", askModel⟩

def strayTrace : Trace effects :=
  [⟨.now, 0⟩, ⟨.lookup "x", ()⟩, ⟨.now, 0⟩,
    ⟨.publish { baseEvent {} { askModel with model := "x" } "x" 0 0 with
      shadow := some ⟨"", "m", "x"⟩, error := "no provider" }, ()⟩]

/-- A request over budget counts as a failed call of a healthy model.  A shadow call for a model
without a provider counts as one too. -/
theorem blocked_request_sampled :
    (Runs ((Task.request { body := some askModel }).run [.budget] true oneModel) blockedTrace () ∧
      samplesFor "m" blockedTrace = 1 ∧ callsFor oneModel.router "m" none blockedTrace = 0 ∧
      (goodStats.get "m" "").sampleCount = 1 ∧ (goodStats.get "m" "").successRate = 1 ∧
      (goodStats.get "m" "").p50LatencyMS = 800 ∧
      ((consume 0 goodStats blockedTrace).get "m" "").sampleCount = 2 ∧
      ((consume 0 goodStats blockedTrace).get "m" "").successRate = 1 / 2 ∧
      ((consume 0 goodStats blockedTrace).get "m" "").p50LatencyMS = 720) ∧
    Runs ((Task.shadow strayShadow).run [.budget] true oneModel) strayTrace () ∧
      samplesFor "x" strayTrace = 1 ∧ callsFor oneModel.router "x" none strayTrace = 0 := by
  refine ⟨⟨Runs.void (.ask (.ask (.ask .ret))), ?_⟩, .ask (.ask (.ask (.ask .ret))), ?_⟩
  · decide +kernel
  · decide +kernel

end Ingress

end Ixr
