import IxrGateway.Ingress.BreakerWorld

/-!
# Breakers that cannot get stuck

A half-open breaker hands out a number of probes and waits for their outcomes.
If a probe never reports, it is lost.  Once all are lost, nobody is admitted
any more, so nobody can report either.

Two kinds of callers take a probe and do not report.  `Filter` asks for every
model it looks at, and a request whose client goes away records nothing.  If
neither meets a half-open breaker, the probes that were sent and have not passed
are in the hands of requests that are still running.

What a request holds is counted with tokens: an admission hands out one, and an
outcome takes it back.
-/

open List

namespace Ixr.CircuitBreaker

/-- The breaker can still admit somebody. -/
def Breaker.CanAdmit (b : Breaker) : Prop :=
  b.state = .stateClosed ∨ b.state = .stateOpen ∨
    b.state = .stateHalfOpen ∧ b.probesSent < b.policy.probeCount

variable {b : Breaker} {p : Policy} {held : Int}

/-- Otherwise it never will, unless an outcome is recorded. -/
theorem Breaker.allow_of_not_canAdmit (h : ¬ b.CanAdmit) (now : Int) :
    b.allow now = (false, b) := by
  cases hs : b.state with
  | stateClosed => exact absurd (.inl hs) h
  | stateOpen => exact absurd (.inr (.inl hs)) h
  | stateHalfOpen =>
    rw [Breaker.allow_of_halfOpen hs]
    exact Breaker.probe_of_not_lt fun hlt => h (.inr (.inr ⟨hs, hlt⟩))

/-- The probes that have not passed are among those that `held` counts. -/
structure ProbesHeld (p : Policy) (held : Int) (b : Breaker) : Prop where
  policy : b.policy = p
  missing : b.state = .stateHalfOpen → b.probesPassed < p.probeCount
  sent : b.state = .stateHalfOpen → b.probesSent ≤ b.probesPassed + held

/-- What a call does to the probes held. -/
def Call.tokens : Call → Bool → Int
  | .allow, granted => if granted then 1 else 0
  | .recordSuccess, _ | .recordFailure, _ => -1

theorem ProbesHeld.transition {held' : Int} {b' : Breaker} {now : Int} {c : Call} {granted : Bool}
    (h : ProbesHeld p held b) (hprobes : 1 ≤ p.probeCount) (hheld : 0 ≤ held)
    (ht : Transition b now c granted b')
    (hheld' : b'.state = .stateHalfOpen → held' = held + c.tokens granted) :
    ProbesHeld p held' b' := by
  obtain ⟨rfl, hmissing, hsent⟩ := h
  cases ht with
  | pass hs => exact ⟨by simp, by simp [hs], by simp [hs]⟩
  | early hs _ | count hs | countFailure hs _ | ignored hs _ =>
    exact ⟨rfl, by simp [hs], by simp [hs]⟩
  | close _ _ | trip _ _ | reopen _ => exact ⟨rfl, by simp, by simp⟩
  | late _ _ _ =>
    refine ⟨rfl, fun _ => hprobes, fun hs' => ?_⟩
    have := hheld' hs'
    simp only [Call.tokens, Breaker.halfOpen, if_true] at this ⊢
    omega
  | lateSpent _ _ hspent => omega
  | probe hs _ =>
    refine ⟨rfl, fun _ => hmissing hs, fun hs' => ?_⟩
    have := hheld' hs'
    have := hsent hs
    simp only [Call.tokens, if_true] at *
    omega
  | spent hs _ =>
    refine ⟨rfl, hmissing, fun hs' => ?_⟩
    have := hheld' hs'
    have := hsent hs
    simp only [Call.tokens, Bool.false_eq_true, if_false] at *
    omega
  | passed hs hlt =>
    refine ⟨rfl, fun _ => hlt, fun hs' => ?_⟩
    have := hheld' hs'
    have := hsent hs
    simp only [Call.tokens] at *
    omega

theorem ProbesHeld.new (created : Int) : ProbesHeld p held (.new p created) :=
  ⟨rfl, by simp [Breaker.new], by simp [Breaker.new]⟩

theorem ProbesHeld.seeded (hprobes : 1 ≤ p.probeCount) (hheld : 0 ≤ held) (s : State)
    (created : Int) : ProbesHeld p held ((Breaker.new p created).setState s created) := by
  cases s with
  | stateClosed | stateOpen => exact ⟨rfl, by simp [Breaker.setState], by simp [Breaker.setState]⟩
  | stateHalfOpen => exact ⟨rfl, fun _ => hprobes, fun _ => by
    simpa [Breaker.setState, Breaker.new] using hheld⟩

theorem ProbesHeld.canAdmit (h : ProbesHeld p held b) (hheld : held ≤ 0) : b.CanAdmit := by
  cases hs : b.state with
  | stateClosed => exact .inl hs
  | stateOpen => exact .inr (.inl hs)
  | stateHalfOpen =>
    have hmissing := h.missing hs
    have hsent := h.sent hs
    exact .inr (.inr ⟨hs, by rw [h.policy]; omega⟩)

end Ixr.CircuitBreaker

namespace Ixr.Ingress

open Interaction Routing CircuitBreaker

/-! ## The tokens of requests -/

/-- An admission for the model hands out a token, and an outcome takes one back. -/
def probeTokens (model : String) (e : Event effects) : Int :=
  match e with
  | ⟨.isAllowed .admission model', true⟩ => if model' = model then 1 else 0
  | ⟨.recordOutcome model' _, _⟩ => if model' = model then -1 else 0
  | _ => 0

/-- The request holds a probe. -/
def Unreported (model : String) (t : Trace effects) : Prop := 0 < balance (probeTokens model) t

section

variable {h : ChatHandler} {r : HttpRequest} (model : String)

variable {e : Event effects} {β : Type} {model' : String}

theorem Bookkeeping.probeTokens_eq (he : Bookkeeping e) : probeTokens model e = 0 := by
  obtain ⟨op, res⟩ := e
  cases op with
  | now | metrics | publish | goShadow => rfl
  | _ => exact he.elim

theorem Calling.probeTokens_eq (he : Calling e) : probeTokens model e = 0 := by
  obtain ⟨op, res⟩ := e
  cases op with
  | lookup | chat | stream | deliver | backoff | retrievalGet => rfl
  | _ => exact he.elim

theorem Consults.probeTokens_eq (he : Consults e) : probeTokens model e = 0 := by
  obtain ⟨op, res⟩ := e
  cases op with
  | isAllowed site =>
    cases site with
    | filter => rfl
    | admission => exact he.elim
  | getPolicy | perfGet | banditSelect => rfl
  | _ => exact he.elim

/-- What an admission to another model hands out. -/
def handedOut (h : ChatHandler) (model model' : String) : Int :=
  if h.hasRegistry = true ∧ model' = model then 1 else 0

theorem handedOut_nonneg (h : ChatHandler) (model' : String) : 0 ≤ handedOut h model model' := by
  unfold handedOut
  split
  · exact zero_le_one
  · exact le_refl 0

theorem outcome_tokens (h : ChatHandler) (model' : String) (err : Option GoError) :
    (∀ e ∈ h.outcome model' err, probeTokens model e ≤ 0) ∧
      0 ≤ handedOut h model model' + balance (probeTokens model) (h.outcome model' err) := by
  unfold ChatHandler.outcome handedOut
  split
  · rename_i hrecorded
    have hreg := (Bool.and_eq_true_iff.mp hrecorded).1
    by_cases hmodel : model' = model
    · simp [hreg, hmodel, probeTokens]
    · simp [hmodel, probeTokens]
  · refine ⟨forall_mem_nil _, ?_⟩
    rw [balance_nil, add_zero]
    exact handedOut_nonneg model h model'

theorem settle_guarded {err : Option GoError} {p : Go β} (hsettle : Settles h model' err p) :
    Guarded (probeTokens model) p (handedOut h model model') := by
  refine guarded_of_runs (hsettle.mono ?_)
  rintro t b ⟨before, after, rfl, hbefore, hafter⟩
  have hfree : ∀ {t : Trace effects}, (∀ e ∈ t, Bookkeeping e) →
      ∀ e ∈ t, probeTokens model e = 0 := fun ht e he => (ht e he).probeTokens_eq model
  obtain ⟨hpaid, hpay⟩ := outcome_tokens model h model' err
  simp only [forall_mem_append, balance_append, balance_eq_zero (hfree hbefore),
    balance_eq_zero (hfree hafter), zero_add, add_zero]
  exact ⟨⟨fun e he => (hfree hbefore e he).le, hpaid, fun e he => (hfree hafter e he).le⟩, hpay⟩

theorem accounted_guarded {α : Type} {err : α → Option GoError} {call : Go α}
    {settle : Int → α → Go β} {refused : β} (hcall : Emits call Calling)
    (hsettle : ∀ start out, Settles h model' (err out) (settle start out)) :
    Guarded (probeTokens model) (accounted h model' call settle refused) 0 := by
  have hfree : Emits call fun e => probeTokens model e = 0 :=
    hcall.mono fun _ _ ht e he => (ht e he).probeTokens_eq model
  have hadmitted : Guarded (probeTokens model) (Go.now >>= fun start => call >>= settle start)
      (handedOut h model model') := by
    have hnonneg := handedOut_nonneg model h model'
    refine guarded_bind_of_emits (emits_perform fun _ => rfl) hnonneg fun _ => ?_
    exact guarded_bind_of_emits hfree hnonneg fun out => settle_guarded model (hsettle _ out)
  unfold accounted ChatHandler.admits
  cases hreg : h.hasRegistry with
  | false =>
    have hnone : handedOut h model model' = 0 := by simp [handedOut, hreg]
    rw [hnone] at hadmitted
    exact hadmitted
  | true =>
    intro allowed
    rw [zero_add]
    cases allowed with
    | false => exact ⟨le_refl 0, guarded_ret⟩
    | true =>
      have hgot : probeTokens model ⟨.isAllowed .admission model', true⟩ =
          handedOut h model model' := by
        simp [probeTokens, handedOut, hreg]
      rw [hgot]
      exact ⟨handedOut_nonneg model h model', hadmitted⟩

theorem guarded_pathClosed :
    PathClosed fun _ p => Guarded (probeTokens model) p 0 where
  ret _ := guarded_ret
  bind hp hf := hp.bind (le_refl 0) hf
  consult hp := guarded_of_emits
    (hp.mono fun _ _ ht e he => ((ht e he).probeTokens_eq model).ge) (le_refl 0)
  lookup _ := guarded_of_emits (emits_perform fun _ => le_refl 0) (le_refl 0)
  parList hps := guarded_parList (emits_perform fun _ => rfl) hps

theorem serveHTTP_guarded (h : ChatHandler) (r : HttpRequest) :
    Guarded (probeTokens model) (h.serveHTTP r) 0 := by
  refine serveHTTP_closed (guarded_pathClosed model) (fun p req autoRouted chain => ?_)
    (fun p req autoRouted chain => ?_) (fun model' messages => ?_) fun name model' messages => ?_
  · rw [serveChat_eq]
    exact accounted_guarded model (callAndResolve_calling h p req chain)
      (settleChat_settles h r req autoRouted)
  · rw [handleStream_eq]
    split
    · exact guarded_ret
    · exact accounted_guarded model (streamModel_calling h p req chain)
        (settleStream_settles h r req autoRouted)
  · rw [runChainStep_eq]
    exact accounted_guarded model (execute_calling _ _ _ _) (settleStep_settles h r _)
  · rw [streamChainStep_eq]
    split
    · exact guarded_ret
    · exact accounted_guarded model (executeStream_calling _ _ _ _ _ _)
        (settleLastStep_settles h r _)

theorem runShadow_guarded (h : ChatHandler) (job : ShadowJob) :
    Guarded (probeTokens model) (h.runShadow job) 0 :=
  guarded_of_emits (runShadow_emits (fun _ => le_refl 0) (fun _ => le_refl 0)
    (fun _ _ _ => le_refl 0) (fun _ _ => le_refl 0) fun _ _ _ _ => le_refl 0) (le_refl 0)

end

/-! ## Requests around one breaker -/

/-- The breaker is closed, or will be. -/
def FoundClosed (w : BreakerWorld) (model : String) : Prop :=
  match w.registry.breakers model with
  | some b => b.state = .stateClosed
  | none => w.registry.hasStore = false

/-- The model's breaker is half open. -/
def IsHalfOpen (w : BreakerWorld) (model : String) : Prop :=
  ∃ b, w.registry.breakers model = some b ∧ b.state = .stateHalfOpen

/-- A move that does not lose a probe.  `Filter` is granted a model only while its breaker is
closed, and no request returns with an admission it has not reported on while the breaker is
half open. -/
structure KeepsProbes (h : ChatHandler) (model : String) (P : Pool effects BreakerWorld)
    (m : Move effects) (P' : Pool effects BreakerWorld) : Prop where
  request : ∀ p, m = .start p → IsRequest h p
  filter : ∀ place, m = .perform place ⟨.isAllowed .filter model, true⟩ →
    FoundClosed P.world model
  reports : ∀ place e proc, m = .perform place e → P'.procs[place]? = some proc →
    proc.returned = true → Unreported model proc.trace → ¬ IsHalfOpen P'.world model

section

variable {h : ChatHandler} {model : String} {p : Policy} {hasStore : Bool} {clock : Int}
  {P P' : Pool effects BreakerWorld}

abbrev startWorld (p : Policy) (hasStore : Bool) (clock : Int) : BreakerWorld :=
  ⟨{ policy := p, hasStore := hasStore }, clock⟩

/-- The pools that requests can lead to if no move loses a probe of the model. -/
abbrev KeptReached (h : ChatHandler) (model : String) (p : Policy) (hasStore : Bool)
    (clock : Int) : Pool effects BreakerWorld → Prop :=
  Pool.Reached breakerAnswers (shadows h) (KeepsProbes h model) (startWorld p hasStore clock)

theorem KeptReached.guarded (hreach : KeptReached h model p hasStore clock P) :
    ∀ proc ∈ P.procs, Guarded (probeTokens model) proc.init 0 := by
  refine hreach.init_of (Q := fun _ q => Guarded (probeTokens model) q 0)
    (fun P q P' hallowed => ?_) (fun place e q hq => ?_)
  · obtain ⟨r, rfl⟩ := hallowed.request q rfl
    exact (serveHTTP_guarded model h r).bind (le_refl 0) fun _ => guarded_ret
  · unfold shadows at hq
    split at hq
    · rw [mem_singleton.mp hq]
      exact runShadow_guarded model h _
    · cases hq

variable {e : Event effects}

theorem KeptReached.held_perform (hreach : KeptReached h model p hasStore clock P') {place : Nat}
    (hstep : Pool.Step breakerAnswers (shadows h) P (.perform place e) P')
    (hkeeps : KeepsProbes h model P (.perform place e) P') (hopen : IsHalfOpen P'.world model) :
    P'.held (probeTokens model) = P.held (probeTokens model) + probeTokens model e := by
  obtain ⟨proc, hproc, hheld⟩ := hstep.held_perform (probeTokens model)
  have hmem : proc ∈ P'.procs := mem_of_getElem? hproc
  split at hheld
  · rename_i hret
    have hpay := (hreach.guarded proc hmem).balance_nonneg (le_refl 0) (hreach.steps proc hmem)
    have hreported : ¬ Unreported model proc.trace := fun hun =>
      hkeeps.reports place e proc rfl hproc hret hun hopen
    unfold Unreported at hreported
    omega
  · omega

theorem get_probesHeld {w : BreakerWorld} {held : Int} (hprobes : 1 ≤ p.probeCount)
    (hheld : 0 ≤ held) (hpolicy : w.registry.policy = p)
    (hold : ∀ b, w.registry.breakers model = some b → ProbesHeld p held b) (seed : Option State)
    (created : Int) : ProbesHeld p held (w.registry.get seed created model) := by
  subst hpolicy
  exact Registry.get_of hold (.new created) fun s _ => .seeded hprobes hheld s created

/-- The invariant: the probes that have not passed are held by running requests. -/
structure ProbesKept (p : Policy) (model : String) (P : Pool effects BreakerWorld) : Prop where
  policy : P.world.registry.policy = p
  held : ∀ b, P.world.registry.breakers model = some b →
    ProbesHeld p (P.held (probeTokens model)) b

theorem foundClosed_get {w : BreakerWorld} {seed : Option State} {created now : Int}
    (hfound : FoundClosed w model) (hload : Loaded w seed created now) :
    (w.registry.get seed created model).state = .stateClosed := by
  unfold FoundClosed at hfound
  unfold Registry.get
  cases hb : w.registry.breakers model with
  | some b =>
    rw [hb] at hfound
    exact hfound
  | none =>
    rw [hb] at hfound
    dsimp only
    rw [hload.noStore hfound]
    rfl

theorem probeTokens_of_not_touches (hnot : ∀ c granted, ¬ Touches model e c granted) :
    probeTokens model e = 0 := by
  unfold probeTokens
  split
  · refine if_neg ?_
    rintro rfl
    exact hnot _ _ .allow
  · rename_i success _
    refine if_neg ?_
    rintro rfl
    cases success with
    | true => exact hnot _ _ .success
    | false => exact hnot _ _ .failure
  · rfl

theorem Touches.tokens {c : Call} {granted : Bool} (ht : Touches model e c granted) :
    probeTokens model e = c.tokens granted ∨ e = ⟨.isAllowed .filter model, true⟩ := by
  cases ht with
  | @allow site =>
    cases site with
    | filter =>
      cases granted with
      | true => exact .inr rfl
      | false => exact .inl rfl
    | admission =>
      cases granted with
      | true => exact .inl (by simp [probeTokens, Call.tokens])
      | false => exact .inl rfl
  | success | failure => exact .inl (by simp [probeTokens, Call.tokens])

theorem ProbesKept.start {q : Go Unit} (hkept : ProbesKept p model P)
    (hstep : Pool.Step breakerAnswers (shadows h) P (.start q) P') : ProbesKept p model P' := by
  have hheld := hstep.held_start (probeTokens model)
  cases hstep
  exact ⟨hkept.policy, fun b hb => hheld ▸ hkept.held b hb⟩

theorem ProbesKept.perform {place : Nat} (hkept : ProbesKept p model P)
    (hprobes : 1 ≤ p.probeCount) (hreach : KeptReached h model p hasStore clock P)
    (hstep : Pool.Step breakerAnswers (shadows h) P (.perform place e) P')
    (hkeeps : KeepsProbes h model P (.perform place e) P') : ProbesKept p model P' := by
  have hheld := hreach.held_nonneg hreach.guarded
  have hmoved := KeptReached.held_perform (hreach.step hstep hkeeps) hstep hkeeps
  refine ⟨hstep.answer.policy.trans hkept.policy, fun b hb => ?_⟩
  obtain ⟨hsame, hnot⟩ | ⟨c, granted, seed, created, b', ht, hload, htrans, hb'⟩ :=
    hstep.answer.cases_of model
  · have hold := hkept.held b (hsame ▸ hb)
    refine ⟨hold.policy, hold.missing, fun hs => ?_⟩
    rw [hmoved ⟨b, hb, hs⟩, probeTokens_of_not_touches hnot, add_zero]
    exact hold.sent hs
  · obtain rfl : b' = b := Option.some.inj (hb'.symm.trans hb)
    have hcalled := get_probesHeld hprobes hheld hkept.policy hkept.held seed created
    refine hcalled.transition hprobes hheld htrans fun hs => ?_
    rw [hmoved ⟨b', hb, hs⟩]
    obtain htokens | hfilter := ht.tokens
    · rw [htokens]
    · -- A closed breaker stays closed when it is asked.
      obtain rfl : e = ⟨.isAllowed .filter model, true⟩ := hfilter
      have hclosed := foundClosed_get (hkeeps.filter place rfl) hload
      cases ht
      cases htrans with
      | pass _ => simp [hclosed] at hs
      | late hs' _ _ | probe hs' _ => simp [hclosed] at hs'

theorem KeptReached.probesKept (hprobes : 1 ≤ p.probeCount)
    (hreach : KeptReached h model p hasStore clock P) : ProbesKept p model P := by
  induction hreach with
  | empty => exact ⟨rfl, fun b hb => by cases hb⟩
  | @step P P' m hreach hstep hkeeps ih =>
    cases m with
    | start q => exact ih.start hstep
    | perform place e => exact ih.perform hprobes hreach hstep hkeeps

/-- A breaker that nobody is to report to can still admit somebody. -/
theorem breaker_never_stuck (hprobes : 1 ≤ p.probeCount)
    (hreach : Pool.Reached breakerAnswers (shadows h) (KeepsProbes h model)
      (startWorld p hasStore clock) P)
    (hidle : ∀ proc ∈ P.procs, proc.returned = false → ¬ Unreported model proc.trace)
    {b : Breaker} (hb : P.world.registry.breakers model = some b) : b.CanAdmit := by
  refine ((KeptReached.probesKept hprobes hreach).held b hb).canAdmit ?_
  refine (sum_le_card_nsmul _ 0 fun x hx => ?_).trans_eq (smul_zero _)
  obtain ⟨proc, hmem, rfl⟩ := mem_map.mp hx
  unfold Proc.held
  split
  · exact le_refl 0
  · rename_i hrunning
    exact not_lt.mp (hidle proc hmem (Bool.eq_false_iff.mpr hrunning))

end

/-! ## A probe whose client goes away -/

def localGateway : ChatHandler where
  router _ := .ok ⟨0, "local"⟩
  hasBus := false

def localBody : RequestEnvelope where
  model := "local-model"
  messages := [{ role := "user", content := "hi" }]

def localRequest : HttpRequest where
  body := some localBody

/-- The request is admitted, and its call comes back. -/
def admittedTo (out : Except GoError ResponseEnvelope) : Trace effects :=
  [⟨.lookup "local-model", ()⟩, ⟨.isAllowed .admission "local-model", true⟩, ⟨.now, 0⟩,
    ⟨.chat ⟨0, "local"⟩ localBody, out⟩, ⟨.now, 0⟩]

/-- It is, and it reports. -/
def reportedOn (out : Except GoError ResponseEnvelope) : Trace effects :=
  admittedTo out ++ [⟨.recordOutcome "local-model" out.isOk, ()⟩]

theorem serveHTTP_localRequest : localGateway.serveHTTP localRequest =
    .ask (.lookup "local-model") fun _ =>
      localGateway.serveChat localRequest ⟨0, "local"⟩ localBody false [] := by
  have hbody : localRequest.body = some localBody := rfl
  exact serveHTTP_unlisted rfl hbody (by decide) (by decide) rfl (by decide) (by decide) rfl rfl

theorem localRequest_runs {t : Trace effects} {reply : Reply}
    (h : Runs (localGateway.serveChat localRequest ⟨0, "local"⟩ localBody false []) t reply) :
    Runs (localGateway.serveHTTP localRequest).void (⟨.lookup "local-model", ()⟩ :: t) () := by
  refine Runs.void (a := reply) ?_
  rw [serveHTTP_localRequest]
  exact .ask h

theorem localRequest_refused :
    Runs (localGateway.serveHTTP localRequest).void (reportedOn (.error badRequest)) () :=
  localRequest_runs (.ask (.ask (.ask (.ask (.ask .ret)))))

theorem localRequest_served :
    Runs (localGateway.serveHTTP localRequest).void (reportedOn (.ok {})) () :=
  localRequest_runs (.ask (.ask (.ask (.ask (.ask .ret)))))

theorem localRequest_canceled : Runs (localGateway.serveHTTP localRequest).void
    (admittedTo (.error CtxErr.canceled.toError)) () :=
  localRequest_runs (.ask (.ask (.ask (.ask .ret))))

/-- A failure has tripped the breaker. -/
def trippedBreaker : Breaker :=
  { Breaker.new hairTrigger 0 with state := .stateOpen, failures := 1, total := 1 }

/-- The first probe is under way. -/
def probingBreaker : Breaker :=
  { trippedBreaker with state := .stateHalfOpen, probesSent := 1 }

theorem admitted_along {p : Policy} {b : Option Breaker} {b' : Breaker} {clock now : Int}
    {t : Trace effects} {w' : BreakerWorld} (hle : clock ≤ now)
    (hallow : (b.getD (.new p clock)).allow now = (true, b'))
    (out : Except GoError ResponseEnvelope)
    (hrest : Pool.Along breakerAnswers (soleWorld p "local-model" (some b') now) t w') :
    Pool.Along breakerAnswers (soleWorld p "local-model" b clock) (admittedTo out ++ t) w' := by
  refine .cons (.other trivial (le_refl clock)) (.cons (soleWorld_isAllowed hle hallow) ?_)
  refine .cons (.other trivial (le_refl now)) (.cons (.other trivial (le_refl now)) ?_)
  exact .cons (.other trivial (le_refl now)) hrest

theorem refused_along {p : Policy} {b : Breaker}
    (hallow : (Breaker.new p 0).allow 0 = (true, .new p 0))
    (hfail : ((Breaker.new p 0).call 0 .recordFailure).2 = b) :
    Pool.Along breakerAnswers (soleWorld p "local-model" none 0) (reportedOn (.error badRequest))
      (soleWorld p "local-model" (some b) 0) :=
  admitted_along (b := none) (le_refl 0) hallow _
    (.cons (soleWorld_recordOutcome (le_refl 0) hfail) .nil)

theorem startWorld_eq (p : Policy) (model : String) (clock : Int) :
    startWorld p false clock = soleWorld p model none clock := by
  simp [soleWorld]

theorem keepsProbes_start (P P' : Pool effects BreakerWorld) :
    KeepsProbes localGateway "local-model" P
      (.start (localGateway.serveHTTP localRequest).void) P' :=
  ⟨fun q hq => ⟨localRequest, (Move.start.inj hq).symm⟩, by simp, by simp⟩

/-- A request that asks for itself only and reports loses no probe. -/
theorem keepsProbes_of_reported {out : Except GoError ResponseEnvelope} {place : Nat}
    {P P' : Pool effects BreakerWorld} {past rest : Trace effects} {e : Event effects}
    (hsplit : reportedOn out = past ++ e :: rest)
    (hperforms : Pool.Performs none place past e rest P P') :
    KeepsProbes localGateway "local-model" P (.perform place e) P' := by
  refine ⟨by simp, fun place' hmove => ?_, fun place' e' proc hmove hproc hret hun => ?_⟩
  · obtain ⟨-, rfl⟩ := Move.perform.inj hmove
    have hmem : (⟨.isAllowed .filter "local-model", true⟩ : Event effects) ∈ reportedOn out := by
      simp [hsplit]
    simp [reportedOn, admittedTo] at hmem
  · obtain ⟨rfl, rfl⟩ := Move.perform.inj hmove
    obtain ⟨proc', hproc', -, htrace, hlast⟩ := hperforms.after
    obtain rfl : proc' = proc := Option.some.inj (hproc'.symm.trans hproc)
    rw [htrace, ← hlast hret, ← hsplit] at hun
    exact absurd hun (by simp [Unreported, reportedOn, admittedTo, balance, probeTokens])

/-- Two probes have to pass. -/
def twoProbes : Policy := { hairTrigger with probeCount := 2 }

/-- One of them has passed. -/
def halfProbedBreaker : Breaker := { probingBreaker with policy := twoProbes, probesPassed := 1 }

/-- A failure trips the breaker, and the first probe reports that it has passed.  The breaker is
still half open and can admit somebody. -/
theorem reported_probe_can_admit :
    halfProbedBreaker.state = .stateHalfOpen ∧ halfProbedBreaker.CanAdmit := by
  have hfail : ((Breaker.new twoProbes 0).call 0 .recordFailure).2 =
      { trippedBreaker with policy := twoProbes } := by decide +kernel
  have hfirst : Pool.Reached breakerAnswers (shadows localGateway)
      (KeepsProbes localGateway "local-model") (startWorld twoProbes false 0) _ :=
    startWorld_eq twoProbes "local-model" 0 ▸ Pool.Reached.empty.steps_alone
      localRequest_refused.steps (refused_along rfl hfail) (fun _ _ _ _ h => h)
      (keepsProbes_start _) fun _ _ _ _ _ hsplit _ hperforms =>
        keepsProbes_of_reported hsplit hperforms
  have halong : Pool.Along breakerAnswers
      (soleWorld twoProbes "local-model" (some { trippedBreaker with policy := twoProbes }) 0)
      (reportedOn (.ok {})) (soleWorld twoProbes "local-model" (some halfProbedBreaker) 10) :=
    admitted_along (by decide) rfl (.ok {})
      (.cons (soleWorld_recordOutcome (le_refl 10) rfl) .nil)
  have hprobe := hfirst.steps_alone localRequest_served.steps halong (fun _ _ _ _ h => h)
    (keepsProbes_start _) fun _ _ _ _ _ hsplit _ hperforms =>
      keepsProbes_of_reported hsplit hperforms
  refine ⟨rfl, breaker_never_stuck (by decide) hprobe ?_ (by simp [soleWorld])⟩
  simp [reportedOn, admittedTo, shadows, Proc.returned]

/-- The client of the only probe goes away.  Then all requests have returned, and the breaker
admits nobody any more. -/
theorem lost_probe_sticks : ∃ P : Pool effects BreakerWorld,
    Pool.Reached breakerAnswers (shadows localGateway)
      (fun _ m _ => ∀ q, m = .start q → IsRequest localGateway q) (startWorld hairTrigger false 0)
      P ∧
    (∀ proc ∈ P.procs, proc.returned = true) ∧
    P.world.registry.breakers "local-model" = some probingBreaker ∧
    ¬ probingBreaker.CanAdmit ∧ ∀ now, probingBreaker.allow now = (false, probingBreaker) := by
  have hstart : ∀ q, Move.start (S := effects) (localGateway.serveHTTP localRequest).void =
      .start q → IsRequest localGateway q := fun q hq => ⟨localRequest, (Move.start.inj hq).symm⟩
  have hfail : ((Breaker.new hairTrigger 0).call 0 .recordFailure).2 = trippedBreaker := by
    decide +kernel
  have hfirst : Pool.Reached breakerAnswers (shadows localGateway)
      (fun _ m _ => ∀ q, m = .start q → IsRequest localGateway q) (startWorld hairTrigger false 0)
      _ :=
    startWorld_eq hairTrigger "local-model" 0 ▸ Pool.Reached.empty.steps_alone
      localRequest_refused.steps (refused_along rfl hfail) (fun _ _ _ _ h => h) (fun _ => hstart)
      fun _ _ _ _ _ _ _ _ => by simp
  have halong : Pool.Along breakerAnswers
      (soleWorld hairTrigger "local-model" (some trippedBreaker) 0)
      (admittedTo (.error CtxErr.canceled.toError))
      (soleWorld hairTrigger "local-model" (some probingBreaker) 10) :=
    admitted_along (by decide) rfl _ .nil
  have hboth := hfirst.steps_alone localRequest_canceled.steps halong (fun _ _ _ _ h => h)
    (fun _ => hstart) fun _ _ _ _ _ _ _ _ => by simp
  have hstuck : ¬ probingBreaker.CanAdmit := by
    simp [Breaker.CanAdmit, probingBreaker, trippedBreaker, Breaker.new, hairTrigger]
  refine ⟨_, hboth, ?_, by simp [soleWorld], hstuck, Breaker.allow_of_not_canAdmit hstuck⟩
  simp [reportedOn, admittedTo, shadows, Proc.returned]

end Ixr.Ingress
