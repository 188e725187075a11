import IxrGateway.Ingress.RequestPaths
import IxrGateway.Interaction.Monitor

/-!
# What a request asks before it calls

A provider is called for the model that was looked up last.  The primary model
is asked for when the request is admitted, and the fallbacks that the scoring
engine picked have been asked for by `Filter`.  The fallbacks from the static
ranking are called without asking their breakers.

So a request calls a model only if its breaker has allowed it or if the ranking
names it, and only before it reports an outcome (`serveHTTP_vetted`).
-/

namespace Ixr.Ingress

open Interaction Routing Reasoning List

/-! ## The rule -/

/-- The model that is looked up. -/
def lookedUp (e : Event effects) : Option String :=
  match e.op with
  | .lookup model => some model
  | _ => none

/-- The model looked up last. -/
def candidateOf (t : Trace effects) : Option String := (t.filterMap lookedUp).getLast?

/-- A provider is called. -/
def IsCall (o : Op) : Prop :=
  match o with
  | .chat .. | .stream .. => True
  | _ => False

/-- The breaker of the model has allowed it. -/
def Answered (t : Trace effects) (model : String) : Prop :=
  ∃ site, (⟨.isAllowed site model, true⟩ : Event effects) ∈ t

/-- No outcome has been reported. -/
def NoOutcome (t : Trace effects) : Prop :=
  ∀ model success, (⟨.recordOutcome model success, ()⟩ : Event effects) ∉ t

/-- The model's breaker has allowed it, or the model is called without asking. -/
def Backed (ranked : String → Prop) (past : Trace effects) (model : String) : Prop :=
  ranked model ∨ Answered past model

/-- After this past the candidate may be called. -/
structure Ready (ranked : String → Prop) (past : Trace effects) : Prop where
  noOutcome : NoOutcome past
  backed : ∀ model, candidateOf past = some model → Backed ranked past model

/-- Providers are called only for candidates that may be called. -/
def Vetted (ranked : String → Prop) (past : Trace effects) (e : Event effects) : Prop :=
  IsCall e.op → Ready ranked past

/-- The event changes neither the candidate nor what has been reported. -/
def Neutral (e : Event effects) : Prop :=
  match e.op with
  | .lookup _ | .recordOutcome .. => False
  | _ => True

variable {e : Event effects} {t : Trace effects}

theorem Upstream.neutral (h : Upstream e) : Neutral e := by
  obtain ⟨op, r⟩ := e
  cases op with
  | lookup | recordOutcome => exact h
  | _ => trivial

theorem Consults.neutral (h : Consults e) : Neutral e := by
  obtain ⟨op, r⟩ := e
  cases op with
  | lookup | recordOutcome => exact h
  | _ => trivial

theorem Neutral.lookedUp_eq (h : Neutral e) : lookedUp e = none := by
  obtain ⟨op, r⟩ := e
  cases op with
  | lookup => exact h.elim
  | _ => rfl

theorem Answered.append {model : String} (h : Answered t model) (t' : Trace effects) :
    Answered (t ++ t') model := by
  obtain ⟨site, hmem⟩ := h
  exact ⟨site, mem_append_left t' hmem⟩

theorem noOutcome_of_neutral (h : ∀ e ∈ t, Neutral e) : NoOutcome t :=
  fun _ _ hmem => h _ hmem

theorem NoOutcome.append {t' : Trace effects} (h : NoOutcome t) (h' : NoOutcome t') :
    NoOutcome (t ++ t') := by
  intro model success hmem
  obtain hmem | hmem := mem_append.mp hmem
  · exact h model success hmem
  · exact h' model success hmem

theorem candidateOf_append {t' : Trace effects} (h : ∀ e ∈ t', Neutral e) :
    candidateOf (t ++ t') = candidateOf t := by
  have hnone : t'.filterMap lookedUp = [] :=
    filterMap_eq_nil_iff.mpr fun e he => (h e he).lookedUp_eq
  simp [candidateOf, hnone]

theorem candidateOf_lookup (t : Trace effects) (model : String) (u : Unit) :
    candidateOf (t ++ [⟨.lookup model, u⟩]) = some model := by
  simp [candidateOf, lookedUp]

section

variable {ranked : String → Prop}

variable {t : Trace effects} {model : String}

theorem Backed.append (h : Backed ranked t model) (t' : Trace effects) :
    Backed ranked (t ++ t') model :=
  h.imp_right fun hanswered => hanswered.append t'

theorem Ready.append {t' : Trace effects} (h : Ready ranked t) (h' : ∀ e ∈ t', Neutral e) :
    Ready ranked (t ++ t') := by
  refine ⟨h.noOutcome.append (noOutcome_of_neutral h'), fun model hmodel => ?_⟩
  rw [candidateOf_append h'] at hmodel
  exact (h.backed model hmodel).append t'

theorem ready_lookup (hno : NoOutcome t) (hbacked : Backed ranked t model) (u : Unit) :
    Ready ranked (t ++ [⟨.lookup model, u⟩]) := by
  refine ⟨hno.append (by simp [NoOutcome]), fun model' hmodel => ?_⟩
  rw [candidateOf_lookup] at hmodel
  cases hmodel
  exact hbacked.append _

theorem obeys_of_ready {past : Trace effects} (h : Ready ranked past) (ht : ∀ e ∈ t, Neutral e) :
    Obeys (Vetted ranked) past t := by
  induction t generalizing past with
  | nil => trivial
  | cons e t ih =>
    obtain ⟨he, ht⟩ := forall_mem_cons.mp ht
    exact ⟨fun _ => h, ih (h.append (forall_mem_singleton.mpr he)) ht⟩

theorem obeys_of_no_calls {past : Trace effects} (ht : ∀ e ∈ t, ¬ IsCall e.op) :
    Obeys (Vetted ranked) past t :=
  obeys_of_forall fun e he _ hcall => absurd hcall (ht e he)

/-! ## The candidates -/

variable {σ : Type} {primary : String} {lookup : ProviderLookup}
  {attempt : Provider → σ → Go (σ × Int × Option GoError)} {past : Trace effects}

variable {s : σ} {α β : Type}

theorem obeys_attempt (hattempt : ∀ p s, Emits (attempt p s) Upstream) (hno : NoOutcome past)
    (hbacked : Backed ranked past model) {p : Provider} {out : σ × Int × Option GoError}
    (hrun : Runs (attempt p s) t out) :
    Obeys (Vetted ranked) past (⟨.lookup model, ()⟩ :: t) ∧
      Ready ranked (past ++ ⟨.lookup model, ()⟩ :: t) := by
  have hready : Ready ranked (past ++ [⟨.lookup model, ()⟩]) := ready_lookup hno hbacked ()
  have hneutral : ∀ e ∈ t, Neutral e := fun e he => (hattempt p s t out hrun e he).neutral
  have hafter := hready.append hneutral
  rw [append_assoc, singleton_append] at hafter
  exact ⟨⟨False.elim, obeys_of_ready hready hneutral⟩, hafter⟩

theorem walk_vetted (hattempt : ∀ p s, Emits (attempt p s) Upstream) {rest : List Candidate}
    {i : Nat} {st : LoopState} {r : ExecuteResult × Option GoError × σ}
    (h : Walk primary lookup attempt rest i st s t r) (hno : NoOutcome past)
    (hrest : ∀ c ∈ rest, Resolves lookup c.model → Backed ranked past c.model) :
    Obeys (Vetted ranked) past t ∧
      (Ready ranked past ∨ st.lastErr ≠ none → r.2.1 = none → Ready ranked (past ++ t)) := by
  induction h generalizing past with
  | exhausted =>
    refine ⟨trivial, fun hstart hnone => ?_⟩
    rw [append_nil]
    exact hstart.resolve_right fun herr => herr hnone
  | @skip c rest i st s err t r _ _ ih =>
    have hno' : NoOutcome (past ++ [⟨.lookup c.model, ()⟩]) := hno.append (by simp [NoOutcome])
    obtain ⟨hobeys, hend⟩ := ih hno' fun c' hc' hres =>
      (hrest c' (mem_cons_of_mem _ hc') hres).append _
    rw [append_assoc, singleton_append] at hend
    exact ⟨⟨False.elim, hobeys⟩, fun _ => hend (.inr (by simp))⟩
  | success hl ha | abort hl ha _ =>
    have hmade := obeys_attempt hattempt hno (hrest _ mem_cons_self ⟨_, hl⟩) ha
    exact ⟨hmade.1, fun _ _ => hmade.2⟩
  | @escalate c rest i st s s' p n e t t' r hl ha _ _ _ ih =>
    have hmade := obeys_attempt hattempt hno (hrest _ mem_cons_self ⟨_, hl⟩) ha
    obtain ⟨hobeys, hend⟩ := ih hmade.2.noOutcome fun c' hc' hres =>
      (hrest c' (mem_cons_of_mem _ (escalateCandidates_subset _ _ hc')) hres).append _
    rw [← cons_append, obeys_append, ← append_assoc]
    exact ⟨⟨hmade.1, hobeys⟩, fun _ => hend (.inl hmade.2)⟩
  | @next c rest i st s s' p n e t t' r hl ha _ _ _ ih =>
    have hmade := obeys_attempt hattempt hno (hrest _ mem_cons_self ⟨_, hl⟩) ha
    obtain ⟨hobeys, hend⟩ := ih hmade.2.noOutcome fun c' hc' hres =>
      (hrest c' (mem_cons_of_mem _ hc') hres).append _
    rw [← cons_append, obeys_append, ← append_assoc]
    exact ⟨⟨hmade.1, hobeys⟩, fun _ => hend (.inl hmade.2)⟩

/-! ## The calls of a request -/

variable {h : ChatHandler} {p : Provider} {req : RequestEnvelope} {chain : List Candidate}

/-- The primary has been asked for, and so have the fallbacks or the ranking names them. -/
structure Prepared (ranked : String → Prop) (h : ChatHandler) (past : Trace effects)
    (model : String) (chain : List Candidate) : Prop where
  ready : Ready ranked past
  primary : Backed ranked past model
  fallbacks : ∀ c ∈ chain, Resolves h.router c.model → Backed ranked past c.model

theorem Prepared.candidates (hprep : Prepared ranked h past req.model chain) :
    ∀ c ∈ orderedCandidates ⟨req.model, chain⟩, Resolves h.router c.model →
      Backed ranked past c.model :=
  forall_mem_cons.mpr ⟨fun _ => hprep.primary, hprep.fallbacks⟩

theorem Ready.upstream {q : Go α} (hready : Ready ranked past) (hq : Emits q Upstream) :
    Ensures q fun t _ => Obeys (Vetted ranked) past t ∧ Ready ranked (past ++ t) := by
  intro t a hrun
  have hneutral : ∀ e ∈ t, Neutral e := fun e he => (hq t a hrun e he).neutral
  exact ⟨obeys_of_ready hready hneutral, hready.append hneutral⟩

theorem callModel_vetted (hprep : Prepared ranked h past req.model chain) :
    Ensures (h.callModel p req chain) fun t out =>
      Obeys (Vetted ranked) past t ∧ (out.err = none → Ready ranked (past ++ t)) := by
  unfold ChatHandler.callModel
  split
  · have hchat : Emits (Go.chat p (adjustTokenBudget req)) Upstream :=
      emits_perform fun _ => trivial
    refine (hprep.ready.upstream hchat).bind fun t out ht => ?_
    cases out with
    | ok resp => exact ensures_ret.mpr (by simpa using ⟨ht.1, ht.2⟩)
    | error e => exact ensures_ret.mpr (by simpa using ht.1)
  · refine ensures_bind.mpr fun t out hrun => ensures_ret.mpr ?_
    obtain ⟨result, err, response, rfl, hwalk⟩ := runs_execute_iff.mp hrun
    have hvetted := walk_vetted
      (fun p => withRetry_emits (chatOnce_upstream p _) fun _ _ => trivial) hwalk
      hprep.ready.noOutcome hprep.candidates
    simpa using ⟨hvetted.1, hvetted.2 (.inl hprep.ready)⟩

theorem callAndResolve_vetted (hprep : Prepared ranked h past req.model chain) :
    Ensures (h.callAndResolve p req chain) fun t _ => Obeys (Vetted ranked) past t := by
  refine (callModel_vetted hprep).bind fun t out ht => ?_
  split
  · rename_i hnone
    have hready := ht.2 (by simpa using (Bool.and_eq_true_iff.mp hnone).1)
    refine ensures_bind.mpr fun t' _ hrun => ensures_ret.mpr ?_
    rw [append_nil]
    exact obeys_append.mpr
      ⟨ht.1, (hready.upstream (resolveRetrieval_upstream h _ req _) t' _ hrun).1⟩
  · exact ensures_ret.mpr (by simpa using ht.1)

theorem streamModel_vetted (hprep : Prepared ranked h past req.model chain) :
    Ensures (h.streamModel p req chain) fun t _ => Obeys (Vetted ranked) past t := by
  unfold ChatHandler.streamModel
  split
  · refine (hprep.ready.upstream (streamOnce_upstream _ p _ _)).bind fun t out ht => ?_
    exact ensures_ret.mpr (by simpa using ht.1)
  · refine ensures_bind.mpr fun t out hrun => ensures_ret.mpr ?_
    have hvetted := walk_vetted
      (fun p => withRetry_emits (streamOnce_upstream _ p _) fun _ _ => trivial)
      (runs_candidateLoop_iff.mp hrun) hprep.ready.noOutcome hprep.candidates
    simpa using hvetted.1

/-! ## Admission -/

theorem Bookkeeping.no_call (he : Bookkeeping e) : ¬ IsCall e.op := by
  obtain ⟨op, r⟩ := e
  cases op with
  | chat | stream => exact he.elim
  | _ => exact id

theorem Consults.no_call (he : Consults e) : ¬ IsCall e.op := by
  obtain ⟨op, r⟩ := e
  cases op with
  | chat | stream => exact he.elim
  | _ => exact id

theorem Settles.no_calls {err : Option GoError} {q : Go β} (hsettle : Settles h model err q) :
    Emits q fun e => ¬ IsCall e.op := by
  refine hsettle.mono ?_
  rintro t b ⟨before, after, rfl, hbefore, hafter⟩
  simp only [forall_mem_append]
  exact ⟨fun e he => (hbefore e he).no_call, forall_mem_outcome h model err fun _ => id,
    fun e he => (hafter e he).no_call⟩

theorem accounted_vetted {err : α → Option GoError} {call : Go α}
    {settle : Int → α → Go β} {refused : β} (hreg : h.hasRegistry = true) (hno : NoOutcome past)
    (hcandidate : candidateOf past = some model)
    (hchain : ∀ c ∈ chain, Resolves h.router c.model → Backed ranked past c.model)
    (hcall : ∀ past, Prepared ranked h past model chain →
      Ensures call fun t _ => Obeys (Vetted ranked) past t)
    (hsettle : ∀ start out, Settles h model (err out) (settle start out)) :
    Ensures (accounted h model call settle refused) fun t _ => Obeys (Vetted ranked) past t := by
  intro t b hrun
  obtain ⟨_, rfl, _⟩ | ⟨start, t₁, out, t₂, rfl, hmade, hsettled⟩ := runs_accounted_iff.mp hrun
  · exact ⟨False.elim, trivial⟩
  · simp only [ChatHandler.admission, hreg, if_true, singleton_append]
    have hneutral : ∀ e ∈ [(⟨.isAllowed .admission model, true⟩ : Event effects), ⟨.now, start⟩],
        Neutral e := by
      simp [Neutral]
    have hprimary : Backed ranked
        (past ++ [⟨.isAllowed .admission model, true⟩, ⟨.now, start⟩]) model :=
      .inr ⟨.admission, by simp⟩
    have hready : Ready ranked
        (past ++ [⟨.isAllowed .admission model, true⟩, ⟨.now, start⟩]) := by
      refine ⟨hno.append (noOutcome_of_neutral hneutral), fun model' hmodel => ?_⟩
      rw [candidateOf_append hneutral, hcandidate] at hmodel
      cases hmodel
      exact hprimary
    have hobeys := hcall _ ⟨hready, hprimary, fun c hc hres => (hchain c hc hres).append _⟩
      t₁ out hmade
    refine ⟨False.elim, False.elim, obeys_append.mpr ⟨?_, ?_⟩⟩
    · simpa using hobeys
    · exact obeys_of_no_calls ((hsettle start out).no_calls t₂ b hsettled)

theorem serveDecision_vetted (hreg : h.hasRegistry = true) (r : HttpRequest) {d : RoutingDecision}
    (hno : NoOutcome past)
    (hchain : ∀ c ∈ d.fallbackChain, Resolves h.router c.model → Backed ranked past c.model) :
    Ensures (h.serveDecision r req d) fun t _ => Obeys (Vetted ranked) past t := by
  cases hl : h.router d.model with
  | error err =>
    rw [serveDecision_of_error hl, ensures_ask]
    exact fun _ => ensures_ret.mpr ⟨False.elim, trivial⟩
  | ok p =>
    rw [serveDecision_of_ok hl, ensures_ask]
    intro u
    have hno' : NoOutcome (past ++ [⟨.lookup d.model, u⟩]) := hno.append (by simp [NoOutcome])
    have hcandidate := candidateOf_lookup past d.model u
    have hchain' : ∀ c ∈ d.fallbackChain, Resolves h.router c.model →
        Backed ranked (past ++ [⟨.lookup d.model, u⟩]) c.model :=
      fun c hc hres => (hchain c hc hres).append _
    refine Ensures.mono ?_ fun t a ht => ⟨False.elim, ht⟩
    split
    · rw [handleStream_eq]
      split
      · exact ensures_ret.mpr trivial
      · exact accounted_vetted hreg hno' hcandidate hchain'
          (fun _ hprep => streamModel_vetted hprep) (settleStream_settles h r _ _)
    · rw [serveChat_eq]
      exact accounted_vetted hreg hno' hcandidate hchain'
        (fun _ hprep => callAndResolve_vetted hprep) (settleChat_settles h r _ _)

end

/-! ## Routing -/

/-- The fallbacks known in advance. -/
def staticFallbacks (h : ChatHandler) (r : HttpRequest) (req : RequestEnvelope) :
    List Candidate :=
  let hint := taskHintFromHeaders h r req
  if req.model = "auto" then
    match h.engine with
    | some _ => []
    | none => (routeWithDecision hint).fallbackChain
  else if (Routing.lookup req.model).isSome then fallbackChainFor req.model hint 3
  else []

/-- The ranking names the model as a fallback of the request, and the model has a provider. -/
def Ranked (h : ChatHandler) (r : HttpRequest) (model : String) : Prop :=
  ∃ req, r.body = some req ∧ (∃ c ∈ staticFallbacks h r req, c.model = model) ∧
    Resolves h.router model

theorem route_backed {h : ChatHandler} (hreg : h.hasRegistry = true) (r : HttpRequest)
    (req : RequestEnvelope) :
    Ensures (h.route r req) fun t out => ∀ d, out = .ok d → ∀ c ∈ d.fallbackChain,
      c ∈ staticFallbacks h r req ∨ Answered t c.model := by
  unfold ChatHandler.route
  dsimp only
  split
  · rename_i hauto
    split
    · rw [hreg]
      refine (Scoring.Engine.decide_allowed _ _).bind fun t out hout => ?_
      cases out with
      | error err => exact ensures_ret.mpr fun d hd => by cases hd
      | ok decision =>
        dsimp only
        split
        · exact ensures_ret.mpr fun d hd => by cases hd
        · refine ensures_ret.mpr ?_
          rintro _ ⟨⟩ c hc
          exact .inr ⟨.filter, by simpa using hout decision rfl c hc⟩
    · rename_i hengine
      split
      · exact ensures_ret.mpr fun d hd => by cases hd
      · refine ensures_ret.mpr ?_
        rintro _ ⟨⟩ c hc
        refine .inl ?_
        simpa only [staticFallbacks, hauto, hengine, if_true] using hc
  · rename_i hauto
    split
    · rename_i hlisted
      refine ensures_ret.mpr ?_
      rintro _ ⟨⟩ c hc
      refine .inl ?_
      simpa only [staticFallbacks, hauto, hlisted, if_true, if_false] using hc
    · refine ensures_ret.mpr ?_
      rintro _ ⟨⟩ c hc
      cases hc

theorem serveHTTP_vetted {h : ChatHandler} (hreg : h.hasRegistry = true) {r : HttpRequest}
    (hchains : ∀ req, r.body = some req → h.chains req.model = none) :
    Ensures (h.serveHTTP r) fun t _ => Obeys (Vetted (Ranked h r)) [] t := by
  obtain ⟨reply, hserve⟩ | ⟨req, hbody, hserve⟩ := serveHTTP_chainless hchains
  · rw [hserve]
    exact ensures_ret.mpr trivial
  · rw [hserve]
    refine ((route_emits h r req).and (route_backed hreg r req)).bind fun t out ht => ?_
    have hasked : Obeys (Vetted (Ranked h r)) [] t :=
      obeys_of_no_calls fun e he => (ht.1 e he).no_call
    cases out with
    | error reply => exact ensures_ret.mpr (by rwa [append_nil])
    | ok d =>
      have hno : NoOutcome t := noOutcome_of_neutral fun e he => (ht.1 e he).neutral
      have hchain : ∀ c ∈ d.fallbackChain, Resolves h.router c.model →
          Backed (Ranked h r) t c.model := fun c hc hres =>
        (ht.2 d rfl c hc).imp_left fun hstatic => ⟨req, hbody, ⟨c, hstatic, rfl⟩, hres⟩
      exact (serveDecision_vetted hreg r hno hchain).mono
        fun t' _ hobeys => obeys_append.mpr ⟨hasked, hobeys⟩

end Ixr.Ingress
