import IxrGateway.Ingress.Accounting
import IxrGateway.Routing.ExecutorRuns

/-!
# The paths of a request

Every request goes through checks and routing to one of four places that ask
the breaker and call a model: `serveChat`, `handleStream`, `runChainStep` and
`streamChainStep`.  A property of programs that is closed under sequencing and
running side by side holds of the whole handler once it holds of the four
(`serveHTTP_closed`).

The four places make their calls between an admission and a settlement, and a
call does nothing but look up providers, try them, wait and retrieve.
-/

namespace Ixr.Ingress

open Interaction Routing Reasoning List ChatHandler

/-! ## Calls -/

/-- The event is part of a call: a lookup, an attempt, a wait or the retrieval hop. -/
def Calling (e : Event effects) : Prop :=
  match e.op with
  | .lookup _ | .chat .. | .stream .. | .deliver _ | .backoff _ | .retrievalGet _ => True
  | _ => False

/-- The event belongs to the attempts of one candidate, or to the retrieval hop. -/
def Upstream (e : Event effects) : Prop :=
  match e.op with
  | .chat .. | .stream .. | .deliver _ | .backoff _ | .retrievalGet _ => True
  | _ => False

theorem Upstream.calling {e : Event effects} (h : Upstream e) : Calling e := by
  obtain ⟨op, r⟩ := e
  cases op with
  | chat | stream | deliver | backoff | retrievalGet => trivial
  | _ => exact h.elim

theorem chatOnce_upstream (p : Provider) (req : RequestEnvelope) (s : Option ResponseEnvelope) :
    Emits (chatOnce p req s) Upstream := by
  refine emits_ask (fun _ => trivial) ?_
  rintro (e | resp)
  · exact emits_ret
  · exact emits_ret

theorem streamOnce_upstream {σ : Type} (fn : Callback σ) (p : Provider) (req : RequestEnvelope)
    (s : σ) : Emits (streamOnce fn p req s) Upstream :=
  emits_ask (fun _ => trivial) fun script => playStream_emits (fun _ _ => trivial) script _ _

theorem calling_of_upstream {α : Type} {p : Go α} (h : Emits p Upstream) : Emits p Calling :=
  h.mono fun _ _ ht e he => (ht e he).calling

theorem candidateLoop_calling {σ : Type} {cfg : RetryConfig}
    {call : Provider → σ → Go (Bool × Option GoError × σ)}
    (hcall : ∀ p s, Emits (call p s) Upstream) (primary : String) (lookup : ProviderLookup)
    (candidates : List Candidate) (i : Nat) (st : LoopState) (s : σ) :
    Emits (candidateLoop primary lookup (fun p => withRetry cfg (call p)) candidates i st s)
      Calling := by
  intro t out hrun
  exact (runs_candidateLoop_iff.mp hrun).emits
    (fun p s => calling_of_upstream (withRetry_emits (hcall p) (fun _ _ => trivial) s))
    fun _ => trivial

theorem execute_calling (d : RoutingDecision) (req : RequestEnvelope) (lookup : ProviderLookup)
    (cfg : RetryConfig) : Emits (execute d req lookup cfg) Calling :=
  (candidateLoop_calling (fun p => chatOnce_upstream p req) _ _ _ _ _ _).bind fun _ => emits_ret

theorem executeStream_calling {σ : Type} (d : RoutingDecision) (req : RequestEnvelope)
    (lookup : ProviderLookup) (cfg : RetryConfig) (fn : Callback σ) (s : σ) :
    Emits (executeStream d req lookup cfg fn s) Calling :=
  candidateLoop_calling (fun p => streamOnce_upstream fn p req) _ _ _ _ _ _

section

variable (h : ChatHandler)

variable (p : Provider) (req : RequestEnvelope)

theorem callModel_calling (chain : List Candidate) : Emits (h.callModel p req chain) Calling := by
  unfold callModel
  split
  · refine emits_ask (fun _ => trivial) ?_
    rintro (e | resp)
    · exact emits_ret
    · exact emits_ret
  · exact (execute_calling _ _ _ _).bind fun _ => emits_ret

theorem resolveRetrieval_upstream (resp : Option ResponseEnvelope) :
    Emits (h.resolveRetrieval p req resp) Upstream := by
  unfold resolveRetrieval
  split
  · exact emits_ret
  · split
    · exact emits_ret
    · split
      · exact emits_ret
      · split
        · exact emits_ret
        · refine emits_ask (fun _ => trivial) fun content => emits_ask (fun _ => trivial) ?_
          rintro (e | final)
          · exact emits_ret
          · exact emits_ret

theorem callAndResolve_calling (chain : List Candidate) :
    Emits (h.callAndResolve p req chain) Calling := by
  refine (callModel_calling h p req chain).bind fun out => ?_
  split
  · exact (calling_of_upstream (resolveRetrieval_upstream h _ req _)).bind fun _ => emits_ret
  · exact emits_ret

theorem streamModel_calling (chain : List Candidate) :
    Emits (h.streamModel p req chain) Calling := by
  unfold streamModel
  split
  · exact (calling_of_upstream (streamOnce_upstream _ p _ _)).bind fun _ => emits_ret
  · exact (executeStream_calling _ _ _ _ _ _).bind fun _ => emits_ret

end

/-! ## From the four places to the handler -/

/-- A property of programs that the code between the four places keeps. -/
structure PathClosed (Q : ∀ α : Type, Go α → Prop) : Prop where
  ret : ∀ {α : Type} (a : α), Q α (.ret a)
  bind : ∀ {α β : Type} {p : Go α} {f : α → Go β}, Q α p → (∀ a, Q β (f a)) → Q β (p >>= f)
  consult : ∀ {α : Type} {p : Go α}, Emits p Consults → Q α p
  lookup : ∀ model, Q Unit (Go.lookup model)
  parList : ∀ {α : Type} {ps : List (Go α)}, (∀ p ∈ ps, Q α p) →
    Q (List α) (Prog.parList Go.schedule ps)

section

variable {Q : ∀ α : Type, Go α → Prop} {h : ChatHandler} {r : HttpRequest} (hQ : PathClosed Q)

section

variable (hstep : ∀ model messages, Q _ (h.runChainStep r model messages))
  (hlast : ∀ name model messages, Q _ (h.streamChainStep r name model messages))

include hQ hstep hlast

theorem sequentialSteps_closed (c : Chain) (req : RequestEnvelope) :
    ∀ models prompts previous, Q _ (h.sequentialSteps r c req models prompts previous)
  | [], _, none => hQ.ret _
  | [], _, some resp => hQ.ret _
  | _ :: _, [], _ => hQ.ret _
  | model :: models, prompt :: prompts, previous => by
    unfold sequentialSteps
    split
    · exact hQ.ret _
    · split
      · exact hlast _ _ _
      · refine hQ.bind (hstep _ _) fun out => ?_
        cases out with
        | ok resp => exact sequentialSteps_closed c req models prompts _
        | failed | circuitOpen | panicked => exact hQ.ret _

theorem handleFusionChain_closed (c : Chain) (req : RequestEnvelope) :
    Q _ (h.handleFusionChain r c req) := by
  have hpanel : ∀ p ∈ c.models.map fun model => h.runChainStep r model req.messages, Q _ p := by
    intro p hp
    obtain ⟨model, _, rfl⟩ := mem_map.mp hp
    exact hstep _ _
  refine hQ.bind (hQ.parList hpanel) fun outcomes => ?_
  dsimp only
  split
  · exact hQ.ret _
  · split
    · split
      · exact hQ.ret _
      · unfold judge
        split
        · exact hlast _ _ _
        · refine hQ.bind (hstep _ _) fun out => ?_
          cases out <;> exact hQ.ret _
    · exact hQ.ret _

theorem handleChain_closed (c : Chain) (req : RequestEnvelope) : Q _ (h.handleChain r c req) := by
  unfold handleChain
  split
  · exact handleFusionChain_closed hQ hstep hlast c req
  · exact sequentialSteps_closed hQ hstep hlast c req _ _ _

end

variable (hchat : ∀ p req autoRouted chain, Q _ (h.serveChat r p req autoRouted chain))
  (hstream : ∀ p req autoRouted chain, Q _ (h.handleStream r p req autoRouted chain))

include hQ hchat hstream

theorem serveDecision_closed (req : RequestEnvelope) (d : RoutingDecision) :
    Q _ (h.serveDecision r req d) := by
  refine hQ.bind (hQ.lookup _) fun _ => ?_
  split
  · exact hQ.ret _
  · dsimp only
    split
    · exact hstream _ _ _ _
    · exact hchat _ _ _ _

theorem serveHTTP_closed (hstep : ∀ model messages, Q _ (h.runChainStep r model messages))
    (hlast : ∀ name model messages, Q _ (h.streamChainStep r name model messages)) :
    Q _ (h.serveHTTP r) := by
  obtain ⟨reply, hserve⟩ | ⟨req, -, ⟨c, -, hserve⟩ | hserve⟩ := serveHTTP_cases h r
  · rw [hserve]
    exact hQ.ret _
  · rw [hserve]
    exact handleChain_closed hQ hstep hlast c req
  · rw [hserve]
    refine hQ.bind (hQ.consult (route_emits h r req)) fun decision => ?_
    cases decision with
    | error reply => exact hQ.ret _
    | ok d => exact serveDecision_closed hQ hchat hstream req d

end

theorem serveHTTP_unlisted {h : ChatHandler} {r : HttpRequest} {req : RequestEnvelope}
    {p : Provider} (hpost : r.method = "POST") (hbody : r.body = some req)
    (hmodel : req.model ≠ "") (hmessages : req.messages ≠ []) (hchain : h.chains req.model = none)
    (hauto : req.model ≠ "auto") (hcatalog : (Routing.lookup req.model).isSome = false)
    (hstream : req.stream = false) (hrouter : h.router req.model = .ok p) :
    h.serveHTTP r = .ask (.lookup req.model) fun _ => h.serveChat r p req false [] := by
  rw [serveHTTP_of_model hpost hbody hmodel hmessages hchain,
    serveModel_of_route (route_of_unlisted hauto hcatalog r), serveDecision_of_ok hrouter]
  congr 1
  funext _
  rw [if_neg (Bool.eq_false_iff.mp hstream), beq_eq_false_iff_ne.mpr hauto]

/-! ## What a request does -/

/-- `P` holds of everything that is done for a request. -/
structure Spans (r : HttpRequest) (P : Event effects → Prop) : Prop extends Covers r P where
  calling : ∀ e, Calling e → P e
  consults : ∀ e, Consults e → P e
  admission : ∀ model allowed, P ⟨.isAllowed .admission model, allowed⟩
  outcome : ∀ model success, P ⟨.recordOutcome model success, ()⟩
  schedule : ∀ first, P ⟨.schedule, first⟩

section

variable {P : Event effects → Prop} {h : ChatHandler} {r : HttpRequest}

theorem Spans.pathClosed (hP : Spans r P) : PathClosed fun _ p => Emits p P where
  ret _ := emits_ret
  bind hp hf := hp.bind hf
  consult hp := hp.mono fun _ _ ht e he => hP.consults e (ht e he)
  lookup _ := emits_perform fun _ => hP.calling _ trivial
  parList hps := emits_parList (emits_perform hP.schedule) hps

theorem Spans.settle (hP : Spans r P) {β : Type} {model : String} {err : Option GoError}
    {p : Go β} (hp : SettlesBy P h model err p) : Emits p P := by
  refine hp.mono ?_
  rintro t b ⟨before, after, rfl, hbefore, hafter⟩
  simp only [forall_mem_append]
  exact ⟨hbefore, forall_mem_outcome h model err (hP.outcome _), hafter⟩

theorem Spans.accounted (hP : Spans r P) {α β : Type} {model : String} {err : α → Option GoError}
    {call : Go α} {settle : Int → α → Go β} {refused : β} (hcall : Emits call Calling)
    (hsettle : ∀ start out, SettlesBy P h model (err out) (settle start out)) :
    Emits (accounted h model call settle refused) P := by
  have hadmitted := emits_ask hP.now fun start =>
    Emits.bind (hcall.mono fun _ _ ht e he => hP.calling e (ht e he)) fun out =>
      hP.settle (hsettle start out)
  unfold Ingress.accounted admits
  split
  · refine emits_ask (hP.admission model) fun allowed => ?_
    cases allowed with
    | true => exact hadmitted
    | false => exact emits_ret
  · exact hadmitted

theorem serveHTTP_emits (hP : Spans r P) : Emits (h.serveHTTP r) P := by
  refine serveHTTP_closed hP.pathClosed (fun p req autoRouted chain => ?_)
    (fun p req autoRouted chain => ?_) (fun model messages => ?_) fun name model messages => ?_
  · rw [serveChat_eq]
    exact hP.accounted (callAndResolve_calling h p req chain)
      (settleChat_settlesBy h r hP.toCovers req autoRouted)
  · rw [handleStream_eq]
    split
    · exact emits_ret
    · exact hP.accounted (streamModel_calling h p req chain)
        (settleStream_settlesBy h r hP.toCovers req autoRouted)
  · rw [runChainStep_eq]
    exact hP.accounted (execute_calling _ _ _ _) (settleStep_settlesBy h r hP.toCovers _)
  · rw [streamChainStep_eq]
    split
    · exact emits_ret
    · exact hP.accounted (executeStream_calling _ _ _ _ _ _)
        (settleLastStep_settlesBy h r hP.toCovers _)

theorem runShadow_emits {job : ShadowJob} (hnow : ∀ now, P ⟨.now, now⟩)
    (hlookup : ∀ model, P ⟨.lookup model, ()⟩) (hchat : ∀ p req out, P ⟨.chat p req, out⟩)
    (hpublish : ∀ ev, ev.useCaseID = job.request.useCase → P ⟨.publish ev, ()⟩)
    (hrecord : ∀ model success latency choices,
      P ⟨.shadowRecord model success latency choices, ()⟩) : Emits (h.runShadow job) P := by
  refine emits_ask hnow fun start => emits_ask (fun _ => hlookup _) fun _ => ?_
  dsimp only
  split
  · exact emits_ask hnow fun stop => emits_ask (fun _ => hpublish _ rfl) fun _ => emits_ret
  · refine emits_ask (hchat _ _) fun outcome => emits_ask hnow fun stop =>
      emits_ask (fun _ => hpublish _ ?_) fun _ => ?_
    · cases outcome with
      | ok | error => rfl
    · split
      · exact emits_perform fun _ => hrecord _ _ _ _
      · exact emits_ret

end

end Ixr.Ingress
