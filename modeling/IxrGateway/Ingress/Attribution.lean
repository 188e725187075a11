import IxrGateway.Ingress.RequestPaths

/-!
# Whose success the breaker hears of

A call path records one outcome, with the model the request was routed to, from
the error that the whole execution ended with.  With a fallback chain the
execution may have called several models.  So the outcome of the last one is
recorded with the first.

`finalCalls` reads off a trace which models were called and how the last attempt
of each went.  A trace is `Attributed` if a success is recorded only for a model
whose own call succeeded.
-/

namespace Ixr.Ingress

open Interaction Routing Reasoning List ChatHandler

/-! ## The calls in a trace -/

/-- How far a provider call has come. -/
inductive CallState where
  | idle
  | running (next : Option GoError → StreamScript)
  | finished (err : Option GoError)

/-- The state of a stream. -/
def CallState.ofScript : StreamScript → CallState
  | .done err => .finished err
  | .emit _ next => .running next

/-- The callback has returned. -/
def CallState.answered (r : Option GoError) : CallState → CallState
  | .running next => .ofScript (next r)
  | c => c

/-- The candidate that is being tried, its latest call, and the candidates before it that were
called. -/
structure Scan where
  candidate : Option String := none
  call : CallState := .idle
  settled : List (String × Option GoError) := []

/-- The call that has ended last. -/
def Scan.current (sc : Scan) : List (String × Option GoError) :=
  match sc.candidate, sc.call with
  | some m, .finished err => [(m, err)]
  | _, _ => []

/-- The calls that have ended. -/
def Scan.calls (sc : Scan) : List (String × Option GoError) := sc.settled ++ sc.current

/-- The error of a `Chat` call. -/
def chatError : Except GoError ResponseEnvelope → Option GoError
  | .ok _ => none
  | .error e => some e

/-- Follows an event. -/
def Scan.step (sc : Scan) : Event effects → Scan
  | ⟨.lookup m, _⟩ => { candidate := some m, settled := sc.calls }
  | ⟨.chat _ _, r⟩ => { sc with call := .finished (chatError r) }
  | ⟨.stream _ _, script⟩ => { sc with call := .ofScript script }
  | ⟨.deliver _, r⟩ => { sc with call := sc.call.answered r }
  | _ => sc

/-- Follows a trace. -/
def Scan.run (sc : Scan) (t : Trace effects) : Scan := t.foldl Scan.step sc

/-- The last call of each candidate. -/
def finalCalls (t : Trace effects) : List (String × Option GoError) := (Scan.run {} t).calls

/-- The model's own call succeeded, and none of its calls failed but by an abort. -/
def Served (model : String) (calls : List (String × Option GoError)) : Prop :=
  (model, none) ∈ calls ∧ ∀ e, (model, some e) ∈ calls → e.aborted = true

/-- A success is recorded only for a model that served the request. -/
def Attributed (t : Trace effects) : Prop :=
  ∀ model, ⟨.recordOutcome model true, ()⟩ ∈ t → Served model (finalCalls t)

/-- `Attributed`, for the rest of a trace that has been read up to `sc`. -/
def AttributedFrom (sc : Scan) (t : Trace effects) : Prop :=
  ∀ model, ⟨.recordOutcome model true, ()⟩ ∈ t → Served model (sc.run t).calls

@[simp] theorem Scan.run_cons (sc : Scan) (e : Event effects) (t : Trace effects) :
    sc.run (e :: t) = (sc.step e).run t := rfl

@[simp] theorem Scan.run_append (sc : Scan) (t t' : Trace effects) :
    sc.run (t ++ t') = (sc.run t).run t' := foldl_append

variable {t : Trace effects} {e : Event effects}

theorem Scan.mem_calls_run {x : String × Option GoError} {sc : Scan} (h : x ∈ sc.settled) :
    x ∈ (sc.run t).calls := by
  induction t generalizing sc with
  | nil => exact mem_append_left _ h
  | cons e t ih =>
    refine ih ?_
    obtain ⟨op, r⟩ := e
    cases op with
    | lookup m => exact mem_append_left _ h
    | _ => exact h

/-- A candidate has been looked up and not called. -/
def Scan.looked (model : String) : Scan := { candidate := some model }

theorem Scan.start_calls : ({} : Scan).calls = [] := rfl

@[simp] theorem Scan.looked_calls (model : String) : (Scan.looked model).calls = [] := rfl

/-- A candidate has been looked up, and its last attempt succeeded. -/
def Scan.served (model : String) : Scan := { candidate := some model, call := .finished none }

theorem served_calls (model : String) : Served model (Scan.served model).calls := by
  simp [Served, Scan.served, Scan.calls, Scan.current]

theorem not_served_looked (model : String) : ¬ Served model (Scan.looked model).calls := by
  simp [Served]

/-! ## Events that leave the scan alone -/

/-- The event is no provider call and no lookup. -/
def Quiet (e : Event effects) : Prop :=
  match e.op with
  | .lookup _ | .chat .. | .stream .. | .deliver _ => False
  | _ => True

theorem Quiet.step (h : Quiet e) (sc : Scan) : sc.step e = sc := by
  obtain ⟨op, r⟩ := e
  cases op with
  | lookup | chat | stream | deliver => exact h.elim
  | _ => rfl

theorem Scan.run_of_quiet (h : ∀ e ∈ t, Quiet e) (sc : Scan) : sc.run t = sc := by
  induction t with
  | nil => rfl
  | cons e t ih =>
    obtain ⟨he, ht⟩ := forall_mem_cons.mp h
    rw [Scan.run_cons, he.step, ih ht]

theorem Bookkeeping.quiet (h : Bookkeeping e) : Quiet e := by
  obtain ⟨op, r⟩ := e
  cases op with
  | lookup | chat | stream | deliver => exact h
  | _ => trivial

theorem Consults.quiet (h : Consults e) : Quiet e := by
  obtain ⟨op, r⟩ := e
  cases op with
  | lookup | chat | stream | deliver => exact h
  | _ => trivial

theorem Upstream.step (h : Upstream e) (sc : Scan) : ∃ c, sc.step e = { sc with call := c } := by
  obtain ⟨op, r⟩ := e
  cases op with
  | chat | stream | deliver => exact ⟨_, rfl⟩
  | backoff | retrievalGet => exact ⟨sc.call, rfl⟩
  | _ => exact h.elim

theorem Scan.run_of_upstream (h : ∀ e ∈ t, Upstream e) (sc : Scan) :
    ∃ c, sc.run t = { sc with call := c } := by
  induction t generalizing sc with
  | nil => exact ⟨sc.call, rfl⟩
  | cons e t ih =>
    obtain ⟨he, ht⟩ := forall_mem_cons.mp h
    obtain ⟨c, hc⟩ := he.step sc
    obtain ⟨c', hc'⟩ := ih ht (sc.step e)
    exact ⟨c', by rw [Scan.run_cons, hc', hc]⟩

/-! ## The frame -/

/-- No success is recorded. -/
def Unrecorded (e : Event effects) : Prop :=
  match e.op with
  | .recordOutcome _ true => False
  | _ => True

theorem Calling.unrecorded (h : Calling e) : Unrecorded e := by
  obtain ⟨op, r⟩ := e
  cases op with
  | recordOutcome => exact h.elim
  | _ => trivial

theorem Bookkeeping.unrecorded (h : Bookkeeping e) : Unrecorded e := by
  obtain ⟨op, r⟩ := e
  cases op with
  | recordOutcome => exact h.elim
  | _ => trivial

theorem Consults.unrecorded (h : Consults e) : Unrecorded e := by
  obtain ⟨op, r⟩ := e
  cases op with
  | recordOutcome => exact h.elim
  | _ => trivial

theorem not_mem_of_unrecorded (h : ∀ e ∈ t, Unrecorded e) (model : String) :
    (⟨.recordOutcome model true, ()⟩ : Event effects) ∉ t :=
  fun hmem => h _ hmem

variable {model : String} {err : Option GoError} {t' : Trace effects} {σ : Type}

theorem mem_outcome_iff {h : ChatHandler} {model' : String} :
    (⟨.recordOutcome model' true, ()⟩ : Event effects) ∈ h.outcome model err ↔
      h.hasRegistry = true ∧ model' = model ∧ err = none := by
  unfold outcome
  cases h.hasRegistry with
  | false => simp
  | true =>
    cases err with
    | none => simp [shouldRecordOutcome]
    | some e => cases he : e.aborted <;> simp [shouldRecordOutcome, he]

theorem attributed_lookup_cons {u : Unit} :
    Attributed (⟨.lookup model, u⟩ :: t) ↔ AttributedFrom (.looked model) t := by
  have hrun : finalCalls (⟨.lookup model, u⟩ :: t) = ((Scan.looked model).run t).calls := rfl
  simp [Attributed, AttributedFrom, hrun]

theorem attributed_consults_append (h : ∀ e ∈ t, Consults e) :
    Attributed (t ++ t') ↔ Attributed t' := by
  have hrun : finalCalls (t ++ t') = finalCalls t' := by
    rw [finalCalls, Scan.run_append, Scan.run_of_quiet fun e he => (h e he).quiet, finalCalls]
  simp [Attributed, hrun, not_mem_of_unrecorded fun e he => (h e he).unrecorded]

section

variable {α β : Type} {h : ChatHandler} {model : String} {err : α → Option GoError} {call : Go α}
  {settle : Int → α → Go β} {refused : β} {sc : Scan}

theorem Scan.run_accounted {start : Int} {t before after : Trace effects} {err : Option GoError}
    (hbefore : ∀ e ∈ before, Bookkeeping e) (hafter : ∀ e ∈ after, Bookkeeping e) :
    sc.run (h.admission model ++ ⟨.now, start⟩ :: (t ++ (before ++ (h.outcome model err ++ after))))
      = sc.run t := by
  have hnow : ∀ sc : Scan, sc.step ⟨.now, start⟩ = sc := fun _ => rfl
  simp only [Scan.run_append, Scan.run_cons, hnow,
    Scan.run_of_quiet (forall_mem_admission h model trivial),
    Scan.run_of_quiet (fun e he => (hbefore e he).quiet),
    Scan.run_of_quiet (forall_mem_outcome h model err fun _ => trivial),
    Scan.run_of_quiet (fun e he => (hafter e he).quiet)]

theorem accounted_attributed_iff (hcall : Emits call Calling)
    (hsettle : ∀ start out, Settles h model (err out) (settle start out)) :
    Ensures (accounted h model call settle refused) (fun t _ => AttributedFrom sc t) ↔
      h.hasRegistry = false ∨
        Ensures call fun t out => err out = none → Served model (sc.run t).calls := by
  constructor
  · intro hall
    cases hreg : h.hasRegistry with
    | false => exact .inl rfl
    | true =>
      refine .inr fun t out hrun hnone => ?_
      obtain ⟨t', b, hrun', _⟩ := can_run (settle 0 out)
      obtain ⟨before, after, rfl, hbefore, hafter⟩ := hsettle 0 out t' b hrun'
      have hserved := hall _ b (runs_accounted_iff.mpr (.inr ⟨0, t, out, _, rfl, hrun, hrun'⟩))
        model (by simp [mem_outcome_iff, hreg, hnone])
      rwa [Scan.run_accounted hbefore hafter] at hserved
  · intro hcond t b hrun model' hmem
    obtain ⟨_, rfl, rfl⟩ | ⟨start, t₁, out, t₂, rfl, hrun₁, hrun₂⟩ := runs_accounted_iff.mp hrun
    · simp at hmem
    · obtain ⟨before, after, rfl, hbefore, hafter⟩ := hsettle start out t₂ b hrun₂
      have hmem' :
          (⟨.recordOutcome model' true, ()⟩ : Event effects) ∈ h.outcome model (err out) := by
        simpa [not_mem_of_unrecorded (forall_mem_admission h model trivial),
          not_mem_of_unrecorded fun e he => (hcall t₁ out hrun₁ e he).unrecorded,
          not_mem_of_unrecorded fun e he => (hbefore e he).unrecorded,
          not_mem_of_unrecorded fun e he => (hafter e he).unrecorded] using hmem
      obtain ⟨hreg, rfl, hnone⟩ := mem_outcome_iff.mp hmem'
      rw [Scan.run_accounted hbefore hafter]
      obtain hoff | hserved := hcond
      · rw [hreg] at hoff
        cases hoff
      · exact hserved t₁ out hrun₁ hnone

end

/-! ## One candidate -/

/-- The run leaves the candidate with the outcome `err`. -/
def Finishes (err : Option GoError) (t : Trace effects) : Prop :=
  ∀ sc : Scan, sc.run t = { sc with call := .finished err }

theorem Finishes.after (h : ∀ e ∈ t, Upstream e) (h' : Finishes err t') :
    Finishes err (t ++ t') := by
  intro sc
  obtain ⟨c, hc⟩ := Scan.run_of_upstream h sc
  rw [Scan.run_append, hc, h']

/-- The attempts of a candidate show in the scan.  An attempt may be a client error, and it may
succeed and leave a state in `plain`. -/
structure Observed {σ : Type} (call : Provider → σ → Go (Bool × Option GoError × σ))
    (plain : σ → Prop) : Prop where
  emits : ∀ p s, Emits (call p s) Upstream
  finishes : ∀ p s, Ensures (call p s) fun t r => Finishes r.2.1 t
  refuses : ∀ p s, ∃ final t s', Runs (call p s) t (final, some badRequest, s')
  serves : ∀ p s, ∃ final t s', plain s' ∧ Runs (call p s) t (final, none, s')

theorem chatOnce_observed (req : RequestEnvelope) :
    Observed (fun p => chatOnce p req) (fun s => s = none ∨ s = some {}) where
  emits p := chatOnce_upstream p req
  finishes _ _ := by
    refine ensures_ask.mpr ?_
    rintro (e | resp)
    · exact ensures_ret.mpr fun _ => rfl
    · exact ensures_ret.mpr fun _ => rfl
  refuses p _ := ⟨false, [⟨.chat p req, .error badRequest⟩], none, .ask .ret⟩
  serves p _ := ⟨false, [⟨.chat p req, .ok {}⟩], some {}, .inr rfl, .ask .ret⟩

theorem playStream_scan (fn : Callback σ) : ∀ (script : StreamScript) (wrote : Bool)
    (s : σ), Ensures (playStream fn script wrote s) fun t r => ∀ sc : Scan,
      sc.call = .ofScript script → sc.run t = { sc with call := .finished r.2.1 } := by
  intro script
  induction script with
  | done err =>
    intro wrote s
    refine ensures_ret.mpr fun sc hsc => ?_
    cases sc
    cases hsc
    rfl
  | emit chunk next ih =>
    intro wrote s
    refine ensures_ask.mpr fun r => (ih r true _).mono fun t res h sc hsc => ?_
    have hstep : sc.step ⟨.deliver (fn.relabel chunk), r⟩ =
        { sc with call := .ofScript (next r) } := by
      cases sc
      cases hsc
      rfl
    rw [Scan.run_cons, hstep, h _ rfl]

theorem streamOnce_observed (fn : Callback σ) (req : RequestEnvelope) :
    Observed (fun p => streamOnce fn p req) (fun _ => True) where
  emits p := streamOnce_upstream fn p req
  finishes _ s := ensures_ask.mpr fun script =>
    (playStream_scan fn script false s).mono fun _ _ h _ => h _ rfl
  refuses p s := ⟨false, [⟨.stream p req, .done (some badRequest)⟩], s, .ask .ret⟩
  serves p s := ⟨false, [⟨.stream p req, .done none⟩], s, trivial, .ask .ret⟩

/-! ## The candidates -/

section

variable {σ : Type} {lookup : ProviderLookup} {cfg : RetryConfig} {plain : σ → Prop}
  {call : Provider → σ → Go (Bool × Option GoError × σ)} {d : RoutingDecision}

/-- The calls of an execution, with the attempts of `call`. -/
abbrev executes (lookup : ProviderLookup) (cfg : RetryConfig)
    (call : Provider → σ → Go (Bool × Option GoError × σ)) (d : RoutingDecision) (s : σ) :
    Go (ExecuteResult × Option GoError × σ) :=
  candidateLoop d.model lookup (fun p => withRetry cfg (call p)) (orderedCandidates d) 0 {} s

/-- Of an execution, only the primary model's call can be without an error. -/
def OwnCallOnly (lookup : ProviderLookup) (cfg : RetryConfig) (d : RoutingDecision) : Prop :=
  (Resolves lookup d.model → 1 ≤ cfg.maxAttempts) ∧
    ∀ c ∈ d.fallbackChain, ¬ Resolves lookup c.model

theorem withRetry_finishes (hcall : Observed call plain) (hmax : 1 ≤ cfg.maxAttempts)
    {p : Provider} {s s' : σ} {n : Int} {t : Trace effects}
    (h : Runs (withRetry cfg (call p) s) t (s', n, none)) : Finishes none t := by
  have hup := withRetry_emits (hcall.emits p) (fun _ _ => trivial) s t _ h
  obtain ⟨t₁, t₂, s₁, final, rfl, hlast⟩ := withRetry_last hmax h
  exact .after (fun e he => hup e (mem_append_left _ he)) (hcall.finishes p s₁ _ _ hlast)

theorem executes_served (hcall : Observed call plain) (hown : OwnCallOnly lookup cfg d)
    {sc : Scan} (hsc : sc.calls = []) (s : σ) :
    Ensures (executes lookup cfg call d s) fun t r =>
      r.2.1 = none → sc.run t = .served d.model := by
  intro t r hrun hnone
  obtain ⟨hmax, hrest⟩ := hown
  have hlooked : sc.step ⟨.lookup d.model, ()⟩ = .looked d.model := by
    simp [Scan.step, Scan.looked, hsc]
  cases runs_candidateLoop_iff.mp hrun with
  | skip hl hw => exact absurd hnone (hw.err_of_unresolved hrest (by simp))
  | success hl ha =>
    rw [Scan.run_cons, hlooked, withRetry_finishes hcall (hmax ⟨_, hl⟩) ha]
    rfl
  | abort hl ha hab => cases hnone
  | escalate hl ha hab hctx hw =>
    have hlarger : ∀ c ∈ escalateCandidates d.fallbackChain (contextWindowFor d.model),
        ¬ Resolves lookup c.model := fun c hc => hrest c (escalateCandidates_subset _ _ hc)
    exact absurd hnone (hw.err_of_unresolved hlarger (by simp [LoopState.failed]))
  | next hl ha hab hctx hw =>
    exact absurd hnone (hw.err_of_unresolved hrest (by simp [LoopState.failed]))

theorem executes_can_misattribute (hcall : Observed call plain) (hres : Resolves lookup d.model)
    (hown : ¬ OwnCallOnly lookup cfg d) {sc : Scan} (hsc : sc.calls = []) {s : σ} (hs : plain s) :
    Can (executes lookup cfg call d s) fun t r =>
      r.2.1 = none ∧ plain r.2.2 ∧ ¬ Served d.model (sc.run t).calls := by
  obtain ⟨p, hp⟩ := hres
  have hlooked : sc.step ⟨.lookup d.model, ()⟩ = .looked d.model := by
    simp [Scan.step, Scan.looked, hsc]
  by_cases hmax : 1 ≤ cfg.maxAttempts
  · have hrescue : ∃ c ∈ d.fallbackChain, Resolves lookup c.model := by
      by_contra hnone
      exact hown ⟨fun _ => hmax, fun c hc hr => hnone ⟨c, hc, hr⟩⟩
    obtain ⟨final, t, s', hrefused⟩ := hcall.refuses p s
    have hserves : ∀ p s, ∃ t s' n, plain s' ∧ Runs (withRetry cfg (call p) s) t (s', n, none) := by
      intro p s
      obtain ⟨final, t, s', hplain, hrun⟩ := hcall.serves p s
      exact ⟨t, s', 1, hplain, withRetry_success hmax hrun⟩
    have hstop : (final || badRequest.aborted || isClientError badRequest) = true := by
      rw [isClientError_badRequest, Bool.or_true]
    obtain ⟨m, t', result, s'', hplain, hw⟩ := exists_walk_rescued hserves d.fallbackChain 1
      ((LoopState.enter {} 0 { model := d.model }).failed p 1 badRequest) s' hrescue
    refine ⟨_, _, Walk.runs (.next hp (withRetry_stop hmax hrefused hstop) rfl
      isContextLengthError_badRequest hw), rfl, hplain, fun hserved => ?_⟩
    -- The walk goes on with a lookup, which settles the primary's error.
    have hfinished : Finishes (some badRequest) t := hcall.finishes p s _ _ hrefused
    have herr := hserved.2 badRequest (by
      simp only [Scan.run_cons, Scan.run_append, hlooked, hfinished (Scan.looked d.model)]
      exact Scan.mem_calls_run (by simp [Scan.step, Scan.looked, Scan.calls, Scan.current]))
    rw [aborted_badRequest] at herr
    cases herr
  · have hrun : Runs (withRetry cfg (call p) s) [] (s, cfg.maxAttempts, none) := by
      rw [withRetry_of_nonpos (by omega)]
      exact .ret
    refine ⟨_, _, Walk.runs (.success hp hrun), rfl, hs, ?_⟩
    rw [Scan.run_cons, hlooked]
    exact not_served_looked d.model

end

/-! ## The calls of the handler -/

section

variable (h : ChatHandler) (r : HttpRequest) {p : Provider} {req : RequestEnvelope}
  {d : RoutingDecision} {sc : Scan}

theorem execute_eq (d : RoutingDecision) (req : RequestEnvelope) (lookup : ProviderLookup)
    (cfg : RetryConfig) :
    execute d req lookup cfg = executes lookup cfg (fun p => chatOnce p req) d none >>= fun out =>
      .ret ({ out.1 with response := out.2.2 }, out.2.1) := rfl

theorem execute_served {lookup : ProviderLookup} {cfg : RetryConfig}
    (hown : OwnCallOnly lookup cfg d) (hsc : sc.calls = []) :
    Ensures (execute d req lookup cfg) fun t out => out.2 = none → sc.run t = .served d.model := by
  rw [execute_eq, ensures_bind]
  refine (executes_served (chatOnce_observed req) hown hsc none).mono fun t out hout => ?_
  rw [ensures_ret, append_nil]
  exact hout

theorem execute_can_misattribute {lookup : ProviderLookup} {cfg : RetryConfig}
    (hres : Resolves lookup d.model) (hown : ¬ OwnCallOnly lookup cfg d) (hsc : sc.calls = []) :
    Can (execute d req lookup cfg) fun t out => out.2 = none ∧
      (out.1.response = none ∨ out.1.response = some {}) ∧ ¬ Served d.model (sc.run t).calls := by
  rw [execute_eq, can_bind]
  refine (executes_can_misattribute (chatOnce_observed req) hres hown hsc (.inl rfl)).mono
    fun t out hout => ?_
  rw [can_ret, append_nil]
  exact hout

theorem retrieveAndReplay_finishes (p : Provider) (req : RequestEnvelope) (resp : ResponseEnvelope)
    (reply : Message) (call : ToolCall) (id : String) :
    Ensures (retrieveAndReplay p req resp reply call id) fun t out =>
      Finishes out.2 t := by
  refine ensures_ask.mpr fun content => ensures_ask.mpr ?_
  rintro (e | final)
  · exact ensures_ret.mpr fun _ => rfl
  · exact ensures_ret.mpr fun _ => rfl

theorem resolveRetrieval_cases (p : Provider) (req : RequestEnvelope)
    (resp : Option ResponseEnvelope) :
    h.resolveRetrieval p req resp = .ret (resp, none) ∨
      ∃ first reply call id,
        h.resolveRetrieval p req resp =
          retrieveAndReplay p req first reply call id := by
  unfold resolveRetrieval
  split
  · exact .inl rfl
  · split
    · exact .inl rfl
    · split
      · exact .inl rfl
      · split
        · exact .inl rfl
        · exact .inr ⟨_, _, _, _, rfl⟩

theorem resolveRetrieval_served (p : Provider) (req : RequestEnvelope)
    (resp : Option ResponseEnvelope) (model : String) :
    Ensures (h.resolveRetrieval p req resp) fun t out =>
      out.2 = none → (Scan.served model).run t = .served model := by
  obtain hret | ⟨first, reply, call, id, hhop⟩ := resolveRetrieval_cases h p req resp
  · rw [hret]
    exact ensures_ret.mpr fun _ => rfl
  · rw [hhop]
    refine (retrieveAndReplay_finishes p req first reply call id).mono fun t out hout hnone => ?_
    rw [hout, hnone]
    rfl

theorem resolveRetrieval_plain (p : Provider) (req : RequestEnvelope)
    {resp : Option ResponseEnvelope} (hresp : resp = none ∨ resp = some {}) :
    h.resolveRetrieval p req resp = .ret (resp, none) := by
  obtain rfl | rfl := hresp
  · rfl
  · rfl

variable {chain : List Candidate}

theorem callModel_served (hown : chain = [] ∨ OwnCallOnly h.router h.retryCfg ⟨req.model, chain⟩) :
    Ensures (h.callModel p req chain) fun t out =>
      out.err = none → (Scan.looked req.model).run t = .served req.model := by
  cases chain with
  | nil =>
    refine ensures_ask.mpr ?_
    rintro (e | resp)
    · exact ensures_ret.mpr fun hnone => by cases hnone
    · exact ensures_ret.mpr fun _ => rfl
  | cons c chain =>
    have hown := hown.resolve_left (cons_ne_nil c chain)
    unfold callModel
    refine ensures_bind.mpr ((execute_served hown (Scan.looked_calls req.model)).mono
      fun t out hout => ensures_ret.mpr ?_)
    rwa [append_nil]

theorem callAndResolve_can_misattribute {c : Candidate} (hres : Resolves h.router req.model)
    (hown : ¬ OwnCallOnly h.router h.retryCfg ⟨req.model, c :: chain⟩) :
    Can (h.callAndResolve p req (c :: chain)) fun t out =>
      out.err = none ∧ ¬ Served req.model ((Scan.looked req.model).run t).calls := by
  refine can_bind.mpr (can_bind.mpr ((execute_can_misattribute hres hown
    (Scan.looked_calls req.model)).mono ?_))
  rintro t ⟨result, err⟩ ⟨hnone, hresp, hnot⟩
  refine can_ret.mpr ?_
  split
  · rw [resolveRetrieval_plain h _ req hresp]
    refine can_ret.mpr ⟨rfl, ?_⟩
    rwa [append_nil, append_nil]
  · refine can_ret.mpr ⟨hnone, ?_⟩
    rwa [append_nil, append_nil]

theorem callAndResolve_served_iff (hres : Resolves h.router req.model) :
    Ensures (h.callAndResolve p req chain) (fun t out =>
        out.err = none → Served req.model ((Scan.looked req.model).run t).calls) ↔
      chain = [] ∨ OwnCallOnly h.router h.retryCfg ⟨req.model, chain⟩ := by
  constructor
  · intro hall
    cases chain with
    | nil => exact .inl rfl
    | cons c chain =>
      refine .inr (by_contra fun hown => ?_)
      obtain ⟨t, out, hrun, hnone, hnot⟩ := callAndResolve_can_misattribute h (p := p) hres hown
      exact hnot (hall t out hrun hnone)
  · intro hown
    refine ensures_bind.mpr ((callModel_served h hown).mono fun t out hout => ?_)
    split
    · rename_i hcond
      obtain ⟨hok, _⟩ := Bool.and_eq_true_iff.mp hcond
      refine ensures_bind.mpr ((resolveRetrieval_served h _ req _ req.model).mono
        fun t' out' hout' => ensures_ret.mpr fun hnone => ?_)
      rw [append_nil, Scan.run_append, hout (Option.isNone_iff_eq_none.mp hok), hout' hnone]
      exact served_calls req.model
    · rw [Prog.pure_def, ensures_ret, append_nil]
      intro hnone
      rw [hout hnone]
      exact served_calls req.model

theorem streamModel_served_iff (hres : Resolves h.router req.model) :
    Ensures (h.streamModel p req chain) (fun t out =>
        out.2.2.1 = none → Served req.model ((Scan.looked req.model).run t).calls) ↔
      chain = [] ∨ OwnCallOnly h.router h.retryCfg ⟨req.model, chain⟩ := by
  have hcall := streamOnce_observed (onChunk id) (adjustTokenBudget req)
  cases chain with
  | nil =>
    refine iff_of_true (ensures_bind.mpr ((hcall.finishes p {}).mono
      fun t out hout => ensures_ret.mpr fun hnone => ?_)) (.inl rfl)
    rw [append_nil, hout, show out.2.1 = none from hnone]
    exact served_calls req.model
  | cons c chain =>
    constructor
    · intro hall
      refine .inr (by_contra fun hown => ?_)
      obtain ⟨t, out, hrun, hnone, _, hnot⟩ := executes_can_misattribute hcall hres hown
        (Scan.looked_calls req.model) (s := ({} : StreamTotals)) trivial
      refine hnot ?_
      have hserved := hall (t ++ []) _ (runs_bind_iff.mpr ⟨t, out, [], rfl, hrun, .ret⟩) hnone
      rwa [append_nil] at hserved
    · intro hown
      have hown := hown.resolve_left (cons_ne_nil c chain)
      refine ensures_bind.mpr ((executes_served hcall hown (Scan.looked_calls req.model) {}).mono
        fun t out hout => ensures_ret.mpr fun hnone => ?_)
      rw [append_nil, hout hnone]
      exact served_calls req.model

end

/-! ## The call paths -/

/-- The ways the handler calls models for a request: for a request that names no chain, for a step
of a chain, and for a chain's last step if the reply is streamed. -/
inductive CallPath where
  | request (req : RequestEnvelope)
  | step (model : String) (messages : List Message)
  | lastStep (chainName model : String) (messages : List Message)

/-- Every run of the path records its successes rightly. -/
def CallPath.Attributes (h : ChatHandler) (r : HttpRequest) : CallPath → Prop
  | .request req => Ensures (h.serveModel r req) fun t _ => Attributed t
  | .step model messages => Ensures (h.runChainStep r model messages) fun t _ => Attributed t
  | .lastStep chainName model messages =>
    Ensures (h.streamChainStep r chainName model messages) fun t _ => Attributed t

/-- The path records no success, or its call can succeed only through the model it records. -/
def CallPath.OwnModelOnly (h : ChatHandler) (r : HttpRequest) : CallPath → Prop
  | .request req => h.hasRegistry = false ∨ req.stream = true ∧ r.canFlush = false ∨
      ∀ d, Can (h.route r req) (fun _ routed => routed = .ok d) →
        Resolves h.router d.model → d.fallbackChain = [] ∨ OwnCallOnly h.router h.retryCfg d
  | .step model _ => h.hasRegistry = false ∨ OwnCallOnly h.router h.retryCfg { model := model }
  | .lastStep _ model _ => h.hasRegistry = false ∨ r.canFlush = false ∨
      OwnCallOnly h.router h.retryCfg { model := model }

section

variable (h : ChatHandler) (r : HttpRequest)

theorem handleStream_attributed_iff (p : Provider) (req : RequestEnvelope) (autoRouted : Bool)
    (chain : List Candidate) (hres : Resolves h.router req.model) :
    Ensures (h.handleStream r p req autoRouted chain)
        (fun t _ => AttributedFrom (.looked req.model) t) ↔
      r.canFlush = false ∨ h.hasRegistry = false ∨ chain = [] ∨
        OwnCallOnly h.router h.retryCfg ⟨req.model, chain⟩ := by
  rw [handleStream_eq]
  cases r.canFlush with
  | false => simp [AttributedFrom]
  | true =>
    simp only [Bool.not_true, Bool.false_eq_true, if_false, reduceCtorEq, false_or]
    rw [accounted_attributed_iff (streamModel_calling h p req chain)
      (settleStream_settles h r req autoRouted), streamModel_served_iff h hres]

theorem serveChat_attributed_iff (p : Provider) (req : RequestEnvelope) (autoRouted : Bool)
    (chain : List Candidate) (hres : Resolves h.router req.model) :
    Ensures (h.serveChat r p req autoRouted chain)
        (fun t _ => AttributedFrom (.looked req.model) t) ↔
      h.hasRegistry = false ∨ chain = [] ∨ OwnCallOnly h.router h.retryCfg ⟨req.model, chain⟩ := by
  rw [serveChat_eq, accounted_attributed_iff (callAndResolve_calling h p req chain)
    (settleChat_settles h r req autoRouted), callAndResolve_served_iff h hres]

theorem serveDecision_attributed_iff (req : RequestEnvelope) (d : RoutingDecision) :
    Ensures (h.serveDecision r req d) (fun t _ => Attributed t) ↔
      h.hasRegistry = false ∨ req.stream = true ∧ r.canFlush = false ∨
        (Resolves h.router d.model →
          d.fallbackChain = [] ∨ OwnCallOnly h.router h.retryCfg d) := by
  cases hl : h.router d.model with
  | error err =>
    have hres : ¬ Resolves h.router d.model := by simp [Resolves, hl]
    simp [serveDecision_of_error hl, hres, attributed_lookup_cons, AttributedFrom]
  | ok p =>
    have hres : Resolves h.router d.model := ⟨p, hl⟩
    rw [serveDecision_of_ok hl, ensures_ask]
    simp only [attributed_lookup_cons, forall_const, hres]
    split
    · rename_i hstream
      rw [handleStream_attributed_iff h r p { req with model := d.model } _ _ hres]
      tauto
    · rename_i hstream
      rw [serveChat_attributed_iff h r p { req with model := d.model } _ _ hres]
      simp [hstream]

/-- Whether outcomes are recorded rightly is up to the decisions that routing can make. -/
theorem serveModel_attributed_iff (req : RequestEnvelope) :
    Ensures (h.serveModel r req) (fun t _ => Attributed t) ↔
      ∀ d, Can (h.route r req) (fun _ routed => routed = .ok d) →
        Ensures (h.serveDecision r req d) fun t _ => Attributed t := by
  constructor
  · rintro hall d ⟨t, _, hrun, rfl⟩ t' b hrun'
    have hboth := hall (t ++ t') b (runs_bind_iff.mpr ⟨t, _, t', rfl, hrun, hrun'⟩)
    exact (attributed_consults_append (route_emits h r req t _ hrun)).mp hboth
  · intro hall
    refine ensures_bind.mpr fun t routed hrun => ?_
    cases routed with
    | error reply =>
      refine ensures_ret.mpr ?_
      exact (attributed_consults_append (route_emits h r req t _ hrun)).mpr (by simp [Attributed])
    | ok d =>
      refine (hall d ⟨t, _, hrun, rfl⟩).mono fun t' b ht' => ?_
      exact (attributed_consults_append (route_emits h r req t _ hrun)).mpr ht'

theorem executes_served_iff {σ : Type} {call : Provider → σ → Go (Bool × Option GoError × σ)}
    {plain : σ → Prop} (hcall : Observed call plain) {s : σ} (hs : plain s) {model : String} :
    Ensures (executes h.router h.retryCfg call { model := model } s)
        (fun t out => out.2.1 = none → Served model (Scan.run {} t).calls) ↔
      OwnCallOnly h.router h.retryCfg { model := model } := by
  constructor
  · intro hall
    by_contra hown
    have hres : Resolves h.router model := by
      by_contra hres
      exact hown ⟨fun h' => absurd h' hres, forall_mem_nil _⟩
    obtain ⟨t, out, hrun, hnone, _, hnot⟩ :=
      executes_can_misattribute hcall hres hown Scan.start_calls hs
    exact hnot (hall t out hrun hnone)
  · intro hown
    refine (executes_served hcall hown Scan.start_calls s).mono fun t out hout hnone => ?_
    rw [hout hnone]
    exact served_calls model

theorem execute_served_iff {req : RequestEnvelope} {model : String} :
    Ensures (execute { model := model } req h.router h.retryCfg)
        (fun t out => out.2 = none → Served model (Scan.run {} t).calls) ↔
      OwnCallOnly h.router h.retryCfg { model := model } := by
  rw [← executes_served_iff h (chatOnce_observed req) (.inl rfl), execute_eq, ensures_bind]
  simp only [ensures_ret, append_nil]

end

/-- On every call path, successes are recorded only for models whose own call succeeded, just when
nothing is recorded there or only the recorded model's call can succeed.  So it has attempts to
make, and no fallback candidate has a provider. -/
theorem outcomes_attributed_iff (h : ChatHandler) (r : HttpRequest) (path : CallPath) :
    path.Attributes h r ↔ path.OwnModelOnly h r := by
  cases path with
  | request req =>
    simp only [CallPath.Attributes, CallPath.OwnModelOnly, serveModel_attributed_iff,
      serveDecision_attributed_iff]
    by_cases hreg : h.hasRegistry = false
    · simp [hreg]
    · by_cases hflush : req.stream = true ∧ r.canFlush = false
      · simp [hflush]
      · simp only [hreg, hflush, false_or, Bool.true_eq_false]
  | step model messages =>
    exact (accounted_attributed_iff (execute_calling _ _ _ _)
      (settleStep_settles h r { model := model, messages := messages })).trans
      (or_congr_right (execute_served_iff h))
  | lastStep chainName model messages =>
    simp only [CallPath.Attributes, CallPath.OwnModelOnly]
    rw [streamChainStep_eq]
    cases r.canFlush with
    | false => simp [Attributed]
    | true =>
      simp only [Bool.not_true, Bool.false_eq_true, if_false, reduceCtorEq, false_or]
      exact (accounted_attributed_iff (executeStream_calling _ _ _ _ _ _)
        (settleLastStep_settles h r { model := model, messages := messages })).trans
        (or_congr_right (executes_served_iff h (streamOnce_observed _ _) trivial))

/-- OpenAI refuses a request for `gpt-5.2`, a fallback serves it, and a success is recorded for
`gpt-5.2`. -/
theorem rescued_primary_recorded :
    ¬ Ensures (({ router := twoProviders } : ChatHandler).serveHTTP { body := some gptRequest })
      (fun t _ => Attributed t) := by
  have hres : ∀ model, Resolves twoProviders model := by
    intro model
    unfold Resolves twoProviders
    split
    · exact ⟨_, rfl⟩
    · exact ⟨_, rfl⟩
  have hnoBudget : GoStrings.trimSpace "" = "" := by decide
  have hchain := fallbackChainFor_ne_nil "gpt-5.2" (taskHintFromHeaders_uncapped
    (h := { router := twoProviders }) (r := { body := some gptRequest }) gptRequest hnoBudget) 3
  rw [serveHTTP_of_model rfl rfl (by decide) (by decide) rfl, serveModel_attributed_iff,
    route_of_lookup (by decide) (by decide)]
  intro hall
  have hdecision := hall _ (can_ret.mpr rfl)
  obtain hreg | ⟨hstream, _⟩ | hown := (serveDecision_attributed_iff _ _ _ _).mp hdecision
  · cases hreg
  · cases hstream
  · obtain hnil | ⟨_, hnone⟩ := hown (hres _)
    · exact hchain hnil
    · obtain ⟨c, hc⟩ := exists_mem_of_ne_nil _ hchain
      exact hnone c hc (hres _)

end Ixr.Ingress
