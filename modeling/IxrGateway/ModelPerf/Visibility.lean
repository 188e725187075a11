import IxrGateway.Ingress.RequestPaths
import IxrGateway.ModelPerf.Writers

/-!
# Which samples the scoring engine sees

`Decide` reads the statistics of a model under the class of the task, one of
five names computed from the `X-IXR-Task` header.  Telemetry writes them under
the `X-IXR-UseCase` header, and the orchestrator under the empty name.  So a
sample is seen just when the two headers say the same, and what the
orchestrator records is never seen.

`ingest` consumes call events and recorded outcomes one after the other.  A
call event comes with a run of the handler that published it.
-/

namespace Ixr.ModelPerf

open Interaction Routing Scoring Ingress

/-! ## Task classes -/

/-- The intents the engine reads. -/
def taskClasses : List String := ["reasoning", "coding", "math", "multilingual", "general"]

/-- The intent of a request. -/
def taskClass (h : ChatHandler) (r : HttpRequest) (req : RequestEnvelope) : String :=
  intentFromHint (taskHintFromHeaders h r req)

theorem intentFromHint_mem (hint : TaskHint) : intentFromHint hint ∈ taskClasses := by
  unfold intentFromHint
  split_ifs <;> decide

variable {i model : String}

theorem exists_hint (hi : i ∈ taskClasses) :
    ∃ hint : TaskHint, hint.maxCostUSDPer1M = 0 ∧ intentFromHint hint = i := by
  simp only [taskClasses, List.mem_cons, List.not_mem_nil, or_false] at hi
  obtain rfl | rfl | rfl | rfl | rfl := hi
  · exact ⟨{ reasoningScore := 1 }, rfl, by decide⟩
  · exact ⟨{ codingScore := 1 }, rfl, by decide⟩
  · exact ⟨{ mathScore := 1 }, rfl, by decide⟩
  · exact ⟨{ multilingualScore := 1 }, rfl, by decide⟩
  · exact ⟨{}, rfl, by decide⟩

theorem colon_not_mem (hi : i ∈ taskClasses) : ':' ∉ i.toList := by
  revert i
  decide

theorem key_eq_iff {model' i' : String} (hi : i ∈ taskClasses) (hi' : i' ∈ taskClasses) :
    key model i = key model' i' ↔ model = model' ∧ i = i' := by
  constructor
  · exact key_inj (colon_not_mem hi) (colon_not_mem hi')
  · rintro ⟨rfl, rfl⟩
    rfl

theorem key_empty_ne {model' : String} (hi : i ∈ taskClasses) : key model "" ≠ key model' i := by
  intro heq
  obtain ⟨_, rfl⟩ := key_inj (by decide) (colon_not_mem hi) heq
  revert hi
  decide

theorem key_left_inj {i' : String} (heq : key model i = key model i') : i = i' := by
  have hlist := congrArg String.toList heq
  simp only [key, String.toList_append, List.append_cancel_left_eq] at hlist
  exact String.ext hlist

/-! ## What `Decide` reads -/

/-- The store answers every read of the run. -/
def AnsweredBy (perf : Memory) (t : Trace effects) : Prop :=
  ∀ model intent stats, (⟨.perfGet model intent, stats⟩ : Event effects) ∈ t →
    stats = (perf.get model intent).toModelStats

/-- A decision about a task of class `i` can read `stats` for the model. -/
def DecideReads (perf : Memory) (model i : String) (stats : Routing.ModelStats) : Prop :=
  ∃ (e : Engine) (hint : TaskHint) (hasRegistry : Bool), intentFromHint hint = i ∧
    Can (e.decide hint hasRegistry) fun t _ => AnsweredBy perf t ∧
      ∃ intent, (⟨.perfGet model intent, stats⟩ : Event effects) ∈ t

theorem runs_decide_single {hint : TaskHint} (hcap : hint.maxCostUSDPer1M = 0) (model : String)
    (stats : Routing.ModelStats) :
    ∃ d, Runs (({ catalog := [{ id := model }] } : Engine).decide hint false)
      [⟨.getPolicy (intentFromHint hint), .ok (0, 0, 0)⟩,
        ⟨.perfGet model (intentFromHint hint), stats⟩] (.ok d) := by
  have hunder : overCostCap { id := model } hint = false := by simp [overCostCap, hcap]
  have hfilter : filter hint false [{ id := model }] = .ret [{ id := model }] := by
    simp [filter, hunder]
  refine ⟨⟨model, []⟩, .ask ?_⟩
  change Runs (filter hint false [{ id := model }] >>= _) _ _
  rw [hfilter]
  refine .ask ?_
  simp only [Prog.bind, sortByScore, List.mergeSort_singleton, scoreModels, Engine.pick,
    buildFallbackChain, buildFallbackChainLoop, Prog.pure_def, Prog.ret_bind, if_true,
    Bool.false_eq_true, if_false]
  exact .ret

theorem decideReads_get (perf : Memory) (model : String) (hi : i ∈ taskClasses) :
    DecideReads perf model i (perf.get model i).toModelStats := by
  obtain ⟨hint, hcap, rfl⟩ := exists_hint hi
  obtain ⟨d, hrun⟩ := runs_decide_single hcap model
    (perf.get model (intentFromHint hint)).toModelStats
  refine ⟨_, hint, false, rfl, _, _, hrun, ?_, intentFromHint hint, by simp⟩
  intro model' intent' stats hmem
  obtain heq | heq := List.mem_pair.mp hmem
  · cases heq
  · cases heq
    rfl

/-- The event reads no statistics of another intent. -/
def ReadsOnly (intent : String) (e : Event effects) : Prop :=
  match e.op with
  | .perfGet _ intent' => intent' = intent
  | _ => True

theorem decideReads_iff {perf : Memory} {stats : Routing.ModelStats} (hi : i ∈ taskClasses) :
    DecideReads perf model i stats ↔ stats = (perf.get model i).toModelStats := by
  constructor
  · rintro ⟨e, hint, hasRegistry, rfl, t, out, hrun, hanswered, intent, hmem⟩
    have honly : Emits (e.decide hint hasRegistry) (ReadsOnly (intentFromHint hint)) :=
      Engine.decide_emits (fun _ => trivial) (fun _ _ => trivial) (fun _ _ => rfl)
        fun _ _ => trivial
    have hintent : intent = intentFromHint hint := honly t out hrun _ hmem
    rw [hanswered model intent stats hmem, hintent]
  · rintro rfl
    exact decideReads_get perf model hi

/-! ## Samples -/

/-- The handler can publish the event for the request, itself or in a shadow call. -/
def Publishes (h : ChatHandler) (r : HttpRequest) (ev : CallEvent) : Prop :=
  Can (h.serveHTTP r) (fun t _ => (⟨.publish ev, ()⟩ : Event effects) ∈ t) ∨
    ∃ job, Can (h.serveHTTP r) (fun t _ => (⟨.goShadow job, ()⟩ : Event effects) ∈ t) ∧
      Can (h.runShadow job) fun t _ => (⟨.publish ev, ()⟩ : Event effects) ∈ t

/-- A call event, with the request it was published for. -/
structure ChatCall (h : ChatHandler) where
  request : HttpRequest
  envelope : RequestEnvelope
  event : CallEvent
  decoded : request.body = some envelope
  published : Publishes h request event

/-- What reaches the store. -/
inductive Sample (h : ChatHandler) where
  /-- The telemetry plugin consumes a call event. -/
  | call (c : ChatCall h)
  /-- `Orchestrator.Record`. -/
  | record (model : String) (success : Bool) (latency : Int) (choices : List Choice)

variable {h : ChatHandler}

/-- Stores a sample. -/
def Sample.store (o : Orchestrator) (now : Int) (perf : Memory) : Sample h → Memory
  | .call c => Telemetry.onEvent now perf c.event
  | .record model success latency choices => (o.record now perf model success latency choices).1

/-- The statistics after samples. -/
def ingest (o : Orchestrator) (samples : List (Int × Sample h)) : Memory :=
  samples.foldl (fun perf sample => sample.2.store o sample.1 perf) {}

/-- The sample is a call of the model for a task of class `i`. -/
def Sample.isCallOf (model i : String) : Sample h → Bool
  | .call c => decide (c.event.model = model ∧ taskClass h c.request c.envelope = i)
  | .record .. => false

/-- The calls of the model for tasks of class `i`. -/
def callCount (samples : List (Int × Sample h)) (model i : String) : Nat :=
  samples.countP fun sample => sample.2.isCallOf model i

/-- At every point, decisions read the number of calls so far, and see what was recorded. -/
structure LiveStatistics (o : Orchestrator) (samples : List (Int × Sample h)) : Prop where
  counted : ∀ before, before <+: samples → ∀ model, ∀ i ∈ taskClasses, ∀ stats,
    DecideReads (ingest o before) model i stats → stats.sampleCount = callCount before model i
  recorded : ∀ before now model success latency choices,
    before ++ [(now, .record model success latency choices)] <+: samples →
    ∃ i ∈ taskClasses, ∃ old new, DecideReads (ingest o before) model i old ∧
      DecideReads (ingest o (before ++ [(now, .record model success latency choices)])) model i
        new ∧ old ≠ new

/-- The headers of a call say the same, and nothing else is recorded. -/
def Sample.Aligned : Sample h → Prop
  | .call c => c.request.useCase = taskClass h c.request c.envelope
  | .record .. => False

/-! ## The use case of an event -/

/-- The event publishes and starts only what is about the request. -/
def About (r : HttpRequest) (e : Event effects) : Prop :=
  match e.op with
  | .publish ev => ev.useCaseID = r.useCase
  | .goShadow job => job.request = r
  | _ => True

theorem about_spans (r : HttpRequest) : Spans r (About r) where
  now _ := trivial
  metrics _ _ _ _ _ _ := trivial
  publish _ hev := hev.1
  goShadow _ hjob := hjob
  calling e he := by
    obtain ⟨op, res⟩ := e
    cases op with
    | publish | goShadow => exact he.elim
    | _ => trivial
  consults e he := by
    obtain ⟨op, res⟩ := e
    cases op with
    | publish | goShadow => exact he.elim
    | _ => trivial
  admission _ _ := trivial
  outcome _ _ := trivial
  schedule _ := trivial

theorem runShadow_about (h : ChatHandler) (job : ShadowJob) :
    Emits (h.runShadow job) (About job.request) :=
  runShadow_emits (fun _ => trivial) (fun _ => trivial) (fun _ _ _ => trivial) (fun _ hev => hev)
    fun _ _ _ _ => trivial

theorem ChatCall.useCaseID_eq (c : ChatCall h) : c.event.useCaseID = c.request.useCase := by
  obtain ⟨t, reply, hrun, hmem⟩ | ⟨job, ⟨t, reply, hrun, hjob⟩, t', u, hrun', hmem⟩ := c.published
  · exact serveHTTP_emits (about_spans c.request) t reply hrun _ hmem
  · have hrequest : job.request = c.request :=
      serveHTTP_emits (about_spans c.request) t reply hrun _ hjob
    have huse : c.event.useCaseID = job.request.useCase := runShadow_about h job t' u hrun' _ hmem
    rw [huse, hrequest]

/-! ## One sample -/

/-- Where a sample is stored. -/
def Sample.key : Sample h → String
  | .call c => ModelPerf.key c.event.model c.request.useCase
  | .record model _ _ _ => ModelPerf.key model ""

theorem Sample.exists_store_eq (o : Orchestrator) (now : Int) (perf : Memory) (s : Sample h) :
    ∃ stats : ModelStats, s.store o now perf = perf.upsert now stats ∧
      s.key = ModelPerf.key stats.model stats.intent := by
  cases s with
  | call c => exact ⟨_, rfl, by rw [Sample.key, ← c.useCaseID_eq]⟩
  | record model success latency choices => exact ⟨_, o.record_fst now perf _ _ _ _, rfl⟩

theorem Sample.store_sampleCount (o : Orchestrator) (now : Int) (perf : Memory) (s : Sample h)
    (model i : String) :
    ((s.store o now perf).get model i).sampleCount = (perf.get model i).sampleCount +
      if s.key = ModelPerf.key model i then 1 else 0 := by
  obtain ⟨stats, hstore, hkey⟩ := s.exists_store_eq o now perf
  rw [hstore, hkey, Memory.get_upsert_sampleCount]

theorem ingest_concat (o : Orchestrator) (samples : List (Int × Sample h))
    (sample : Int × Sample h) :
    ingest o (samples ++ [sample]) = sample.2.store o sample.1 (ingest o samples) := by
  simp [ingest]

theorem callCount_concat (samples : List (Int × Sample h)) (sample : Int × Sample h)
    (model i : String) : callCount (samples ++ [sample]) model i =
      callCount samples model i + if sample.2.isCallOf model i then 1 else 0 := by
  simp [callCount, List.countP_append, List.countP_singleton]

theorem Sample.Aligned.key_eq_iff {s : Sample h} (hs : s.Aligned) (hi : i ∈ taskClasses) :
    s.key = ModelPerf.key model i ↔ s.isCallOf model i = true := by
  cases s with
  | call c =>
    have huse : c.request.useCase = taskClass h c.request c.envelope := hs
    have hclass : taskClass h c.request c.envelope ∈ taskClasses := intentFromHint_mem _
    rw [Sample.key, huse, ModelPerf.key_eq_iff hclass hi]
    simp [Sample.isCallOf]
  | record => exact hs.elim

/-! ## All samples -/

theorem ingest_sampleCount (o : Orchestrator) {samples : List (Int × Sample h)}
    (haligned : ∀ sample ∈ samples, sample.2.Aligned) (model : String) (hi : i ∈ taskClasses) :
    ((ingest o samples).get model i).sampleCount = callCount samples model i := by
  induction samples using List.reverseRecOn with
  | nil => rfl
  | append_singleton samples sample ih =>
    have hsample := haligned sample (by simp)
    have hrest := ih fun s hs => haligned s (List.mem_append_left _ hs)
    rw [ingest_concat, Sample.store_sampleCount, callCount_concat, hrest]
    simp only [hsample.key_eq_iff hi]
    push_cast
    rfl

/-- The engine sees every sample just when the use case of each call is the class of its task,
and the orchestrator records nothing. -/
theorem live_statistics_iff (o : Orchestrator) (samples : List (Int × Sample h)) :
    LiveStatistics o samples ↔ ∀ sample ∈ samples, sample.2.Aligned := by
  constructor
  · intro hlive sample hmem
    obtain ⟨before, after, rfl⟩ := List.append_of_mem hmem
    obtain ⟨now, s⟩ := sample
    have hbefore : before <+: before ++ (now, s) :: after := List.prefix_append _ _
    have hthen : before ++ [(now, s)] <+: before ++ (now, s) :: after := ⟨after, by simp⟩
    cases s with
    | call c =>
      -- The call is counted for its model and class, so it was stored there.
      have hclass : taskClass h c.request c.envelope ∈ taskClasses := intentFromHint_mem _
      have hold := hlive.counted _ hbefore c.event.model _ hclass _ (decideReads_get _ _ hclass)
      have hnew := hlive.counted _ hthen c.event.model _ hclass _ (decideReads_get _ _ hclass)
      rw [ingest_concat, Sample.store_sampleCount, callCount_concat, hold] at hnew
      have hkey : ModelPerf.key c.event.model c.request.useCase =
          ModelPerf.key c.event.model (taskClass h c.request c.envelope) := by
        by_contra hne
        simp [Sample.key, hne, Sample.isCallOf] at hnew
      exact key_left_inj hkey
    | record model success latency choices =>
      obtain ⟨i, hi, old, new, hold, hnew, hne⟩ := hlive.recorded _ _ _ _ _ _ hthen
      rw [decideReads_iff hi] at hold hnew
      refine absurd ?_ hne
      rw [hold, hnew, ingest_concat, Sample.store, o.record_fst,
        Memory.get_upsert_of_ne (key_empty_ne hi)]
  · intro haligned
    constructor
    · intro before hbefore model i hi stats hreads
      rw [(decideReads_iff hi).mp hreads]
      exact ingest_sampleCount o (fun s hs => haligned s (hbefore.subset hs)) model hi
    · intro before now model success latency choices hthen
      have hmem := hthen.subset (List.mem_append_right before List.mem_cons_self)
      exact False.elim (haligned _ hmem)

/-! ## A coding task without a use case -/

def localHandler : ChatHandler where
  router _ := .ok ⟨0, "local"⟩
  hasRegistry := false

def localEnvelope : RequestEnvelope where
  model := "local-model"
  messages := [{ role := "user", content := "hi" }]

def codingRequest : HttpRequest where
  body := some localEnvelope
  task := "coding"

def codingEvent : CallEvent :=
  withResult (withOutcome (baseEvent codingRequest localEnvelope "local-model" 0 1) "local-model"
    none {}) false "local" none { model := "local-model" }

theorem codingRequest_publishes : Publishes localHandler codingRequest codingEvent := by
  refine .inl ⟨[⟨.lookup "local-model", ()⟩, ⟨.now, 0⟩,
    ⟨.chat ⟨0, "local"⟩ localEnvelope, .ok {}⟩, ⟨.now, 1⟩, ⟨.publish codingEvent, ()⟩],
    .ok (some {}), ?_, by simp⟩
  rw [serveHTTP_unlisted rfl rfl (by decide) (by decide) rfl (by decide) (by decide) rfl rfl]
  refine .ask ?_
  refine .ask ?_
  refine .ask ?_
  refine .ask ?_
  exact .ask .ret

def codingCall : ChatCall localHandler where
  request := codingRequest
  envelope := localEnvelope
  event := codingEvent
  decoded := rfl
  published := codingRequest_publishes

/-- A coding task has been served by the local model, and decisions about coding tasks still read
no sample for it. -/
theorem coding_sample_unseen :
    callCount [(2, Sample.call codingCall)] "local-model" "coding" = 1 ∧
      ∃ stats, DecideReads (ingest {} [(2, Sample.call codingCall)]) "local-model" "coding" stats ∧
        stats.sampleCount = 0 :=
  ⟨by decide, _, decideReads_get _ _ (by decide), by decide⟩

end Ixr.ModelPerf
