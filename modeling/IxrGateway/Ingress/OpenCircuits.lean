import IxrGateway.Ingress.StuckBreaker
import IxrGateway.Ingress.Vetting

/-!
# Open circuits

An open breaker is to keep its model out until its wait is over.  A request asks
before it calls, so at most two things come in between.  A fallback from the
static ranking is called without asking.  And a breaker that has allowed a
request may open before the request calls.

A request *relies* on the models that it may call.  If no model is kept out when
a request that is to rely on it starts, and no breaker opens while another
request relies on it, then no model is called that its breaker keeps out.
-/

open List

namespace Ixr.CircuitBreaker

theorem Transition.not_open_of_granted {b b' : Breaker} {now : Int}
    (h : Transition b now .allow true b') : b'.state ≠ .stateOpen := by
  cases h with
  | pass hs =>
    unfold Breaker.roll
    split
    · simp [hs]
    · simp [hs]
  | late _ _ _ => simp [Breaker.halfOpen]
  | probe hs _ => simp [hs]

end Ixr.CircuitBreaker

namespace Ixr.Ingress

open Interaction Routing CircuitBreaker

/-! ## Models that are kept out -/

/-- The model's breaker is open, and its wait is not over. -/
def KeptOut (w : BreakerWorld) (now : Int) (model : String) : Prop :=
  ∃ b, w.registry.breakers model = some b ∧ b.state = .stateOpen ∧
    now - b.openedAt < b.policy.halfOpenAfter

variable {w : BreakerWorld} {model : String} {c : Candidate} {t : Trace effects}
  {result : ExecuteResult} {err : Option GoError}

theorem KeptOut.earlier {now now' : Int} (h : KeptOut w now model) (hle : now' ≤ now) :
    KeptOut w now' model := by
  obtain ⟨b, hb, hs, hwait⟩ := h
  exact ⟨b, hb, hs, by omega⟩

theorem not_keptOut_startWorld (p : Policy) (hasStore : Bool) (clock now : Int)
    (model : String) : ¬ KeptOut (startWorld p hasStore clock) now model := by
  rintro ⟨b, hb, _⟩
  cases hb

theorem not_keptOut_of_allowed {w' : BreakerWorld} {site : AllowSite}
    (h : breakerAnswers w (.isAllowed site model) true w') (now : Int) :
    ¬ KeptOut w' now model := by
  rintro ⟨b, hb, hs, _⟩
  obtain ⟨_, hnot⟩ | ⟨c, granted, seed, created, b', ht, _, htrans, hb'⟩ := h.cases_of model
  · exact hnot _ _ .allow
  · obtain rfl : b' = b := Option.some.inj (hb'.symm.trans hb)
    cases ht
    exact htrans.not_open_of_granted hs

/-! ## Requests that rely on a model -/

/-- A request is still to report, and it may call the model: the breaker has allowed it, or the
ranking names it. -/
structure Relies (h : ChatHandler) (proc : Proc effects) (model : String) : Prop where
  request : proc.parent = none
  running : proc.returned = false
  unreported : NoOutcome proc.trace
  backed : Answered proc.trace model ∨ ∃ r, proc.init = (h.serveHTTP r).void ∧ Ranked h r model

/-- What is started is a request that names no chain. -/
def IsPlainRequest (h : ChatHandler) (p : Go Unit) : Prop :=
  ∃ r, p = (h.serveHTTP r).void ∧ ∀ req, r.body = some req → h.chains req.model = none

/-- Only plain requests are started. -/
def StartsPlain (h : ChatHandler) (m : Move effects) : Prop :=
  ∀ p, m = .start p → IsPlainRequest h p

/-- A move that does not shut out a model that a request relies on.  A request starts while no
fallback from its ranking is kept out.  A breaker begins to keep a model out only if no request
relies on the model, other than the one whose report opens it. -/
structure KeepsClear (h : ChatHandler) (P : Pool effects BreakerWorld) (m : Move effects)
    (P' : Pool effects BreakerWorld) : Prop where
  request : StartsPlain h m
  found : ∀ p model, m = .start p → Relies h (.fresh none p) model →
    ¬ KeptOut P.world P.world.clock model
  kept : ∀ place e i proc model, m = .perform place e → P.procs[i]? = some proc →
    Relies h proc model → ¬ KeptOut P.world P.world.clock model →
    KeptOut P'.world P'.world.clock model →
    i = place ∧ ∃ model' success, e = ⟨.recordOutcome model' success, ()⟩

section

variable {h : ChatHandler} {p : Policy} {hasStore : Bool} {clock : Int}
  {P P' : Pool effects BreakerWorld}

/-- The invariant: no request relies on a model that is kept out. -/
def Clear (h : ChatHandler) (P : Pool effects BreakerWorld) : Prop :=
  ∀ proc ∈ P.procs, ∀ model, Relies h proc model → ¬ KeptOut P.world P.world.clock model

theorem Clear.start {q : Go Unit} (hclear : Clear h P)
    (hstep : Pool.Step breakerAnswers (shadows h) P (.start q) P')
    (hkeeps : KeepsClear h P (.start q) P') : Clear h P' := by
  cases hstep
  exact forall_mem_append.mpr ⟨hclear, forall_mem_singleton.mpr fun model hrelies =>
    hkeeps.found q model rfl hrelies⟩

theorem Relies.before {proc proc' : Proc effects} {e : Event effects} {model : String}
    (hrelies : Relies h proc' model) (hrunning : proc.returned = false)
    (hparent : proc'.parent = proc.parent) (hinit : proc'.init = proc.init)
    (htrace : proc'.trace = proc.trace ++ [e]) :
    (∃ site, e = ⟨.isAllowed site model, true⟩) ∨ Relies h proc model := by
  have hunreported : NoOutcome proc.trace := fun model' success hmem =>
    hrelies.unreported model' success (htrace ▸ mem_append_left _ hmem)
  have hrequest : proc.parent = none := hparent ▸ hrelies.request
  obtain ⟨site, hmem⟩ | ⟨r, hr, hranked⟩ := hrelies.backed
  · rw [htrace, mem_append, mem_singleton] at hmem
    obtain hmem | he := hmem
    · exact .inr ⟨hrequest, hrunning, hunreported, .inl ⟨site, hmem⟩⟩
    · exact .inl ⟨site, he.symm⟩
  · exact .inr ⟨hrequest, hrunning, hunreported, .inr ⟨r, hinit ▸ hr, hranked⟩⟩

theorem Clear.perform {place : Nat} {e : Event effects} (hclear : Clear h P)
    (hstep : Pool.Step breakerAnswers (shadows h) P (.perform place e) P')
    (hkeeps : KeepsClear h P (.perform place e) P') : Clear h P' := by
  intro proc' hmem model hrelies hout
  obtain ⟨i, hproc'⟩ := mem_iff_getElem?.mp hmem
  obtain ⟨rfl, proc, hproc, hrunning, hparent, hinit, htrace⟩ | ⟨hne, hproc⟩ | ⟨_, q, _, rfl⟩ :=
    hstep.procs_cases hproc'
  · obtain ⟨site, rfl⟩ | hbefore := hrelies.before hrunning hparent hinit htrace
    · exact not_keptOut_of_allowed hstep.answer _ hout
    · have hold := hclear proc (mem_of_getElem? hproc) model hbefore
      obtain ⟨_, model', success, rfl⟩ :=
        hkeeps.kept i e i proc model rfl hproc hbefore hold hout
      exact hrelies.unreported model' success (htrace ▸ by simp)
  · have hold := hclear proc' (mem_of_getElem? hproc) model hrelies
    exact hne (hkeeps.kept place e i proc' model rfl hproc hrelies hold hout).1
  · cases hrelies.request

theorem clear_of_reached (hreach : Pool.Reached breakerAnswers (shadows h) (KeepsClear h)
    (startWorld p hasStore clock) P) : Clear h P := by
  induction hreach with
  | empty => exact forall_mem_nil _
  | @step P P' m _ hstep hkeeps ih =>
    cases m with
    | start q => exact ih.start hstep hkeeps
    | perform place e => exact ih.perform hstep hkeeps

/-- When a request calls a provider, the breaker of the model it calls does not keep it out. -/
theorem open_circuits_not_called (hreg : h.hasRegistry = true)
    (hreach : Pool.Reached breakerAnswers (shadows h) (KeepsClear h)
      (startWorld p hasStore clock) P)
    {proc : Proc effects} (hproc : proc ∈ P.procs) (hrequest : proc.parent = none) {o : Op}
    {k : o.Res → Go Unit} (hprog : proc.prog = .ask o k) (hcall : IsCall o) {model : String}
    (hmodel : candidateOf proc.trace = some model) {now : Int} (hnow : P.world.clock ≤ now) :
    ¬ KeptOut P.world now model := by
  have hplain : proc.parent = none → IsPlainRequest h proc.init :=
    hreach.init_of (Q := fun parent q => parent = none → IsPlainRequest h q)
      (fun _ q _ hkeeps _ => hkeeps.request q rfl) (fun _ _ _ _ hsome => by cases hsome) proc hproc
  obtain ⟨r, hinit, hchains⟩ := hplain hrequest
  have hobeys : Ensures proc.init fun t _ => Obeys (Vetted (Ranked h r)) [] t := by
    rw [hinit]
    exact (serveHTTP_vetted hreg hchains).bind fun t _ ht =>
      ensures_ret.mpr (by rwa [append_nil])
  have hsteps := hreach.steps proc hproc
  rw [hprog] at hsteps
  obtain ⟨res⟩ : Nonempty (effects.Res o) := inferInstance
  have hready : Ready (Ranked h r) proc.trace := hsteps.obeys hobeys res hcall
  have hrelies : Relies h proc model :=
    ⟨hrequest, by rw [Proc.returned, hprog], hready.noOutcome,
      (hready.backed model hmodel).symm.imp_right fun hranked => ⟨r, hinit, hranked⟩⟩
  exact fun hout => clear_of_reached hreach proc hproc model hrelies (hout.earlier hnow)

end

/-- Answers that keep nothing out. -/
def ClearAnswer : Answers effects BreakerWorld := fun w o r w' =>
  breakerAnswers w o r w' ∧ ∀ model, ¬ KeptOut w' w'.clock model

/-- The breaker was loaded as open at time 0, and is asked at time 10. -/
def reopenedWorld : BreakerWorld :=
  ⟨((startWorld hairTrigger true 0).registry.isAllowed (some .stateOpen) 0 10 "local-model").2, 10⟩

theorem reopenedWorld_admits : ClearAnswer (startWorld hairTrigger true 0)
    (.isAllowed .admission "local-model") true reopenedWorld := by
  have hanswer : breakerAnswers (startWorld hairTrigger true 0)
      (.isAllowed .admission "local-model") true reopenedWorld :=
    .isAllowed (⟨by simp, le_refl 0, by decide⟩ : Loaded _ (some .stateOpen) 0 10) rfl
  refine ⟨hanswer, fun model => ?_⟩
  by_cases hmodel : model = "local-model"
  · subst hmodel
    exact not_keptOut_of_allowed hanswer _
  · rintro ⟨_, hb, _⟩
    rw [reopenedWorld, Registry.isAllowed, Registry.call_breakers_of_ne hmodel] at hb
    cases hb

/-- A request that an open circuit has admitted after the wait calls its model. -/
theorem probe_not_keptOut : IsHalfOpen reopenedWorld "local-model" ∧
    ¬ KeptOut reopenedWorld 15 "local-model" := by
  have hsteps : ∃ k, Steps (localGateway.serveHTTP localRequest).void
      [⟨.lookup "local-model", ()⟩, ⟨.isAllowed .admission "local-model", true⟩, ⟨.now, 0⟩]
      (.ask (.chat ⟨0, "local"⟩ localBody) k) := by
    rw [serveHTTP_localRequest]
    exact ⟨_, .ask (.ask (.ask .refl))⟩
  have halong : Pool.Along ClearAnswer (startWorld hairTrigger true 0)
      [⟨.lookup "local-model", ()⟩, ⟨.isAllowed .admission "local-model", true⟩, ⟨.now, 0⟩]
      reopenedWorld := by
    refine .cons ⟨.other trivial (le_refl 0), not_keptOut_startWorld _ _ _ _⟩ ?_
    exact .cons reopenedWorld_admits
      (.cons ⟨.other trivial (le_refl 10), reopenedWorld_admits.2⟩ .nil)
  obtain ⟨k, hsteps⟩ := hsteps
  have hstart : ∀ P', KeepsClear localGateway ⟨startWorld hairTrigger true 0, []⟩
      (.start (localGateway.serveHTTP localRequest).void) P' := fun P' =>
    ⟨fun q hq => ⟨localRequest, (Move.start.inj hq).symm, fun _ _ => rfl⟩,
      fun _ _ _ _ => not_keptOut_startWorld _ _ _ _ _, by simp⟩
  have hmoves : ∀ (P P' : Pool effects BreakerWorld) (o : Op) (r : o.Res),
      ClearAnswer P.world o r P'.world → KeepsClear localGateway P (.perform 0 ⟨o, r⟩) P' :=
    fun P P' o r hc =>
      ⟨by simp [StartsPlain], by simp, fun _ _ _ _ _ _ _ _ _ hout => absurd hout (hc.2 _)⟩
  refine ⟨⟨_, Registry.call_breakers_self, rfl⟩, ?_⟩
  exact open_circuits_not_called (h := localGateway) rfl
    (Pool.Reached.empty.steps_alone hsteps halong (fun _ _ _ _ hc => hc.1) hstart
      fun P P' _ e _ _ hc _ => hmoves P P' e.op e.res hc)
    mem_cons_self rfl rfl trivial rfl (show (10 : Int) ≤ 15 by decide)

/-! ## A fallback whose breaker is open -/

def bodyFor (model : String) : RequestEnvelope where
  model := model
  messages := [{ role := "user", content := "hi" }]

def requestFor (model : String) : HttpRequest where
  body := some (bodyFor model)

/-- The catalog has the model. -/
def Listed (model : String) : Prop := ∃ m ∈ catalog, m.id = model

theorem Listed.facts (h : Listed model) :
    model ≠ "" ∧ model ≠ "auto" ∧ (Routing.lookup model).isSome = true := by
  obtain ⟨m, hm, rfl⟩ := h
  revert m
  decide

def fallbacksOf (model : String) : List Candidate :=
  fallbackChainFor model (taskHintFromHeaders localGateway (requestFor model) (bodyFor model)) 3

theorem fallbacksOf_ne_nil (model : String) : fallbacksOf model ≠ [] := by
  have hbudget : GoStrings.trimSpace (requestFor model).budget = "" :=
    show GoStrings.trimSpace "" = "" by decide
  have hcap := taskHintFromHeaders_uncapped (h := localGateway) (bodyFor model) hbudget
  exact fallbackChainFor_ne_nil model hcap 3

def walkOf (model : String) : Go (ExecuteResult × Option GoError) :=
  execute ⟨model, fallbacksOf model⟩ (Reasoning.adjustTokenBudget (bodyFor model))
    localGateway.router localGateway.retryCfg

def aroundWalk (model : String) (t : Trace effects) (err : Option GoError) : Trace effects :=
  ⟨.lookup model, ()⟩ :: ⟨.isAllowed .admission model, true⟩ :: ⟨.now, 0⟩ ::
    (t ++ [⟨.now, 0⟩, ⟨.recordOutcome model err.isNone, ()⟩])

theorem settleChat_runs (r : HttpRequest) (req : RequestEnvelope) {out : CallOutcome}
    (hrecorded : shouldRecordOutcome out.err = true) :
    ∃ reply, Runs (settleChat localGateway r req false 0 out)
      [⟨.now, 0⟩, ⟨.recordOutcome req.model out.err.isNone, ()⟩] reply := by
  have hreport : ∃ reply, localGateway.report r req false 0 0 out = .ret reply := by
    unfold ChatHandler.report
    split
    · exact ⟨_, rfl⟩
    · exact ⟨_, rfl⟩
  have hrecord : localGateway.recordOutcome req.model out.err =
      Go.recordOutcome req.model out.err.isNone :=
    if_pos hrecorded
  obtain ⟨reply, hreport⟩ := hreport
  refine ⟨reply, .ask ?_⟩
  rw [hrecord]
  refine .ask ?_
  rw [hreport]
  exact .ret

theorem callAndResolve_runs (hwalk : Runs (walkOf model) t (result, err)) :
    ∃ out, Runs (localGateway.callAndResolve ⟨0, "local"⟩ (bodyFor model) (fallbacksOf model)) t
      out ∧ out.err = err := by
  obtain ⟨c, rest, hchain⟩ := exists_cons_of_ne_nil (fallbacksOf_ne_nil model)
  rw [walkOf, hchain] at hwalk
  rw [hchain]
  have hnil : t = t ++ [] := (append_nil t).symm
  refine ⟨⟨result, result.response, result.provider.getD ⟨0, "local"⟩, err⟩,
    runs_bind_iff.mpr ⟨t, _, [], hnil, runs_bind_iff.mpr ⟨t, _, [], hnil, hwalk, .ret⟩, ?_⟩, rfl⟩
  rw [if_neg (by simp [localGateway])]
  exact .ret

theorem requestFor_runs (hlisted : Listed model) (hrecorded : shouldRecordOutcome err = true)
    (hwalk : Runs (walkOf model) t (result, err)) :
    Runs (localGateway.serveHTTP (requestFor model)).void (aroundWalk model t err) () := by
  obtain ⟨hne, hauto, hcatalog⟩ := hlisted.facts
  obtain ⟨out, hcall, rfl⟩ := callAndResolve_runs hwalk
  obtain ⟨reply, hsettle⟩ := settleChat_runs (requestFor model) (bodyFor model) hrecorded
  have hbody : (requestFor model).body = some (bodyFor model) := rfl
  have hroute : localGateway.route (requestFor model) (bodyFor model) =
      .ret (.ok ⟨model, fallbacksOf model⟩) := route_of_lookup hauto hcatalog _
  have hserve : Runs (localGateway.serveChat (requestFor model) ⟨0, "local"⟩ (bodyFor model) false
      (fallbacksOf model)) _ reply :=
    runs_accounted_iff.mpr (.inr ⟨0, t, out, _, rfl, hcall, hsettle⟩)
  have hflag : ((bodyFor model).model == "auto") = false := beq_eq_false_iff_ne.mpr hauto
  refine Runs.void (a := reply) ?_
  rw [serveHTTP_of_model rfl hbody hne (by simp [bodyFor]) rfl, serveModel_of_route hroute,
    serveDecision_of_ok rfl, hflag]
  exact .ask hserve

/-- How these calls go. -/
abbrev CatalogWalk (model : String) : Trace effects →
    ExecuteResult × Option GoError × Option ResponseEnvelope → Prop :=
  Walk model localGateway.router
    (chatWithRetry localGateway.retryCfg (Reasoning.adjustTokenBudget (bodyFor model)))
    ({ model := model } :: fallbacksOf model) 0 {} none

theorem CatalogWalk.runs (h : ∃ result response, CatalogWalk model t (result, err, response)) :
    ∃ result, Runs (walkOf model) t (result, err) := by
  obtain ⟨result, response, hw⟩ := h
  exact ⟨_, runs_execute_iff.mpr ⟨result, err, response, rfl, hw⟩⟩

theorem walkOf_refused (model : String) :
    ∃ t result, Runs (walkOf model) t (result, some badRequest) := by
  obtain ⟨t, result, response, hw⟩ : ∃ t result response,
      CatalogWalk model t (result, some badRequest, response) :=
    exists_walk_failed aborted_badRequest isContextLengthError_badRequest
      (fun p s => ⟨_, _, _, chatWithRetry_clientError (by decide) _ p s⟩) _ 0 {} none
      (fun _ _ => ⟨_, rfl⟩) (.inl (by simp))
  exact ⟨t, CatalogWalk.runs ⟨result, response, hw⟩⟩

theorem walkOf_rescued {rest : List Candidate} (hchain : fallbacksOf model = c :: rest)
    (resp : ResponseEnvelope) :
    ∃ result, Runs (walkOf model) [⟨.lookup model, ()⟩,
      ⟨.chat ⟨0, "local"⟩ (Reasoning.adjustTokenBudget (bodyFor model)), .error badRequest⟩,
      ⟨.lookup c.model, ()⟩,
      ⟨.chat ⟨0, "local"⟩ (Reasoning.adjustTokenBudget (bodyFor model)), .ok resp⟩]
      (result, none) := by
  refine CatalogWalk.runs ?_
  unfold CatalogWalk
  rw [hchain]
  exact ⟨_, _, .next rfl (chatWithRetry_clientError (by decide) _ _ _) rfl
    isContextLengthError_badRequest (.success rfl (chatWithRetry_success (by decide) _ _ _ _))⟩

theorem Calling.offRegistry {e : Event effects} (h : Calling e) : OffRegistry e.op := by
  obtain ⟨op, r⟩ := e
  cases op with
  | isAllowed | recordOutcome => exact h.elim
  | _ => trivial

theorem along_offRegistry {w' : BreakerWorld} {t' : Trace effects} (h : ∀ e ∈ t, OffRegistry e.op)
    (hrest : Pool.Along breakerAnswers w t' w') : Pool.Along breakerAnswers w (t ++ t') w' := by
  induction t with
  | nil => exact hrest
  | cons e t ih =>
    obtain ⟨he, ht⟩ := forall_mem_cons.mp h
    exact .cons (.other he (le_refl _)) (ih ht)

theorem refused_trips (hwalk : Runs (walkOf model) t (result, some badRequest)) :
    Pool.Along breakerAnswers (soleWorld hairTrigger model none 0)
      (aroundWalk model t (some badRequest))
      (soleWorld hairTrigger model (some trippedBreaker) 0) := by
  have hallow : (Breaker.new hairTrigger 0).allow 0 = (true, .new hairTrigger 0) := rfl
  have hfail : ((Breaker.new hairTrigger 0).call 0 .recordFailure).2 = trippedBreaker := by
    decide +kernel
  have hoff : ∀ e ∈ t, OffRegistry e.op := fun e he =>
    (execute_calling _ _ _ _ t _ hwalk e he).offRegistry
  refine .cons (.other trivial (le_refl 0)) ?_
  refine .cons (soleWorld_isAllowed (le_refl 0) hallow) ?_
  refine .cons (.other trivial (le_refl 0)) (along_offRegistry hoff ?_)
  refine .cons (.other trivial (le_refl 0)) ?_
  exact .cons (soleWorld_recordOutcome (le_refl 0) hfail) .nil

/-- A request for a model is refused and turns to a fallback. -/
def turnsTo (model fallback : String) : Trace effects :=
  [⟨.lookup model, ()⟩, ⟨.isAllowed .admission model, true⟩, ⟨.now, 0⟩, ⟨.lookup model, ()⟩,
    ⟨.chat ⟨0, "local"⟩ (Reasoning.adjustTokenBudget (bodyFor model)), .error badRequest⟩,
    ⟨.lookup fallback, ()⟩]

theorem requestFor_turns (hlisted : Listed model) {rest : List Candidate}
    (hchain : fallbacksOf model = c :: rest) :
    ∃ k, Steps (localGateway.serveHTTP (requestFor model)).void (turnsTo model c.model)
      (.ask (.chat ⟨0, "local"⟩ (Reasoning.adjustTokenBudget (bodyFor model))) k) := by
  obtain ⟨result, hwalk⟩ := walkOf_rescued hchain {}
  have hrun := requestFor_runs hlisted (by decide) hwalk
  have hsplit : Runs (localGateway.serveHTTP (requestFor model)).void
      (turnsTo model c.model ++
        ⟨.chat ⟨0, "local"⟩ (Reasoning.adjustTokenBudget (bodyFor model)), .ok {}⟩ ::
          [⟨.now, 0⟩, ⟨.recordOutcome model true, ()⟩]) () := hrun
  exact hsplit.steps_to

theorem turns_along {fallback : String} (hne : model ≠ fallback) :
    ∃ w', Pool.Along breakerAnswers (soleWorld hairTrigger fallback (some trippedBreaker) 0)
      (turnsTo model fallback) w' ∧ w'.clock = 0 ∧ KeptOut w' 0 fallback := by
  have hnew : (soleWorld hairTrigger fallback (some trippedBreaker) 0).registry.get none 0 model =
      .new hairTrigger 0 := by
    simp [Registry.get, soleWorld, hne]
  refine ⟨⟨((soleWorld hairTrigger fallback (some trippedBreaker) 0).registry.isAllowed none 0 0
      model).2, 0⟩, .cons (.other trivial (le_refl 0)) (.cons
    (.isAllowed (soleWorld_loaded (le_refl 0)) (Prod.ext ?_ rfl)) ?_), rfl,
    trippedBreaker, ?_, rfl, by decide⟩
  · simp only [Registry.isAllowed, Registry.call, hnew]
    rfl
  · exact .cons (.other trivial (le_refl 0)) (.cons (.other trivial (le_refl 0))
      (.cons (.other trivial (le_refl 0)) (.cons (.other trivial (le_refl 0)) .nil)))
  · rw [Registry.isAllowed, Registry.call_breakers_of_ne (Ne.symm hne)]
    simp [soleWorld]

/-- After a request for a fallback has failed and tripped its breaker, a request for the primary
calls the fallback all the same. -/
theorem tripped_fallback_called : ∃ (P : Pool effects BreakerWorld) (proc : Proc effects)
    (p : Provider) (req : RequestEnvelope) (k : (Op.chat p req).Res → Go Unit) (model : String),
    Pool.Reached breakerAnswers (shadows localGateway)
      (fun _ m _ => StartsPlain localGateway m) (startWorld hairTrigger false 0) P ∧
    proc ∈ P.procs ∧ proc.parent = none ∧ proc.prog = .ask (.chat p req) k ∧
    candidateOf proc.trace = some model ∧ KeptOut P.world P.world.clock model := by
  obtain ⟨c, rest, hchain⟩ := exists_cons_of_ne_nil (fallbacksOf_ne_nil "gpt-5.2")
  obtain ⟨hmem, hne⟩ := mem_buildFallbackChain (hchain ▸ mem_cons_self)
  have hlisted : Listed c.model := mem_scoreAll hmem
  obtain ⟨t, result, hrefused⟩ := walkOf_refused c.model
  have hfirst := requestFor_runs hlisted rfl hrefused
  have hgpt : Listed "gpt-5.2" := by
    unfold Listed
    decide
  obtain ⟨k, hsecond⟩ := requestFor_turns hgpt hchain
  obtain ⟨w', halong, hclock, hout⟩ := turns_along hne.symm
  have hstart : ∀ model,
      StartsPlain localGateway (.start (localGateway.serveHTTP (requestFor model)).void) :=
    fun model q hq => ⟨requestFor model, (Move.start.inj hq).symm, fun _ _ => rfl⟩
  have hmove : ∀ place e, StartsPlain localGateway (.perform place e) := by simp [StartsPlain]
  rw [startWorld_eq hairTrigger c.model 0]
  have hreach : Pool.Reached breakerAnswers (shadows localGateway)
      (fun _ m _ => StartsPlain localGateway m) (soleWorld hairTrigger c.model none 0) _ :=
    (Pool.Reached.empty.steps_alone hfirst.steps (refused_trips hrefused) (fun _ _ _ _ h => h)
      (fun _ => hstart _) fun _ _ _ _ _ _ _ _ => hmove _ _).steps_alone hsecond halong
      (fun _ _ _ _ h => h) (fun _ => hstart _) fun _ _ _ _ _ _ _ _ => hmove _ _
  exact ⟨_, _, _, _, k, c.model, hreach, mem_append_right _ mem_cons_self, rfl, rfl, rfl,
    hclock ▸ hout⟩

end Ixr.Ingress
