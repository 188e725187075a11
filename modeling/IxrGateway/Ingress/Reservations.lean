import IxrGateway.Budget.Conservation
import IxrGateway.Ingress.Reporting
import IxrGateway.Ingress.StuckBreaker

/-!
# Reservations and their release

The budget plugin reserves when it admits a request, and gives back when it
consumes a call event.  A reservation and its release belong together only
through what the request publishes in between, and that is up to the chat
handler, four middlewares further in.

Every event is consumed by the budget plugin in a program of its own.  A request
that is admitted and calls a provider is given back once.  One that is answered
without a call is never given back, and an event that no admitted request has
published gives back what another one has reserved.
-/

namespace Ixr.Ingress

open Interaction Routing Budget List
open Budget.Desk (acme acmeLimits)

/-! ## Releases -/

/-- The event that is released. -/
def released (e : Event effects) : Option CallEvent :=
  match e.op with
  | .budgetRelease ev => some ev
  | _ => none

/-- The events released in a trace. -/
def releases (t : Trace effects) : List CallEvent := t.filterMap released

variable {t : Trace effects} {e : Event effects} {limits : Limits}

theorem releases_eq_nil (h : ∀ e ∈ t, released e = none) : releases t = [] :=
  filterMap_eq_nil_iff.mpr h

/-- A published event that is not about a shadow call. -/
def reportOf (e : Event effects) : Option CallEvent :=
  (published e).filter fun ev => ev.shadow.isNone

/-- The programs that an event starts: the budget plugin consumes what is published, and shadow
calls are made. -/
def consumers (g : Gateway) (limits : Limits) (e : Event effects) : List (Go Unit) :=
  match e.op with
  | .publish ev => [onEvent limits g.hasBus ev]
  | .goShadow job => [g.handler.runShadow job]
  | _ => []

section

variable {g : Gateway} {limits : Limits}

theorem bookScopes_no_release (hasBus : Bool) (ev : CallEvent) (scopes : List String) :
    Emits (bookScopes limits hasBus ev scopes) fun e => released e = none := by
  induction scopes with
  | nil => exact emits_ret
  | cons scope scopes ih =>
    refine emits_ask (fun _ => rfl) fun spent => emits_ask (fun _ => rfl) fun _ => ?_
    exact (warnIfDue_emits (Q := fun e => released e = none) (fun _ => rfl) (fun _ => rfl)
      fun _ _ => rfl).bind fun _ => ih

theorem runShadow_no_release (h : ChatHandler) (job : ShadowJob) :
    Emits (h.runShadow job) fun e => released e = none :=
  runShadow_emits (fun _ => rfl) (fun _ => rfl) (fun _ _ _ => rfl) (fun _ _ => rfl)
    fun _ _ _ _ => rfl

theorem onEvent_releases (hasBus : Bool) (ev : CallEvent) :
    Ensures (onEvent limits hasBus ev) fun t _ =>
      releases t = (reportOf ⟨.publish ev, ()⟩).toList := by
  unfold onEvent
  cases hshadow : ev.shadow with
  | some shadow => exact ensures_ret.mpr (by simp [releases, reportOf, published, hshadow])
  | none =>
    have hone : (reportOf ⟨.publish ev, ()⟩).toList = [ev] := by
      simp [reportOf, published, hshadow]
    rw [hone]
    refine ensures_ask.mpr fun _ => ?_
    dsimp only
    split
    · refine (bookScopes_no_release hasBus ev _).mono fun t _ ht => ?_
      exact congrArg (ev :: ·) (releases_eq_nil ht)
    · exact ensures_ret.mpr rfl

theorem consumers_cases (g : Gateway) (limits : Limits) (e : Event effects) :
    consumers g limits e = [] ∧ reportOf e = none ∨
    ∃ q, consumers g limits e = [q] ∧
      Ensures q fun t _ => releases t = (reportOf e).toList := by
  obtain ⟨op, res⟩ := e
  cases op with
  | publish ev => exact .inr ⟨_, rfl, onEvent_releases g.hasBus ev⟩
  | goShadow job =>
    exact .inr ⟨_, rfl, (runShadow_no_release g.handler job).mono fun _ _ => releases_eq_nil⟩
  | _ => exact .inl ⟨rfl, rfl⟩

theorem releases_children {t : Trace effects} {cs : List (Proc effects)}
    (hinit : cs.map (·.init) = t.flatMap (consumers g limits))
    (hrun : ∀ c ∈ cs, Runs c.init c.trace ()) :
    cs.flatMap (fun c => releases c.trace) = t.filterMap reportOf := by
  induction t generalizing cs with
  | nil =>
    rw [flatMap_nil, map_eq_nil_iff] at hinit
    rw [hinit]
    rfl
  | cons e t ih =>
    rw [flatMap_cons] at hinit
    obtain ⟨cs₁, cs₂, rfl, hinit₁, hinit₂⟩ := map_eq_append_iff.mp hinit
    obtain ⟨hrun₁, hrun₂⟩ := forall_mem_append.mp hrun
    have hone : cs₁.flatMap (fun c => releases c.trace) = (reportOf e).toList := by
      obtain ⟨hnone, hreport⟩ | ⟨q, hq, hreleases⟩ := consumers_cases g limits e
      · rw [hnone, map_eq_nil_iff] at hinit₁
        rw [hinit₁, hreport]
        rfl
      · rw [hq] at hinit₁
        obtain ⟨c, rfl, rfl⟩ := map_eq_singleton_iff.mp hinit₁
        rw [flatMap_singleton]
        exact hreleases _ _ (hrun₁ c mem_cons_self)
    rw [flatMap_append, hone, ih hinit₂ hrun₂]
    cases hreport : reportOf e with
    | none => rw [filterMap_cons_none hreport]; rfl
    | some ev => rw [filterMap_cons_some hreport]; rfl

end

/-! ## What a request asks of the budget plugin -/

/-- The event reserves for the caller, if it reserves, and does not give back. -/
def Gated (r : HttpRequest) (e : Event effects) : Prop :=
  match e.op with
  | .budgetIntercept id => id = r.identity
  | .budgetRelease _ => False
  | _ => True

theorem Silent.gated (he : Silent e) (r : HttpRequest) : Gated r e := by
  obtain ⟨op, res⟩ := e
  cases op with
  | budgetIntercept | budgetRelease => exact he.elim
  | _ => trivial

theorem Screens.gated {r : HttpRequest} (he : Screens r.identity e) : Gated r e := by
  obtain he | ⟨res, rfl⟩ := he
  · exact he.gated r
  · exact rfl

theorem gated_spans (r r' : HttpRequest) : Spans r' (Gated r) where
  now _ := trivial
  metrics _ _ _ _ _ _ := trivial
  publish _ _ := trivial
  goShadow _ _ := trivial
  calling e he := by
    obtain ⟨op, res⟩ := e
    cases op with
    | budgetIntercept | budgetRelease => exact he.elim
    | _ => trivial
  consults e he := by
    obtain ⟨op, res⟩ := e
    cases op with
    | budgetIntercept | budgetRelease => exact he.elim
    | _ => trivial
  admission _ _ := trivial
  outcome _ _ := trivial
  schedule _ := trivial

theorem inner_gated (g : Gateway) (r r' : HttpRequest) : Emits (g.inner r') (Gated r) :=
  (inner_forwards g r').emits (fun _ he => he.gated r) fun r'' _ =>
    serveHTTP_emits (gated_spans r r'')

theorem serve_gated (g : Gateway) (r : HttpRequest) : Emits (g.serve r) (Gated r) := by
  unfold Gateway.serve interceptorMiddleware
  split
  · exact inner_gated g r r
  · split
    · exact inner_gated g r r
    · refine Emits.bind ((runInterceptors_screens g.handler _ _ _).mono fun _ _ h e he =>
        (h.1 e he).gated) ?_
      rintro ⟨req', _ | err⟩
      · exact inner_gated g r _
      · dsimp only
        unfold writeBlocked
        split
        · exact emits_ask (fun _ => trivial) fun _ => emits_ask (fun _ => trivial) fun _ =>
            emits_ret
        · exact emits_ret

/-! ## Requests around the budget plugin -/

/-- How the budget plugin answers.  It is asked nothing by other operations. -/
def budgetAnswers (limits : Limits) : Answers effects Plugin := fun p o =>
  match o with
  | .budgetIntercept id => fun res p' => p.intercept limits id = (res, p')
  | .budgetRelease ev => fun _ p' => p' = p.release limits ev
  | .budgetSpend scope cost => fun res p' => p.spend scope cost = (res, p')
  | .budgetWarned scope => fun _ p' => p' = p.warn scope
  | _ => fun _ p' => p' = p

/-- The budget lets the caller in. -/
def AdmittedAs (id : Identity) (t : Trace effects) : Prop :=
  (⟨.budgetIntercept id, none⟩ : Event effects) ∈ t

/-- A request that was let in. -/
def Admitted (proc : Proc effects) : Prop := proc.parent = none ∧ ∃ id, AdmittedAs id proc.trace

/-- What is released for a request. -/
def releasesFor (P : Pool effects Plugin) (place : Nat) : List CallEvent :=
  (P.children place).flatMap fun c => releases c.trace

/-- A request for no chain. -/
def IsChainless (g : Gateway) (q : Go Unit) : Prop :=
  ∃ r, q = (g.serve r).void ∧ Chainless g.handler r

/-- A move that keeps reservations and releases in pairs.  Chains are not used.  A request that
was admitted has called a provider when it returns.  Any other program publishes, besides reports
on shadow calls, only events whose scopes have no limit. -/
structure KeepsPairs (g : Gateway) (limits : Limits) (P : Pool effects Plugin) (m : Move effects)
    (P' : Pool effects Plugin) : Prop where
  request : ∀ q, m = .start q → IsChainless g q
  given : ∀ place name asked given,
    m = .perform place ⟨.intercept name asked, .ok given⟩ → g.handler.chains given.model = none
  called : ∀ place e proc, m = .perform place e → P'.procs[place]? = some proc →
    Admitted proc → proc.returned = true → Called proc.trace
  others : ∀ place ev proc, m = .perform place ⟨.publish ev, ()⟩ → P.procs[place]? = some proc →
    ¬ Admitted proc → ev.shadow = none → ∀ scope ∈ eventScopes ev, limits scope = none

section

variable {g : Gateway} {limits : Limits} {p : Plugin} {P : Pool effects Plugin}

/-- The pools that requests can lead to if every move keeps the pairs. -/
abbrev PairsReached (g : Gateway) (limits : Limits) (p : Plugin) : Pool effects Plugin → Prop :=
  Pool.Reached (budgetAnswers limits) (consumers g limits) (KeepsPairs g limits) p

/-- What the moves so far say about a program. -/
structure PairKept (g : Gateway) (limits : Limits) (proc : Proc effects) : Prop where
  given : GivenChainless g.handler proc.trace
  called : Admitted proc → proc.returned = true → Called proc.trace
  others : ¬ Admitted proc → ∀ e ∈ proc.trace, ∀ ev, reportOf e = some ev →
    ∀ scope ∈ eventScopes ev, limits scope = none

theorem pairKept_fresh (parent : Option Nat) (q : Go Unit) :
    PairKept g limits (.fresh parent q) where
  given := fun _ _ _ hmem => by cases hmem
  called := fun hadmitted => by
    obtain ⟨_, _, hmem⟩ := hadmitted
    cases hmem
  others := fun _ => forall_mem_nil _

variable {ev : CallEvent} {place : Nat}

theorem reportOf_eq_some (h : reportOf e = some ev) : e = ⟨.publish ev, ()⟩ ∧ ev.shadow = none := by
  obtain ⟨hpublished, hshadow⟩ := Option.filter_eq_some_iff.mp h
  refine ⟨?_, by simpa using hshadow⟩
  obtain ⟨op, res⟩ := e
  cases op with
  | publish ev' =>
    obtain rfl : ev' = ev := Option.some.inj hpublished
    rfl
  | _ => cases hpublished

variable {proc : Proc effects}

theorem PairKept.perform {P' : Pool effects Plugin} {proc' : Proc effects}
    (hkept : PairKept g limits proc) (hkeeps : KeepsPairs g limits P (.perform place e) P')
    (hproc : P.procs[place]? = some proc) (hproc' : P'.procs[place]? = some proc')
    (hparent : proc'.parent = proc.parent) (htrace : proc'.trace = proc.trace ++ [e]) :
    PairKept g limits proc' where
  given := fun name asked given hmem => by
    rw [htrace, mem_append, mem_singleton] at hmem
    obtain hmem | rfl := hmem
    · exact hkept.given name asked given hmem
    · exact hkeeps.given place name asked given rfl
  called := hkeeps.called place e proc' rfl hproc'
  others := fun hother e' hmem ev hreport => by
    have hbefore : ¬ Admitted proc := by
      rintro ⟨hrequest, id, hadmitted⟩
      exact hother ⟨hparent.trans hrequest, id, htrace ▸ mem_append_left _ hadmitted⟩
    rw [htrace, mem_append, mem_singleton] at hmem
    obtain hmem | rfl := hmem
    · exact hkept.others hbefore e' hmem ev hreport
    · obtain ⟨rfl, hshadow⟩ := reportOf_eq_some hreport
      exact hkeeps.others place ev proc rfl hproc hbefore hshadow

theorem PairsReached.kept (hreach : PairsReached g limits p P) :
    ∀ proc ∈ P.procs, PairKept g limits proc :=
  hreach.proc_of pairKept_fresh fun _ _ _ _ _ _ hkeeps hproc hproc' hparent htrace hkept =>
    hkept.perform hkeeps hproc hproc' hparent htrace

theorem PairsReached.isChainless (hreach : PairsReached g limits p P) (hproc : proc ∈ P.procs)
    (hrequest : proc.parent = none) : IsChainless g proc.init :=
  hreach.init_of (Q := fun parent q => parent = none → IsChainless g q)
    (fun _ q _ hkeeps _ => hkeeps.request q rfl) (fun _ _ _ _ hsome => by cases hsome) proc hproc
    hrequest

theorem PairsReached.released_once (hreach : PairsReached g limits p P)
    (hbus : g.handler.hasBus = true) {id : Identity} (hproc : P.procs[place]? = some proc)
    (hrequest : proc.parent = none) (hadmitted : AdmittedAs id proc.trace)
    (hret : proc.returned = true) (hchildren : ∀ c ∈ P.children place, c.returned = true) :
    ∃ ev, releasesFor P place = [ev] ∧ eventScopes ev = scopeKeys id := by
  have hmem := mem_of_getElem? hproc
  have hkept := hreach.kept proc hmem
  obtain ⟨r, hinit, hchains⟩ := hreach.isChainless hmem hrequest
  obtain ⟨t, reply, t', htrace, hrun, hend⟩ := runs_bind_iff.mp (hinit ▸ hreach.runs hmem hret)
  obtain ⟨rfl, -⟩ := runs_ret_iff.mp hend
  rw [append_nil] at htrace
  obtain ⟨ev, hev, ⟨_, htenant, hteam, huser⟩, hprimary⟩ := serve_reports hbus hchains t reply hrun
    (htrace ▸ hkept.called ⟨hrequest, id, hadmitted⟩ hret) (htrace ▸ hkept.given)
  obtain rfl : id = r.identity :=
    serve_gated g r t reply hrun ⟨.budgetIntercept id, none⟩ (htrace ▸ hadmitted)
  refine ⟨ev, ?_, by simp only [eventScopes, scopeKeys, htenant, hteam, huser]⟩
  calc releasesFor P place
      = proc.trace.filterMap reportOf :=
        releases_children (hreach.children_init hproc) fun c hc =>
          hreach.runs (mem_of_mem_filter hc) (hchildren c hc)
    _ = (publishes t).filter fun ev => ev.shadow.isNone := by
        rw [htrace]
        exact (filter_filterMap ..).symm
    _ = [ev] := by simp [hev, hprimary]

/-- What is given back for an event belongs to a program that has published the event. -/
theorem PairsReached.release_started (hreach : PairsReached g limits p P) (hproc : proc ∈ P.procs)
    {k : Unit → Go Unit} (hprog : proc.prog = .ask (.budgetRelease ev) k) :
    ∃ i starter, proc.parent = some i ∧ P.procs[i]? = some starter ∧
      ∃ e ∈ starter.trace, reportOf e = some ev := by
  have hsteps := hreach.steps proc hproc
  rw [hprog] at hsteps
  cases hparent : proc.parent with
  | none =>
    obtain ⟨r, hinit, _⟩ := hreach.isChainless hproc hparent
    have hgated : Emits proc.init (Gated r) := by
      rw [hinit]
      exact (serve_gated g r).bind fun _ => emits_ret
    exact (hsteps.obeys (R := fun _ e => Gated r e)
      (hgated.mono fun _ _ ht => obeys_of_forall fun e he _ => ht e he) ()).elim
  | some i =>
    obtain ⟨starter, hstarter, e, he, hinit⟩ := hreach.started_by hproc hparent
    refine ⟨i, starter, rfl, hstarter, e, he, ?_⟩
    obtain ⟨hnone, _⟩ | ⟨q, hq, hreleases⟩ := consumers_cases g limits e
    · rw [hnone] at hinit
      cases hinit
    · rw [hq, mem_singleton] at hinit
      rw [← hinit] at hreleases
      refine hsteps.obeys (R := fun _ e' => ∀ ev, released e' = some ev → reportOf e = some ev)
        (hreleases.mono fun t _ ht => obeys_of_forall fun e' he' _ ev hev => ?_) () ev rfl
      have hmem : ev ∈ releases t := mem_filterMap.mpr ⟨e', he', hev⟩
      rwa [ht, Option.mem_toList] at hmem

/-- In every run, an admitted request is given back once, when it and all it has started have
returned.  What another program publishes gives nothing back. -/
theorem reservations_paired (hbus : g.handler.hasBus = true)
    (hreach : Pool.Reached (budgetAnswers limits) (consumers g limits) (KeepsPairs g limits) p P) :
    (∀ (place : Nat) proc id, P.procs[place]? = some proc → proc.parent = none →
      AdmittedAs id proc.trace → proc.returned = true →
      (∀ c ∈ P.children place, c.returned = true) →
      ∃ ev, releasesFor P place = [ev] ∧ eventScopes ev = scopeKeys id) ∧
    (∀ proc ∈ P.procs, ∀ ev k, proc.prog = .ask (.budgetRelease ev) k →
      (∀ (i : Nat) starter, proc.parent = some i → P.procs[i]? = some starter →
        ¬ Admitted starter) →
      (P.world.release limits ev).reserved = P.world.reserved) := by
  refine ⟨fun place proc id hproc hrequest hadmitted hret hchildren =>
    PairsReached.released_once hreach hbus hproc hrequest hadmitted hret hchildren,
    fun proc hproc ev k hprog hothers => ?_⟩
  obtain ⟨i, starter, hparent, hstarter, e, he, hreport⟩ :=
    PairsReached.release_started hreach hproc hprog
  have hunlimited := (PairsReached.kept hreach starter (mem_of_getElem? hstarter)).others
    (hothers i starter hparent hstarter) e he ev hreport
  funext scope
  have haccount := account_release limits ev P.world scope
  rw [if_neg fun hscope => by simp [hunlimited scope hscope.1] at hscope] at haccount
  exact congrArg Account.reserved haccount

end

/-! ## One request of a tenant -/

def acmeGateway (router : ProviderLookup) : Gateway where
  handler := { router := router, hasRegistry := false }

def oneProvider : ProviderLookup := fun _ => .ok ⟨0, "local"⟩

def noProvider : ProviderLookup := fun model =>
  .error { msg := "no provider found for model \"" ++ model ++ "\"" }

def acmeRequest : HttpRequest where
  body := some localBody
  identity := acme
  sessionID := "s1"

def acmePassed : HttpRequest := { acmeRequest with canFlush := false }

def entering : Trace effects :=
  [⟨.budgetIntercept acme, none⟩, ⟨.sessionGet (sessionStoreKey acme "s1"), none⟩,
    ⟨.cacheLookup localBody 0, none⟩, ⟨.flightJoin (Cache.key localBody), none⟩]

section

variable {next : Handler} {router : ProviderLookup} {t : Trace effects} {status : Nat}
  {code message : String}

theorem runs_cacheMiddleware (ttl : Int)
    (hrun : Runs (next acmePassed) t (.error status code message)) :
    Runs (cacheMiddleware ttl next acmePassed)
      (⟨.cacheLookup localBody 0, none⟩ :: ⟨.flightJoin (Cache.key localBody), none⟩ ::
        (t ++ [⟨.flightDone (Cache.key localBody) (.error status code message), ()⟩]))
      (.error status code message) := by
  have hmiss : Runs (next acmePassed >>= fun reply => storeReply localBody 0 ttl reply >>= fun _ =>
      Go.flightDone (Cache.key localBody) reply >>= fun _ => pure reply)
      (t ++ [⟨.flightDone (Cache.key localBody) (.error status code message), ()⟩])
      (.error status code message) :=
    runs_bind_iff.mpr ⟨t, _, _, rfl, hrun, .ask .ret⟩
  unfold cacheMiddleware
  rw [if_neg (not_not_intro (show acmePassed.method = "POST" from rfl))]
  exact .ask (.ask hmiss)

theorem runs_sessionMiddleware (hrun : Runs (next acmePassed) t (.error status code message)) :
    Runs (sessionMiddleware next acmeRequest)
      (⟨.sessionGet (sessionStoreKey acme "s1"), none⟩ :: t) (.error status code message) := by
  have hid : resolveSessionID acmeRequest = .ret "s1" := if_neg (by decide)
  have hreset : resetSession acmeRequest (sessionStoreKey acmeRequest.identity "s1") = .ret () :=
    if_neg (by decide)
  have hpassed : Runs (next acmePassed >>= fun reply =>
      persistTurn (sessionStoreKey acme "s1") localBody reply >>= fun _ => pure reply) t
      (.error status code message) :=
    runs_bind_iff.mpr ⟨t, _, [], by simp, hrun, .ret⟩
  unfold sessionMiddleware
  rw [hid, Prog.ret_bind]
  dsimp only
  rw [hreset, Prog.ret_bind]
  exact .ask hpassed

theorem runs_acmeRequest
    (hrun : Runs ((acmeGateway router).handler.serveHTTP acmePassed) t
      (.error status code message)) :
    Runs ((acmeGateway router).serve acmeRequest).void
      (entering ++ (t ++ [⟨.flightDone (Cache.key localBody) (.error status code message), ()⟩]))
      () := by
  have hinner : (acmeGateway router).inner acmeRequest = sessionMiddleware
      (cacheMiddleware 0 (acmeGateway router).handler.serveHTTP) acmeRequest := by
    unfold Gateway.inner memoryMiddleware
    exact if_pos (Or.inl (by decide))
  have hpassed := runs_sessionMiddleware (runs_cacheMiddleware 0 hrun)
  rw [← hinner] at hpassed
  refine Runs.void (a := .error status code message) ?_
  unfold Gateway.serve interceptorMiddleware
  rw [if_neg (by simp [acmeGateway, acmeRequest])]
  exact .ask hpassed

end

/-- The plugin before the request: calls have cost 1 on average. -/
def acmePlugin : Plugin where
  avgCost _ := 1

theorem acme_admitted : acmePlugin.intercept acmeLimits acme =
    (none, acmePlugin.reserve acmeLimits "acme") := by
  have hfirst : acmePlugin.firstExceeded acmeLimits (scopeKeys acme) = none := by decide +kernel
  unfold Plugin.intercept
  rw [hfirst]
  rfl

theorem acme_along {p : Plugin}
    (ht : Pool.Along (budgetAnswers acmeLimits) (acmePlugin.reserve acmeLimits "acme") t p) :
    Pool.Along (budgetAnswers acmeLimits) acmePlugin (entering ++ t) p :=
  .cons acme_admitted (.cons rfl (.cons rfl (.cons rfl ht)))

theorem acmeRequest_isChainless (router : ProviderLookup) :
    IsChainless (acmeGateway router) ((acmeGateway router).serve acmeRequest).void :=
  ⟨acmeRequest, rfl, fun _ _ => rfl⟩

variable {g : Gateway} {place : Nat} {P P' : Pool effects Plugin} {past rest : Trace effects}
  {ev : CallEvent}

theorem keepsPairs_of_called {id : Identity} (hcalled : Called (⟨.budgetIntercept id, none⟩ :: t))
    (hgiven : GivenChainless g.handler (⟨.budgetIntercept id, none⟩ :: t))
    (ht : ⟨.budgetIntercept id, none⟩ :: t = past ++ e :: rest)
    (hperforms : Pool.Performs none place past e rest P P') :
    KeepsPairs g limits P (.perform place e) P' where
  request := fun q hq => by cases hq
  given := fun _ name asked given hmove => by
    cases hmove
    exact hgiven name asked given (ht ▸ mem_append_right _ mem_cons_self)
  called := fun _ _ proc hmove hproc _ hret => by
    cases hmove
    obtain ⟨_, hproc', _, htrace, hlast⟩ := hperforms.after
    obtain rfl := Option.some.inj (hproc'.symm.trans hproc)
    rw [hlast hret] at ht
    rwa [htrace, ← ht]
  others := fun _ ev proc hmove hproc hother => by
    cases hmove
    obtain ⟨_, hproc', hparent, htrace⟩ := hperforms.before
    obtain rfl := Option.some.inj (hproc'.symm.trans hproc)
    obtain ⟨_, heq⟩ | ⟨past', rfl, _⟩ := cons_eq_append_iff.mp ht
    · cases heq
    · exact absurd ⟨hparent, id, htrace ▸ mem_cons_self⟩ hother

theorem keepsPairs_of_release {i : Nat} (ht : [] ++ [⟨.budgetRelease ev, ()⟩] = past ++ e :: rest)
    (hperforms : Pool.Performs (some i) place past e rest P P') :
    KeepsPairs g limits P (.perform place e) P' := by
  have he : e ∈ [⟨.budgetRelease ev, ()⟩] := by
    rw [← nil_append [_], ht]
    exact mem_append_right _ mem_cons_self
  obtain rfl := mem_singleton.mp he
  refine ⟨by simp, by simp, fun _ _ proc hmove hproc hadmitted => ?_, by simp⟩
  cases hmove
  obtain ⟨_, hproc', hparent, _⟩ := hperforms.after
  obtain rfl := Option.some.inj (hproc'.symm.trans hproc)
  rw [Admitted, hparent] at hadmitted
  cases hadmitted.1

def refusedBy (ev : CallEvent) : Trace effects :=
  [⟨.lookup "local-model", ()⟩, ⟨.now, 0⟩, ⟨.chat ⟨0, "local"⟩ localBody, .error badRequest⟩,
    ⟨.now, 0⟩, ⟨.publish ev, ()⟩]

theorem acmePassed_refused : ∃ ev, (ev.shadow = none ∧ hasCost ev = false) ∧
    Runs ((acmeGateway oneProvider).handler.serveHTTP acmePassed) (refusedBy ev)
      (.error 502 "provider_error" "upstream provider returned an error") := by
  have hbody : acmePassed.body = some localBody := rfl
  rw [serveHTTP_unlisted rfl hbody (by decide) (by decide) rfl (by decide) (by decide) rfl rfl]
  exact ⟨_, ⟨rfl, rfl⟩, .ask (.ask (.ask (.ask (.ask .ret))))⟩

theorem onEvent_unpriced {hasBus : Bool} (hshadow : ev.shadow = none) (hcost : hasCost ev = false) :
    onEvent limits hasBus ev = .ask (.budgetRelease ev) fun _ => .ret () := by
  simp only [onEvent, hshadow, hcost, Option.isSome_none, Bool.false_eq_true, if_false]
  rfl

def acmeServed (router : ProviderLookup) (t : Trace effects) : Proc effects :=
  ⟨none, ((acmeGateway router).serve acmeRequest).void, t, .ret ()⟩

/-- A request that its provider refuses is given back. -/
theorem refused_given_back :
    ∃ (P : Pool effects Plugin) (proc : Proc effects) (ev : CallEvent),
      PairsReached (acmeGateway oneProvider) acmeLimits acmePlugin P ∧
      P.procs[0]? = some proc ∧ AdmittedAs acme proc.trace ∧ proc.returned = true ∧
      releasesFor P 0 = [ev] ∧ eventScopes ev = scopeKeys acme := by
  obtain ⟨ev, ⟨hshadow, hcost⟩, hrun⟩ := acmePassed_refused
  have hrequest := runs_acmeRequest hrun
  generalize Reply.error 502 "provider_error" "upstream provider returned an error" = reply
    at hrequest
  have halong : Pool.Along (budgetAnswers acmeLimits) acmePlugin
      (entering ++ (refusedBy ev ++ [⟨.flightDone (Cache.key localBody) reply, ()⟩]))
      (acmePlugin.reserve acmeLimits "acme") :=
    acme_along (.cons rfl (.cons rfl (.cons rfl (.cons rfl (.cons rfl (.cons rfl .nil))))))
  generalize ht : entering ++ (refusedBy ev ++ [⟨.flightDone (Cache.key localBody) reply, ()⟩]) = t
    at hrequest halong
  have hserved : PairsReached (acmeGateway oneProvider) acmeLimits acmePlugin
      ⟨acmePlugin.reserve acmeLimits "acme", [acmeServed oneProvider t] ++
        ⟨some 0, onEvent acmeLimits true ev, [], onEvent acmeLimits true ev⟩ :: []⟩ := by
    subst ht
    refine Pool.Reached.empty.steps_alone hrequest.steps halong (fun _ _ _ _ h => h)
      (fun _ => ⟨fun q hq => Move.start.inj hq ▸ acmeRequest_isChainless _, by simp, by simp,
        by simp⟩) fun _ _ _ _ _ ht _ hperforms => keepsPairs_of_called ?_ ?_ ht hperforms
    · exact ⟨⟨.chat ⟨0, "local"⟩ localBody, .error badRequest⟩, by simp [refusedBy], trivial⟩
    · simp [GivenChainless, refusedBy]
  rw [onEvent_unpriced hshadow hcost] at hserved
  have hrelease : Runs (S := effects) (.ask (.budgetRelease ev) fun _ => .ret ())
      [⟨.budgetRelease ev, ()⟩] () := .ask .ret
  have hconsumed : PairsReached (acmeGateway oneProvider) acmeLimits acmePlugin ⟨_,
      [acmeServed oneProvider t, ⟨some 0, .ask (.budgetRelease ev) fun _ => .ret (),
        [⟨.budgetRelease ev, ()⟩], .ret ()⟩]⟩ :=
    hserved.solo hrelease.steps (.cons rfl .nil) (fun _ _ _ _ h => h)
      fun _ _ _ _ _ ht _ hperforms => keepsPairs_of_release ht hperforms
  obtain ⟨ev, hreleases, hscopes⟩ := (reservations_paired rfl hconsumed).1 0 _ acme rfl rfl
    (ht ▸ mem_cons_self) rfl (by simp [Pool.children, acmeServed, Proc.returned])
  exact ⟨_, _, ev, hconsumed, rfl, ht ▸ mem_cons_self, rfl, hreleases, hscopes⟩

/-- Without a provider the request is never given back. -/
theorem missing_provider_never_given_back :
    ∃ (P : Pool effects Plugin) (proc : Proc effects),
      Pool.Reached (budgetAnswers acmeLimits) (consumers (acmeGateway noProvider) acmeLimits)
        (fun _ m _ => ∀ q, m = .start q → IsChainless (acmeGateway noProvider) q) acmePlugin P ∧
      P.procs = [proc] ∧ proc.parent = none ∧ AdmittedAs acme proc.trace ∧
      proc.returned = true ∧ releasesFor P 0 = [] ∧ acmePlugin.reserved "acme" = 0 ∧
      P.world.reserved "acme" = 1 := by
  have hbody : acmePassed.body = some localBody := rfl
  have hrun : ∃ message, Runs ((acmeGateway noProvider).handler.serveHTTP acmePassed)
      [⟨.lookup "local-model", ()⟩] (.error 400 "no_provider" message) := by
    rw [serveHTTP_of_model rfl hbody (by decide) (by decide) rfl,
      serveModel_of_route (route_of_unlisted (by decide) (by decide) _), serveDecision_of_error rfl]
    exact ⟨_, .ask .ret⟩
  obtain ⟨message, hrun⟩ := hrun
  have hrequest := runs_acmeRequest hrun
  have hreserved : (acmePlugin.reserve acmeLimits "acme").reserved "acme" = 1 := by decide +kernel
  refine ⟨_, _, Pool.Reached.empty.steps_alone hrequest.steps
    (acme_along (.cons rfl (.cons rfl .nil))) (fun _ _ _ _ h => h)
    (fun _ q hq => Move.start.inj hq ▸ acmeRequest_isChainless _) fun _ _ _ _ _ _ _ _ => by simp,
    rfl, rfl, mem_cons_self, rfl, rfl, rfl, hreserved⟩

end Ixr.Ingress
