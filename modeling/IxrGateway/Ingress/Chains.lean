import IxrGateway.Ingress.Attribution
import IxrGateway.Routing.UpstreamModel

/-!
# Chains and the answers they read

A chain comes from the registry (`buildRegistry`), which checks its shape.  Each
step of it is answered or fails (`StepRun`).  The answer of a step is read when
the messages of the next step or of the judge are built, and there its first
choice is taken without a look at how many there are.

So a chain gets through exactly if all answers it reads have a choice.  A step
that fails ends a sequential chain with an error, and a member of a panel that
fails is left out of what the judge gets to see.
-/

namespace Ixr.Ingress

open Interaction Routing Reasoning GoStrings List ChatHandler Ensures

/-! ## The registry -/

namespace Chain

/-- `chain.Def`. -/
structure Def where
  strategy : String := ""
  models : List String := []
  prompts : List String := []
  judge : String := ""
deriving Repr, DecidableEq

/-- The body of the loop of `BuildRegistry`.  `quote` is `strconv.Quote`. -/
def build (quote : String → String) (name : String) (d : Def) : Except String Chain :=
  if d.strategy = "" ∨ d.strategy = "sequential" then
    if d.models.length = 0 then
      .error ("chain " ++ quote name ++ ": must define at least one model")
    else if d.prompts.length ≠ d.models.length then
      .error ("chain " ++ quote name ++ ": models (" ++ toString d.models.length ++
        ") and prompts (" ++ toString d.prompts.length ++ ") must be the same length")
    else
      .ok { name := name, strategy := .sequential, models := d.models, prompts := d.prompts
            judge := d.judge }
  else if d.strategy = "fusion" then
    if d.models.length < 2 then
      .error ("chain " ++ quote name ++ ": fusion strategy needs at least 2 panel models")
    else if d.judge = "" then
      .error ("chain " ++ quote name ++ ": fusion strategy requires a judge model")
    else
      .ok { name := name, strategy := .fusion, models := d.models, prompts := d.prompts
            judge := d.judge }
  else
    .error ("chain " ++ quote name ++ ": unknown strategy " ++ quote d.strategy ++
      " (want \"sequential\" or \"fusion\")")

/-- `chain.Registry`. -/
abbrev Registry := List (String × Chain)

/-- `BuildRegistry`, with the definitions in the order in which the map is walked. -/
def buildRegistry (quote : String → String) : List (String × Def) → Except String Registry
  | [] => .ok []
  | (name, d) :: defs => do
    let c ← build quote name d
    let reg ← buildRegistry quote defs
    return (name, c) :: reg

/-- What the registry checks. -/
def WellFormed (c : Chain) : Prop :=
  match c.strategy with
  | .sequential => c.models ≠ [] ∧ c.prompts.length = c.models.length
  | .fusion => 2 ≤ c.models.length ∧ c.judge ≠ ""

theorem build_wellFormed {quote : String → String} {name : String} {d : Def} {c : Chain}
    (h : build quote name d = .ok c) : c.WellFormed := by
  unfold build at h
  split_ifs at h with hseq hmodels hprompts hfusion hpanel hjudge
  · cases h
    exact ⟨fun hnil => hmodels (length_eq_zero_iff.mpr hnil), not_not.mp hprompts⟩
  · cases h
    exact ⟨not_lt.mp hpanel, hjudge⟩

theorem buildRegistry_wellFormed {quote : String → String} {defs : List (String × Def)}
    {reg : Registry} (h : buildRegistry quote defs = .ok reg) {name : String} {c : Chain}
    (hc : reg.lookup name = some c) : c.WellFormed := by
  induction defs generalizing reg with
  | nil =>
    cases h
    cases hc
  | cons entry defs ih =>
    obtain ⟨first, d⟩ := entry
    rw [buildRegistry] at h
    cases hbuild : build quote first d with
    | error msg =>
      rw [hbuild] at h
      cases h
    | ok c' =>
      rw [hbuild] at h
      cases hrest : buildRegistry quote defs with
      | error msg =>
        rw [hrest] at h
        cases h
      | ok reg' =>
        rw [hrest] at h
        cases h
        rw [lookup_cons] at hc
        split at hc
        · cases hc
          exact build_wellFormed hbuild
        · exact ih hrest hc

end Chain

/-! ## Answers -/

/-- A request and its answer. -/
def answerOf : Event effects → Option (RequestEnvelope × ResponseEnvelope)
  | ⟨.chat _ req, .ok resp⟩ => some (req, resp)
  | _ => none

/-- The answers in a trace. -/
def answersOf (t : Trace effects) : List (RequestEnvelope × ResponseEnvelope) :=
  t.filterMap answerOf

/-- The request of a call. -/
def requested (e : Event effects) : Option RequestEnvelope :=
  match e.op with
  | .chat _ req | .stream _ req => some req
  | _ => none

/-- The providers are only asked `req`. -/
def Asks (req : RequestEnvelope) (t : Trace effects) : Prop :=
  ∀ e ∈ t, ∀ req', requested e = some req' → req' = req

theorem answersOf_append (t t' : Trace effects) :
    answersOf (t ++ t') = answersOf t ++ answersOf t' :=
  filterMap_append

theorem Quiet.requested {e : Event effects} (h : Quiet e) : requested e = none := by
  obtain ⟨op, r⟩ := e
  cases op with
  | lookup | chat | stream | deliver => exact h.elim
  | _ => rfl

theorem requested_of_answerOf {e : Event effects} {a : RequestEnvelope × ResponseEnvelope}
    (h : answerOf e = some a) : requested e = some a.1 := by
  unfold answerOf at h
  split at h
  · cases h
    rfl
  · cases h

theorem answersOf_quiet {t : Trace effects} (h : ∀ e ∈ t, Quiet e) : answersOf t = [] := by
  refine filterMap_eq_nil_iff.mpr fun e he => ?_
  cases ha : answerOf e with
  | none => rfl
  | some a =>
    have hreq := requested_of_answerOf ha
    rw [(h e he).requested] at hreq
    cases hreq

theorem Asks.append {req : RequestEnvelope} {t t' : Trace effects} (h : Asks req t)
    (h' : Asks req t') : Asks req (t ++ t') :=
  forall_mem_append.mpr ⟨h, h'⟩

theorem asks_of_quiet {t : Trace effects} (h : ∀ e ∈ t, Quiet e) (req : RequestEnvelope) :
    Asks req t := by
  intro e he req' hreq
  rw [(h e he).requested] at hreq
  cases hreq

/-! ## One call -/

section

variable {cfg : RetryConfig} {lookup : ProviderLookup}

theorem chatOnce_answers (p : Provider) (req : RequestEnvelope) (s : Option ResponseEnvelope) :
    Ensures (chatOnce p req s) fun t out =>
      (∃ resp, out = (false, none, some resp) ∧ answersOf t = [(req, resp)]) ∨
        ∃ e, out = (false, some e, none) ∧ answersOf t = [] := by
  refine ensures_ask.mpr ?_
  rintro (e | resp)
  · exact ensures_ret.mpr (.inr ⟨e, rfl, rfl⟩)
  · exact ensures_ret.mpr (.inl ⟨resp, rfl, rfl⟩)

theorem retryLoop_answers (p : Provider) (req : RequestEnvelope) :
    ∀ left i backoff lastErr s,
      Ensures (retryLoop cfg (chatOnce p req) left i backoff lastErr s) fun t out =>
        (∃ resp, out.1 = some resp ∧ out.2.2 = none ∧ answersOf t = [(req, resp)]) ∨
          answersOf t = [] ∧ (out.2.2 = none → left = 0 ∧ lastErr = none) := by
  intro left
  induction left with
  | zero =>
    intro i backoff lastErr s
    exact ensures_ret.mpr (.inr ⟨rfl, fun h => ⟨rfl, h⟩⟩)
  | succ left ih =>
    intro i backoff lastErr s
    rw [retryLoop]
    refine (chatOnce_answers p req s).bind ?_
    rintro t _ (⟨resp, rfl, ht⟩ | ⟨e, rfl, ht⟩)
    · exact ensures_ret.mpr (.inl ⟨resp, rfl, rfl, by rwa [append_nil]⟩)
    -- After an error, the rest of the loop starts with that error.
    · have hlater : ∀ i backoff t', answersOf t' = [] →
          Ensures (retryLoop cfg (chatOnce p req) left i backoff (some e) none) fun t'' out =>
            (∃ resp, out.1 = some resp ∧ out.2.2 = none ∧
              answersOf (t ++ (t' ++ t'')) = [(req, resp)]) ∨
            answersOf (t ++ (t' ++ t'')) = [] ∧
              (out.2.2 = none → left + 1 = 0 ∧ lastErr = none) := by
        intro i backoff t' ht'
        refine (ih i backoff (some e) none).mono fun t'' out hout => ?_
        rw [answersOf_append, answersOf_append, ht, ht', nil_append, nil_append]
        rcases hout with hanswer | ⟨hnone, herr⟩
        · exact .inl hanswer
        · refine .inr ⟨hnone, fun h => ?_⟩
          cases (herr h).2
      dsimp only
      split
      · refine ensures_ret.mpr (.inr ⟨by rwa [append_nil], fun h => ?_⟩)
        cases h
      · split
        · rw [Prog.perform_bind, ensures_ask]
          rintro (_ | ctxErr)
          · exact hlater _ _ [_] rfl
          · refine ensures_ret.mpr (.inr ⟨?_, fun h => ?_⟩)
            · rw [answersOf_append, ht]
              rfl
            · cases h
        · exact hlater _ _ [] rfl

variable {p : Provider} {req : RequestEnvelope}

theorem chatWithRetry_answer (hattempts : 1 ≤ cfg.maxAttempts) {s s' : Option ResponseEnvelope}
    {n : Int} {t : Trace effects} (hrun : Runs (chatWithRetry cfg req p s) t (s', n, none)) :
    ∃ resp, s' = some resp ∧ answersOf t = [(req, resp)] := by
  obtain ⟨resp, hresp, -, ht⟩ | ⟨-, herr⟩ := retryLoop_answers p req _ _ _ _ _ t _ hrun
  · exact ⟨resp, hresp, ht⟩
  · have hzero := (herr rfl).1
    omega

theorem chatWithRetry_no_answer {s s' : Option ResponseEnvelope} {n : Int} {e : GoError}
    {t : Trace effects} (hrun : Runs (chatWithRetry cfg req p s) t (s', n, some e)) :
    answersOf t = [] := by
  obtain ⟨resp, -, hnone, -⟩ | ⟨ht, -⟩ := retryLoop_answers p req _ _ _ _ _ t _ hrun
  · cases hnone
  · exact ht

theorem execute_answers (hattempts : 1 ≤ cfg.maxAttempts) (model : String) (req : RequestEnvelope) :
    Ensures (execute { model := model } req lookup cfg) fun t out =>
      (∃ resp, out.1.response = some resp ∧ out.2 = none ∧ answersOf t = [(req, resp)]) ∨
        (∃ e, out.2 = some e) ∧ answersOf t = [] := by
  intro t out hrun
  obtain ⟨result, err, response, rfl, hwalk⟩ := runs_execute_iff.mp hrun
  -- There is only one candidate, so the walk ends after it.
  cases hwalk with
  | skip hl hw =>
    cases hw
    exact .inr ⟨⟨_, rfl⟩, rfl⟩
  | success hl ha =>
    obtain ⟨resp, rfl, ht⟩ := chatWithRetry_answer hattempts ha
    exact .inl ⟨resp, rfl, rfl, ht⟩
  | abort hl ha hab =>
    have ht := chatWithRetry_no_answer ha
    exact .inr ⟨⟨_, rfl⟩, ht⟩
  | escalate _ ha _ _ hw | next _ ha _ _ hw =>
    have ht := chatWithRetry_no_answer ha
    cases hw
    rw [append_nil]
    exact .inr ⟨⟨_, rfl⟩, ht⟩

theorem requested_of_callsOn {req' : RequestEnvelope} {e : Event effects} (h : CallsOn p req e)
    (hreq : requested e = some req') : req' = req := by
  obtain ⟨op, r⟩ := e
  cases op with
  | chat | stream =>
    cases hreq
    exact h.2
  | _ => cases hreq

theorem execute_asks (d : RoutingDecision) (req : RequestEnvelope) :
    Ensures (execute d req lookup cfg) fun t _ => Asks req t := by
  intro t out hrun
  obtain ⟨result, err, response, -, hwalk⟩ := runs_execute_iff.mp hrun
  refine hwalk.emits (fun p s => (chatWithRetry_emits cfg req p s).mono ?_) fun m req' h => ?_
  · exact fun t _ ht e he req' => requested_of_callsOn (ht e he)
  · cases h

theorem executeStream_asks {σ : Type} (d : RoutingDecision) (req : RequestEnvelope)
    (fn : Callback σ) (s : σ) :
    Ensures (executeStream d req lookup cfg fn s) fun t _ => Asks req t := by
  intro t out hrun
  refine (runs_candidateLoop_iff.mp hrun).emits
    (fun p s => (streamWithRetry_emits cfg fn req p s).mono ?_) fun m req' h => ?_
  · exact fun t _ ht e he req' => requested_of_callsOn (ht e he)
  · cases h

theorem executeStream_answers {σ : Type} (d : RoutingDecision) (req : RequestEnvelope)
    (fn : Callback σ) (s : σ) :
    Ensures (executeStream d req lookup cfg fn s) fun t _ => answersOf t = [] := by
  intro t out hrun
  refine filterMap_eq_nil_iff.mpr ((runs_candidateLoop_iff.mp hrun).emits ?_ fun m => rfl)
  intro p s
  refine withRetry_emits (fun s => ?_) (fun _ _ => rfl) s
  exact emits_ask (fun _ => rfl) fun script => playStream_emits (fun _ _ => rfl) script _ _

end

/-! ## One step -/

section

variable {h : ChatHandler} {r : HttpRequest}

/-- Around a call that is accounted for, nothing is asked. -/
theorem accounted_split {α β : Type} {model : String} {err : α → Option GoError} {call : Go α}
    {settle : Int → α → Go β} {refused : β}
    (hsettle : ∀ start out, Settles h model (err out) (settle start out)) :
    Ensures (accounted h model call settle refused) fun t b =>
      (b = refused ∧ answersOf t = [] ∧ ∀ req, Asks req t) ∨
      ∃ t₁ out t₂ start, Runs call t₁ out ∧ Runs (settle start out) t₂ b ∧
        answersOf t = answersOf t₁ ∧ ∀ req, Asks req t₁ → Asks req t := by
  intro t b hrun
  obtain ⟨-, rfl, rfl⟩ | ⟨start, t₁, out, t₂, rfl, hcall, hrun₂⟩ := runs_accounted_iff.mp hrun
  · exact .inl ⟨rfl, rfl, asks_of_quiet (by simp [Quiet])⟩
  · have hbefore : ∀ e ∈ h.admission model ++ [⟨.now, start⟩], Quiet e :=
      forall_mem_append.mpr ⟨forall_mem_admission h model trivial, by simp [Quiet]⟩
    have hafter : ∀ e ∈ t₂, Quiet e := by
      obtain ⟨pre, post, rfl, hpre, hpost⟩ := hsettle start out t₂ b hrun₂
      exact forall_mem_append.mpr ⟨fun e he => (hpre e he).quiet,
        forall_mem_append.mpr ⟨forall_mem_outcome h model _ fun _ => trivial,
          fun e he => (hpost e he).quiet⟩⟩
    refine .inr ⟨t₁, out, t₂, start, hcall, hrun₂, ?_, fun req hasks => ?_⟩
    · rw [append_cons, answersOf_append (_ ++ _), answersOf_quiet hbefore, answersOf_append,
        answersOf_quiet hafter, nil_append, append_nil]
    · rw [append_cons]
      exact (asks_of_quiet hbefore req).append (hasks.append (asks_of_quiet hafter req))

/-- How a step has ended. -/
def stepOutcome (result : ExecuteResult) : Option GoError → StepOutcome
  | some e => .failed e
  | none => (result.response.map .ok).getD .panicked

theorem settleStep_outcome (stepReq : RequestEnvelope) (start : Int)
    (out : ExecuteResult × Option GoError) :
    Ensures (settleStep h r stepReq start out) fun _ b => b = stepOutcome out.1 out.2 := by
  obtain ⟨result, err⟩ := out
  refine after fun stop => after fun _ => ?_
  cases err with
  | some e => exact after fun _ => after fun _ => ensures_ret.mpr rfl
  | none =>
    cases hresp : result.response with
    | none =>
      refine ensures_ret.mpr ?_
      rw [stepOutcome, hresp]
      rfl
    | some resp =>
      refine after fun _ => after fun _ => ensures_ret.mpr ?_
      rw [stepOutcome, hresp]
      rfl

/-- A step is answered, fails or is refused. -/
inductive StepRun (req : RequestEnvelope) (t : Trace effects) : StepOutcome → Prop where
  | ok {resp : ResponseEnvelope} (h : answersOf t = [(req, resp)]) : StepRun req t (.ok resp)
  | failed {e : GoError} (h : answersOf t = []) : StepRun req t (.failed e)
  | circuitOpen (h : answersOf t = []) : StepRun req t .circuitOpen

theorem settleLastStep_reply (stepReq : RequestEnvelope) (start : Int)
    (out : ExecuteResult × Option GoError × StreamTotals) :
    Ensures (settleLastStep h r stepReq start out) fun _ reply => reply = .stream out.2.2.sent := by
  obtain ⟨result, err, totals⟩ := out
  refine after fun _ => after fun stop => ?_
  exact after fun _ => after fun _ => ensures_ret.mpr rfl

theorem adjustTokenBudget_step (model : String) (messages : List Message) :
    adjustTokenBudget { model := model, messages := messages } =
      { model := model, messages := messages } := by
  unfold adjustTokenBudget
  exact if_pos (.inr (le_refl _))

theorem runChainStep_run (hattempts : 1 ≤ h.retryCfg.maxAttempts) (model : String)
    (messages : List Message) :
    Ensures (h.runChainStep r model messages) fun t out =>
      StepRun { model := model, messages := messages } t out ∧
        Asks { model := model, messages := messages } t := by
  rw [runChainStep_eq, adjustTokenBudget_step]
  refine (accounted_split (settleStep_settles h r
    { model := model, messages := messages })).mono ?_
  rintro t b (⟨rfl, ht, hasks⟩ | ⟨t₁, out, t₂, start, hcall, hsettle, hanswers, hasks⟩)
  · exact ⟨.circuitOpen ht, hasks _⟩
  · refine ⟨?_, hasks _ (execute_asks _ _ t₁ out hcall)⟩
    rw [settleStep_outcome _ _ _ _ _ hsettle]
    obtain ⟨resp, hresp, hnone, ht₁⟩ | ⟨⟨e, he⟩, ht₁⟩ := execute_answers hattempts _ _ t₁ out hcall
    · rw [hnone, stepOutcome, hresp]
      exact .ok (hanswers.trans ht₁)
    · rw [he]
      exact .failed (hanswers.trans ht₁)

theorem streamChainStep_run (chainName model : String) (messages : List Message) :
    Ensures (h.streamChainStep r chainName model messages) fun t reply =>
      reply ≠ .panicked ∧ answersOf t = [] ∧
        Asks { model := model, messages := messages } t := by
  rw [streamChainStep_eq, adjustTokenBudget_step]
  split
  · exact ensures_ret.mpr ⟨by simp [noFlusher], rfl, forall_mem_nil _⟩
  · refine (accounted_split (settleLastStep_settles h r
      { model := model, messages := messages })).mono ?_
    rintro t b (⟨rfl, ht, hasks⟩ | ⟨t₁, out, t₂, start, hcall, hsettle, hanswers, hasks⟩)
    · exact ⟨by simp [chainCircuitOpen], ht, hasks _⟩
    · refine ⟨?_, hanswers.trans (executeStream_answers _ _ _ _ t₁ out hcall),
        hasks _ (executeStream_asks _ _ _ _ t₁ out hcall)⟩
      rw [settleLastStep_reply _ _ _ _ _ hsettle]
      exact Reply.noConfusion

end

/-! ## Sequential chains -/

/-- The reply is an error. -/
def IsError : Reply → Prop
  | .error _ _ _ => True
  | _ => False

theorem stepMessages_eq_none_iff {base : List Message} {previous : Option ResponseEnvelope}
    {prompt : String} :
    stepMessages base previous prompt = none ↔
      ∃ resp ∈ previous, resp.choices = [] := by
  cases previous with
  | none => simp [stepMessages]
  | some resp =>
    cases hchoices : resp.choices with
    | nil | cons => simp [stepMessages, hchoices]

section

variable {h : ChatHandler} {r : HttpRequest} {c : Chain} {req : RequestEnvelope}

/-- How many steps are not streamed. -/
def plainSteps (req : RequestEnvelope) (models : List String) : Nat :=
  models.length - if req.stream then 1 else 0

variable {models : List String}

/-- A reply that the rest of a chain reads has no choice. -/
def Trips (models : List String) (previous : Option ResponseEnvelope)
    (answers : List (RequestEnvelope × ResponseEnvelope)) : Prop :=
  models ≠ [] ∧ ∃ resp ∈ previous.toList ++ (answers.map Prod.snd).take (models.length - 1),
    resp.choices = []

theorem trips_cons_iff {model : String} {previous : Option ResponseEnvelope}
    {a : RequestEnvelope × ResponseEnvelope} {answers : List (RequestEnvelope × ResponseEnvelope)}
    (hprevious : ¬ ∃ resp ∈ previous, resp.choices = []) :
    Trips (model :: models) previous (a :: answers) ↔ Trips models (some a.2) answers := by
  have hskip (xs : List ResponseEnvelope) : (∃ resp ∈ previous.toList ++ xs, resp.choices = []) ↔
      ∃ resp ∈ xs, resp.choices = [] := by
    constructor
    · rintro ⟨resp, hmem, hchoices⟩
      obtain hmem | hmem := mem_append.mp hmem
      · exact absurd ⟨resp, Option.mem_toList.mp hmem, hchoices⟩ hprevious
      · exact ⟨resp, hmem, hchoices⟩
    · rintro ⟨resp, hmem, hchoices⟩
      exact ⟨resp, mem_append_right _ hmem, hchoices⟩
  rw [Trips, hskip, Trips]
  cases models with
  | nil | cons => simp

theorem not_trips_nil {previous : Option ResponseEnvelope}
    (hprevious : ¬ ∃ resp ∈ previous, resp.choices = []) : ¬ Trips models previous [] := by
  rintro ⟨-, resp, hmem, hchoices⟩
  refine hprevious ⟨resp, ?_, hchoices⟩
  simpa using hmem

theorem sequentialSteps_run (hattempts : 1 ≤ h.retryCfg.maxAttempts) :
    ∀ (models prompts : List String) (previous : Option ResponseEnvelope),
      prompts.length = models.length → (models = [] → previous ≠ none) →
      Ensures (h.sequentialSteps r c req models prompts previous) fun t reply =>
        (reply = .panicked ↔ Trips models previous (answersOf t)) ∧
          (reply ≠ .panicked → (answersOf t).length < plainSteps req models → IsError reply)
  | [], _, none, _, hprevious => absurd rfl (hprevious rfl)
  | [], _, some resp, _, _ => by
    refine ensures_ret.mpr ⟨iff_of_false Reply.noConfusion fun h => h.1 rfl, fun _ hlt => ?_⟩
    simp [plainSteps] at hlt
  | _ :: _, [], _, hlength, _ => by cases hlength
  | model :: models, prompt :: prompts, previous, hlength, _ => by
    unfold sequentialSteps
    split
    · next hnone =>
      obtain ⟨resp, hmem, hchoices⟩ := stepMessages_eq_none_iff.mp hnone
      refine ensures_ret.mpr ⟨iff_of_true rfl ⟨cons_ne_nil _ _, resp, ?_, hchoices⟩,
        fun h => absurd rfl h⟩
      exact mem_append_left _ (Option.mem_toList.mpr hmem)
    · next messages hmessages =>
      have hprevious : ¬ ∃ resp ∈ previous, resp.choices = [] := by
        rw [← stepMessages_eq_none_iff, hmessages]
        exact Option.some_ne_none messages
      split
      · next hlast =>
        refine (streamChainStep_run _ _ _).mono fun t reply hrun => ?_
        obtain ⟨hreply, hanswers, -⟩ := hrun
        rw [hanswers]
        refine ⟨iff_of_false hreply (not_trips_nil hprevious), fun _ hlt => ?_⟩
        obtain ⟨hnil, hstream⟩ := Bool.and_eq_true_iff.mp hlast
        rw [plainSteps, hstream, List.isEmpty_iff.mp hnil] at hlt
        cases hlt
      · refine (runChainStep_run hattempts _ _).bind fun t out hrun => ?_
        cases hrun.1 with
        | ok ht =>
          refine (sequentialSteps_run hattempts models prompts _
            (Nat.succ.inj hlength) fun _ => Option.some_ne_none _).mono ?_
          rintro t' reply ⟨hpanicked, herror⟩
          rw [answersOf_append, ht, singleton_append, trips_cons_iff hprevious]
          refine ⟨hpanicked, fun hreply hlt => herror hreply ?_⟩
          rw [plainSteps, length_cons, length_cons] at hlt
          rw [plainSteps]
          omega
        | failed ht | circuitOpen ht =>
          refine ensures_ret.mpr ?_
          rw [append_nil, ht]
          exact ⟨iff_of_false Reply.noConfusion (not_trips_nil hprevious),
            fun _ _ => trivial⟩

end

/-! ## Fusion chains -/

/-- An answer as the outcome of a step. -/
def stepOf (a : RequestEnvelope × ResponseEnvelope) : String × StepOutcome := (a.1.model, .ok a.2)

/-- The answers of the panel. -/
def panelOf (messages : List Message) (results : List (String × StepOutcome)) :
    List (RequestEnvelope × ResponseEnvelope) :=
  results.filterMap fun
    | (model, .ok resp) => some ({ model := model, messages := messages }, resp)
    | _ => none

/-- The answers to the question itself. -/
def panelAnswers (req : RequestEnvelope) (t : Trace effects) :
    List (RequestEnvelope × ResponseEnvelope) :=
  (answersOf t).filter fun a => a.1.messages = req.messages

theorem judgeCandidates_panelOf (messages : List Message) (results : List (String × StepOutcome)) :
    judgeCandidates ((panelOf messages results).map stepOf) =
      judgeCandidates results := by
  induction results with
  | nil => rfl
  | cons result results ih =>
    obtain ⟨model, out⟩ := result
    cases out with
    | ok resp =>
      have hcons : panelOf messages ((model, .ok resp) :: results) =
          ({ model := model, messages := messages }, resp) :: panelOf messages results := rfl
      rw [hcons, map_cons, stepOf, judgeCandidates, ih, judgeCandidates]
    | _ => exact ih

theorem judgeCandidates_eq_none_iff {answers : List (RequestEnvelope × ResponseEnvelope)} :
    judgeCandidates (answers.map stepOf) = none ↔
      ∃ a ∈ answers, a.2.choices = [] := by
  induction answers with
  | nil => simp [judgeCandidates]
  | cons a answers ih =>
    rw [map_cons, stepOf, judgeCandidates]
    cases hchoices : a.2.choices with
    | nil => simp [hchoices]
    | cons choice choices => simp [hchoices, ih]

theorem buildJudgeMessages_panelOf (messages : List Message)
    (results : List (String × StepOutcome)) :
    buildJudgeMessages messages ((panelOf messages results).map stepOf) =
      buildJudgeMessages messages results := by
  rw [buildJudgeMessages, judgeCandidates_panelOf, buildJudgeMessages]

section

variable {h : ChatHandler} {r : HttpRequest} {c : Chain} {req : RequestEnvelope}

/-- The providers are only asked `messages`. -/
def AsksMessages (messages : List Message) (t : Trace effects) : Prop :=
  ∀ e ∈ t, ∀ req', requested e = some req' → req'.messages = messages

variable {t : Trace effects} {models : List String} {outs : List StepOutcome}

theorem Asks.messages (h : Asks req t) : AsksMessages req.messages t := by
  intro e he req' hreq
  rw [h e he req' hreq]

variable {messages : List Message}

/-- What the steps of a panel come to, with the events of all of them. -/
structure PanelRun (messages : List Message) (models : List String) (t : Trace effects)
    (outs : List StepOutcome) : Prop where
  noPanic : StepOutcome.panicked ∉ outs
  answers : (answersOf t).Perm (panelOf messages (models.zip outs))
  asks : AsksMessages messages t
  succeeded : outs.any (fun out => out matches .ok _) = true ↔
    panelOf messages (models.zip outs) ≠ []

theorem panelRun_cons {model : String} {t' : Trace effects} {out : StepOutcome}
    (hstep : StepRun { model := model, messages := messages } t out)
    (hasks : Asks { model := model, messages := messages } t)
    (hpanel : PanelRun messages models t' outs) :
    PanelRun messages (model :: models) (t ++ t') (out :: outs) := by
  have hasks : AsksMessages messages (t ++ t') :=
    forall_mem_append.mpr ⟨hasks.messages, hpanel.asks⟩
  cases hstep with
  | @ok resp ht =>
    refine ⟨by simpa using hpanel.noPanic, ?_, hasks, iff_of_true rfl (cons_ne_nil _ _)⟩
    rw [answersOf_append, ht]
    exact hpanel.answers.cons _
  | failed ht | circuitOpen ht =>
    refine ⟨by simpa using hpanel.noPanic, ?_, hasks, hpanel.succeeded⟩
    rw [answersOf_append, ht]
    exact hpanel.answers

theorem panelRun_of_runs
    {runs : List (Trace effects × StepOutcome)}
    (hruns : Forall₂ (fun model run =>
      StepRun { model := model, messages := messages } run.1 run.2 ∧
        Asks { model := model, messages := messages } run.1) models runs) :
    PanelRun messages models (runs.map Prod.fst).flatten (runs.map Prod.snd) := by
  induction hruns with
  | nil =>
    exact ⟨not_mem_nil, .refl _, forall_mem_nil _,
      iff_of_false Bool.false_ne_true fun h => h rfl⟩
  | cons hrun _ ih => exact panelRun_cons hrun.1 hrun.2 ih

theorem panel_run (hattempts : 1 ≤ h.retryCfg.maxAttempts) (models : List String)
    (messages : List Message) :
    Ensures (Prog.parList Go.schedule
      (models.map fun model => h.runChainStep r model messages)) (PanelRun messages models) := by
  intro t outs hrun
  have hschedule : Emits Go.schedule Quiet := emits_perform fun _ => trivial
  obtain ⟨runs, t₀, rfl, hruns, ht, ht₀⟩ := hrun.parList_split hschedule
  rw [forall₂_map_left_iff] at hruns
  have hpanel := panelRun_of_runs (hruns.imp fun model run hrun =>
    runChainStep_run hattempts model messages _ _ hrun)
  refine ⟨hpanel.noPanic, ?_, fun e he => ?_, hpanel.succeeded⟩
  · have hperm := ht.filterMap answerOf
    rw [filterMap_append] at hperm
    have hquiet : t₀.filterMap answerOf = [] := answersOf_quiet ht₀
    rw [hquiet, append_nil] at hperm
    exact hperm.trans hpanel.answers
  · obtain he | he := mem_append.mp (ht.mem_iff.mp he)
    · exact hpanel.asks e he
    · intro req' hreq
      rw [(ht₀ e he).requested] at hreq
      cases hreq

theorem panelAnswers_append (t t' : Trace effects) :
    panelAnswers req (t ++ t') = panelAnswers req t ++ panelAnswers req t' := by
  rw [panelAnswers, answersOf_append, filter_append, panelAnswers, panelAnswers]

/-- Only those who get the caller's messages are on the panel. -/
theorem panelAnswers_of_asks (h : AsksMessages messages t) :
    panelAnswers req t = if messages = req.messages then answersOf t else [] := by
  have hasked {a : RequestEnvelope × ResponseEnvelope} (ha : a ∈ answersOf t) :
      a.1.messages = messages := by
    obtain ⟨e, he, hae⟩ := mem_filterMap.mp ha
    exact h e he _ (requested_of_answerOf hae)
  split
  · next hsame =>
    exact filter_eq_self.mpr fun a ha => decide_eq_true ((hasked ha).trans hsame)
  · next hother =>
    exact filter_eq_nil_iff.mpr fun a ha => by simpa [hasked ha] using hother

theorem judge_run (hattempts : 1 ≤ h.retryCfg.maxAttempts) (messages : List Message) :
    Ensures (h.judge r c req messages) fun t reply =>
      reply ≠ .panicked ∧ AsksMessages messages t ∧
        (req.stream = false → answersOf t = [] → IsError reply) := by
  unfold judge
  split
  · next hstream =>
    refine (streamChainStep_run _ _ _).mono fun t reply ⟨hreply, _, hasks⟩ => ?_
    refine ⟨hreply, hasks.messages, fun hplain => ?_⟩
    rw [hplain] at hstream
    cases hstream
  · refine (runChainStep_run hattempts _ _).bind fun t out ⟨hstep, hasks⟩ => ?_
    cases hstep with
    | ok ht =>
      refine ensures_ret.mpr ?_
      rw [append_nil, ht]
      exact ⟨Reply.noConfusion, hasks.messages, fun _ hnil => absurd hnil (cons_ne_nil _ _)⟩
    | failed ht | circuitOpen ht =>
      refine ensures_ret.mpr ?_
      rw [append_nil]
      exact ⟨Reply.noConfusion, hasks.messages, fun _ _ => trivial⟩

/-- How a fusion chain ends that does not trip. -/
structure FusionEnd (req : RequestEnvelope) (t : Trace effects) (reply : Reply) : Prop where
  /-- Without an answer of the panel there is an error. -/
  failed : panelAnswers req t = [] → IsError reply
  /-- Without an answer of the judge too, unless it is streamed. -/
  unjudged : req.stream = false → answersOf t = panelAnswers req t → IsError reply
  /-- Members of the panel get the caller's messages.  The judge gets the answers, and nothing for
  the members that did not answer. -/
  asked : ∀ e ∈ t, ∀ req', requested e = some req' → req'.messages = req.messages ∨
    ∃ candidates : List (RequestEnvelope × ResponseEnvelope),
      candidates.Perm (panelAnswers req t) ∧
      buildJudgeMessages req.messages (candidates.map stepOf) = some req'.messages

theorem PanelRun.panelAnswers_eq (h : PanelRun req.messages models t outs) :
    panelAnswers req t = answersOf t := by
  rw [panelAnswers_of_asks h.asks, if_pos rfl]

theorem PanelRun.succeeded_iff (h : PanelRun messages models t outs) :
    outs.any (fun out => out matches .ok _) = true ↔ answersOf t ≠ [] := by
  rw [h.succeeded, ne_eq, ne_eq, ← length_eq_zero_iff, ← h.answers.length_eq, length_eq_zero_iff]

theorem PanelRun.judged (hattempts : 1 ≤ h.retryCfg.maxAttempts)
    (hpanel : PanelRun req.messages models t outs) (hsome : answersOf t ≠ [])
    (hmessages : buildJudgeMessages req.messages (models.zip outs) = some messages) :
    Ensures (h.judge r c req messages) fun t' reply =>
      reply ≠ .panicked ∧ panelAnswers req (t ++ t') = answersOf t ∧
        FusionEnd req (t ++ t') reply := by
  refine (judge_run hattempts messages).mono fun t' reply ⟨hreply, hasks, herror⟩ => ?_
  have hne : messages ≠ req.messages := by
    obtain ⟨texts, -, rfl⟩ := Option.map_eq_some_iff.mp hmessages
    simp
  have hall : panelAnswers req (t ++ t') = answersOf t := by
    rw [panelAnswers_append, hpanel.panelAnswers_eq, panelAnswers_of_asks hasks, if_neg hne,
      append_nil]
  refine ⟨hreply, hall, ?_, ?_, ?_⟩
  · exact fun hnil => absurd (hall.symm.trans hnil) hsome
  · intro hplain hsame
    rw [hall, answersOf_append] at hsame
    exact herror hplain (append_right_eq_self.mp hsame)
  · refine forall_mem_append.mpr ⟨fun e he req' hreq => .inl ?_, fun e he req' hreq => .inr ?_⟩
    · exact hpanel.asks e he req' hreq
    · refine ⟨panelOf req.messages (models.zip outs), ?_, ?_⟩
      · rw [hall]
        exact hpanel.answers.symm
      · rw [buildJudgeMessages_panelOf, hmessages, hasks e he req' hreq]

theorem handleFusionChain_run (hattempts : 1 ≤ h.retryCfg.maxAttempts) :
    Ensures (h.handleFusionChain r c req) fun t reply =>
      (reply = .panicked ↔ ∃ a ∈ panelAnswers req t, a.2.choices = []) ∧
        (reply ≠ .panicked → FusionEnd req t reply) := by
  unfold handleFusionChain
  refine (panel_run hattempts c.models req.messages).bind fun t outs hpanel => ?_
  have htrips : buildJudgeMessages req.messages (c.models.zip outs) = none ↔
      ∃ a ∈ answersOf t, a.2.choices = [] := by
    rw [← buildJudgeMessages_panelOf, buildJudgeMessages, Option.map_eq_none_iff,
      judgeCandidates_eq_none_iff]
    simp only [hpanel.answers.mem_iff]
  dsimp only
  split
  · next hmem => exact absurd (contains_iff_mem.mp hmem) hpanel.noPanic
  · split
    · next hany =>
      cases hmessages : buildJudgeMessages req.messages (c.models.zip outs) with
      | none =>
        refine ensures_ret.mpr ⟨iff_of_true rfl ?_, fun h => absurd rfl h⟩
        rw [append_nil, hpanel.panelAnswers_eq]
        exact htrips.mp hmessages
      | some messages =>
        refine (hpanel.judged hattempts (hpanel.succeeded_iff.mp hany) hmessages).mono ?_
        rintro t' reply ⟨hreply, hall, hend⟩
        refine ⟨iff_of_false hreply ?_, fun _ => hend⟩
        rw [hall, ← htrips, hmessages]
        exact Option.some_ne_none messages
    · next hnone =>
      have hnil : answersOf t = [] := not_not.mp fun h => hnone (hpanel.succeeded_iff.mpr h)
      refine ensures_ret.mpr ?_
      rw [append_nil, hpanel.panelAnswers_eq, hnil]
      refine ⟨iff_of_false Reply.noConfusion (by simp), fun _ => ⟨fun _ => trivial,
        fun _ _ => trivial, fun e he req' hreq => .inl (hpanel.asks e he req' hreq)⟩⟩

end

/-! ## Any chain of the registry -/

/-- The answers that a chain reads: those of all steps but the last, or those of the panel. -/
def readAnswers (c : Chain) (req : RequestEnvelope) (t : Trace effects) : List ResponseEnvelope :=
  match c.strategy with
  | .sequential => ((answersOf t).map Prod.snd).take (c.models.length - 1)
  | .fusion => (panelAnswers req t).map Prod.snd

/-- A step without an answer leads to an error, or is left out. -/
def Copes (c : Chain) (req : RequestEnvelope) (t : Trace effects) (reply : Reply) : Prop :=
  match c.strategy with
  | .sequential => (answersOf t).length < plainSteps req c.models → IsError reply
  | .fusion => FusionEnd req t reply

/-- A chain gets through a run just when all answers it reads have a choice, and then it copes with
the steps that have no answer. -/
theorem chain_survives_iff {quote : String → String} {defs : List (String × Chain.Def)}
    {reg : Chain.Registry} (hreg : Chain.buildRegistry quote defs = .ok reg) {name : String}
    {c : Chain} (hc : reg.lookup name = some c) {h : ChatHandler}
    (hattempts : 1 ≤ h.retryCfg.maxAttempts) (r : HttpRequest) (req : RequestEnvelope) :
    Ensures (h.handleChain r c req) fun t reply =>
      (reply ≠ .panicked ↔ ∀ resp ∈ readAnswers c req t, resp.choices ≠ []) ∧
        (reply ≠ .panicked → Copes c req t reply) := by
  have hformed := Chain.buildRegistry_wellFormed hreg hc
  unfold handleChain
  cases hstrategy : c.strategy with
  | sequential =>
    simp only [Chain.WellFormed, hstrategy] at hformed
    refine (sequentialSteps_run hattempts c.models c.prompts none hformed.2
      fun hnil => absurd hnil hformed.1).mono ?_
    rintro t reply ⟨hpanicked, herror⟩
    simp only [readAnswers, Copes, hstrategy]
    refine ⟨?_, herror⟩
    rw [ne_eq, hpanicked, Trips]
    simp [hformed.1]
  | fusion =>
    refine (handleFusionChain_run hattempts).mono ?_
    rintro t reply ⟨hpanicked, hend⟩
    simp only [readAnswers, Copes, hstrategy]
    refine ⟨?_, hend⟩
    rw [ne_eq, hpanicked, forall_mem_map]
    simp only [not_exists, not_and, ne_eq]

/-- `strconv.Quote` of a plain text. -/
def quoted (text : String) : String := "\"" ++ text ++ "\""

def draftRefine : Chain where
  name := "draft-refine"
  strategy := .sequential
  models := ["fast", "strong"]
  prompts := ["", "Refine the answer."]

theorem draftRefine_registered (quote : String → String) :
    Chain.buildRegistry quote [("draft-refine",
      { models := ["fast", "strong"], prompts := ["", "Refine the answer."] })] =
        .ok [("draft-refine", draftRefine)] := rfl

def bareHandler : ChatHandler where
  router := fun _ => .ok ⟨0, "openai"⟩
  hasBus := false
  hasRegistry := false

def answeredStep (req : RequestEnvelope) (resp : ResponseEnvelope) : Trace effects :=
  [⟨.now, 0⟩, ⟨.lookup req.model, ()⟩, ⟨.chat ⟨0, "openai"⟩ req, .ok resp⟩, ⟨.now, 0⟩]

theorem runs_answeredStep (r : HttpRequest) (model : String) (messages : List Message)
    (resp : ResponseEnvelope) :
    Runs (bareHandler.runChainStep r model messages)
      (answeredStep { model := model, messages := messages } resp) (.ok resp) := by
  have hexecute : Runs (execute { model := model } { model := model, messages := messages }
      bareHandler.router bareHandler.retryCfg)
      [⟨.lookup model, ()⟩,
        ⟨.chat ⟨0, "openai"⟩ { model := model, messages := messages }, .ok resp⟩]
      ({ response := some resp, provider := some ⟨0, "openai"⟩, model := model,
         fallbackFrom := model, attempts := 1 }, none) :=
    runs_execute_iff.mpr ⟨_, none, some resp, rfl,
      .success rfl (chatWithRetry_success (by decide) _ _ _ resp)⟩
  rw [runChainStep_eq, adjustTokenBudget_step]
  exact runs_accounted_iff.mpr (.inr ⟨0, _, _, [⟨.now, 0⟩], rfl, hexecute, .ask .ret⟩)

def draftRequest : RequestEnvelope where
  model := "draft-refine"
  messages := [{ role := "user", content := "What is a monad?" }]

theorem runs_draft {resp : ResponseEnvelope} {t : Trace effects} {reply : Reply}
    (hrest : Runs (bareHandler.sequentialSteps {} draftRefine draftRequest ["strong"]
      ["Refine the answer."] (some resp)) t reply) :
    Runs (bareHandler.handleChain {} draftRefine draftRequest)
      (answeredStep { model := "fast", messages := draftRequest.messages } resp ++ t) reply :=
  runs_bind_iff.mpr ⟨_, _, t, rfl, runs_answeredStep {} "fast" draftRequest.messages resp, hrest⟩

def oneChoice : ResponseEnvelope where
  choices := [{ message := { role := "assistant", content := "A monoid." } }]

/-- A draft with a choice is refined. -/
theorem draft_refined : ∃ t reply,
    Runs (bareHandler.handleChain {} draftRefine draftRequest) t reply ∧
      (answersOf t).length = 2 ∧ reply ≠ .panicked := by
  have hrefined := runs_answeredStep {} "strong"
    (draftRequest.messages ++ [{ role := "assistant", content := "A monoid." }] ++
      [{ role := "user", content := "Refine the answer." }]) oneChoice
  have hrest : Runs (bareHandler.sequentialSteps {} draftRefine draftRequest ["strong"]
      ["Refine the answer."] (some oneChoice)) _
      (.ok (some { oneChoice with model := "draft-refine" })) :=
    runs_bind_iff.mpr ⟨_, _, [], rfl, hrefined, .ret⟩
  have hrun := runs_draft hrest
  have hlookup : List.lookup "draft-refine" [("draft-refine", draftRefine)] = some draftRefine :=
    rfl
  refine ⟨_, _, hrun, rfl, ?_⟩
  refine (chain_survives_iff (draftRefine_registered quoted) hlookup (by decide) {} draftRequest _ _
    hrun).1.mpr ?_
  show ∀ resp ∈ [oneChoice], resp.choices ≠ []
  exact forall_mem_singleton.mpr (cons_ne_nil _ _)

/-- A draft without a choice is a panic. -/
theorem empty_draft_panics :
    Chain.buildRegistry quoted [("draft-refine",
      { models := ["fast", "strong"], prompts := ["", "Refine the answer."] })] =
        .ok [("draft-refine", draftRefine)] ∧
      Runs (bareHandler.handleChain {} draftRefine draftRequest)
        (answeredStep { model := "fast", messages := draftRequest.messages } { choices := [] })
        .panicked :=
  ⟨draftRefine_registered quoted, runs_draft .ret⟩

end Ixr.Ingress
