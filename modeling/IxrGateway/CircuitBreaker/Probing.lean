import IxrGateway.CircuitBreaker.Runs

/-!
# Outcomes and the requests they belong to

An outcome carries no link to the admission that led to it.  So a breaker that
is half open counts every success as a passed probe and takes every failure as a
failed one, also those of requests that it admitted before it tripped.

`Traffic` is a breaker with the requests it admitted and that have not reported.
Each is stamped with the period it was admitted in, where a period lasts as long
as the breaker stays in a state.  The breaker does not see the stamps.
-/

namespace Ixr.CircuitBreaker

open Breaker

/-- A breaker, the period it is in, the periods of the requests in flight, and how many requests of
the current period have reported a success in it. -/
structure Traffic where
  breaker : Breaker
  period : Nat := 0
  flights : List Nat := []
  passed : Nat := 0
deriving Repr, DecidableEq

/-- What requests do: ask to be admitted, report an outcome, or go away without one.  The last two
name the period the request was admitted in. -/
inductive Action where
  | ask
  | report (admitted : Nat) (success : Bool)
  | leave (admitted : Nat)
deriving Repr, DecidableEq

namespace Traffic

/-- The breaker becomes `b`.  A change of state starts a new period. -/
def become (s : Traffic) (b : Breaker) : Traffic :=
  if b.state = s.breaker.state then { s with breaker := b }
  else { s with breaker := b, period := s.period + 1, passed := 0 }

/-- Count the success of a request of this period. -/
def credit (s : Traffic) (admitted : Nat) (success : Bool) : Nat :=
  if success = true ∧ admitted = s.period then s.passed + 1 else s.passed

/-- The call that reports an outcome. -/
def outcome (success : Bool) : Call := if success then .recordSuccess else .recordFailure

/-- One action at time `now`.  Only requests in flight report or leave. -/
def step (s : Traffic) (now : Int) : Action → Option Traffic
  | .ask =>
    let answer := s.breaker.allow now
    let s := s.become answer.2
    some (if answer.1 then { s with flights := s.period :: s.flights } else s)
  | .report admitted success =>
    if admitted ∈ s.flights then
      let counted :=
        { s with flights := s.flights.erase admitted, passed := s.credit admitted success }
      some (counted.become (s.breaker.call now (outcome success)).2)
    else none
  | .leave admitted =>
    if admitted ∈ s.flights then some { s with flights := s.flights.erase admitted } else none

/-- The traffic that actions in `allowed` lead to, with the time of the last one. -/
inductive Reached (allowed : Traffic → Action → Prop) (p : Policy) : Int → Traffic → Prop where
  | start {opened : Option Int} {t : Int} {b : Breaker} : Start p opened t b →
      Reached allowed p t { breaker := b }
  | step {t now : Int} {s s' : Traffic} {a : Action} : Reached allowed p t s → t ≤ now →
      allowed s a → s.step now a = some s' → Reached allowed p now s'

/-- The action closes a half-open breaker only if enough requests of its half-open period have
reported a success. -/
def ClosedByProbes (s : Traffic) (a : Action) (s' : Traffic) : Prop :=
  s.breaker.state = .stateHalfOpen → s'.breaker.state = .stateClosed →
    ∃ admitted success, a = .report admitted success ∧
      s.breaker.policy.probeCount ≤ s.credit admitted success

/-- The outcome of a request of an earlier period does not change the state. -/
def LateOutcomeIgnored (s : Traffic) (a : Action) (s' : Traffic) : Prop :=
  ∀ admitted success, a = .report admitted success → admitted ≠ s.period →
    s'.breaker.state = s.breaker.state

/-- No late outcome reaches a half-open breaker, and no late failure a closed one. -/
def Timely (s : Traffic) (a : Action) : Prop :=
  ∀ admitted success, a = .report admitted success →
    s.breaker.state = .stateHalfOpen ∨ s.breaker.state = .stateClosed ∧ success = false →
      admitted = s.period

/-! ## Probes that passed -/

@[simp] theorem become_breaker (s : Traffic) (b : Breaker) : (s.become b).breaker = b := by
  unfold become
  split
  · rfl
  · rfl

theorem become_passed (s : Traffic) (b : Breaker) :
    (s.become b).passed = if b.state = s.breaker.state then s.passed else 0 := by
  unfold become
  split
  · rfl
  · rfl

/-- The counter is that of the probes. -/
def Counted (s : Traffic) : Prop :=
  s.breaker.state = .stateHalfOpen → s.breaker.probesPassed = s.passed

variable {s s' : Traffic} {now : Int} {admitted : Nat} {success : Bool}

theorem Counted.ask {granted : Bool} {b' : Breaker} (h : s.Counted)
    (htrans : Transition s.breaker now .allow granted b') : (s.become b').Counted := by
  intro hs'
  rw [become_breaker] at hs' ⊢
  rw [become_passed]
  cases htrans with
  | pass hs | early hs => simp [hs] at hs'
  | late hs _ _ | lateSpent hs _ _ => simp [hs, halfOpen]
  | probe hs _ | spent hs _ => simpa [hs] using h hs
  | ignored hs hc => exact absurd rfl hc

theorem Timely.credit (h : s.Timely (.report admitted true))
    (hs : s.breaker.state = .stateHalfOpen) : s.credit admitted true = s.passed + 1 := by
  have hperiod := h admitted true rfl (.inl hs)
  simp [Traffic.credit, hperiod]

theorem Counted.report {granted : Bool} {b' : Breaker} (h : s.Counted)
    (htimely : s.Timely (.report admitted success))
    (htrans : Transition s.breaker now (outcome success) granted b')
    (hs' : b'.state = .stateHalfOpen) :
    s.breaker.state = .stateHalfOpen ∧ b'.probesPassed = s.credit admitted success := by
  cases success with
  | true =>
    cases htrans with
    | count hs => simp [hs] at hs'
    | passed hs _ =>
      refine ⟨hs, ?_⟩
      rw [htimely.credit hs]
      simp [h hs]
    | close hs _ => cases hs'
    | ignored hs _ => simp [hs] at hs'
  | false =>
    cases htrans with
    | trip hs _ => cases hs'
    | countFailure hs _ => simp [hs] at hs'
    | reopen hs => cases hs'
    | ignored hs _ => simp [hs] at hs'

theorem Counted.step {a : Action} (h : s.Counted) (htimely : s.Timely a)
    (hstep : s.step now a = some s') : s'.Counted := by
  cases a with
  | ask =>
    cases hstep
    have hask : (s.become (s.breaker.allow now).2).Counted :=
      h.ask (s.breaker.transition now .allow)
    split
    · exact hask
    · exact hask
  | report admitted success =>
    simp only [Traffic.step] at hstep
    split at hstep
    · cases hstep
      intro hs'
      rw [become_breaker] at hs' ⊢
      obtain ⟨hs, hcount⟩ :=
        h.report htimely (s.breaker.transition now (outcome success)) hs'
      rw [become_passed, hcount, if_pos (hs'.trans hs.symm)]
    · cases hstep
  | leave admitted =>
    simp only [Traffic.step] at hstep
    split at hstep
    · cases hstep
      exact h
    · cases hstep

theorem Reached.counted {p : Policy} {t : Int} (h : Reached Timely p t s) : s.Counted := by
  induction h with
  | start hstart =>
    cases hstart with
    | new => simp [Counted, new]
    | seed state _ => cases state <;> simp [Counted, new, setState]
  | step _ _ htimely hstep ih => exact ih.step htimely hstep

/-! ## Recovery -/

theorem ClosedByProbes.report (hcounted : s.Counted) (htimely : s.Timely (.report admitted success))
    (hstate : s'.breaker = (s.breaker.call now (outcome success)).2) :
    s.ClosedByProbes (.report admitted success) s' := by
  intro hs hclosed
  refine ⟨admitted, success, rfl, ?_⟩
  have htrans := s.breaker.transition now (outcome success)
  rw [hstate] at hclosed
  generalize (s.breaker.call now (outcome success)).1 = granted at htrans
  generalize (s.breaker.call now (outcome success)).2 = b' at htrans hclosed
  cases success with
  | true =>
    cases htrans with
    | count hs' | ignored hs' _ => simp [hs] at hs'
    | passed _ _ => simp [hs] at hclosed
    | close _ hpassed =>
      rw [htimely.credit hs]
      rw [hcounted hs] at hpassed
      simpa using hpassed
  | false =>
    cases htrans with
    | trip hs' _ | countFailure hs' _ | ignored hs' _ => simp [hs] at hs'
    | reopen _ => cases hclosed

/-- What is late and still allowed changes nothing: it reaches an open breaker, or it is a success
that reaches a closed one. -/
theorem LateOutcomeIgnored.report (htimely : s.Timely (.report admitted success))
    (hstate : s'.breaker = (s.breaker.call now (outcome success)).2) :
    s.LateOutcomeIgnored (.report admitted success) s' := by
  rintro _ _ ⟨⟩ hlate
  have hquiet := mt (htimely admitted success rfl) hlate
  rw [hstate]
  cases hs : s.breaker.state with
  | stateHalfOpen => exact absurd (.inl hs) hquiet
  | stateOpen =>
    cases success with
    | true => simpa [outcome, call, recordSuccess_of_open hs] using hs
    | false => simpa [outcome, call, recordFailure_of_open hs] using hs
  | stateClosed =>
    cases success with
    | true => simpa [outcome, call, recordSuccess_of_closed hs] using hs
    | false => exact absurd (.inr ⟨hs, rfl⟩) hquiet

/-- As long as reports are timely, a half-open breaker closes only on the successes of enough
requests of its own period, and outcomes of earlier periods change nothing. -/
theorem recovery_needs_probes {p : Policy} {t now : Int} {s s' : Traffic} {a : Action}
    (h : Reached Timely p t s) (htimely : s.Timely a) (hstep : s.step now a = some s') :
    s.ClosedByProbes a s' ∧ s.LateOutcomeIgnored a s' := by
  cases a with
  | ask =>
    refine ⟨fun hs hclosed => ?_, by rintro _ _ ⟨⟩⟩
    have hsame : (s.breaker.allow now).2.state = .stateHalfOpen := by
      rw [allow_of_halfOpen hs, probe_state, hs]
    simp only [step, Option.some.injEq] at hstep
    subst hstep
    split at hclosed
    · simp [hsame] at hclosed
    · simp [hsame] at hclosed
  | report admitted success =>
    simp only [step] at hstep
    split at hstep
    · cases hstep
      have hstate := become_breaker { s with flights := s.flights.erase admitted
                                             passed := s.credit admitted success }
        (s.breaker.call now (outcome success)).2
      exact ⟨.report h.counted htimely hstate, .report htimely hstate⟩
    · cases hstep
  | leave admitted =>
    simp only [step] at hstep
    split at hstep
    · cases hstep
      refine ⟨fun hs hclosed => ?_, by rintro _ _ ⟨⟩⟩
      simp [hs] at hclosed
    · cases hstep

/-! ## A late success -/

def twoAdmitted : Traffic where
  breaker := .new hairTrigger 0
  flights := [0, 0]

def oneFailed : Traffic where
  breaker := { new hairTrigger 0 with state := .stateOpen, failures := 1, total := 1 }
  period := 1
  flights := [0]

def probeAdmitted : Traffic where
  breaker := { oneFailed.breaker with state := .stateHalfOpen, probesSent := 1 }
  period := 2
  flights := [2, 0]

theorem probeAdmitted_reached {allowed : Traffic → Action → Prop}
    (hask : ∀ s, allowed s .ask) (hreport : allowed twoAdmitted (.report 0 false)) :
    Reached allowed hairTrigger 10 probeAdmitted := by
  have hfirst : Reached allowed hairTrigger 0 { breaker := .new hairTrigger 0, flights := [0] } :=
    .step (.start .new) (le_refl 0) (hask _) rfl
  have htwo : Reached allowed hairTrigger 0 twoAdmitted :=
    .step hfirst (le_refl 0) (hask _) rfl
  have htripped : Reached allowed hairTrigger 0 oneFailed :=
    .step htwo (le_refl 0) hreport (by decide +kernel)
  exact .step htripped (by decide) (hask _) rfl

/-- The probe's success closes the breaker. -/
theorem probe_closes_hairTrigger :
    ∃ s', probeAdmitted.step 11 (.report 2 true) = some s' ∧
      s'.breaker.state = .stateClosed ∧ probeAdmitted.ClosedByProbes (.report 2 true) s' := by
  refine ⟨_, rfl, rfl, (recovery_needs_probes (probeAdmitted_reached ?_ ?_) ?_ rfl).1⟩
  · rintro s _ _ ⟨⟩
  · rintro _ _ ⟨⟩ _
    rfl
  · rintro _ _ ⟨⟩ _
    rfl

/-- The success of the request from before the trip closes the breaker while the only probe is in
flight. -/
theorem late_success_closes :
    ∃ s', Reached (fun _ _ => True) hairTrigger 10 probeAdmitted ∧
      probeAdmitted.step 11 (.report 0 true) = some s' ∧
      ¬ probeAdmitted.ClosedByProbes (.report 0 true) s' := by
  refine ⟨_, probeAdmitted_reached (fun _ => trivial) trivial, rfl, fun hclosed => ?_⟩
  obtain ⟨admitted, success, haction, hprobes⟩ := hclosed rfl rfl
  cases haction
  exact absurd hprobes (by decide)

end Traffic

end Ixr.CircuitBreaker
