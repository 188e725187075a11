import IxrGateway.CircuitBreaker.Breaker

/-!
# Runs of a breaker

A run is a sequence of calls at times that do not go back.  `Transition` lists
what a call can do, one constructor for each way through the methods, so that
facts about runs are case analyses over it.

The log of a run keeps what a caller can see: when a call was made, what it
returned, and the states around it.  When the breaker last opened and how many
probes the current half-open period has granted are read off the log.
-/

namespace Ixr.CircuitBreaker

open List Breaker

/-- The methods of a breaker. -/
inductive Call where
  | allow
  | recordSuccess
  | recordFailure
deriving Repr, DecidableEq

/-- Make a call.  Only `allow` returns something. -/
def Breaker.call (b : Breaker) (now : Int) : Call → Bool × Breaker
  | .allow => b.allow now
  | .recordSuccess => (false, b.recordSuccess now)
  | .recordFailure => (false, b.recordFailure now)

/-! ## What a call can do -/

/-- The ways a call at time `now` can go. -/
inductive Transition (b : Breaker) (now : Int) : Call → Bool → Breaker → Prop where
  | pass : b.state = .stateClosed → Transition b now .allow true (b.roll now)
  | early : b.state = .stateOpen → now - b.openedAt < b.policy.halfOpenAfter →
      Transition b now .allow false b
  | late : b.state = .stateOpen → b.policy.halfOpenAfter ≤ now - b.openedAt →
      0 < b.policy.probeCount →
      Transition b now .allow true { b.halfOpen with probesSent := 1 }
  | lateSpent : b.state = .stateOpen → b.policy.halfOpenAfter ≤ now - b.openedAt →
      b.policy.probeCount ≤ 0 → Transition b now .allow false b.halfOpen
  | probe : b.state = .stateHalfOpen → b.probesSent < b.policy.probeCount →
      Transition b now .allow true { b with probesSent := b.probesSent + 1 }
  | spent : b.state = .stateHalfOpen → b.policy.probeCount ≤ b.probesSent →
      Transition b now .allow false b
  | count : b.state = .stateClosed →
      Transition b now .recordSuccess false { b with total := b.total + 1 }
  | passed : b.state = .stateHalfOpen → b.probesPassed + 1 < b.policy.probeCount →
      Transition b now .recordSuccess false { b with probesPassed := b.probesPassed + 1 }
  | close : b.state = .stateHalfOpen → b.policy.probeCount ≤ b.probesPassed + 1 →
      Transition b now .recordSuccess false
        { b with state := .stateClosed, failures := 0, total := 0, windowStart := now,
                 probesPassed := b.probesPassed + 1 }
  | trip : b.state = .stateClosed → b.Trips →
      Transition b now .recordFailure false
        { b with state := .stateOpen, openedAt := now, failures := b.failures + 1,
                 total := b.total + 1 }
  | countFailure : b.state = .stateClosed → ¬ b.Trips →
      Transition b now .recordFailure false
        { b with failures := b.failures + 1, total := b.total + 1 }
  | reopen : b.state = .stateHalfOpen →
      Transition b now .recordFailure false { b with state := .stateOpen, openedAt := now }
  | ignored {c : Call} : b.state = .stateOpen → c ≠ .allow → Transition b now c false b

theorem Breaker.transition (b : Breaker) (now : Int) (c : Call) :
    Transition b now c (b.call now c).1 (b.call now c).2 := by
  cases c with
  | allow =>
    change Transition b now .allow (b.allow now).1 (b.allow now).2
    cases hs : b.state with
    | stateClosed =>
      simp only [allow, hs]
      exact .pass hs
    | stateOpen =>
      by_cases hearly : now - b.openedAt < b.policy.halfOpenAfter
      · rw [allow_of_early hs hearly]
        exact .early hs hearly
      · simp only [allow, hs, if_neg hearly]
        by_cases hprobes : 0 < b.policy.probeCount
        · rw [show b.halfOpen.probe = (true, { b.halfOpen with probesSent := 1 }) from
            probe_of_lt hprobes]
          exact .late hs (by omega) hprobes
        · rw [show b.halfOpen.probe = (false, b.halfOpen) from probe_of_not_lt hprobes]
          exact .lateSpent hs (by omega) (by omega)
    | stateHalfOpen =>
      rw [allow_of_halfOpen hs]
      by_cases hprobes : b.probesSent < b.policy.probeCount
      · rw [probe_of_lt hprobes]
        exact .probe hs hprobes
      · rw [probe_of_not_lt hprobes]
        exact .spent hs (by omega)
  | recordSuccess =>
    change Transition b now .recordSuccess false (b.recordSuccess now)
    cases hs : b.state with
    | stateClosed =>
      rw [recordSuccess_of_closed hs]
      exact .count hs
    | stateOpen =>
      rw [recordSuccess_of_open hs]
      exact .ignored hs (by simp)
    | stateHalfOpen =>
      simp only [recordSuccess, hs]
      split
      · exact .close hs ‹_›
      · rw [← hs]
        exact .passed hs (by omega)
  | recordFailure =>
    change Transition b now .recordFailure false (b.recordFailure now)
    cases hs : b.state with
    | stateClosed =>
      rw [recordFailure_of_closed hs]
      split
      · exact .trip hs ‹_›
      · exact .countFailure hs ‹_›
    | stateOpen =>
      rw [recordFailure_of_open hs]
      exact .ignored hs (by simp)
    | stateHalfOpen =>
      simp only [recordFailure, hs]
      exact .reopen hs

/-! ## Runs -/

/-- A call and what it did. -/
structure Entry where
  time : Int
  call : Call
  before : State
  granted : Bool
  after : State
deriving Repr, DecidableEq

/-- The entry of a call. -/
def Breaker.entry (b : Breaker) (now : Int) (c : Call) : Entry :=
  ⟨now, c, b.state, (b.call now c).1, (b.call now c).2.state⟩

/-- How a breaker starts: new, or seeded with a state.  It may have been opened by that. -/
inductive Start (p : Policy) : Option Int → Int → Breaker → Prop where
  | new {t : Int} : Start p none t (.new p t)
  | seed {t t' : Int} (s : State) : t ≤ t' →
      Start p (if s = .stateOpen then some t' else none) t' ((new p t).setState s t')

/-- `Run p opened log t b`: a breaker with policy `p` that was opened at its start as `opened` says
has been called as in `log`, last at time `t`, and is now `b`. -/
inductive Run (p : Policy) (opened : Option Int) : List Entry → Int → Breaker → Prop where
  | start {t : Int} {b : Breaker} : Start p opened t b → Run p opened [] t b
  | call {log : List Entry} {t now : Int} {b : Breaker} (c : Call) : Run p opened log t b →
      t ≤ now → Run p opened (log ++ [b.entry now c]) now (b.call now c).2

/-- When the breaker opened last. -/
def lastOpening (opened : Option Int) (log : List Entry) : Option Int :=
  log.foldl
    (fun o e => if e.before ≠ .stateOpen ∧ e.after = .stateOpen then some e.time else o) opened

/-- How many calls of `allow` the current half-open period has granted, none if there is no such
period. -/
def probesGranted (log : List Entry) : Nat :=
  log.foldl
    (fun n e =>
      if e.after = .stateHalfOpen then
        (if e.before = .stateHalfOpen then n else 0) + (if e.granted then 1 else 0)
      else 0) 0

/-- The state changes a breaker may make. -/
def State.Next : State → State → Prop
  | .stateClosed, .stateOpen | .stateOpen, .stateHalfOpen => True
  | .stateHalfOpen, .stateOpen | .stateHalfOpen, .stateClosed => True
  | s, s' => s = s'

variable {p : Policy} {opened : Option Int} {log : List Entry} {t now : Int} {b b' : Breaker}
  {c : Call} {granted : Bool}

theorem Run.induction_on
    {motive : List Entry → Int → Breaker → Prop}
    (h : Run p opened log t b) (start : ∀ t b, Start p opened t b → motive [] t b)
    (step : ∀ log t now b c granted b', t ≤ now → Transition b now c granted b' →
      motive log t b → motive (log ++ [⟨now, c, b.state, granted, b'.state⟩]) now b') :
    motive log t b := by
  induction h with
  | start h => exact start _ _ h
  | call c _ ht ih => exact step _ _ _ _ c _ _ ht (transition _ _ c) ih

theorem Run.split (h : Run p opened log t b) :
    ∀ {pre post : List Entry} {e : Entry}, log = pre ++ e :: post →
      ∃ t' b' now c, Run p opened pre t' b' ∧ t' ≤ now ∧ e = b'.entry now c := by
  induction h with
  | start _ =>
    intro pre post e heq
    simp at heq
  | @call log t now b c hrun ht ih =>
    intro pre post e heq
    obtain rfl | ⟨post', x, rfl⟩ := eq_nil_or_concat post
    · obtain ⟨rfl, hx⟩ := append_inj' heq rfl
      cases hx
      exact ⟨t, b, now, c, hrun, ht, rfl⟩
    · rw [concat_eq_append, ← cons_append, ← append_assoc] at heq
      exact ih (append_inj' heq rfl).1

theorem Run.shorter {pre : List Entry} (h : Run p opened log t b) (hpre : pre <+: log) :
    ∃ t' b', Run p opened pre t' b' := by
  obtain ⟨post, rfl⟩ := hpre
  cases post with
  | nil => exact ⟨t, b, by simpa using h⟩
  | cons e post =>
    obtain ⟨t', b', _, _, hrun, _⟩ := h.split rfl
    exact ⟨t', b', hrun⟩

/-! ## States and counters -/

theorem Transition.policy (h : Transition b now c granted b') : b'.policy = b.policy := by
  cases h with
  | pass => exact roll_policy b now
  | _ => rfl

theorem Transition.next (h : Transition b now c granted b') : b.state.Next b'.state := by
  cases h with
  | pass hs | early hs | spent hs | ignored hs => simp [State.Next, hs]
  | late hs _ _ | lateSpent hs _ _ => simp [State.Next, hs, halfOpen]
  | probe hs | count hs | passed hs | countFailure hs | close hs | trip hs | reopen hs =>
    simp [State.Next, hs]

theorem Transition.counters (h : Transition b now c granted b')
    (hb : 0 ≤ b.failures ∧ b.failures ≤ b.total) : 0 ≤ b'.failures ∧ b'.failures ≤ b'.total := by
  cases h with
  | pass hs =>
    unfold roll
    split
    · simp
    · exact hb
  | early | spent | ignored | late | lateSpent | probe | passed | reopen => exact hb
  | count => exact ⟨hb.1, by dsimp only; omega⟩
  | close => simp
  | trip | countFailure => dsimp only; omega

theorem Run.counters (h : Run p opened log t b) : 0 ≤ b.failures ∧ b.failures ≤ b.total := by
  refine h.induction_on (motive := fun _ _ b => 0 ≤ b.failures ∧ b.failures ≤ b.total) ?_ ?_
  · intro t b hstart
    cases hstart with
    | new => simp [new]
    | seed s _ => cases s <;> simp [new, setState]
  · intro log t now b c granted b' _ htrans ih
    exact htrans.counters ih

/-! ## Openings -/

/-- An open breaker knows when it opened, and one that is not open had its time to wait. -/
def OpeningKnown (p : Policy) (opened : Option Int) (log : List Entry) (t : Int) (b : Breaker) :
    Prop :=
  b.policy = p ∧
    if b.state = .stateOpen then lastOpening opened log = some b.openedAt
    else ∀ τ, lastOpening opened log = some τ → p.halfOpenAfter ≤ t - τ

theorem OpeningKnown.step (h : OpeningKnown p opened log t b) (ht : t ≤ now)
    (htrans : Transition b now c granted b') :
    OpeningKnown p opened (log ++ [⟨now, c, b.state, granted, b'.state⟩]) now b' := by
  obtain ⟨hpolicy, hknown⟩ := h
  refine ⟨htrans.policy.trans hpolicy, ?_⟩
  rw [lastOpening, foldl_concat, ← lastOpening]
  -- Time only passes, so what has elapsed stays elapsed.
  have hlater : (∀ τ, lastOpening opened log = some τ → p.halfOpenAfter ≤ t - τ) →
      ∀ τ, lastOpening opened log = some τ → p.halfOpenAfter ≤ now - τ := by
    intro helapsed τ hτ
    have := helapsed τ hτ
    omega
  cases htrans with
  | pass hs => simpa [hs] using hlater (by simpa [hs] using hknown)
  | early hs _ | ignored hs _ => simpa [hs] using hknown
  | late hs hlate _ | lateSpent hs hlate _ =>
    have hopening : lastOpening opened log = some b.openedAt := by simpa [hs] using hknown
    rw [hpolicy] at hlate
    simpa [hs, halfOpen, hopening] using hlate
  | probe hs _ | spent hs _ | count hs | passed hs _ | countFailure hs _ =>
    simpa [hs] using hlater (by simpa [hs] using hknown)
  | close hs _ => simpa [hs] using hlater (by simpa [hs] using hknown)
  | trip hs _ | reopen hs => simp [hs]

theorem Run.openingKnown (h : Run p opened log t b) : OpeningKnown p opened log t b := by
  refine h.induction_on ?_ ?_
  · intro t b hstart
    cases hstart with
    | new => simp [OpeningKnown, new, lastOpening]
    | seed s _ => cases s <;> simp [OpeningKnown, new, setState, lastOpening]
  · intro log t now b c granted b' ht htrans ih
    exact ih.step ht htrans

theorem Run.not_granted {τ : Int} (h : Run p opened log t b) (ht : t ≤ now)
    (hτ : lastOpening opened log = some τ) (hearly : now - τ < p.halfOpenAfter) :
    (b.allow now).1 = false := by
  obtain ⟨hpolicy, hknown⟩ := h.openingKnown
  by_cases hs : b.state = .stateOpen
  · have hopening : lastOpening opened log = some b.openedAt := by simpa [hs] using hknown
    rw [hτ] at hopening
    cases hopening
    rw [allow_of_early hs (by rw [hpolicy]; exact hearly)]
  · have helapsed : p.halfOpenAfter ≤ t - τ := by
      rw [if_neg hs] at hknown
      exact hknown τ hτ
    omega

/-! ## Probes -/

/-- The probes granted in the current half-open period are those the breaker counted. -/
def ProbesCounted (p : Policy) (log : List Entry) (b : Breaker) : Prop :=
  b.policy = p ∧ (probesGranted log : Int) ≤ max p.probeCount 0 ∧
    (probesGranted log : Int) = if b.state = .stateHalfOpen then b.probesSent else 0

theorem ProbesCounted.step (h : ProbesCounted p log b) (htrans : Transition b now c granted b') :
    ProbesCounted p (log ++ [⟨now, c, b.state, granted, b'.state⟩]) b' := by
  obtain ⟨hpolicy, hmax, hcount⟩ := h
  refine ⟨htrans.policy.trans hpolicy, ?_⟩
  rw [probesGranted, foldl_concat, ← probesGranted]
  cases htrans with
  | pass hs | early hs _ | ignored hs _ | count hs | countFailure hs _ => simp [hs]
  | close hs _ | trip hs _ | reopen hs => simp
  | late hs _ hprobes =>
    rw [hpolicy] at hprobes
    simp [hs, halfOpen]
    omega
  | lateSpent hs _ _ => simp [hs, halfOpen]
  | probe hs hlt =>
    rw [hpolicy] at hlt
    simp only [hs, if_true, Nat.cast_add, Nat.cast_one] at hcount ⊢
    omega
  | spent hs _ | passed hs _ =>
    simp only [hs, if_true, Bool.false_eq_true, if_false, Nat.add_zero] at hcount ⊢
    exact ⟨hmax, hcount⟩

theorem Run.probesCounted (h : Run p opened log t b) : ProbesCounted p log b := by
  refine h.induction_on (motive := fun log _ b => ProbesCounted p log b) ?_ ?_
  · intro t b hstart
    cases hstart with
    | new => simp [ProbesCounted, new, probesGranted]
    | seed s _ => cases s <;> simp [ProbesCounted, new, setState, probesGranted]
  · intro log t now b c granted b' _ htrans ih
    exact ih.step htrans

/-! ## Safety -/

/-- In every run, the state changes only along the cycle, no call is granted before the time to
wait is over, no half-open period grants more than its probes, and failures are part of the
total. -/
theorem breaker_run_safe {p : Policy} {opened : Option Int} {log : List Entry} {t : Int}
    {b : Breaker} (h : Run p opened log t b) :
    (∀ e ∈ log, e.before.Next e.after) ∧
      (∀ pre e post, log = pre ++ e :: post → e.call = .allow →
        ∀ τ, lastOpening opened pre = some τ → e.time - τ < p.halfOpenAfter →
          e.granted = false) ∧
      (∀ pre, pre <+: log → (probesGranted pre : Int) ≤ max p.probeCount 0) ∧
      0 ≤ b.failures ∧ b.failures ≤ b.total := by
  refine ⟨fun e he => ?_, fun pre e post heq hcall τ hτ hearly => ?_, fun pre hpre => ?_,
    h.counters⟩
  · obtain ⟨pre, post, heq⟩ := append_of_mem he
    obtain ⟨t', b', now, c, _, _, rfl⟩ := h.split heq
    exact (b'.transition now c).next
  · obtain ⟨t', b', now, c, hrun, ht, rfl⟩ := h.split heq
    cases hcall
    exact hrun.not_granted ht hτ hearly
  · obtain ⟨t', b', hrun⟩ := h.shorter hpre
    exact hrun.probesCounted.2.1

def hairTrigger : Policy where
  successRateThreshold := 0.9
  windowDuration := 100
  minRequests := 1
  halfOpenAfter := 10
  probeCount := 1

/-- A breaker that trips at time 0 grants nothing at time 9. -/
theorem hairTrigger_waits :
    (((new hairTrigger 0).recordFailure 0).entry 9 .allow).granted = false :=
  (breaker_run_safe (.call .allow (.call .recordFailure (.start .new) (le_refl 0))
    (by decide))).2.1 [(new hairTrigger 0).entry 0 .recordFailure] _ [] rfl rfl 0
    (by decide +kernel) (by decide)

end Ixr.CircuitBreaker
