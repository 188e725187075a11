import Mathlib

/-!
# The breaker of one model

A breaker is closed while its model is healthy.  It opens when too many calls
fail.  After a while it is half open and hands out a number of probes.  It
closes once that many successes have been recorded, and opens again with the
first failure.

Each method is one critical section, so each is a function on the fields.  The
clock is read inside the section, and its reading is an argument.
-/

namespace Ixr.CircuitBreaker

/-- `circuitbreaker.State`. -/
inductive State where
  | stateClosed
  | stateOpen
  | stateHalfOpen
deriving Repr, DecidableEq

/-- `circuitbreaker.Policy`, with durations in nanoseconds. -/
structure Policy where
  successRateThreshold : ℚ
  windowDuration : Int
  minRequests : Int
  halfOpenAfter : Int
  probeCount : Int
deriving Repr, DecidableEq

/-- `circuitbreaker.Breaker`. -/
structure Breaker where
  state : State := .stateClosed
  policy : Policy
  windowStart : Int
  failures : Int := 0
  total : Int := 0
  openedAt : Int := 0
  probesSent : Int := 0
  probesPassed : Int := 0
deriving Repr, DecidableEq

namespace Breaker

/-- `New`. -/
def new (p : Policy) (now : Int) : Breaker := { policy := p, windowStart := now }

/-- Start a new window if the old one is over. -/
def roll (b : Breaker) (now : Int) : Breaker :=
  if b.policy.windowDuration < now - b.windowStart then
    { b with failures := 0, total := 0, windowStart := now }
  else b

/-- The last case of `Allow`. -/
def probe (b : Breaker) : Bool × Breaker :=
  if b.probesSent < b.policy.probeCount then (true, { b with probesSent := b.probesSent + 1 })
  else (false, b)

/-- The breaker before its first probe. -/
def halfOpen (b : Breaker) : Breaker :=
  { b with state := .stateHalfOpen, probesSent := 0, probesPassed := 0 }

/-- `Allow`. -/
def allow (b : Breaker) (now : Int) : Bool × Breaker :=
  match b.state with
  | .stateClosed => (true, b.roll now)
  | .stateOpen =>
    if now - b.openedAt < b.policy.halfOpenAfter then (false, b) else b.halfOpen.probe
  | .stateHalfOpen => b.probe

/-- `RecordSuccess`. -/
def recordSuccess (b : Breaker) (now : Int) : Breaker :=
  match b.state with
  | .stateClosed => { b with total := b.total + 1 }
  | .stateHalfOpen =>
    let b := { b with probesPassed := b.probesPassed + 1 }
    if b.policy.probeCount ≤ b.probesPassed then
      { b with state := .stateClosed, failures := 0, total := 0, windowStart := now }
    else b
  | .stateOpen => b

/-- The success rate. -/
def rate (b : Breaker) : ℚ := (b.total - b.failures) / b.total

/-- `RecordFailure`. -/
def recordFailure (b : Breaker) (now : Int) : Breaker :=
  match b.state with
  | .stateClosed =>
    let b := { b with failures := b.failures + 1, total := b.total + 1 }
    if b.policy.minRequests ≤ b.total ∧ b.rate < b.policy.successRateThreshold then
      { b with state := .stateOpen, openedAt := now }
    else b
  | .stateHalfOpen => { b with state := .stateOpen, openedAt := now }
  | .stateOpen => b

/-- `setState`. -/
def setState (b : Breaker) (s : State) (now : Int) : Breaker :=
  match s with
  | .stateOpen => { b with state := .stateOpen, openedAt := now }
  | s => { b with state := s }

/-! ## What the methods do -/

variable {b : Breaker} {now : Int}

@[simp] theorem roll_state (b : Breaker) (now : Int) : (b.roll now).state = b.state := by
  unfold roll
  split
  · rfl
  · rfl

@[simp] theorem roll_policy (b : Breaker) (now : Int) : (b.roll now).policy = b.policy := by
  unfold roll
  split
  · rfl
  · rfl

@[simp] theorem probe_state (b : Breaker) : b.probe.2.state = b.state := by
  unfold probe
  split
  · rfl
  · rfl

theorem allow_of_early (hs : b.state = .stateOpen)
    (hearly : now - b.openedAt < b.policy.halfOpenAfter) : b.allow now = (false, b) := by
  simp only [allow, hs, if_pos hearly]

theorem allow_of_halfOpen (hs : b.state = .stateHalfOpen) (now : Int) :
    b.allow now = b.probe := by
  simp only [allow, hs]

theorem probe_of_lt (h : b.probesSent < b.policy.probeCount) :
    b.probe = (true, { b with probesSent := b.probesSent + 1 }) :=
  if_pos h

theorem probe_of_not_lt (h : ¬ b.probesSent < b.policy.probeCount) : b.probe = (false, b) :=
  if_neg h

theorem recordSuccess_of_closed (hs : b.state = .stateClosed) (now : Int) :
    b.recordSuccess now = { b with total := b.total + 1 } := by
  simp only [recordSuccess, hs]

theorem recordSuccess_of_open (hs : b.state = .stateOpen) (now : Int) :
    b.recordSuccess now = b := by
  simp only [recordSuccess, hs]

/-- The failure of a closed breaker that trips it. -/
def Trips (b : Breaker) : Prop :=
  b.policy.minRequests ≤ b.total + 1 ∧
    ((b.total - b.failures : ℤ) : ℚ) / ((b.total + 1 : ℤ) : ℚ) < b.policy.successRateThreshold

instance (b : Breaker) : Decidable b.Trips := by
  unfold Trips
  infer_instance

theorem recordFailure_of_closed (hs : b.state = .stateClosed) (now : Int) :
    b.recordFailure now =
      if b.Trips then
        { b with state := .stateOpen, openedAt := now, failures := b.failures + 1,
                 total := b.total + 1 }
      else { b with failures := b.failures + 1, total := b.total + 1 } := by
  have hrate : ∀ s, rate { b with state := s, failures := b.failures + 1, total := b.total + 1 } =
      ((b.total - b.failures : ℤ) : ℚ) / ((b.total + 1 : ℤ) : ℚ) := by
    intro s
    simp only [rate]
    push_cast
    ring
  simp only [recordFailure, hs, hrate, Trips]

theorem recordFailure_of_open (hs : b.state = .stateOpen) (now : Int) :
    b.recordFailure now = b := by
  simp only [recordFailure, hs]

end Breaker

end Ixr.CircuitBreaker
