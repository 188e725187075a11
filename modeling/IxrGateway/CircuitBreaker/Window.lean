import IxrGateway.CircuitBreaker.Runs

/-!
# The window of a closed breaker

A closed breaker is meant to look at the outcomes of the last `WindowDuration`.
It keeps two counters instead.  `Allow` clears them when the window is over, and
only a failure looks at them.  So outcomes that are older still count until the
next `Allow`, outcomes that are younger may have been cleared, and a success
never trips the breaker.

`Watch` is a breaker with the outcomes that were recorded since it closed: those
that its counters hold, and those that `Allow` has cleared.
-/

namespace Ixr.CircuitBreaker

open List Breaker

/-- When a call ended, and how. -/
abbrev Outcome := Int × Bool

/-- A breaker, how many requests it admitted have not reported, and the outcomes of its closed
period. -/
structure Watch where
  breaker : Breaker
  flights : Nat := 0
  /-- The outcomes that `Allow` has cleared from the counters. -/
  cleared : List Outcome := []
  /-- The outcomes that the counters hold. -/
  kept : List Outcome := []
deriving Repr, DecidableEq

/-- How many calls succeeded. -/
def successes (outcomes : List Outcome) : Nat := outcomes.countP (·.2)

/-- The outcomes in `(t - WindowDuration, t]`. -/
def recent (p : Policy) (t : Int) (outcomes : List Outcome) : List Outcome :=
  outcomes.filter fun o => decide (t - p.windowDuration < o.1 ∧ o.1 ≤ t)

/-- There are enough outcomes, and the fraction of successes among them is below the threshold. -/
def Unhealthy (p : Policy) (outcomes : List Outcome) : Prop :=
  p.minRequests ≤ outcomes.length ∧
    (successes outcomes : ℚ) < p.successRateThreshold * outcomes.length

instance (p : Policy) (outcomes : List Outcome) : Decidable (Unhealthy p outcomes) := by
  unfold Unhealthy
  infer_instance

namespace Watch

/-- All outcomes since it closed. -/
def sinceClosed (w : Watch) : List Outcome := w.cleared ++ w.kept

/-- The outcomes with a new one. -/
def note (w : Watch) (o : Outcome) : List Outcome × List Outcome :=
  if w.breaker.state = .stateClosed then (w.cleared, w.kept ++ [o]) else ([], [])

/-- Note that `Allow` was called. -/
def noteAllow (w : Watch) (now : Int) : List Outcome × List Outcome :=
  if w.breaker.state = .stateClosed then
    if w.breaker.policy.windowDuration < now - w.breaker.windowStart then
      (w.cleared ++ w.kept, [])
    else (w.cleared, w.kept)
  else ([], [])

/-- One call at time `now`.  An outcome belongs to a request that was admitted. -/
def step (w : Watch) (now : Int) (c : Call) : Option Watch :=
  let answer := w.breaker.call now c
  match c with
  | .allow =>
    let (cleared, kept) := w.noteAllow now
    some ⟨answer.2, if answer.1 then w.flights + 1 else w.flights, cleared, kept⟩
  | c =>
    if w.flights = 0 then none
    else
      let (cleared, kept) := w.note (now, decide (c = .recordSuccess))
      some ⟨answer.2, w.flights - 1, cleared, kept⟩

/-- The runs whose calls are in `allowed`, with the time of the last call. -/
inductive Reached (allowed : Watch → Int → Call → Prop) (p : Policy) : Int → Watch → Prop where
  | start {opened : Option Int} {t : Int} {b : Breaker} : Start p opened t b →
      Reached allowed p t { breaker := b }
  | step {t now : Int} {w w' : Watch} {c : Call} : Reached allowed p t w → t ≤ now →
      allowed w now c → w.step now c = some w' → Reached allowed p now w'

/-- After an outcome at time `now`, a breaker that was closed is open just if the recent outcomes
since it closed are unhealthy. -/
def TripsOnWindow (w : Watch) (now : Int) (c : Call) (w' : Watch) : Prop :=
  c ≠ .allow → w.breaker.state = .stateClosed →
    (w'.breaker.state = .stateOpen ↔ Unhealthy w.breaker.policy
      (recent w.breaker.policy now (w.sinceClosed ++ [(now, decide (c = .recordSuccess))])))

/-- The counters hold just the recent outcomes, and a success does not complete an unhealthy
window. -/
def CountersCurrent (w : Watch) (now : Int) (c : Call) : Prop :=
  c ≠ .allow → w.breaker.state = .stateClosed →
    0 < w.breaker.policy.windowDuration ∧
    (∀ o ∈ w.cleared, o.1 ≤ now - w.breaker.policy.windowDuration) ∧
    (∀ o ∈ w.kept, now - w.breaker.policy.windowDuration < o.1) ∧
    (c = .recordSuccess → ¬ Unhealthy w.breaker.policy (w.kept ++ [(now, true)]))

/-! ## The counters -/

/-- The counters of a closed breaker count the outcomes they hold, none of which is yet to come. -/
def Counted (w : Watch) (t : Int) : Prop :=
  w.breaker.state = .stateClosed →
    w.breaker.total = w.kept.length ∧ w.breaker.total - w.breaker.failures = successes w.kept ∧
      ∀ o ∈ w.kept, o.1 ≤ t

variable {w : Watch} {t now : Int}

variable {granted : Bool} {b' : Breaker} {c : Call} {allowed : Watch → Int → Call → Prop}
  {p : Policy}

theorem Counted.allow (h : w.Counted t) (ht : t ≤ now)
    (htrans : Transition w.breaker now .allow granted b') :
    b'.state = .stateClosed → b'.total = (w.noteAllow now).2.length ∧
      b'.total - b'.failures = successes (w.noteAllow now).2 ∧
        ∀ o ∈ (w.noteAllow now).2, o.1 ≤ now := by
  intro hclosed
  cases htrans with
  | pass hs =>
    obtain ⟨htotal, hgood, htimes⟩ := h hs
    unfold noteAllow roll
    rw [if_pos hs]
    split
    · simp [successes]
    · exact ⟨htotal, hgood, fun o ho => (htimes o ho).trans ht⟩
  | early hs _ | ignored hs _ => simp [hs] at hclosed
  | late hs _ _ | lateSpent hs _ _ => cases hclosed
  | probe hs _ | spent hs _ => simp [hs] at hclosed

theorem Counted.outcome (h : w.Counted t) (ht : t ≤ now) (hc : c ≠ .allow)
    (htrans : Transition w.breaker now c granted b') :
    let kept := (w.note (now, decide (c = .recordSuccess))).2
    b'.state = .stateClosed → b'.total = kept.length ∧
      b'.total - b'.failures = successes kept ∧ ∀ o ∈ kept, o.1 ≤ now := by
  intro kept hclosed
  -- What is kept of a closed breaker is what it was and this outcome.
  have hkept (hs : w.breaker.state = .stateClosed) :
      kept = w.kept ++ [(now, decide (c = .recordSuccess))] := by
    simp [kept, note, hs]
  have htimes (hs : w.breaker.state = .stateClosed) : ∀ o ∈ kept, o.1 ≤ now := by
    intro o ho
    rw [hkept hs, mem_append, mem_singleton] at ho
    obtain ho | rfl := ho
    · exact ((h hs).2.2 o ho).trans ht
    · exact le_refl now
  cases htrans with
  | pass | early | late | lateSpent | probe | spent => exact absurd rfl hc
  | count hs | countFailure hs _ =>
    obtain ⟨htotal, hgood, _⟩ := h hs
    refine ⟨?_, ?_, htimes hs⟩
    · simp [hkept hs, htotal]
    · simp only [hkept hs, successes, countP_append] at hgood ⊢
      simp
      omega
  | passed hs _ => simp [hs] at hclosed
  | close hs _ =>
    have hnone : kept = [] := by simp [kept, note, hs]
    simp [hnone, successes]
  | trip | reopen => cases hclosed
  | ignored hs _ => simp [hs] at hclosed

theorem Counted.step {w' : Watch} (h : w.Counted t) (ht : t ≤ now)
    (hstep : w.step now c = some w') : w'.Counted now := by
  cases c with
  | allow =>
    cases hstep
    exact h.allow ht (w.breaker.transition now .allow)
  | recordSuccess =>
    simp only [Watch.step] at hstep
    split at hstep
    · cases hstep
    · cases hstep
      exact h.outcome ht (by simp) (w.breaker.transition now .recordSuccess)
  | recordFailure =>
    simp only [Watch.step] at hstep
    split at hstep
    · cases hstep
    · cases hstep
      exact h.outcome ht (by simp) (w.breaker.transition now .recordFailure)

theorem Reached.counted (h : Reached allowed p t w) : w.Counted t := by
  induction h with
  | start hstart =>
    cases hstart with
    | new => simp [Counted, new, successes]
    | seed state _ => cases state <;> simp [Counted, new, setState, successes]
  | step _ ht _ hstep ih => exact ih.step ht hstep

/-! ## The trip rule -/

theorem recent_append {old new : List Outcome} (hold : ∀ o ∈ old, o.1 ≤ t - p.windowDuration)
    (hnew : ∀ o ∈ new, t - p.windowDuration < o.1 ∧ o.1 ≤ t) : recent p t (old ++ new) = new := by
  have hnone : recent p t old = [] := by
    refine filter_eq_nil_iff.mpr fun o ho => ?_
    have := hold o ho
    simp
    omega
  have hall : recent p t new = new := filter_eq_self.mpr fun o ho => by simpa using hnew o ho
  rw [recent, filter_append]
  exact (congrArg₂ (· ++ ·) hnone hall).trans (nil_append new)

theorem Counted.trips_iff (h : w.Counted t) (hs : w.breaker.state = .stateClosed) (now : Int) :
    w.breaker.Trips ↔ Unhealthy w.breaker.policy (w.kept ++ [(now, false)]) := by
  obtain ⟨htotal, hgood, _⟩ := h hs
  have hpos : (0 : ℚ) < ((w.breaker.total + 1 : ℤ) : ℚ) := by
    have : 0 < w.breaker.total + 1 := by omega
    exact_mod_cast this
  have hlength : ((w.kept ++ [(now, false)]).length : ℤ) = w.breaker.total + 1 := by
    simp [htotal]
  have hsuccesses : successes (w.kept ++ [(now, false)]) = successes w.kept := by
    simp [successes]
  unfold Trips Unhealthy
  rw [div_lt_iff₀ hpos, hlength, hsuccesses, hgood, ← hlength]
  simp only [Int.cast_natCast]

/-- As long as the counters are current, a closed breaker trips on its recent outcomes. -/
theorem trips_on_window {p : Policy} {t now : Int} {w w' : Watch} {c : Call}
    (h : Reached CountersCurrent p t w) (ht : t ≤ now) (hcurrent : w.CountersCurrent now c)
    (hstep : w.step now c = some w') : w.TripsOnWindow now c w' := by
  intro hc hs
  obtain ⟨hwindow, hcleared, hkept, hsuccess⟩ := hcurrent hc hs
  have hrecent (success : Bool) :
      recent w.breaker.policy now (w.sinceClosed ++ [(now, success)]) =
        w.kept ++ [(now, success)] := by
    rw [sinceClosed, append_assoc]
    refine recent_append hcleared fun o ho => ?_
    rw [mem_append, mem_singleton] at ho
    obtain ho | rfl := ho
    · exact ⟨hkept o ho, ((h.counted hs).2.2 o ho).trans ht⟩
    · dsimp only
      omega
  rw [hrecent]
  cases c with
  | allow => exact absurd rfl hc
  | recordSuccess =>
    simp only [Watch.step] at hstep
    split at hstep
    · cases hstep
    · cases hstep
      have hstays : (w.breaker.recordSuccess now).state = .stateClosed := by
        rw [recordSuccess_of_closed hs, hs]
      simp only [call, hstays, decide_true]
      exact iff_of_false (by simp) (hsuccess rfl)
  | recordFailure =>
    simp only [Watch.step] at hstep
    split at hstep
    · cases hstep
    · cases hstep
      rw [show decide (Call.recordFailure = Call.recordSuccess) = false from rfl,
        ← h.counted.trips_iff hs now]
      simp only [call, recordFailure_of_closed hs]
      split
      · simpa using ‹w.breaker.Trips›
      · simpa [hs] using ‹¬ w.breaker.Trips›

/-! ## A success that completes the window -/

def pairTrigger : Policy := { hairTrigger with minRequests := 2 }

def oneOfTwo : Watch where
  breaker := { new pairTrigger 0 with failures := 1, total := 1 }
  flights := 1
  kept := [(1, false)]

theorem oneOfTwo_reached (hallow : ∀ w now, allowed w now .allow)
    (hfailure : allowed { breaker := .new pairTrigger 0, flights := 2 } 1 .recordFailure) :
    Reached allowed pairTrigger 1 oneOfTwo := by
  have hfirst : Reached allowed pairTrigger 0 { breaker := .new pairTrigger 0, flights := 1 } :=
    .step (.start .new) (le_refl 0) (hallow _ _) rfl
  have htwo : Reached allowed pairTrigger 0 { breaker := .new pairTrigger 0, flights := 2 } :=
    .step hfirst (le_refl 0) (hallow _ _) rfl
  exact .step htwo (by decide) hfailure (by decide +kernel)

/-- A second failure trips the breaker. -/
theorem second_failure_trips :
    ∃ w', oneOfTwo.step 2 .recordFailure = some w' ∧ w'.breaker.state = .stateOpen ∧
      oneOfTwo.TripsOnWindow 2 .recordFailure w' := by
  refine ⟨_, rfl, by decide +kernel, trips_on_window (oneOfTwo_reached ?_ ?_) ?_ ?_ rfl⟩
  · intro w now hc
    exact absurd rfl hc
  · intro _ _
    exact ⟨by decide, by simp, by simp, by simp⟩
  · decide
  · intro _ _
    exact ⟨by decide, by simp [oneOfTwo], by decide, by simp⟩

/-- A success completes an unhealthy window, and the breaker stays closed. -/
theorem success_completes_window :
    ∃ w', Reached (fun _ _ _ => True) pairTrigger 1 oneOfTwo ∧
      oneOfTwo.step 2 .recordSuccess = some w' ∧ ¬ oneOfTwo.TripsOnWindow 2 .recordSuccess w' := by
  refine ⟨_, oneOfTwo_reached (fun _ _ => trivial) trivial, rfl, fun htrips => ?_⟩
  have hopen := (htrips (by decide) rfl).mpr (by decide +kernel)
  exact absurd hopen (by decide)

end Watch

end Ixr.CircuitBreaker
