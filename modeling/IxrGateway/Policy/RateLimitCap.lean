import IxrGateway.Policy.RateLimit

/-!
# The cap of a rate limiter

The middleware asks before a request and records after it.  A request that is
being served is in no window, so requests that overlap are admitted as if the
others were not there.

`Gate` is the middleware with the requests it let through and that are still
being served.  It also keeps all admissions, which the middleware does not.
-/

namespace Ixr.Policy

open List

/-- Who was let in, and when. -/
abbrev Admission := Identity × Int

/-- `RateLimitMiddleware` and its requests. -/
structure Gate where
  limiter : MemoryRateLimiter
  flights : List Admission := []
  admitted : List Admission := []

/-- What becomes of a request. -/
inductive Arrival where
  | passed
  | refused (retryAfter : Option String) (reply : Reply)
  | panicked
deriving Repr, DecidableEq

/-- What requests do: arrive with a body of some length, or finish with a reply of some length. -/
inductive GateEvent where
  | arrive (id : Identity) (contentLength : Int)
  | finish (flight : Admission) (bytesWritten : Nat)
deriving Repr, DecidableEq

namespace Gate

/-- The refusal of a request. -/
def tooManyRequests (d : Decision) : Arrival :=
  .refused (if 0 < d.retryAfter then some (GoStrings.formatFixed 0 (d.retryAfter / 1000000000))
    else none) (.error 429 "rate_limit_exceeded"
      "request rate limit exceeded; please retry after the indicated delay")

/-- A request comes. -/
def arrive (g : Gate) (id : Identity) (contentLength now : Int) : Arrival × Gate :=
  match g.limiter.check id (contentLength.tdiv 4) now with
  | (none, m) => (.panicked, { g with limiter := m })
  | (some d, m) =>
    if d.allowed then (.passed, ⟨m, (id, now) :: g.flights, (id, now) :: g.admitted⟩)
    else (tooManyRequests d, { g with limiter := m })

/-- An admitted request ends. -/
def finish (g : Gate) (flight : Admission) (bytesWritten : Nat) (now : Int) : Gate :=
  { g with limiter := g.limiter.record flight.1 (bytesWritten / 4) now
           flights := g.flights.erase flight }

/-- One step at time `now`.  Only requests that are being served finish. -/
def step (g : Gate) (now : Int) : GateEvent → Option Gate
  | .arrive id contentLength => some (g.arrive id contentLength now).2
  | .finish flight bytesWritten =>
    if flight ∈ g.flights then some (g.finish flight bytesWritten now) else none

/-- The gates that steps in `allowed` lead to, with the time of the last one. -/
inductive Reached (allowed : Gate → Int → GateEvent → Prop) (m : MemoryRateLimiter) :
    Int → Gate → Prop where
  | start {t : Int} : Reached allowed m t { limiter := m }
  | step {t now : Int} {g g' : Gate} {e : GateEvent} : Reached allowed m t g → t ≤ now →
      allowed g now e → g.step now e = some g' → Reached allowed m now g'

/-- No identity has more than `maxReq` admissions in an interval as long as the window. -/
def Capped (g : Gate) : Prop :=
  ∀ id s, (g.admitted.countP fun a => a.1 = id ∧ s ≤ a.2 ∧ a.2 ≤ s + g.limiter.windowDur : Int) ≤
    g.limiter.maxReq

/-- How many of the admissions are of the key and not before `lo`. -/
def since (key : String) (lo : Int) (l : List Admission) : Nat :=
  l.countP fun a => windowKey a.1 = key ∧ lo ≤ a.2

/-- A request that is let through finds fewer than `maxReq` requests of its key, in the window or
being served. -/
def Spared (g : Gate) (now : Int) (e : GateEvent) : Prop :=
  ∀ id contentLength, e = .arrive id contentLength →
    (g.arrive id contentLength now).1 = .passed →
      (since (windowKey id) (now - g.limiter.windowDur) g.flights : Int) +
        (g.limiter.current (windowKey id) now).length < g.limiter.maxReq

/-! ## Where an admitted request is -/

/-- Admissions are in flight or recorded. -/
structure Traced (g : Gate) (t : Int) : Prop where
  past : ∀ a ∈ g.flights, a.2 ≤ t
  found : ∀ key lo, t - g.limiter.windowDur ≤ lo →
    since key lo g.admitted ≤
      since key lo g.flights + (g.limiter.windows key).countP fun e => lo ≤ e.time

variable {g : Gate} {t now : Int}

theorem Traced.check (h : g.Traced t) (ht : t ≤ now) (id : Identity) (tokenCost : Int) :
    Traced { g with limiter := (g.limiter.check id tokenCost now).2 } now := by
  have hlater : g.Traced now :=
    ⟨fun a ha => (h.past a ha).trans ht, fun key lo hlo => h.found key lo (by omega)⟩
  obtain heq | heq := g.limiter.check_limiter id tokenCost now
  · rw [heq]
    exact hlater
  · rw [heq]
    refine ⟨hlater.past, fun key lo hlo => ?_⟩
    have hcount := g.limiter.countP_current (windowKey id) key hlo
    rw [hcount]
    exact hlater.found key lo hlo

theorem since_cons (key : String) (lo : Int) (a : Admission) (l : List Admission) :
    since key lo (a :: l) = since key lo l + if windowKey a.1 = key ∧ lo ≤ a.2 then 1 else 0 := by
  simp [since, countP_cons]

theorem since_erase {a : Admission} {l : List Admission} (h : a ∈ l) (key : String) (lo : Int) :
    since key lo l =
      since key lo (l.erase a) + if windowKey a.1 = key ∧ lo ≤ a.2 then 1 else 0 := by
  rw [← since_cons]
  exact (perm_cons_erase h).countP_eq _

theorem Traced.admit (h : g.Traced now) (id : Identity) :
    Traced ⟨g.limiter, (id, now) :: g.flights, (id, now) :: g.admitted⟩ now := by
  refine ⟨forall_mem_cons.mpr ⟨le_refl now, h.past⟩, fun key lo hlo => ?_⟩
  have := h.found key lo hlo
  dsimp only
  rw [since_cons, since_cons]
  omega

theorem Traced.finish {a : Admission} (h : g.Traced t) (ht : t ≤ now) (ha : a ∈ g.flights)
    (bytesWritten : Nat) : (g.finish a bytesWritten now).Traced now := by
  refine ⟨fun b hb => (h.past b (mem_of_mem_erase hb)).trans ht, fun key lo hlo => ?_⟩
  change now - g.limiter.windowDur ≤ lo at hlo
  have hpast := h.past a ha
  have hfound := h.found key lo (by omega)
  rw [since_erase ha] at hfound
  have hrecord := g.limiter.countP_record a.1 (bytesWritten / 4) key hlo
  simp only [Gate.finish]
  rw [hrecord]
  split at hfound
  · next hmine =>
    rw [if_pos ⟨hmine.1, by omega⟩]
    omega
  · omega

theorem arrive_cases (g : Gate) (id : Identity) (contentLength now : Int) :
    let m := (g.limiter.check id (contentLength.tdiv 4) now).2
    (g.arrive id contentLength now).1 = .passed ∧
        (g.arrive id contentLength now).2 = ⟨m, (id, now) :: g.flights, (id, now) :: g.admitted⟩ ∨
      (g.arrive id contentLength now).2 = { g with limiter := m } := by
  unfold arrive
  split
  · next hcheck =>
    rw [hcheck]
    exact .inr rfl
  · next hcheck =>
    rw [hcheck]
    split
    · exact .inl ⟨rfl, rfl⟩
    · exact .inr rfl

theorem Traced.step {g' : Gate} {e : GateEvent} (h : g.Traced t) (ht : t ≤ now)
    (hstep : g.step now e = some g') : g'.Traced now := by
  cases e with
  | arrive id contentLength =>
    cases hstep
    have hchecked := h.check ht id (contentLength.tdiv 4)
    obtain ⟨_, heq⟩ | heq := g.arrive_cases id contentLength now
    · rw [heq]
      exact hchecked.admit id
    · rw [heq]
      exact hchecked
  | finish flight bytesWritten =>
    simp only [Gate.step] at hstep
    split at hstep
    · cases hstep
      exact h.finish ht ‹_› bytesWritten
    · cases hstep

theorem Reached.traced {allowed : Gate → Int → GateEvent → Prop} {m : MemoryRateLimiter}
    (h : Reached allowed m t g) : g.Traced t := by
  induction h with
  | start => exact ⟨by simp, by simp [since]⟩
  | step _ ht _ hstep ih => exact ih.step ht hstep

/-! ## The cap -/

@[simp] theorem check_maxReq (m : MemoryRateLimiter) (id : Identity) (tokenCost now : Int) :
    (m.check id tokenCost now).2.maxReq = m.maxReq := by
  obtain heq | heq := m.check_limiter id tokenCost now
  · rw [heq]
  · rw [heq, MemoryRateLimiter.setWindow_maxReq]

@[simp] theorem check_windowDur (m : MemoryRateLimiter) (id : Identity) (tokenCost now : Int) :
    (m.check id tokenCost now).2.windowDur = m.windowDur := by
  obtain heq | heq := m.check_limiter id tokenCost now
  · rw [heq]
  · rw [heq, MemoryRateLimiter.setWindow_windowDur]

theorem countP_le_since (l : List Admission) (id : Identity) {s dur : Int} (h : now ≤ s + dur) :
    (l.countP fun a => a.1 = id ∧ s ≤ a.2 ∧ a.2 ≤ s + dur) ≤
      since (windowKey id) (now - dur) l := by
  refine countP_mono_left fun a _ ha => ?_
  simp only [decide_eq_true_eq] at ha ⊢
  obtain ⟨rfl, hs, _⟩ := ha
  exact ⟨rfl, by omega⟩

theorem Capped.admit {id : Identity} (h : g.Capped) (htraced : g.Traced t)
    (ht : t ≤ now) (m : MemoryRateLimiter) (hreq : m.maxReq = g.limiter.maxReq)
    (hdur : m.windowDur = g.limiter.windowDur)
    (hspared : (since (windowKey id) (now - g.limiter.windowDur) g.flights : Int) +
      (g.limiter.current (windowKey id) now).length < g.limiter.maxReq) :
    Capped ⟨m, (id, now) :: g.flights, (id, now) :: g.admitted⟩ := by
  intro id' s
  simp only [hreq, hdur, countP_cons]
  split
  · next hnew =>
    obtain ⟨rfl, _, hup⟩ : id = id' ∧ s ≤ now ∧ now ≤ s + g.limiter.windowDur := by
      simpa using hnew
    have hcount := countP_le_since g.admitted id hup
    have hfound := htraced.found (windowKey id) (now - g.limiter.windowDur) (by omega)
    have hpurged := MemoryRateLimiter.countP_purge (g.limiter.windows (windowKey id))
      (le_refl (now - g.limiter.windowDur))
    have hlength := countP_le_length (p := fun e : WindowEntry =>
      decide (now - g.limiter.windowDur ≤ e.time)) (l := g.limiter.current (windowKey id) now)
    unfold MemoryRateLimiter.current at hlength hspared
    omega
  · simpa using h id' s

/-- As long as requests are spared, every interval keeps the cap. -/
theorem admissions_capped {m : MemoryRateLimiter} {t : Int} {g : Gate} (hm : 0 < m.maxReq)
    (h : Reached Spared m t g) : g.Capped := by
  induction h with
  | start =>
    intro id s
    simpa using hm.le
  | @step t now g g' e hreached ht hspared hstep ih =>
    cases e with
    | arrive id contentLength =>
      cases hstep
      obtain ⟨hpassed, heq⟩ | heq := g.arrive_cases id contentLength now
      · rw [heq]
        exact ih.admit hreached.traced ht _ (check_maxReq _ _ _ _) (check_windowDur _ _ _ _)
          (hspared id contentLength rfl hpassed)
      · rw [heq]
        intro id' s
        simpa using ih id' s
    | finish flight bytesWritten =>
      simp only [Gate.step] at hstep
      split at hstep
      · cases hstep
        exact ih
      · cases hstep

/-! ## Two requests at once -/

/-- One request in ten nanoseconds. -/
def oneAtATime : MemoryRateLimiter := newMemoryRateLimiter 1 0 10

/-- Two requests in ten nanoseconds. -/
def twoAtATime : MemoryRateLimiter := newMemoryRateLimiter 2 0 10

/-- Two requests that overlap are let through within a cap of two, and a third is refused. -/
theorem overlapping_pair_capped :
    ∃ g, Reached Spared twoAtATime 4 g ∧ g.admitted = [({}, 1), ({}, 0)] ∧ g.Capped := by
  have hfirst : Reached Spared twoAtATime 0 _ :=
    .step (e := .arrive {} 0) .start (le_refl 0) (by rintro _ _ ⟨⟩ _; decide) rfl
  have hsecond : Reached Spared twoAtATime 1 _ :=
    .step (e := .arrive {} 0) hfirst (by decide) (by rintro _ _ ⟨⟩ _; decide) rfl
  have hfinished : Reached Spared twoAtATime 2 _ :=
    .step (e := .finish ({}, 0) 0) hsecond (by decide) (by rintro _ _ ⟨⟩) rfl
  have hidle : Reached Spared twoAtATime 3 _ :=
    .step (e := .finish ({}, 1) 0) hfinished (by decide) (by rintro _ _ ⟨⟩) rfl
  have hthird : Reached Spared twoAtATime 4 _ :=
    .step (e := .arrive {} 0) hidle (by decide) (by rintro _ _ ⟨⟩ hpassed; cases hpassed) rfl
  exact ⟨_, hthird, by decide, admissions_capped (by decide) hthird⟩

/-- Two requests that overlap are both let through. -/
theorem overlapping_requests_admitted :
    ∃ g, Reached (fun _ _ _ => True) oneAtATime 0 g ∧ ¬ g.Capped := by
  refine ⟨_, .step (e := .arrive {} 0) (.step (e := .arrive {} 0) .start (le_refl 0) trivial rfl)
    (le_refl 0) trivial rfl, fun hcapped => ?_⟩
  exact absurd (hcapped {} 0) (by decide)

end Gate

end Ixr.Policy
