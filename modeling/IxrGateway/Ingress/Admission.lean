import IxrGateway.Ingress.Middleware
import IxrGateway.Interaction.Semaphore

/-!
# Admission

`AdmissionMiddleware` lets a bounded number of requests into the handler behind
it.  A request that finds no room is turned away at once.  The permit of a
request goes back in a deferred call, so a handler that panics returns it too.
-/

namespace Ixr.Ingress

open Interaction

/-- `AdmissionMiddleware`, with the capacity of its channel if it has one. -/
structure AdmissionMiddleware where
  sem : Option Nat

/-- `NewAdmissionMiddleware`. -/
def newAdmissionMiddleware (maxInFlight : Int) : AdmissionMiddleware :=
  if maxInFlight ≤ 0 then ⟨none⟩ else ⟨some maxInFlight.toNat⟩

/-- `AdmissionMiddleware.Handler`. -/
def AdmissionMiddleware.handler (m : AdmissionMiddleware) (next : Handler) (r : HttpRequest) :
    Prog effects.withSem Reply :=
  match m.sem with
  | none => (next r).beside
  | some _ => (next r).bracketed (.error 503 "system_overloaded"
      "the system is at capacity; please retry shortly")

/-- Only requests are started from outside. -/
def AdmissionMiddleware.Serves {W : Type} (m : AdmissionMiddleware) :
    Pool effects.withSem W → Move effects.withSem → Pool effects.withSem W → Prop
  | _, .start p, _ => ∃ next r, p = (m.handler next r).void
  | _, .perform _ _, _ => True

/-- However the requests interleave and whatever they start, the permits that are taken are those
of the requests in the handler, and there are at most as many as configured. -/
theorem admission_bounds_in_flight (maxInFlight : Int) (hpos : 0 < maxInFlight) {W : Type}
    (answers : Answers effects W) (w₀ : W)
    (spawns : Event effects.withSem → List (Prog effects.withSem Unit))
    (hspawns : ∀ e, ∀ p ∈ spawns e, ∃ q : Go Unit, p = q.beside)
    (P : Pool effects.withSem (W × Nat))
    (hreached : Pool.Reached (semAnswers maxInFlight.toNat answers) spawns
      (newAdmissionMiddleware maxInFlight).Serves (w₀, 0) P) :
    P.world.2 = P.inside ∧ (P.inside : Int) ≤ maxInFlight ∧
    (∀ place got P', Pool.Step (semAnswers maxInFlight.toNat answers) spawns P
      (.perform place ⟨.acquire, got⟩) P' → (got = true ↔ (P.inside : Int) < maxInFlight)) ∧
    (∀ proc ∈ P.procs, ∀ k, proc.prog = .ask .release k → 0 < P.world.2) ∧
    ((∀ proc ∈ P.procs, proc.returned = true) → P.world.2 = 0) := by
  have hinit : ∀ proc ∈ P.procs, Bracketed proc.init := by
    refine hreached.init_of (Q := fun _ p => Bracketed p) ?_ ?_
    · rintro P p P' ⟨next, r, rfl⟩
      rw [AdmissionMiddleware.handler, newAdmissionMiddleware, if_neg (not_le.mpr hpos)]
      exact .request
    · intro place e p hp
      obtain ⟨q, rfl⟩ := hspawns e p hp
      exact .beside
  have htaken := hreached.permits_eq_inside hinit
  have hle := hreached.permits_le
  refine ⟨htaken, by omega, ?_, ?_, ?_⟩
  · intro place got P' hstep
    cases got with
    | true =>
      have hroom : P.world.2 < maxInFlight.toNat := hstep.answer.2.1
      exact iff_of_true rfl (by omega)
    | false =>
      have hfull : maxInFlight.toNat ≤ P.world.2 := hstep.answer.2.1
      exact iff_of_false Bool.false_ne_true (by omega)
  · intro proc hmem k hprog
    have hsteps := hreached.steps proc hmem
    obtain ⟨parent, init, t, prog⟩ := proc
    subst hprog
    rw [htaken]
    exact List.countP_pos_iff.mpr ⟨_, hmem, (hinit _ hmem).inside_of_release hsteps parent⟩
  · intro hall
    rw [htaken]
    refine List.countP_eq_zero.mpr fun proc hmem => ?_
    simp [Proc.inside, hall proc hmem]

/-- A request to a handler that looks a model up and panics, with room for one. -/
def panicRequest : Prog effects.withSem Unit :=
  ((newAdmissionMiddleware 1).handler
    (fun _ => .ask (.lookup "gpt-5.2") fun _ => .ret .panicked) {}).void

/-- While a request is in the handler, the next one is turned away. -/
theorem admission_one_in_flight :
    ∃ P : Pool effects.withSem (Unit × Nat),
      P.procs.map Proc.inside = [true, false] ∧ P.procs.map Proc.returned = [false, true] ∧
      P.world.2 = P.inside ∧ (P.inside : Int) ≤ 1 := by
  let answers : Answers effects.withSem (Unit × Nat) := semAnswers 1 fun _ _ _ _ => True
  have hadmit : Pool.Along answers ((), 0) [⟨.acquire, true⟩] ((), 1) :=
    .cons ⟨rfl, Nat.one_pos, rfl⟩ .nil
  have hrefuse : Pool.Along answers ((), 1) [⟨.acquire, false⟩] ((), 1) :=
    .cons ⟨rfl, le_refl 1, rfl⟩ .nil
  have hfirst : Pool.Reached answers (fun _ => []) (newAdmissionMiddleware 1).Serves ((), 0)
      ⟨((), 1), _⟩ := .steps_alone (p := panicRequest) .empty (.ask .refl) hadmit
    (fun _ _ _ _ h => h) (fun _ => ⟨_, _, rfl⟩) fun _ _ _ _ _ _ _ _ => trivial
  have hsecond : Pool.Reached answers (fun _ => []) (newAdmissionMiddleware 1).Serves ((), 0)
      ⟨((), 1), _⟩ := hfirst.steps_alone (p := panicRequest) (.ask .refl) hrefuse
    (fun _ _ _ _ h => h) (fun _ => ⟨_, _, rfl⟩) fun _ _ _ _ _ _ _ _ => trivial
  obtain ⟨htaken, hle, _⟩ := admission_bounds_in_flight 1 one_pos _ _ _
    (fun _ => List.forall_mem_nil _) _ hsecond
  exact ⟨_, rfl, rfl, htaken, hle⟩

end Ixr.Ingress
