import IxrGateway.CircuitBreaker.Registry
import IxrGateway.Ingress.RequestPaths
import IxrGateway.Interaction.Pool

/-!
# Requests around one breaker registry

The world of a gateway process, as far as breakers are concerned: the registry
and a clock that does not go back.  It answers what requests ask the registry.
Everything else may get any answer, and time may pass.

Requests run together in a pool.  Each may start shadow calls, which run on
their own and neither ask the registry nor report to it.
-/

namespace Ixr.Ingress

open Interaction CircuitBreaker Registry

/-- The breakers and the clock. -/
structure BreakerWorld where
  registry : Registry
  clock : Int

/-- The state store, if there is one, has loaded `seed` for a breaker that is made at `created` and
called at `now`. -/
structure Loaded (w : BreakerWorld) (seed : Option State) (created now : Int) : Prop where
  noStore : w.registry.hasStore = false → seed = none
  notBefore : w.clock ≤ created
  called : created ≤ now

/-- The operation is none of the registry's. -/
def OffRegistry (o : Op) : Prop :=
  match o with
  | .isAllowed .. | .recordOutcome .. => False
  | _ => True

/-- What the world answers. -/
inductive BreakerWorld.Answer (w : BreakerWorld) : (o : Op) → o.Res → BreakerWorld → Prop where
  | isAllowed {site : AllowSite} {model : String} {seed : Option State} {created now : Int}
      {allowed : Bool} {registry : Registry} : Loaded w seed created now →
      w.registry.isAllowed seed created now model = (allowed, registry) →
      Answer w (.isAllowed site model) allowed ⟨registry, now⟩
  | recordOutcome {model : String} {success : Bool} {seed : Option State} {created now : Int}
      {registry : Registry} : Loaded w seed created now →
      w.registry.recordOutcome seed created now model success = registry →
      Answer w (.recordOutcome model success) () ⟨registry, now⟩
  | other {o : Op} {r : o.Res} {now : Int} : OffRegistry o → w.clock ≤ now →
      Answer w o r ⟨w.registry, now⟩

/-- What the breakers answer. -/
abbrev breakerAnswers : Answers effects BreakerWorld := BreakerWorld.Answer

/-- The shadow call that is started. -/
def shadows (h : ChatHandler) (e : Event effects) : List (Go Unit) :=
  match e.op with
  | .goShadow job => [h.runShadow job]
  | _ => []

/-- The program serves a request. -/
def IsRequest (h : ChatHandler) (p : Go Unit) : Prop := ∃ r, p = (h.serveHTTP r).void

/-! ## What an event does to the breaker of a model -/

/-- The event is a call of the model's breaker. -/
inductive Touches (model : String) : Event effects → Call → Bool → Prop where
  | allow {site : AllowSite} {allowed : Bool} :
      Touches model ⟨.isAllowed site model, allowed⟩ .allow allowed
  | success : Touches model ⟨.recordOutcome model true, ()⟩ .recordSuccess false
  | failure : Touches model ⟨.recordOutcome model false, ()⟩ .recordFailure false

/-- An event leaves the model's breaker alone, or calls it. -/
theorem BreakerWorld.Answer.cases_of {w w' : BreakerWorld} {o : Op} {r : o.Res}
    (h : Answer w o r w') (model : String) :
    (w'.registry.breakers model = w.registry.breakers model ∧
        ∀ c granted, ¬ Touches model ⟨o, r⟩ c granted) ∨
      ∃ c granted seed created b, Touches model ⟨o, r⟩ c granted ∧ Loaded w seed created w'.clock ∧
        Transition (w.registry.get seed created model) w'.clock c granted b ∧
        w'.registry.breakers model = some b := by
  cases h with
  | @isAllowed site model' seed created now allowed registry hload hcall =>
    obtain ⟨rfl, rfl⟩ := Prod.mk.inj hcall
    by_cases hmodel : model' = model
    · subst hmodel
      exact .inr ⟨_, _, _, _, _, .allow, hload, Breaker.transition _ _ .allow,
        call_breakers_self⟩
    · refine .inl ⟨call_breakers_of_ne (Ne.symm hmodel), fun c granted ht => ?_⟩
      cases ht
      exact hmodel rfl
  | @recordOutcome model' success seed created now registry hload hcall =>
    subst hcall
    by_cases hmodel : model' = model
    · subst hmodel
      cases success with
      | true => exact .inr ⟨_, _, _, _, _, .success, hload, Breaker.transition _ _ .recordSuccess,
          call_breakers_self⟩
      | false => exact .inr ⟨_, _, _, _, _, .failure, hload,
          Breaker.transition _ _ .recordFailure, call_breakers_self⟩
    · refine .inl ⟨call_breakers_of_ne (Ne.symm hmodel), fun c granted ht => ?_⟩
      cases ht with
      | success | failure => exact hmodel rfl
  | other hoff _ =>
    refine .inl ⟨rfl, fun c granted ht => ?_⟩
    cases ht with
    | allow | success | failure => exact hoff

theorem BreakerWorld.Answer.policy {w w' : BreakerWorld} {o : Op} {r : o.Res}
    (h : Answer w o r w') : w'.registry.policy = w.registry.policy := by
  cases h with
  | isAllowed _ hcall =>
    obtain ⟨_, rfl⟩ := Prod.mk.inj hcall
    rfl
  | recordOutcome _ hcall =>
    subst hcall
    rfl
  | other _ _ => rfl

/-! ## A world with one breaker -/

/-- One model has a breaker. -/
def soleWorld (p : Policy) (model : String) (b : Option Breaker) (clock : Int) : BreakerWorld :=
  ⟨{ policy := p, breakers := fun model' => if model' = model then b else none }, clock⟩

section

variable {p : Policy} {model : String} {b : Option Breaker} {clock now : Int}

theorem soleWorld_loaded (hle : clock ≤ now) :
    Loaded (soleWorld p model b clock) none clock now :=
  ⟨fun _ => rfl, le_refl _, hle⟩

theorem soleWorld_get :
    (soleWorld p model b clock).registry.get none clock model = b.getD (.new p clock) := by
  cases b <;> simp [Registry.get, soleWorld]

theorem soleWorld_call {c : Call} {b' : Breaker}
    (hcall : ((b.getD (.new p clock)).call now c).2 = b') :
    ((soleWorld p model b clock).registry.call none clock now model c).2 =
      (soleWorld p model (some b') now).registry := by
  subst hcall
  simp only [call, soleWorld_get]
  simp only [soleWorld]
  congr 1
  funext model'
  by_cases hmodel : model' = model
  · simp [hmodel]
  · simp [hmodel]

theorem soleWorld_isAllowed {site : AllowSite} {allowed : Bool} {b' : Breaker} (hle : clock ≤ now)
    (hcall : (b.getD (.new p clock)).allow now = (allowed, b')) :
    BreakerWorld.Answer (soleWorld p model b clock) (.isAllowed site model) allowed
      (soleWorld p model (some b') now) := by
  refine .isAllowed (soleWorld_loaded hle)
    (Prod.ext ?_ (soleWorld_call (by rw [Breaker.call, hcall])))
  simp only [isAllowed, call, soleWorld_get, Breaker.call, hcall]

theorem soleWorld_recordOutcome {success : Bool} {b' : Breaker} (hle : clock ≤ now)
    (hcall : ((b.getD (.new p clock)).call now
      (if success then .recordSuccess else .recordFailure)).2 = b') :
    BreakerWorld.Answer (soleWorld p model b clock) (.recordOutcome model success) ()
      (soleWorld p model (some b') now) :=
  .recordOutcome (soleWorld_loaded hle) (soleWorld_call hcall)

end

end Ixr.Ingress
