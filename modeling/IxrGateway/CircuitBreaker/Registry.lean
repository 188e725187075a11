import IxrGateway.CircuitBreaker.Runs

/-!
# The breaker registry

A registry keeps one breaker for each model and makes it on first use.  With a
state store a new breaker is seeded with the state that other replicas have
saved.  What is loaded is an argument here, `none` if nothing was, and so are
the times when the breaker is made and when it is called.

The states that a registry saves go to other replicas only.  The saves are left
out here, and `SharedState` has them.
-/

namespace Ixr.CircuitBreaker

/-- `Registry`. -/
structure Registry where
  policy : Policy
  hasStore : Bool := false
  breakers : String → Option Breaker := fun _ => none

namespace Registry

/-- `get`. -/
def get (r : Registry) (seed : Option State) (created : Int) (model : String) : Breaker :=
  match r.breakers model with
  | some b => b
  | none =>
    match seed with
    | none => .new r.policy created
    | some s => (Breaker.new r.policy created).setState s created

/-- A call of the model's breaker. -/
def call (r : Registry) (seed : Option State) (created now : Int) (model : String) (c : Call) :
    Bool × Registry :=
  let answer := (r.get seed created model).call now c
  (answer.1, { r with breakers := Function.update r.breakers model (some answer.2) })

/-- `IsAllowed`. -/
def isAllowed (r : Registry) (seed : Option State) (created now : Int) (model : String) :
    Bool × Registry :=
  r.call seed created now model .allow

/-- `RecordOutcome`. -/
def recordOutcome (r : Registry) (seed : Option State) (created now : Int) (model : String)
    (success : Bool) : Registry :=
  (r.call seed created now model (if success then .recordSuccess else .recordFailure)).2

/-! ## One call -/

variable {r : Registry} {seed : Option State} {created now : Int} {model : String} {c : Call}

@[simp] theorem call_breakers_self :
    (r.call seed created now model c).2.breakers model =
      some ((r.get seed created model).call now c).2 :=
  Function.update_self ..

theorem call_breakers_of_ne {model' : String} (h : model' ≠ model) :
    (r.call seed created now model c).2.breakers model' = r.breakers model' :=
  Function.update_of_ne h ..

theorem get_of {Q : Breaker → Prop} (hold : ∀ b, r.breakers model = some b → Q b)
    (hnew : Q (.new r.policy created))
    (hseed : ∀ s, seed = some s → Q ((Breaker.new r.policy created).setState s created)) :
    Q (r.get seed created model) := by
  unfold get
  split
  · exact hold _ ‹_›
  · split
    · exact hnew
    · exact hseed _ rfl

end Registry

end Ixr.CircuitBreaker
