import IxrGateway.Effects

/-!
# The budget plugin

`intercept` gates a request on the spend of its identity's scopes and reserves
an estimate for it.  `onEvent` takes the reservation back, and books the real
cost of a call at every scope.  The plugin's maps are guarded by one mutex, so
each critical section is a function on the maps, and `onEvent` is a program
that runs several of them one after the other.

A map read of a missing key yields zero, so the maps are total functions here.
-/

namespace Ixr.Budget

open Interaction GoStrings Function

/-- `budget.Limit`. -/
structure Limit where
  limitUSD : ℚ
  warnAt : ℚ := 0
deriving Repr, DecidableEq

/-- The limits by scope. -/
abbrev Limits := String → Option Limit

/-- The maps of `budget.Plugin`. -/
structure Plugin where
  spent : String → ℚ := fun _ => 0
  reserved : String → ℚ := fun _ => 0
  avgCost : String → ℚ := fun _ => 0
  calls : String → Int := fun _ => 0
  warned : String → Bool := fun _ => false

/-- `scopeKeys`, from the most specific scope to the least. -/
def scopeKeys (id : Identity) : List String :=
  (if id.userID = "" then []
   else if id.teamID = "" then [id.tenantID ++ ":" ++ id.userID]
   else [id.tenantID ++ ":" ++ id.teamID ++ ":" ++ id.userID]) ++
  (if id.teamID = "" then [] else [id.tenantID ++ ":" ++ id.teamID]) ++
  (if id.tenantID = "" then [] else [id.tenantID])

/-- The scopes that an event counts for. -/
def eventScopes (ev : CallEvent) : List String :=
  scopeKeys { tenantID := ev.tenantID, teamID := ev.teamID, userID := ev.userID }

/-! ## The gate -/

/-- A call would exceed the limit. -/
def Plugin.exceeds (p : Plugin) (lim : Limit) (scope : String) : Bool :=
  decide (lim.limitUSD ≤ p.spent scope) ||
    decide (lim.limitUSD < p.spent scope + p.reserved scope + p.avgCost scope)

/-- The error for a scope at its limit. -/
def Plugin.blocked (p : Plugin) (lim : Limit) (scope : String) : BlockedError where
  interceptor := "budget"
  category := "budget_exceeded"
  message := scope ++ " spend limit of $" ++ formatFixed 4 lim.limitUSD ++
    " exceeded (spent $" ++ formatFixed 4 (p.spent scope) ++ ")"

/-- The first loop of `Intercept`. -/
def Plugin.firstExceeded (limits : Limits) (p : Plugin) : List String → Option BlockedError
  | [] => none
  | scope :: scopes =>
    match limits scope with
    | none => p.firstExceeded limits scopes
    | some lim =>
      if p.exceeds lim scope then some (p.blocked lim scope)
      else p.firstExceeded limits scopes

/-- Reserves the average at a scope. -/
def Plugin.reserve (limits : Limits) (p : Plugin) (scope : String) : Plugin :=
  match limits scope with
  | none => p
  | some _ =>
    { p with reserved :=
        update p.reserved scope (p.reserved scope + p.avgCost scope) }

/-- `Intercept`. -/
def Plugin.intercept (limits : Limits) (id : Identity) (p : Plugin) :
    Option BlockedError × Plugin :=
  match p.firstExceeded limits (scopeKeys id) with
  | some err => (some err, p)
  | none => (none, (scopeKeys id).foldl (Plugin.reserve limits) p)

/-! ## Booking a call -/

/-- The event is booked. -/
def hasCost (ev : CallEvent) : Bool := decide (ev.error = "") && decide (0 < ev.cost.totalUSD)

/-- One scope of the first critical section of `OnEvent`. -/
def Plugin.releaseScope (limits : Limits) (ev : CallEvent) (p : Plugin) (scope : String) :
    Plugin :=
  match limits scope with
  | none => p
  | some _ =>
    let reserved :=
      if 0 < p.reserved scope then max (p.reserved scope - p.avgCost scope) 0
      else p.reserved scope
    let p := { p with reserved := update p.reserved scope reserved }
    if hasCost ev then
      let calls : Int := p.calls scope + 1
      let avg := p.avgCost scope + (ev.cost.totalUSD - p.avgCost scope) / calls
      { p with calls := update p.calls scope calls
               avgCost := update p.avgCost scope avg }
    else p

/-- The first critical section of `OnEvent`. -/
def Plugin.release (limits : Limits) (ev : CallEvent) (p : Plugin) : Plugin :=
  (eventScopes ev).foldl (Plugin.releaseScope limits ev) p

/-- The second critical section of `OnEvent`, for one scope. -/
def Plugin.spend (scope : String) (cost : ℚ) (p : Plugin) : (ℚ × Bool) × Plugin :=
  let newSpent := p.spent scope + cost
  ((newSpent, p.warned scope), { p with spent := update p.spent scope newSpent })

/-- The third critical section of `OnEvent`, for one scope. -/
def Plugin.warn (scope : String) (p : Plugin) : Plugin :=
  { p with warned := update p.warned scope true }

/-- `Reset`. -/
def Plugin.reset (key : String) (p : Plugin) : Plugin where
  spent := update p.spent key 0
  warned := update p.warned key false
  reserved := update p.reserved key 0
  avgCost := update p.avgCost key 0
  calls := update p.calls key 0

/-- When the warning is due. -/
def Limit.warnFraction (lim : Limit) : ℚ := if lim.warnAt ≤ 0 then 0.8 else lim.warnAt

/-- The event that warns. -/
def warningEvent (ev : CallEvent) (scope : String) (lim : Limit) (newSpent : ℚ) (now : Int) :
    CallEvent where
  timestamp := now
  tenantID := ev.tenantID
  error := "budget warning [" ++ scope ++ "]: spent $" ++ formatFixed 4 newSpent ++ " of $" ++
    formatFixed 4 lim.limitUSD ++ " (" ++ formatFixed 0 (newSpent / lim.limitUSD * 100) ++ "%)"

/-- The warning for a scope, if one is due.  `hasBus` says whether a bus is configured. -/
def warnIfDue (limits : Limits) (hasBus : Bool) (ev : CallEvent) (scope : String) (newSpent : ℚ)
    (alreadyWarned : Bool) : Go Unit :=
  match limits scope with
  | none => pure ()
  | some lim =>
    if !alreadyWarned && decide (lim.limitUSD * lim.warnFraction ≤ newSpent) then do
      Go.budgetWarned scope
      if hasBus then do
        let now ← Go.now
        Go.publish (warningEvent ev scope lim newSpent now)
      else pure ()
    else pure ()

theorem warnIfDue_emits {limits : Limits} {hasBus : Bool} {ev : CallEvent} {scope : String}
    {newSpent : ℚ} {alreadyWarned : Bool} {Q : Event effects → Prop}
    (hwarned : ∀ r, Q ⟨.budgetWarned scope, r⟩) (hnow : ∀ r, Q ⟨.now, r⟩)
    (hpublish : ∀ ev r, Q ⟨.publish ev, r⟩) :
    Emits (warnIfDue limits hasBus ev scope newSpent alreadyWarned) Q := by
  unfold warnIfDue
  split
  · exact emits_ret
  · split
    · refine emits_ask hwarned fun _ => ?_
      cases hasBus with
      | true => exact emits_ask hnow fun _ => emits_ask (hpublish _) fun _ => emits_ret
      | false => exact emits_ret
    · exact emits_ret

/-- The loop of `OnEvent` that books the cost. -/
def bookScopes (limits : Limits) (hasBus : Bool) (ev : CallEvent) : List String → Go Unit
  | [] => pure ()
  | scope :: scopes => do
    let (newSpent, alreadyWarned) ← Go.budgetSpend scope ev.cost.totalUSD
    Go.budgetJournal scope ev.cost.totalUSD
    warnIfDue limits hasBus ev scope newSpent alreadyWarned
    bookScopes limits hasBus ev scopes

/-- `OnEvent`.  Shadow calls never passed the gate and are skipped. -/
def onEvent (limits : Limits) (hasBus : Bool) (ev : CallEvent) : Go Unit :=
  if ev.shadow.isSome then pure ()
  else do
    Go.budgetRelease ev
    if hasCost ev then bookScopes limits hasBus ev (eventScopes ev) else pure ()

end Ixr.Budget
