import IxrGateway.Budget.Gate
import IxrGateway.Budget.Restart
import IxrGateway.Ingress.Reservations

/-!
# Concurrent calls at the budget plugin

`OnEvent` takes the lock once to give a reservation back, and once more for
each scope to add the cost.  Other calls come in between.  Here the calls on
the plugin are programs in a pool, so that their critical sections interleave in
any way.

Additions commute, and an event has no scope twice.  So once all events have
been processed, the spend of a scope is the sum of their costs
(`spend_accounted`).  On the way there it is not: between the two sections a
call is counted neither in what is reserved nor in what is spent.  The gate sees
all the money of the calls that have given back their reservation just if none
of them is between its two sections (`spend_visible_iff`).
-/

namespace Ixr.Budget

open Interaction LineJournal List
open Ingress (released releases releases_eq_nil bookScopes_no_release)

theorem map_eq_map_of_map_eq {α β γ δ : Type} {f : α → γ} {g : β → γ} {f' : α → δ} {g' : β → δ} :
    ∀ {l : List α} {m : List β}, l.map f = m.map g →
      (∀ a ∈ l, ∀ b, f a = g b → f' a = g' b) → l.map f' = m.map g'
  | [], [], _, _ => rfl
  | [], _ :: _, h, _ => by cases h
  | _ :: _, [], h, _ => by cases h
  | a :: l, b :: m, h, hext => by
    obtain ⟨hhead, htail⟩ := List.cons.inj h
    rw [map_cons, map_cons, hext a mem_cons_self b hhead,
      map_eq_map_of_map_eq htail fun a' ha' => hext a' (mem_cons_of_mem a ha')]

/-! ## What a run books -/

/-- The scope and cost that are booked. -/
def booking (e : Event effects) : Option (String × ℚ) :=
  match e.op with
  | .budgetSpend scope cost => some (scope, cost)
  | _ => none

/-- All that is booked in a trace. -/
def bookings (t : Trace effects) : List (String × ℚ) := t.filterMap booking

theorem bookings_append (t t' : Trace effects) : bookings (t ++ t') = bookings t ++ bookings t' :=
  filterMap_append

/-- What is booked at the scope. -/
def amountAt (scope : String) (b : String × ℚ) : ℚ := if b.1 = scope then b.2 else 0

/-- What the event books at the scope. -/
def spendOf (scope : String) (e : Event effects) : ℚ :=
  ((booking e).map (amountAt scope)).getD 0

theorem sum_spendOf (scope : String) (t : Trace effects) :
    (t.map (spendOf scope)).sum = ((bookings t).map (amountAt scope)).sum := by
  induction t with
  | nil => rfl
  | cons e t ih =>
    rw [map_cons, sum_cons, ih]
    cases hb : booking e with
    | none | some => simp [spendOf, hb, bookings]

theorem sum_amountAt (scope : String) (cost : ℚ) (scopes : List String) :
    ((scopes.map fun s => (s, cost)).map (amountAt scope)).sum = scopes.count scope * cost := by
  induction scopes with
  | nil => simp
  | cons s scopes ih =>
    rw [map_cons, map_cons, sum_cons, ih, count_cons]
    by_cases hs : s = scope
    · simp only [amountAt, hs, if_true, beq_self_eq_true]
      push_cast
      ring
    · simp [amountAt, hs]

theorem bookScopes_bookings (limits : Limits) (hasBus : Bool) (ev : CallEvent) :
    ∀ scopes : List String, Ensures (bookScopes limits hasBus ev scopes) fun t _ =>
      bookings t = scopes.map fun s => (s, ev.cost.totalUSD)
  | [] => ensures_ret.mpr rfl
  | scope :: scopes => by
    refine ensures_ask.mpr fun spent => ensures_ask.mpr fun _ => ?_
    change Ensures (warnIfDue limits hasBus ev scope spent.1 spent.2 >>= fun _ =>
      bookScopes limits hasBus ev scopes) _
    refine Ensures.bind (warnIfDue_emits (Q := fun e => booking e = none) (fun _ => rfl)
      (fun _ => rfl) fun _ _ => rfl) fun t _ ht => ?_
    refine (bookScopes_bookings limits hasBus ev scopes).mono fun t' _ ht' => ?_
    have hwarn : bookings t = [] := filterMap_eq_nil_iff.mpr ht
    have hrest : bookings (t ++ t') = scopes.map fun s => (s, ev.cost.totalUSD) := by
      rw [bookings_append, hwarn, nil_append, ht']
    exact congrArg (_ :: ·) hrest

theorem onEvent_bookings (limits : Limits) (hasBus : Bool) (ev : CallEvent) :
    Ensures (onEvent limits hasBus ev) fun t _ =>
      bookings t = (chargedScopes ev).map fun s => (s, ev.cost.totalUSD) := by
  unfold onEvent chargedScopes
  cases hshadow : ev.shadow.isSome with
  | true => exact ensures_ret.mpr rfl
  | false =>
    refine ensures_ask.mpr fun _ => ?_
    cases hcost : hasCost ev with
    | true => exact (bookScopes_bookings limits hasBus ev (eventScopes ev)).mono fun _ _ => id
    | false => exact ensures_ret.mpr rfl

/-! ## The spend in the pool -/

section

variable {β : Type} {c : Codec β DeltaEntry} {limits : Limits} {hasBus : Bool}
  {spawns : Event effects → List (Go Unit)}
  {allowed : Pool effects (Ledger β) → Move effects → Pool effects (Ledger β) → Prop}
  {w₀ : Ledger β} {P : Pool effects (Ledger β)}

theorem intercept_spent (limits : Limits) (id : Identity) (p : Plugin) :
    (p.intercept limits id).2.spent = p.spent := by
  cases hgate : p.intercept limits id with
  | mk err p' =>
    cases err with
    | some err => rw [intercept_blocked hgate]
    | none => rw [(intercept_admits hgate).frame]

theorem Ledger.step_spent {w w' : Ledger β} {o : Op} {r : o.Res} (scope : String)
    (h : Ledger.step c limits w o r w') :
    w'.plugin.spent scope = w.plugin.spent scope + spendOf scope ⟨o, r⟩ := by
  cases o with
  | budgetIntercept id =>
    rw [h.2]
    simp [intercept_spent, spendOf, booking]
  | budgetRelease ev =>
    rw [show w' = _ from h]
    simp [Plugin.release_spent, spendOf, booking]
  | budgetSpend s cost =>
    rw [h.2]
    by_cases hs : s = scope
    · subst hs
      simp [Plugin.spend, spendOf, booking, amountAt]
    · simp [Plugin.spend, spendOf, booking, amountAt, hs, Function.update_of_ne (Ne.symm hs)]
  | budgetJournal s cost =>
    have hsame : w'.plugin = w.plugin := by
      change (if w.journaling then _ else _) at h
      split at h
      · obtain ⟨now, rfl⟩ := h
        rfl
      · rw [h]
    rw [hsame]
    simp [spendOf, booking]
  | budgetWarned s =>
    rw [show w' = _ from h]
    simp [Plugin.warn, spendOf, booking]
  | _ =>
    rw [show w' = w from h]
    simp [spendOf, booking]

theorem spent_eq_bookings (h : Pool.Reached (Ledger.step c limits) spawns allowed w₀ P)
    (scope : String) :
    P.world.plugin.spent scope = w₀.plugin.spent scope +
      (P.procs.map fun proc => ((bookings proc.trace).map (amountAt scope)).sum).sum := by
  have hspent := h.quantity_eq (fun w => w.plugin.spent scope)
    fun _ _ _ _ hstep => Ledger.step_spent scope hstep
  simp only [sum_spendOf] at hspent
  exact hspent

variable {ev : CallEvent} {t : Trace effects} {q : Go Unit}

theorem mem_chargedScopes_iff {k : String} :
    k ∈ chargedScopes ev ↔
      ev.shadow = none ∧ ev.error = "" ∧ 0 < ev.cost.totalUSD ∧ k ∈ eventScopes ev := by
  unfold chargedScopes hasCost
  cases ev.shadow with
  | some info => simp
  | none => simp [and_assoc]

theorem chargedScopes_nodup (ev : CallEvent) : (chargedScopes ev).Nodup := by
  unfold chargedScopes
  split
  · exact nodup_nil
  · exact scopeKeys_nodup _

theorem charge_eq (ev : CallEvent) (k : String) :
    charge ev k = if k ∈ chargedScopes ev then ev.cost.totalUSD else 0 := by
  rw [charge, (chargedScopes_nodup ev).count]
  split <;> simp

/-- Once the events have been processed, in whatever order their critical sections came, the spend
of a key is the sum of the costs of the priced calls that have the key among their scopes. -/
theorem spend_accounted {evs : List CallEvent}
    (h : Pool.Reached (Ledger.step c limits) spawns allowed w₀ P) (hempty : w₀.plugin = {})
    (hevents : P.procs.map (·.init) = evs.map (onEvent limits hasBus))
    (hdone : ∀ proc ∈ P.procs, proc.returned = true) (k : String) :
    P.world.plugin.spent k = ((evs.filter fun ev => decide (ev.shadow = none ∧ ev.error = "" ∧
      0 < ev.cost.totalUSD ∧ k ∈ eventScopes ev)).map fun ev => ev.cost.totalUSD).sum := by
  have hcharge : P.procs.map (fun proc => ((bookings proc.trace).map (amountAt k)).sum) =
      evs.map (charge · k) := by
    refine map_eq_map_of_map_eq hevents fun proc hproc ev hinit => ?_
    have hrun := h.runs hproc (hdone proc hproc)
    rw [hinit] at hrun
    rw [onEvent_bookings limits hasBus ev _ _ hrun, sum_amountAt, charge]
  rw [spent_eq_bookings h, hempty, hcharge]
  simp only [charge_eq, mem_chargedScopes_iff, sum_map_ite]
  simp

/-! ## Between the two sections -/

/-- What runs at the plugin: a call that passes the gate and is then reported, or the report of a
call that did not have to pass. -/
inductive Task where
  | call (id : Identity) (ev : CallEvent)
  | report (ev : CallEvent)

/-- The program of a task. -/
def Task.prog (limits : Limits) (hasBus : Bool) : Task → Go Unit
  | .call id ev => do
    match ← Go.budgetIntercept id with
    | some _ => pure ()
    | none => onEvent limits hasBus ev
  | .report ev => onEvent limits hasBus ev

/-- Nothing has been given back or booked, or one event has been given back and is booked at some
of its scopes. -/
def Progress (t : Trace effects) : Prop :=
  releases t = [] ∧ bookings t = [] ∨
  ∃ ev n, releases t = [ev] ∧
    bookings t = ((chargedScopes ev).take n).map fun s => (s, ev.cost.totalUSD)

theorem onEvent_progress (h : Steps (onEvent limits hasBus ev) t q) : Progress t := by
  obtain ⟨rest, u, hrest, -⟩ := can_run q
  have hprefix : bookings t = ((chargedScopes ev).take (bookings t).length).map
      fun s => (s, ev.cost.totalUSD) := by
    have hbooked := onEvent_bookings limits hasBus ev _ _ (h.runs hrest)
    dsimp only at hbooked
    rw [map_take, ← hbooked, bookings_append, take_left]
  unfold onEvent at h
  split at h
  · cases h
    exact .inl ⟨rfl, rfl⟩
  · cases h with
    | refl => exact .inl ⟨rfl, rfl⟩
    | @ask _ _ _ t _ h =>
      refine .inr ⟨ev, _, ?_, hprefix⟩
      have hnone : ∀ e ∈ t ++ rest, released e = none := by
        have hrun := h.runs hrest
        cases hcost : hasCost ev with
        | true =>
          rw [hcost] at hrun
          exact bookScopes_no_release hasBus ev _ _ _ hrun
        | false =>
          rw [hcost] at hrun
          rw [(runs_ret_iff.mp hrun).1]
          exact forall_mem_nil _
      have htail : releases t = [] :=
        releases_eq_nil fun e he => hnone e (mem_append_left _ he)
      exact congrArg (ev :: ·) htail

theorem Task.progress {task : Task} (h : Steps (task.prog limits hasBus) t q) : Progress t := by
  cases task with
  | report ev => exact onEvent_progress h
  | call id ev =>
    cases h with
    | refl => exact .inl ⟨rfl, rfl⟩
    | @ask _ _ err t _ h =>
      cases err with
      | some err =>
        cases h
        exact .inl ⟨rfl, rfl⟩
      | none =>
        change Progress t
        exact onEvent_progress h

theorem Progress.booked (h : Progress t) (k : String) :
    ((bookings t).map (amountAt k)).sum ≤ ((releases t).map (charge · k)).sum ∧
    (((bookings t).map (amountAt k)).sum = ((releases t).map (charge · k)).sum ↔
      ∀ ev ∈ releases t, k ∈ chargedScopes ev → (k, ev.cost.totalUSD) ∈ bookings t) := by
  obtain ⟨hnone, hbooked⟩ | ⟨ev, n, hone, hbooked⟩ := h
  · simp [hnone, hbooked]
  · have hmem : (k, ev.cost.totalUSD) ∈ bookings t ↔ k ∈ (chargedScopes ev).take n := by
      simp only [hbooked, mem_map, Prod.mk.injEq, and_true, exists_eq_right]
    have hamount : ((bookings t).map (amountAt k)).sum =
        if k ∈ (chargedScopes ev).take n then ev.cost.totalUSD else 0 := by
      rw [hbooked, sum_amountAt, ((chargedScopes_nodup ev).sublist (take_sublist n _)).count]
      split <;> simp
    have howed : ((releases t).map (charge · k)).sum =
        if k ∈ chargedScopes ev then ev.cost.totalUSD else 0 := by
      rw [hone, map_singleton, sum_singleton, charge_eq]
    rw [hamount, howed]
    simp only [hone, mem_singleton, forall_eq, hmem]
    by_cases hk : k ∈ chargedScopes ev
    · have hpos : 0 < ev.cost.totalUSD := (mem_chargedScopes_iff.mp hk).2.2.1
      by_cases htake : k ∈ (chargedScopes ev).take n
      · simp [hk, htake]
      · simp [hk, htake, hpos.le, hpos.ne]
    · have htake : k ∉ (chargedScopes ev).take n := fun h => hk (mem_of_mem_take h)
      simp [hk, htake]

theorem sum_eq_sum_iff_of_le {α : Type} {f g : α → ℚ} : ∀ {l : List α},
    (∀ a ∈ l, f a ≤ g a) → ((l.map f).sum = (l.map g).sum ↔ ∀ a ∈ l, f a = g a)
  | [], _ => by simp
  | a :: l, h => by
    obtain ⟨hhead, htail⟩ := forall_mem_cons.mp h
    have hsum : (l.map f).sum ≤ (l.map g).sum := sum_le_sum htail
    rw [map_cons, map_cons, sum_cons, sum_cons, forall_mem_cons,
      ← sum_eq_sum_iff_of_le htail, add_eq_add_iff_eq_and_eq hhead hsum]

end

/-! ## Two calls of one tenant -/

open Desk (acme acmeLimits)

/-- The plugin without a journal. -/
def unjournaled (p : Plugin) : Ledger (Bool ⊕ DeltaEntry) where
  plugin := p
  file := none
  journaling := false

/-- Any program may be started and may move at any time. -/
def Reachable (limits : Limits) (p : Plugin) (P : Pool effects (Ledger (Bool ⊕ DeltaEntry))) :
    Prop :=
  Pool.Reached (Ledger.step (Codec.symbols DeltaEntry) limits) (fun _ => []) (fun _ _ _ => True)
    (unjournaled p) P

section

variable {limits : Limits} {p : Plugin} {w w' : Ledger (Bool ⊕ DeltaEntry)} {q q' : Go Unit}
  {t : Trace effects}

theorem Reachable.begin {procs : List (Proc effects)} (h : Reachable limits p ⟨w, procs⟩)
    (hsteps : Steps q t q')
    (halong : Pool.Along (Ledger.step (Codec.symbols DeltaEntry) limits) w t w') :
    Reachable limits p ⟨w', procs ++ [⟨none, q, t, q'⟩]⟩ := by
  have hnext := h.steps_alone hsteps halong (fun _ _ _ _ h => h) (fun _ => trivial)
    fun _ _ _ _ _ _ _ _ => trivial
  rw [flatMap_eq_nil_iff.mpr fun _ _ => rfl] at hnext
  exact hnext

theorem Reachable.resume {before after : List (Proc effects)} {parent : Option Nat}
    {init : Go Unit} {t₀ : Trace effects}
    (h : Reachable limits p ⟨w, before ++ ⟨parent, init, t₀, q⟩ :: after⟩) (hsteps : Steps q t q')
    (halong : Pool.Along (Ledger.step (Codec.symbols DeltaEntry) limits) w t w') :
    Reachable limits p ⟨w', before ++ ⟨parent, init, t₀ ++ t, q'⟩ :: after⟩ := by
  have hnext := h.solo hsteps halong (fun _ _ _ _ h => h) fun _ _ _ _ _ _ _ _ => trivial
  rw [flatMap_eq_nil_iff.mpr fun _ _ => rfl, map_nil, append_nil] at hnext
  exact hnext

end

def cheap : CallEvent := Desk.acmeCall 1

def dear : CallEvent := Desk.acmeCall 3

/-- What is left of an event's processing when its reservation has been given back. -/
def afterRelease (limits : Limits) (ev : CallEvent) : Go Unit :=
  if hasCost ev then bookScopes limits true ev (eventScopes ev) else pure ()

/-- The dear call has been admitted and has given back its reservation. -/
def betweenSections : Pool effects (Ledger (Bool ⊕ DeltaEntry)) where
  world := unjournaled ((acmeWarm.intercept acmeLimits acme).2.release acmeLimits dear)
  procs := [⟨none, Task.prog acmeLimits true (.call acme dear),
    [⟨.budgetIntercept acme, none⟩, ⟨.budgetRelease dear, ()⟩], afterRelease acmeLimits dear⟩]

theorem reachable_betweenSections : Reachable acmeLimits acmeWarm betweenSections := by
  have hadmitted : none = (acmeWarm.intercept acmeLimits acme).1 := by decide +kernel
  have hsteps : Steps (Task.prog acmeLimits true (.call acme dear))
      [⟨.budgetIntercept acme, none⟩, ⟨.budgetRelease dear, ()⟩]
      (afterRelease acmeLimits dear) := .ask (.ask .refl)
  exact Reachable.begin .empty hsteps (.cons ⟨hadmitted, rfl⟩ (.cons rfl .nil))

def noLimits : Limits := fun _ => none

/-- What is booked when an event of the tenant costs so much, and so much was spent before. -/
def booked (spent cost : ℚ) : Trace effects :=
  [⟨.budgetSpend "acme" cost, (spent + cost, false)⟩, ⟨.budgetJournal "acme" cost, ()⟩]

/-- The dear event is processed between the two sections of the cheap one. -/
theorem two_events_interleave :
    ∃ P, Reachable noLimits {} P ∧
      P.procs.map (·.init) = [cheap, dear].map (onEvent noLimits true) ∧
      ∀ proc ∈ P.procs, proc.returned = true := by
  have hbegun : Steps (onEvent noLimits true cheap) [⟨.budgetRelease cheap, ()⟩]
      (afterRelease noLimits cheap) := .ask .refl
  have hdear : Steps (onEvent noLimits true dear) (⟨.budgetRelease dear, ()⟩ :: booked 0 3)
      (.ret ()) := .ask (.ask (.ask .refl))
  have hcheap : Steps (afterRelease noLimits cheap) (booked 3 1) (.ret ()) := .ask (.ask .refl)
  have hfirst : Reachable noLimits {} ⟨_, [⟨none, _, _, _⟩]⟩ :=
    Reachable.begin .empty hbegun (.cons rfl .nil)
  have hsecond := hfirst.begin hdear (.cons rfl (.cons ⟨rfl, rfl⟩ (.cons rfl .nil)))
  have hlast : Reachable noLimits {} ⟨_, [] ++ ⟨none, _, _, .ret ()⟩ :: _⟩ :=
    Reachable.resume hsecond hcheap (.cons ⟨by decide +kernel, rfl⟩ (.cons rfl .nil))
  exact ⟨_, hlast, rfl, forall_mem_cons.mpr ⟨rfl, forall_mem_singleton.mpr rfl⟩⟩

theorem two_events_accounted :
    ∃ P, Reachable noLimits {} P ∧
      P.procs.map (·.init) = [cheap, dear].map (onEvent noLimits true) ∧
      (∀ proc ∈ P.procs, proc.returned = true) ∧ P.world.plugin.spent "acme" = 4 := by
  obtain ⟨P, hreached, hevents, hdone⟩ := two_events_interleave
  have hspent := spend_accounted hreached rfl hevents hdone "acme"
  exact ⟨P, hreached, hevents, hdone, hspent.trans (by decide +kernel)⟩

end Ixr.Budget
