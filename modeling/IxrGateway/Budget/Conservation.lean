import IxrGateway.Budget.Plugin

/-!
# Reservations of concurrent calls

`Intercept` reserves the average cost of a call as it is at that time.
`OnEvent` gives back the average as it is when the call is over.  In between
other calls have moved the average, so what is given back need not be what was
reserved.

`Desk` is the plugin with the calls in flight, each with what was reserved for
it.  The plugin does not keep that.  Reservations add up as long as each call
finds the average it left.
-/

namespace Ixr.Budget

open List Plugin

/-! ## One scope -/

/-- What the plugin keeps about reservations at a scope. -/
structure Account where
  reserved : ℚ
  avgCost : ℚ
  calls : Int
deriving Repr, DecidableEq

/-- The plugin's books of a scope. -/
def Plugin.account (p : Plugin) (scope : String) : Account :=
  ⟨p.reserved scope, p.avgCost scope, p.calls scope⟩

/-- What `Intercept` does to a limited scope. -/
def Account.reserve (a : Account) : Account := { a with reserved := a.reserved + a.avgCost }

/-- What the first critical section of `OnEvent` does to a limited scope. -/
def Account.release (a : Account) (ev : CallEvent) : Account where
  reserved := if 0 < a.reserved then max (a.reserved - a.avgCost) 0 else a.reserved
  avgCost :=
    if hasCost ev then a.avgCost + (ev.cost.totalUSD - a.avgCost) / ((a.calls + 1 : Int) : ℚ)
    else a.avgCost
  calls := if hasCost ev then a.calls + 1 else a.calls

theorem account_reserve (limits : Limits) (p : Plugin) (scope scope' : String) :
    (p.reserve limits scope).account scope' =
      if scope' = scope ∧ (limits scope).isSome then (p.account scope').reserve
      else p.account scope' := by
  unfold reserve
  split
  · next hnone => simp [hnone]
  · next hsome =>
    by_cases h : scope' = scope
    · subst h
      simp [account, Account.reserve, hsome]
    · simp [account, h]

theorem account_releaseScope (limits : Limits) (ev : CallEvent) (p : Plugin)
    (scope scope' : String) :
    (p.releaseScope limits ev scope).account scope' =
      if scope' = scope ∧ (limits scope).isSome then (p.account scope').release ev
      else p.account scope' := by
  unfold releaseScope
  split
  · next hnone => simp [hnone]
  · next hsome =>
    by_cases h : scope' = scope
    · subst h
      simp only [hsome, Option.isSome_some, and_self, if_true]
      split
      · next hcost =>
        simp only [account, Account.release, hcost, Function.update_self, if_true]
        congr
      · next hcost =>
        simp only [account, Account.release, hcost, Function.update_self]
        congr
    · simp only [h, false_and, if_false]
      split
      · simp [account, h]
      · simp [account, h]

/-! ## The scopes of a call -/

theorem append_colon_ne (scope part : String) : scope ++ ":" ++ part ≠ scope := by
  intro h
  have hlength := congrArg String.length h
  simp only [String.length_append] at hlength
  have hcolon : ":".length = 1 := rfl
  omega

theorem scopeKeys_nodup (id : Identity) : (scopeKeys id).Nodup := by
  have huser : id.tenantID ++ ":" ++ id.teamID ++ ":" ++ id.userID ≠ id.tenantID := by
    have h := append_colon_ne id.tenantID (id.teamID ++ ":" ++ id.userID)
    simpa only [String.append_assoc] using h
  unfold scopeKeys
  split_ifs <;> simp [append_colon_ne, huser]

variable {limits : Limits} {id : Identity}

/-- A fold over different scopes, where each step changes the account of its scope only. -/
theorem account_foldl {f : Plugin → String → Plugin} {g : Account → Account}
    (hf : ∀ p scope scope', (f p scope).account scope' =
      if scope' = scope ∧ (limits scope).isSome then g (p.account scope') else p.account scope') :
    ∀ {scopes : List String}, scopes.Nodup → ∀ (p : Plugin) (scope : String),
      (scopes.foldl f p).account scope =
        if scope ∈ scopes ∧ (limits scope).isSome then g (p.account scope) else p.account scope
  | [], _, p, scope => by simp
  | s :: scopes, hnodup, p, scope => by
    obtain ⟨hs, hnodup⟩ := nodup_cons.mp hnodup
    rw [foldl_cons, account_foldl hf hnodup, hf]
    by_cases h : scope = s
    · subst h
      simp [hs]
    · simp [h]

theorem account_intercept {p p' : Plugin} (h : p.intercept limits id = (none, p'))
    (scope : String) :
    p'.account scope =
      if scope ∈ scopeKeys id ∧ (limits scope).isSome then (p.account scope).reserve
      else p.account scope := by
  unfold intercept at h
  split at h
  · cases h
  · cases h
    exact account_foldl (account_reserve limits) (scopeKeys_nodup id) p scope

theorem intercept_blocked {p p' : Plugin} {err : BlockedError}
    (h : p.intercept limits id = (some err, p')) : p' = p := by
  unfold intercept at h
  split at h
  · cases h
    rfl
  · cases h

theorem account_release (limits : Limits) (ev : CallEvent) (p : Plugin) (scope : String) :
    (p.release limits ev).account scope =
      if scope ∈ eventScopes ev ∧ (limits scope).isSome then (p.account scope).release ev
      else p.account scope :=
  account_foldl (g := fun a => a.release ev) (account_releaseScope limits ev) (scopeKeys_nodup _) p
    scope

/-! ## Calls in flight -/

/-- A call that has not ended. -/
structure Flight where
  id : Identity
  estimate : String → ℚ

/-- The plugin and the calls in flight. -/
structure Desk where
  plugin : Plugin
  flights : List Flight := []

/-- What happens at the desk.  The last two are the sections of `OnEvent` after the first. -/
inductive DeskAction where
  | intercept (id : Identity)
  | release (flight : Nat) (ev : CallEvent)
  | spend (scope : String) (cost : ℚ)
  | warn (scope : String)

/-- What `Intercept` reserves for a call. -/
def estimates (limits : Limits) (p : Plugin) (id : Identity) (scope : String) : ℚ :=
  if scope ∈ scopeKeys id ∧ (limits scope).isSome then p.avgCost scope else 0

/-- The event reports a call of this identity. -/
def Reports (id : Identity) (ev : CallEvent) : Prop :=
  ev.shadow = none ∧ ev.tenantID = id.tenantID ∧ ev.teamID = id.teamID ∧ ev.userID = id.userID

instance (id : Identity) (ev : CallEvent) : Decidable (Reports id ev) :=
  inferInstanceAs (Decidable (_ ∧ _))

theorem Reports.eventScopes {ev : CallEvent} (h : Reports id ev) :
    eventScopes ev = scopeKeys id := by
  obtain ⟨_, htenant, hteam, huser⟩ := h
  simp only [Budget.eventScopes, scopeKeys, htenant, hteam, huser]

namespace Desk

/-- What an action does. -/
def step (limits : Limits) (d : Desk) : DeskAction → Option Desk
  | .intercept id =>
    match d.plugin.intercept limits id with
    | (some _, p) => some { d with plugin := p }
    | (none, p) => some ⟨p, d.flights ++ [⟨id, estimates limits d.plugin id⟩]⟩
  | .release i ev =>
    match d.flights[i]? with
    | some f =>
      if Reports f.id ev then some ⟨d.plugin.release limits ev, d.flights.eraseIdx i⟩ else none
    | none => none
  | .spend scope cost => some { d with plugin := (d.plugin.spend scope cost).2 }
  | .warn scope => some { d with plugin := d.plugin.warn scope }

/-- The actions one after the other. -/
def run (limits : Limits) : Desk → List DeskAction → Option Desk
  | d, [] => some d
  | d, a :: actions => (d.step limits a).bind fun d' => d'.run limits actions

/-- The estimates of calls in flight. -/
def pending (d : Desk) (scope : String) : ℚ := (d.flights.map (·.estimate scope)).sum

/-- At every limited scope, the reservations are those of the calls in flight. -/
def Conserved (limits : Limits) (d : Desk) : Prop :=
  ∀ scope, (limits scope).isSome → d.plugin.reserved scope = d.pending scope

/-- A call that is reported finds at each limited scope the average it left, or nothing reserved,
or only its own reservation and an average that is not lower. -/
def Steady (limits : Limits) (d : Desk) (a : DeskAction) : Prop :=
  ∀ i ev f, a = .release i ev → d.flights[i]? = some f →
    ∀ scope ∈ scopeKeys f.id, (limits scope).isSome →
      d.plugin.reserved scope = 0 ∨ d.plugin.avgCost scope = f.estimate scope ∨
        d.plugin.reserved scope = f.estimate scope ∧ f.estimate scope ≤ d.plugin.avgCost scope

/-! ## Averages and estimates -/

end Desk

/-- No negative number in the books. -/
def Account.Sane (a : Account) : Prop := 0 ≤ a.avgCost ∧ 0 ≤ a.calls

theorem Account.Sane.release {a : Account} (h : a.Sane) (ev : CallEvent) : (a.release ev).Sane := by
  unfold Account.release
  by_cases hcost : hasCost ev
  · have hpos : 0 < ev.cost.totalUSD := by
      simp only [hasCost, Bool.and_eq_true, decide_eq_true_eq] at hcost
      exact hcost.2
    have hcalls : (1 : ℚ) ≤ ((a.calls + 1 : Int) : ℚ) := by
      have : (1 : Int) ≤ a.calls + 1 := by have := h.2; omega
      exact_mod_cast this
    have hshare : a.avgCost / ((a.calls + 1 : Int) : ℚ) ≤ a.avgCost := div_le_self h.1 hcalls
    have hgain : 0 ≤ ev.cost.totalUSD / ((a.calls + 1 : Int) : ℚ) := by positivity
    simp only [hcost, if_true]
    refine ⟨?_, by have := h.2; dsimp only; omega⟩
    dsimp only
    rw [sub_div]
    linarith
  · simp only [hcost, if_false, Bool.false_eq_true]
    exact h

namespace Desk

/-- Averages and estimates are not negative, and estimates are for the call's own scopes. -/
structure Sound (d : Desk) : Prop where
  averages : ∀ scope, (d.plugin.account scope).Sane
  estimates : ∀ f ∈ d.flights, ∀ scope, 0 ≤ f.estimate scope ∧
    (scope ∉ scopeKeys f.id → f.estimate scope = 0)

variable {limits : Limits} {d d' : Desk} {a : DeskAction} {p : Plugin}

theorem step_cases (h : d.step limits a = some d') :
    (∃ id p, a = .intercept id ∧ d.plugin.intercept limits id = (none, p) ∧
      d' = ⟨p, d.flights ++ [⟨id, Budget.estimates limits d.plugin id⟩]⟩) ∨
    (∃ i ev f, a = .release i ev ∧ d.flights[i]? = some f ∧ Reports f.id ev ∧
      d' = ⟨d.plugin.release limits ev, d.flights.eraseIdx i⟩) ∨
    ((∀ i ev, a ≠ .release i ev) ∧ d'.flights = d.flights ∧
      ∀ scope, d'.plugin.account scope = d.plugin.account scope) := by
  cases a with
  | intercept id =>
    simp only [step] at h
    split at h
    · next p hblocked =>
      cases h
      exact .inr (.inr ⟨by simp, rfl, fun _ => by rw [intercept_blocked hblocked]⟩)
    · next p hpassed =>
      cases h
      exact .inl ⟨id, p, rfl, hpassed, rfl⟩
  | release i ev =>
    simp only [step] at h
    split at h
    · next f hf =>
      split at h
      · next hreports =>
        cases h
        exact .inr (.inl ⟨i, ev, f, rfl, hf, hreports, rfl⟩)
      · cases h
    · cases h
  | spend | warn =>
    cases h
    exact .inr (.inr ⟨by simp, rfl, fun _ => rfl⟩)

variable {i : Nat} {f : Flight} {d₀ : Desk}

theorem pending_eraseIdx (h : d.flights[i]? = some f) (p : Plugin) (scope : String) :
    d.pending scope = f.estimate scope + pending ⟨p, d.flights.eraseIdx i⟩ scope := by
  obtain ⟨hi, rfl⟩ := List.getElem?_eq_some_iff.mp h
  have hperm := (getElem_cons_eraseIdx_perm hi).map (·.estimate scope)
  rw [pending, ← hperm.sum_eq, map_cons, sum_cons]
  rfl

theorem Sound.step (h : d.Sound) (hstep : d.step limits a = some d') : d'.Sound := by
  obtain ⟨id, p, rfl, hpassed, rfl⟩ | ⟨i, ev, f, rfl, hf, _, rfl⟩ | ⟨_, hflights, haccount⟩ :=
    step_cases hstep
  · refine ⟨fun scope => ?_, fun f hf scope => ?_⟩
    · rw [account_intercept hpassed scope]
      split
      · exact h.averages scope
      · exact h.averages scope
    · rw [mem_append, mem_singleton] at hf
      obtain hf | rfl := hf
      · exact h.estimates f hf scope
      · unfold Budget.estimates
        refine ⟨?_, fun hscope => if_neg fun hc => hscope hc.1⟩
        dsimp only
        split
        · exact (h.averages scope).1
        · exact le_refl 0
  · refine ⟨fun scope => ?_, fun f hf scope => h.estimates f (mem_of_mem_eraseIdx hf) scope⟩
    rw [account_release limits ev d.plugin scope]
    split
    · exact (h.averages scope).release ev
    · exact h.averages scope
  · refine ⟨fun scope => ?_, fun f hf => h.estimates f (hflights ▸ hf)⟩
    rw [haccount scope]
    exact h.averages scope

/-! ## Giving back -/

theorem given_back_iff {reserved estimate others avg : ℚ} (hsum : reserved = estimate + others)
    (hestimate : 0 ≤ estimate) (hothers : 0 ≤ others) :
    (if 0 < reserved then max (reserved - avg) 0 else reserved) = others ↔
      reserved = 0 ∨ avg = estimate ∨ reserved = estimate ∧ estimate ≤ avg := by
  split
  · next hpos =>
    constructor
    · intro h
      obtain hle | hlt := le_or_gt avg reserved
      · rw [max_eq_left (by linarith)] at h
        exact .inr (.inl (by linarith))
      · rw [max_eq_right (by linarith)] at h
        exact .inr (.inr ⟨by linarith, by linarith⟩)
    · rintro (hzero | rfl | ⟨heq, hle⟩)
      · linarith
      · rw [max_eq_left (by linarith)]
        linarith
      · rw [max_eq_right (by linarith)]
        linarith
  · next hpos =>
    have hzero : reserved = 0 := by linarith
    exact iff_of_true (by linarith) (.inl hzero)

theorem Conserved.intercept (h : d.Conserved limits)
    (hpassed : d.plugin.intercept limits id = (none, p)) :
    Conserved limits ⟨p, d.flights ++ [⟨id, Budget.estimates limits d.plugin id⟩]⟩ := by
  intro scope hlimit
  have hreserved := congrArg Account.reserved (account_intercept hpassed scope)
  have hbefore : d.plugin.reserved scope = (d.flights.map (·.estimate scope)).sum := h scope hlimit
  simp only [pending, map_append, sum_append, map_singleton, sum_singleton,
    Budget.estimates, ← hbefore]
  split at hreserved
  · next hmine =>
    rw [if_pos hmine]
    exact hreserved
  · next hother =>
    rw [if_neg hother, add_zero]
    exact hreserved

theorem conserved_release_iff {ev : CallEvent} (hsound : d.Sound) (h : d.Conserved limits)
    (hf : d.flights[i]? = some f) (hreports : Reports f.id ev) :
    Conserved limits ⟨d.plugin.release limits ev, d.flights.eraseIdx i⟩ ↔
      d.Steady limits (.release i ev) := by
  have hmem : f ∈ d.flights := mem_of_getElem? hf
  -- The condition at one scope: what is left there is what the others have reserved.
  have hscope (scope : String) (hlimit : (limits scope).isSome) :
      (d.plugin.release limits ev).reserved scope =
          pending ⟨d.plugin.release limits ev, d.flights.eraseIdx i⟩ scope ↔
        (scope ∈ scopeKeys f.id → d.plugin.reserved scope = 0 ∨
          d.plugin.avgCost scope = f.estimate scope ∨
          d.plugin.reserved scope = f.estimate scope ∧
            f.estimate scope ≤ d.plugin.avgCost scope) := by
    have hreserved := congrArg Account.reserved (account_release limits ev d.plugin scope)
    have hsum := (h scope hlimit).trans (pending_eraseIdx hf (d.plugin.release limits ev) scope)
    rw [hreports.eventScopes] at hreserved
    change (d.plugin.release limits ev).reserved scope = _ at hreserved
    rw [hreserved]
    by_cases hmine : scope ∈ scopeKeys f.id
    · rw [if_pos ⟨hmine, hlimit⟩, forall_prop_of_true hmine]
      refine given_back_iff hsum (hsound.estimates f hmem scope).1 ?_
      exact sum_nonneg fun x hx => by
        obtain ⟨f', hf', rfl⟩ := mem_map.mp hx
        exact (hsound.estimates f' (mem_of_mem_eraseIdx hf') scope).1
    · rw [if_neg fun hc => hmine hc.1]
      refine iff_of_true ?_ fun hc => absurd hc hmine
      rw [(hsound.estimates f hmem scope).2 hmine, zero_add] at hsum
      exact hsum
  constructor
  · rintro hafter _ _ f' ⟨⟩ hf' scope hmine hlimit
    rw [hf] at hf'
    cases hf'
    exact (hscope scope hlimit).mp (hafter scope hlimit) hmine
  · intro hsteady scope hlimit
    exact (hscope scope hlimit).mpr fun hmine => hsteady i ev f rfl hf scope hmine hlimit

theorem conserved_step_iff (hsound : d.Sound) (h : d.Conserved limits)
    (hstep : d.step limits a = some d') : d'.Conserved limits ↔ d.Steady limits a := by
  obtain ⟨id, p, rfl, hpassed, rfl⟩ | ⟨i, ev, f, rfl, hf, hreports, rfl⟩ |
    ⟨hother, hflights, haccount⟩ := step_cases hstep
  · exact iff_of_true (h.intercept hpassed) (by rintro _ _ _ ⟨⟩)
  · exact conserved_release_iff hsound h hf hreports
  · refine iff_of_true (fun scope hlimit => ?_) fun i ev f heq => absurd heq (hother i ev)
    have hreserved : d'.plugin.reserved scope = d.plugin.reserved scope :=
      congrArg Account.reserved (haccount scope)
    rw [hreserved, h scope hlimit, pending, pending, hflights]

/-! ## Runs -/

theorem run_append (limits : Limits) : ∀ (d : Desk) (actions : List DeskAction) (a : DeskAction),
    d.run limits (actions ++ [a]) = (d.run limits actions).bind fun d' => d'.step limits a
  | d, [], a => by
    simp only [nil_append, run, Option.bind_some, Option.bind_fun_some]
  | d, b :: actions, a => by
    rw [cons_append, run, run, Option.bind_assoc]
    exact congrArg _ (funext fun d' => run_append limits d' actions a)

theorem run_shorter {before actions : List DeskAction} (hpre : before <+: actions) :
    ∀ {final : Desk}, d₀.run limits actions = some final → ∃ d, d₀.run limits before = some d := by
  obtain ⟨rest, rfl⟩ := hpre
  induction rest using reverseRecOn with
  | nil =>
    intro final hrun
    rw [append_nil] at hrun
    exact ⟨final, hrun⟩
  | append_singleton rest a ih =>
    intro final hrun
    rw [← append_assoc, run_append] at hrun
    obtain ⟨d, hd, _⟩ := Option.bind_eq_some_iff.mp hrun
    exact ih hd

/-- The plugin has reserved nothing and averaged nothing yet.  It may have replayed spend. -/
def Fresh (p : Plugin) : Prop :=
  ∀ scope, p.reserved scope = 0 ∧ p.avgCost scope = 0 ∧ p.calls scope = 0

theorem Fresh.sound (h : Fresh p) : Sound { plugin := p } := by
  refine ⟨fun scope => ?_, by simp⟩
  obtain ⟨_, havg, hcalls⟩ := h scope
  exact ⟨havg.symm.le, hcalls.symm.le⟩

theorem Fresh.conserved (h : Fresh p) (limits : Limits) : Conserved limits { plugin := p } :=
  fun scope _ => (h scope).1

theorem Sound.run (h : d₀.Sound) (actions : List DeskAction) :
    ∀ d, d₀.run limits actions = some d → d.Sound := by
  induction actions using reverseRecOn with
  | nil =>
    rintro d ⟨⟩
    exact h
  | append_singleton actions a ih =>
    intro d hrun
    rw [run_append] at hrun
    obtain ⟨d', hrun', hstep⟩ := Option.bind_eq_some_iff.mp hrun
    exact (ih d' hrun').step hstep

/-- Reservations are conserved throughout a run just if each of its steps is steady. -/
theorem reservations_conserved_iff {limits : Limits} {p : Plugin} (hp : Fresh p)
    {actions : List DeskAction} {final : Desk}
    (hrun : run limits { plugin := p } actions = some final) :
    (∀ before d, before <+: actions → run limits { plugin := p } before = some d →
      d.Conserved limits) ↔
    ∀ before a d, before ++ [a] <+: actions → run limits { plugin := p } before = some d →
      d.Steady limits a := by
  constructor
  · intro h before a d hpre hd
    obtain ⟨d', hd'⟩ := run_shorter hpre hrun
    have hstep := hd'
    rw [run_append, hd, Option.bind_some] at hstep
    have hconserved := h before d ((prefix_append before [a]).trans hpre) hd
    exact (conserved_step_iff (hp.sound.run before d hd) hconserved hstep).mp
      (h (before ++ [a]) d' hpre hd')
  · intro h before
    induction before using reverseRecOn with
    | nil =>
      rintro d _ ⟨⟩
      exact hp.conserved limits
    | append_singleton before a ih =>
      intro d hpre hd
      rw [run_append] at hd
      obtain ⟨d', hd', hstep⟩ := Option.bind_eq_some_iff.mp hd
      have hconserved := ih d' ((prefix_append before [a]).trans hpre) hd'
      exact (conserved_step_iff (hp.sound.run before d' hd') hconserved hstep).mpr
        (h before a d' hpre hd')

/-! ## A burst -/

def acmeLimits : Limits := fun scope => if scope = "acme" then some { limitUSD := 100 } else none

def acme : Identity := { tenantID := "acme" }

def acmeCall (cost : ℚ) : CallEvent := { tenantID := "acme", cost := { totalUSD := cost } }

/-- A call of price 1. -/
def oneCall : List DeskAction := [.intercept acme, .release 0 (acmeCall 1)]

/-- After it, two calls at once of the same price. -/
def evenCalls : List DeskAction := oneCall ++
  [.intercept acme, .intercept acme, .release 0 (acmeCall 1), .release 0 (acmeCall 1)]

/-- After one call of price 1, three calls at once.  The first of them costs 3, and the average
goes up to 2. -/
def burst : List DeskAction := oneCall ++
  [.intercept acme, .intercept acme, .intercept acme, .release 0 (acmeCall 3),
    .release 0 (acmeCall 1)]

theorem acmeLimits_isSome {scope : String} (h : (acmeLimits scope).isSome) : scope = "acme" := by
  unfold acmeLimits at h
  split at h
  · assumption
  · cases h

/-- Two calls at once reserve twice the average, and as it stays the same they give that back. -/
theorem evenCalls_conserved :
    ((run acmeLimits { plugin := {} } (evenCalls.take 4)).map fun d => d.plugin.reserved "acme") =
      some 2 ∧
    (run acmeLimits { plugin := {} } evenCalls).isSome = true ∧
    ∀ before d, before <+: evenCalls → run acmeLimits { plugin := {} } before = some d →
      d.Conserved acmeLimits := by
  have hfresh : Fresh {} := fun _ => ⟨rfl, rfl, rfl⟩
  have hsome : (run acmeLimits { plugin := {} } evenCalls).isSome = true := by decide +kernel
  obtain ⟨final, hfinal⟩ := Option.isSome_iff_exists.mp hsome
  -- On the way the average is what was reserved for each call in flight.
  have hsteady : ∀ k < 6, (run acmeLimits { plugin := {} } (evenCalls.take k)).all fun d =>
      d.flights.all fun f => d.plugin.avgCost "acme" == f.estimate "acme" := by decide +kernel
  refine ⟨by decide +kernel, hsome, (reservations_conserved_iff hfresh hfinal).mpr ?_⟩
  intro before a d hpre hd i ev f _ hf scope _ hlimit
  have hlength : before.length < 6 := by simpa [evenCalls, oneCall] using hpre.length_le
  have htake := prefix_iff_eq_take.mp ((prefix_append before [a]).trans hpre)
  have hall := hsteady before.length hlength
  rw [← htake, hd, Option.all_some, all_eq_true] at hall
  rw [acmeLimits_isSome hlimit]
  exact .inr (.inl (eq_of_beq (hall f (mem_of_getElem? hf))))

/-- The second of three calls gives back what the third has reserved. -/
theorem burst_not_conserved :
    ∃ final, run acmeLimits { plugin := {} } burst = some final ∧
      final.plugin.reserved "acme" = 0 ∧ final.pending "acme" = 1 ∧
      ¬ final.Conserved acmeLimits := by
  have hvalues : (run acmeLimits { plugin := {} } burst).map
      (fun d => (d.plugin.reserved "acme", d.pending "acme")) = some (0, 1) := by decide +kernel
  obtain ⟨final, hfinal, heq⟩ := Option.map_eq_some_iff.mp hvalues
  obtain ⟨hreserved, hpending⟩ := Prod.mk.inj heq
  refine ⟨final, hfinal, hreserved, hpending, fun h => ?_⟩
  have hconserved := h "acme" (by decide)
  rw [hreserved, hpending] at hconserved
  norm_num at hconserved

end Desk

end Ixr.Budget
