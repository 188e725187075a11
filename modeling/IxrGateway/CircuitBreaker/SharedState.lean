import IxrGateway.CircuitBreaker.Registry
import IxrGateway.Interaction.Pool

/-!
# The breaker state that replicas share

A registry with a state store tells other replicas when a breaker changes its
state.  `RecordOutcome` looks at the state before and after it records, and
starts a goroutine that saves the second one if the two differ.  Each look, each
call on the breaker and each save is a step of its own, and the steps of calls
and goroutines interleave.

A state that `Allow` brings about is never saved, so the store does not learn
that a breaker is half open.  The other changes reach it as long as they do not
get in each other's way (`shared_state_iff`).  If they do, a save can arrive
after a later one and overwrite it.

Other replicas are left out: the registry at hand is the only one that saves.
-/

namespace Ixr.CircuitBreaker.Shared

open Interaction Prog List Pool Function

/-- What the methods do. -/
inductive RegistryOp where
  /-- `get`, up to the lock of the registry. -/
  | get (model : String)
  /-- `CurrentState` of the model's breaker. -/
  | currentState (model : String)
  /-- Another method of the model's breaker. -/
  | call (model : String) (c : Call)
  /-- Start the goroutine that saves the state. -/
  | goSave (model : String) (state : State)
  /-- `Save` of the state store. -/
  | save (model : String) (state : State)

/-- The operations and their results. -/
def registryOps : Sig where
  Op := RegistryOp
  Res
    | .get _ => Unit
    | .currentState _ => State
    | .call _ _ => Bool
    | .goSave _ _ => Unit
    | .save _ _ => Unit

/-- A method of the registry. -/
abbrev Method := Prog registryOps

namespace Method

def get (model : String) : Method Unit := perform (S := registryOps) (.get model)

def currentState (model : String) : Method State := perform (S := registryOps) (.currentState model)

def call (model : String) (c : Call) : Method Bool := perform (S := registryOps) (.call model c)

def goSave (model : String) (state : State) : Method Unit :=
  perform (S := registryOps) (.goSave model state)

def save (model : String) (state : State) : Method Unit :=
  perform (S := registryOps) (.save model state)

end Method

/-- `IsAllowed`. -/
def isAllowed (model : String) : Method Bool := do
  Method.get model
  Method.call model .allow

/-- The end of `RecordOutcome`, for a registry with a store. -/
def report (model : String) (before : State) : Method Unit := do
  let after ← Method.currentState model
  if after = before then pure () else Method.goSave model after

/-- `RecordOutcome`. -/
def recordOutcome (hasStore : Bool) (model : String) (success : Bool) : Method Unit := do
  Method.get model
  let before ← Method.currentState model
  let _ ← Method.call model (if success then .recordSuccess else .recordFailure)
  if hasStore then report model before else pure ()

/-- The save that is started. -/
def spawns : Event registryOps → List (Method Unit)
  | ⟨.goSave model state, _⟩ => [Method.save model state]
  | _ => []

/-! ## The world -/

/-- The registry and its store. -/
structure World where
  registry : Registry
  store : String → Option State
  /-- The model's breaker has changed its state since it was made. -/
  changed : String → Bool := fun _ => false

/-- The state of the model's breaker. -/
def World.stateOf (w : World) (model : String) : Option State :=
  (w.registry.breakers model).map Breaker.state

/-- The model's breaker, if there is one, is in this state. -/
def World.Possible (w : World) (model : String) (s : State) : Prop :=
  ∀ s', w.stateOf model = some s' → s' = s

/-- Sets the model's breaker. -/
def World.put (w : World) (model : String) (b : Breaker) : World :=
  { w with registry := { w.registry with
      breakers := update w.registry.breakers model (some b) } }

/-- Calls the model's breaker. -/
def World.call (w : World) (model : String) (b : Breaker) (now : Int) (c : Call) : World :=
  { w.put model (b.call now c).2 with
      changed := update w.changed model
        (w.changed model || decide ((b.call now c).2.state ≠ b.state)) }

/-- Saves a state in the store. -/
def World.save (w : World) (model : String) (s : State) : World :=
  { w with store := update w.store model (some s) }

/-- What the steps do.  The clock may show anything, and `Load` may fail. -/
def answers (w : World) : (o : RegistryOp) → registryOps.Res o → World → Prop
  | .get model, _, w' => ∃ seed created, (seed = none ∨ seed = w.store model) ∧
      w' = w.put model (w.registry.get seed created model)
  | .currentState model, s, w' => w.stateOf model = some s ∧ w' = w
  | .call model c, granted, w' => ∃ b now, w.registry.breakers model = some b ∧
      granted = (b.call now c).1 ∧ w' = w.call model b now c
  | .goSave _ _, _, w' => w' = w
  | .save model s, _, w' => w' = w.save model s

@[simp] theorem World.stateOf_put_self (w : World) (model : String) (b : Breaker) :
    (w.put model b).stateOf model = some b.state := by
  simp [World.stateOf, World.put]

theorem World.stateOf_put_of_ne (w : World) {model other : String} (b : Breaker)
    (h : other ≠ model) : (w.put model b).stateOf other = w.stateOf other := by
  simp [World.stateOf, World.put, h]

/-! ## Schedules -/

/-- The methods that are called from outside. -/
def Calls : Move registryOps → Prop
  | .start p => (∃ model, p = (isAllowed model).void) ∨
      ∃ model success, p = recordOutcome true model success
  | .perform _ _ => True

/-- The program has looked at the state of the model's breaker and not returned, or it is a save of
such a state that is still to come. -/
def Engaged (model : String) (proc : Proc registryOps) : Prop :=
  proc.returned = false ∧
    ((∃ s : State, (⟨.currentState model, s⟩ : Event registryOps) ∈ proc.trace) ∨
      ∃ s, proc.init = Method.save model s)

/-- If a step changes the state of the model's breaker, no other program is engaged with it. -/
def Undisturbed (model : String) (P : Pool registryOps World) (m : Move registryOps)
    (P' : Pool registryOps World) : Prop :=
  match m with
  | .start _ => True
  | .perform place _ => ∀ s s', P.world.stateOf model = some s → P'.world.stateOf model = some s' →
      s ≠ s' → ∀ proc ∈ P.procs.eraseIdx place, ¬ Engaged model proc

/-- Calls whose changes of the model's state do not get in each other's way. -/
def Orderly (model : String) (P : Pool registryOps World) (m : Move registryOps)
    (P' : Pool registryOps World) : Prop :=
  Calls m ∧ Undisturbed model P m P'

/-- A registry with a store. -/
def World.start (policy : Policy) (store : String → Option State) : World where
  registry := { policy := policy, hasStore := true }
  store := store

/-! ## Programs that have nothing to save -/

section

variable {model : String} {s : State} {w w' : World} {o : RegistryOp} {r : registryOps.Res o}

/-- The step carries a state of the model's breaker to the store. -/
def Carries (model : String) : RegistryOp → Prop
  | .goSave model' _ | .save model' _ => model' = model
  | _ => False

/-- The answer is not at odds with the model's breaker being in the state `s`. -/
def Shows (model : String) (s : State) : (o : RegistryOp) → registryOps.Res o → Prop
  | .currentState model', r => model' = model → r = s
  | _, _ => True

/-- While the model's breaker is in the state `s`, the program saves no state of it. -/
def Quiet (model : String) (s : State) : Method Unit → Prop
  | .ret _ => True
  | .ask o k => ¬ Carries model o ∧ ∀ r, Shows model s o r → Quiet model s (k r)

theorem quiet_isAllowed (model' : String) : Quiet model s (isAllowed model').void :=
  ⟨not_false, fun _ _ => ⟨not_false, fun _ _ => trivial⟩⟩

theorem quiet_report {model' : String} {before : State} (h : model' = model → before = s) :
    Quiet model s (report model' before) := by
  refine ⟨not_false, fun (after : State) hafter => ?_⟩
  change Quiet model s (if after = before then .ret () else Method.goSave model' after)
  split
  · trivial
  · rename_i hne
    refine ⟨fun hmodel => hne ?_, fun _ _ => trivial⟩
    rw [hafter hmodel, h hmodel]

theorem quiet_recordOutcome (model' : String) (success : Bool) :
    Quiet model s (recordOutcome true model' success) :=
  ⟨not_false, fun _ _ => ⟨not_false, fun _ hbefore => ⟨not_false, fun _ _ =>
    quiet_report hbefore⟩⟩⟩

theorem quiet_save {model' : String} (h : model' ≠ model) (s' : State) :
    Quiet model s (Method.save model' s') :=
  ⟨h, fun _ _ => trivial⟩

theorem quiet_spawns (h : ¬ Carries model o) : ∀ p ∈ spawns ⟨o, r⟩, Quiet model s p := by
  cases o with
  | goSave model' s' => exact forall_mem_singleton.mpr (quiet_save h s')
  | get | currentState | call | save => exact forall_mem_nil _

/-- Without a look at the breaker, a program that is quiet whatever the state stays so. -/
theorem quiet_of_steps {p q : Method Unit} {t : Trace registryOps} (h : Steps p t q)
    (hquiet : ∀ s, Quiet model s p)
    (hlook : ∀ s : State, (⟨.currentState model, s⟩ : Event registryOps) ∉ t) :
    ∀ s, Quiet model s q := by
  induction h with
  | refl => exact hquiet
  | @ask o k r t q _ ih =>
    refine ih (fun s => (hquiet s).2 r ?_) fun s hmem => hlook s (mem_cons_of_mem _ hmem)
    cases o with
    | currentState model' =>
      rintro rfl
      exact absurd (mem_cons_self ..) (hlook r)
    | get | call | goSave | save => trivial

/-- The program is about to save the state `s` of the model's breaker. -/
inductive Owes (model : String) (s : State) : Method Unit → Prop where
  | report {before : State} : before ≠ s → Owes model s (report model before)
  | goSave : Owes model s (Method.goSave model s)
  | save : Owes model s (Method.save model s)

theorem Owes.not_quiet {p : Method Unit} (h : Owes model s p) : ¬ Quiet model s p := by
  cases h with
  | @report before hne =>
    intro hquiet
    have hrest : Quiet model s (if s = before then .ret () else Method.goSave model s) :=
      hquiet.2 s fun _ => rfl
    rw [if_neg hne.symm] at hrest
    exact hrest.1 rfl
  | goSave | save => exact fun hquiet => hquiet.1 rfl

theorem Owes.next {k : registryOps.Res o → Method Unit} (h : Owes model s (.ask o k))
    (hstate : w.stateOf model = some s) (hanswer : answers w o r w') :
    (w' = w ∧ ((Owes model s (k r) ∧ spawns ⟨o, r⟩ = []) ∨
      (k r = .ret () ∧ spawns ⟨o, r⟩ = [Method.save model s]))) ∨
    (w' = w.save model s ∧ k r = .ret () ∧
      spawns ⟨o, r⟩ = []) := by
  generalize hp : Prog.ask (S := registryOps) o k = p at h
  cases h with
  | @report before hne =>
    cases hp
    obtain ⟨hlook, hw⟩ := hanswer
    cases hstate.symm.trans hlook
    refine .inl ⟨hw, .inl ⟨?_, rfl⟩⟩
    change Owes model s (if s = before then .ret () else Method.goSave model s)
    rw [if_neg hne.symm]
    exact .goSave
  | goSave =>
    cases hp
    exact .inl ⟨hanswer, .inr ⟨rfl, rfl⟩⟩
  | save =>
    cases hp
    exact .inr ⟨hanswer, rfl, rfl⟩

end

/-! ## What a step does to the model's breaker -/

/-- `Allow` makes an open breaker half open, and records never lead to that state. -/
inductive Moves : Call → State → State → Prop where
  | allow : Moves .allow .stateOpen .stateHalfOpen
  | record {c : Call} {s s' : State} : c ≠ .allow → s ≠ s' → s' ≠ .stateHalfOpen → Moves c s s'

theorem moves_of_transition {b b' : Breaker} {now : Int} {c : Call} {granted : Bool}
    (h : Transition b now c granted b') (hne : b'.state ≠ b.state) :
    Moves c b.state b'.state := by
  cases h with
  | late hs | lateSpent hs =>
    rw [hs]
    exact .allow
  | close | trip | reopen => exact .record (by simp) hne.symm (by simp)
  | pass => exact absurd (b.roll_state now) hne
  | early | probe | spent | count | passed | countFailure | ignored => exact absurd rfl hne

theorem Moves.ne {c : Call} {s s' : State} (h : Moves c s s') : s ≠ s' := by
  cases h with
  | allow => simp
  | record _ hne => exact hne

section

variable {model : String} {s : State} {w w' : World} {o : RegistryOp} {r : registryOps.Res o}

/-- What a step that carries nothing does to the model's breaker. -/
inductive Effect (model : String) (w w' : World) : RegistryOp → Prop where
  | same {o : RegistryOp} : w'.stateOf model = w.stateOf model →
      w'.changed model = w.changed model → Effect model w w' o
  | made {s : State} : w.stateOf model = none → w'.stateOf model = some s →
      w'.changed model = w.changed model → s = .stateClosed ∨ w.store model = some s →
      Effect model w w' (.get model)
  | moved {c : Call} {s s' : State} : w.stateOf model = some s → w'.stateOf model = some s' →
      w'.changed model = true → Moves c s s' → Effect model w w' (.call model c)

theorem get_effect (h : answers w (.get model) () w') : Effect model w w' (.get model) := by
  obtain ⟨seed, created, hseed, rfl⟩ := h
  cases hb : w.registry.breakers model with
  | some b =>
    refine .same ?_ rfl
    rw [World.stateOf_put_self]
    simp [World.stateOf, Registry.get, hb]
  | none =>
    refine .made (Option.map_eq_none_iff.mpr hb) (World.stateOf_put_self ..) rfl ?_
    refine Registry.get_of (Q := fun b => b.state = .stateClosed ∨ w.store model = some b.state)
      (fun b hold => absurd (hold.symm.trans hb) (Option.some_ne_none b)) (.inl rfl)
      fun s hs => ?_
    have hstate : ((Breaker.new w.registry.policy created).setState s created).state = s := by
      cases s with
      | stateOpen | stateClosed | stateHalfOpen => rfl
    rw [hstate]
    obtain rfl | rfl := hseed
    · cases hs
    · exact .inr hs

theorem call_effect {c : Call} {granted : Bool} (h : answers w (.call model c) granted w') :
    Effect model w w' (.call model c) := by
  obtain ⟨b, now, hb, -, rfl⟩ := h
  have hbefore : w.stateOf model = some b.state := by simp [World.stateOf, hb]
  have hafter : (w.put model (b.call now c).2).stateOf model = some (b.call now c).2.state :=
    World.stateOf_put_self ..
  by_cases hsame : (b.call now c).2.state = b.state
  · refine .same ?_ ?_
    · exact hafter.trans (by rw [hsame, hbefore])
    · simp [World.call, hsame]
  · exact .moved hbefore hafter (by simp [World.call, hsame])
      (moves_of_transition (b.transition now c) hsame)

theorem effect_of_answers (h : answers w o r w') (hcarries : ¬ Carries model o) :
    w'.store model = w.store model ∧ Effect model w w' o := by
  cases o with
  | get model' =>
    by_cases hmodel : model = model'
    · subst hmodel
      have heffect := get_effect h
      obtain ⟨_, _, _, rfl⟩ := h
      exact ⟨rfl, heffect⟩
    · obtain ⟨_, _, _, rfl⟩ := h
      exact ⟨rfl, .same (World.stateOf_put_of_ne _ _ hmodel) rfl⟩
  | currentState model' =>
    obtain ⟨_, rfl⟩ := h
    exact ⟨rfl, .same rfl rfl⟩
  | call model' c =>
    by_cases hmodel : model = model'
    · subst hmodel
      have heffect := call_effect h
      obtain ⟨_, _, _, _, rfl⟩ := h
      exact ⟨rfl, heffect⟩
    · obtain ⟨b, now, _, _, rfl⟩ := h
      refine ⟨rfl, .same (World.stateOf_put_of_ne _ _ hmodel) ?_⟩
      exact update_of_ne hmodel ..
  | goSave model' s' =>
    cases h
    exact ⟨rfl, .same rfl rfl⟩
  | save model' s' =>
    cases h
    exact ⟨update_of_ne (Ne.symm hcarries) .., .same rfl rfl⟩

theorem shows_of_answers (h : answers w o r w') (hs : w.Possible model s) :
    Shows model s o r := by
  cases o with
  | currentState model' =>
    rintro rfl
    exact hs r h.1
  | get | call | goSave | save => trivial

end

/-! ## Programs of a pool -/

section

variable {allowed : Pool registryOps World → Move registryOps → Pool registryOps World → Prop}
  {w₀ : World} {P : Pool registryOps World} {model : String} {s : State} {proc : Proc registryOps}

/-- The programs that a pool can have. -/
inductive Started : Method Unit → Prop where
  | isAllowed (model : String) : Started (isAllowed model).void
  | recordOutcome (model : String) (success : Bool) : Started (recordOutcome true model success)
  | save (model : String) (s : State) : Started (Method.save model s)

theorem started_of_reached (h : Reached answers spawns allowed w₀ P)
    (hcalls : ∀ P m P', allowed P m P' → Calls m) (hmem : proc ∈ P.procs) :
    Started proc.init := by
  refine h.init_of (Q := fun _ p => Started p) (fun P p P' hallowed => ?_) ?_ proc hmem
  · obtain ⟨model, rfl⟩ | ⟨model, success, rfl⟩ := hcalls _ _ _ hallowed
    · exact .isAllowed model
    · exact .recordOutcome model success
  · rintro place ⟨o, r⟩ p hp
    cases o with
    | goSave model s =>
      rw [mem_singleton.mp hp]
      exact .save model s
    | get | currentState | call | save => cases hp

variable {t : Trace registryOps} {c : Call} {k : Bool → Method Unit}

theorem report_makes_no_call {model' : String} {before : State} :
    ¬ Steps (report model' before) t (.ask (S := registryOps) (.call model c) k) := by
  have hrest : ∀ (after : State) (t : Trace registryOps),
      ¬ Steps (if after = before then .ret () else Method.goSave model' after) t
        (.ask (S := registryOps) (.call model c) k) := by
    intro after t hsteps
    split at hsteps
    · cases hsteps
    · cases hsteps with
      | ask hsteps => cases hsteps
  intro hsteps
  cases hsteps with
  | ask hsteps => exact hrest _ _ hsteps

/-- After a call on the breaker, a program is at its end, or it reports the state. -/
inductive AfterCall (model : String) : Call → (Bool → Method Unit) → Prop where
  | ends : AfterCall model .allow fun _ => .ret ()
  | reports {c : Call} (before : State) : c ≠ .allow →
      AfterCall model c fun _ => report model before

theorem steps_to_call {init : Method Unit} (h : Started init)
    (hsteps : Steps init t (.ask (S := registryOps) (.call model c) k)) : AfterCall model c k := by
  cases h with
  | isAllowed model' =>
    cases hsteps with
    | ask hsteps =>
      cases hsteps with
      | refl => exact .ends
      | ask hsteps => cases hsteps
  | recordOutcome model' success =>
    cases hsteps with
    | ask hsteps =>
      cases hsteps with
      | @ask _ _ before _ _ hsteps =>
        cases hsteps with
        | refl =>
          refine .reports before ?_
          cases success with
          | true | false => simp
        | ask hsteps => exact absurd hsteps report_makes_no_call
  | save model' s =>
    cases hsteps with
    | ask hsteps => cases hsteps

theorem quiet_of_not_engaged (h : Reached answers spawns allowed w₀ P)
    (hcalls : ∀ P m P', allowed P m P' → Calls m) (hmem : proc ∈ P.procs)
    (hengaged : ¬ Engaged model proc) : ∀ s, Quiet model s proc.prog := by
  cases hret : proc.returned with
  | true =>
    unfold Proc.returned at hret
    split at hret
    · rename_i hprog
      rw [hprog]
      exact fun _ => trivial
    · cases hret
  | false =>
    have hinit : ∀ s, proc.init ≠ Method.save model s :=
      fun s hinit => hengaged ⟨hret, .inr ⟨s, hinit⟩⟩
    refine quiet_of_steps (h.steps proc hmem) (fun s => ?_)
      fun s hlook => hengaged ⟨hret, .inl ⟨s, hlook⟩⟩
    have hstarted := started_of_reached h hcalls hmem
    generalize proc.init = init at hinit hstarted
    cases hstarted with
    | isAllowed model' => exact quiet_isAllowed model'
    | recordOutcome model' success => exact quiet_recordOutcome model' success
    | save model' s' =>
      refine quiet_save ?_ s'
      rintro rfl
      exact hinit s' rfl

end

/-! ## What the store knows -/

section

variable {w₀ : World} {P P' : Pool registryOps World} {model : String} {s : State}

/-- The store knows what it can know of the model's breaker. -/
def Settled (model : String) (w : World) : Prop :=
  match w.stateOf model with
  | none => w.changed model = false
  | some s =>
    if w.changed model then w.store model = some s ↔ s ≠ .stateHalfOpen
    else s = .stateClosed ∨ w.store model = some s

/-- The store is up to date, or exactly one program is about to make it so. -/
inductive Informed (model : String) (w : World) (procs : List (Proc registryOps)) : Prop where
  | settled : Settled model w →
      (∀ s, w.Possible model s →
        ∀ proc ∈ procs, Quiet model s proc.prog) →
      Informed model w procs
  | owed {s : State} {proc : Proc registryOps} {rest : List (Proc registryOps)} :
      w.stateOf model = some s → s ≠ .stateHalfOpen → w.changed model = true →
      procs.Perm (proc :: rest) → Owes model s proc.prog →
      (∀ other ∈ rest, Quiet model s other.prog) → Informed model w procs

theorem World.exists_possible (w : World) (model : String) :
    ∃ s, w.Possible model s := by
  unfold World.Possible
  cases w.stateOf model with
  | none => exact ⟨.stateClosed, fun _ h => by cases h⟩
  | some s => exact ⟨s, fun _ h => (Option.some.inj h).symm⟩

variable {w w' : World} {procs others : List (Proc registryOps)} {o : RegistryOp}
  {r : registryOps.Res o} {k : registryOps.Res o → Method Unit} {place : Nat} {parent : Option Nat}
  {init : Method Unit} {t : Trace registryOps}

theorem Informed.start (h : Informed model w procs) {p : Method Unit} (hp : ∀ s, Quiet model s p) :
    Informed model w (procs ++ [.fresh none p]) := by
  cases h with
  | settled hsettled hquiet =>
    refine .settled hsettled fun s hs => forall_mem_append.mpr ⟨hquiet s hs, ?_⟩
    exact forall_mem_singleton.mpr (hp s)
  | @owed s proc rest hstate hs hchanged hperm howes hquiet =>
    refine .owed hstate hs hchanged (hperm.append_right _) howes ?_
    exact forall_mem_append.mpr ⟨hquiet, forall_mem_singleton.mpr (hp s)⟩

theorem quiet_next (h : Quiet model s (.ask (S := registryOps) o k)) (hanswer : answers w o r w')
    (hs : w.Possible model s) (hothers : ∀ other ∈ others, Quiet model s other.prog) :
    ∀ proc ∈ (⟨parent, init, t, k r⟩ : Proc registryOps) ::
      (others ++ (spawns ⟨o, r⟩).map (.fresh (some place))), Quiet model s proc.prog := by
  refine forall_mem_cons.mpr ⟨h.2 r (shows_of_answers hanswer hs), ?_⟩
  refine forall_mem_append.mpr ⟨hothers, forall_mem_map.mpr ?_⟩
  exact quiet_spawns h.1

theorem Settled.store_of_open (h : Settled model w) (hstate : w.stateOf model = some .stateOpen) :
    w.store model = some .stateOpen := by
  unfold Settled at h
  rw [hstate] at h
  dsimp only at h
  split at h
  · exact h.mpr (by simp)
  · exact h.resolve_left (by simp)

/-- A change of state ends a time when the store was up to date.  If a record made it, the record
now owes a save. -/
theorem Informed.moved {c : Call} {granted : Bool} {k : Bool → Method Unit} {s' : State}
    (hafter : AfterCall model c k) (hcall : Moves c s s') (hsettled : Settled model w)
    (hproc : Quiet model s (.ask (S := registryOps) (.call model c) k))
    (hothers : ∀ s, ∀ other ∈ others, Quiet model s other.prog)
    (hstate : w.stateOf model = some s) (hstate' : w'.stateOf model = some s')
    (hchanged : w'.changed model = true) (hstore : w'.store model = w.store model)
    (hprocs : procs.Perm (⟨parent, init, t, k granted⟩ :: others)) : Informed model w' procs := by
  cases hcall with
  | allow =>
    cases hafter with
    | ends =>
      have hopen := hstore.trans (hsettled.store_of_open hstate)
      refine .settled (by simp [Settled, hstate', hchanged, hopen]) fun s _ other hmem => ?_
      obtain rfl | hmem := mem_cons.mp (hprocs.mem_iff.mp hmem)
      · trivial
      · exact hothers s other hmem
    | reports _ hc => exact absurd rfl hc
  | record hc hne hhalf =>
    cases hafter with
    | ends => exact absurd rfl hc
    | reports before =>
      -- Otherwise the record would save a state even if nothing changed.
      have hbefore : before = s := by
        by_contra hbefore
        exact (Owes.report hbefore).not_quiet (hproc.2 granted trivial)
      subst hbefore
      exact .owed hstate' hhalf hchanged hprocs (.report hne) (hothers s')

theorem orderly_calls {m : Move registryOps} (h : Orderly model P m P') : Calls m := h.1

/-- A step of a quiet program while the store is up to date. -/
theorem Settled.perform
    {proc : Proc registryOps}
    (hreach : Reached answers spawns (Orderly model) w₀ P)
    (hundisturbed : Undisturbed model P (.perform place ⟨o, r⟩) P')
    (hanswer : answers P.world o r P'.world)
    (hperm : P.procs.Perm (proc :: P.procs.eraseIdx place)) (hprog : proc.prog = .ask o k)
    (hperm' : P'.procs.Perm (⟨proc.parent, proc.init, proc.trace ++ [⟨o, r⟩], k r⟩ ::
      (P.procs.eraseIdx place ++ (spawns ⟨o, r⟩).map (.fresh (some place)))))
    (hsettled : Settled model P.world)
    (hquiet : ∀ s, P.world.Possible model s →
      ∀ proc ∈ P.procs, Quiet model s proc.prog) :
    Informed model P'.world P'.procs := by
  have hmem : proc ∈ P.procs := hperm.mem_iff.mpr (mem_cons_self ..)
  have hothers : ∀ other ∈ P.procs.eraseIdx place, other ∈ P.procs :=
    fun other => mem_of_mem_eraseIdx
  -- Whatever state is possible, all programs are quiet after the step.
  have hquiet' : ∀ s, P.world.Possible model s →
      ∀ proc ∈ P'.procs, Quiet model s proc.prog := by
    intro s hs other hother
    have hproc := hquiet s hs proc hmem
    rw [hprog] at hproc
    exact quiet_next hproc hanswer hs (fun other hmem => hquiet s hs other (hothers other hmem))
      other (hperm'.mem_iff.mp hother)
  obtain ⟨s₀, hs₀⟩ := P.world.exists_possible model
  have hproc := hquiet s₀ hs₀ proc hmem
  rw [hprog] at hproc
  obtain ⟨hstore, heffect⟩ := effect_of_answers hanswer hproc.1
  cases heffect with
  | same hstate hchanged =>
    refine .settled (by rwa [Settled, hstate, hchanged, hstore]) fun s hs => hquiet' s ?_
    exact fun s' hs' => hs s' (hstate.trans hs')
  | @made s hnone hstate hchanged hs =>
    refine .settled ?_ fun s _ => hquiet' s fun s' hs' => by rw [hnone] at hs'; cases hs'
    unfold Settled at hsettled ⊢
    rw [hnone] at hsettled
    rw [hstate, hchanged, hsettled, hstore]
    exact hs
  | @moved c s s' hstate hstate' hchanged hmoves =>
    cases hs₀ s hstate
    have hafter := steps_to_call (started_of_reached hreach (fun _ _ _ => orderly_calls) hmem)
      (hprog ▸ hreach.steps proc hmem)
    refine .moved hafter hmoves hsettled hproc (fun s other hother => ?_) hstate hstate' hchanged
      hstore (by simpa [spawns] using hperm')
    exact quiet_of_not_engaged hreach (fun _ _ _ => orderly_calls) (hothers other hother)
      (hundisturbed s₀ s' hstate hstate' hmoves.ne other hother) s

theorem settled_of_saved (hstate : w.stateOf model = some s) (hs : s ≠ .stateHalfOpen)
    (hchanged : w.changed model = true) : Settled model (w.save model s) := by
  have hstate' : (w.save model s).stateOf model = some s := hstate
  unfold Settled
  rw [hstate']
  simp [World.save, hchanged, hs]

theorem Owes.perform
    (h : Owes model s (.ask (S := registryOps) o k)) (hanswer : answers w o r w')
    (hstate : w.stateOf model = some s) (hs : s ≠ .stateHalfOpen)
    (hchanged : w.changed model = true) (hothers : ∀ other ∈ others, Quiet model s other.prog)
    (hprocs : procs.Perm (⟨parent, init, t, k r⟩ ::
      (others ++ (spawns ⟨o, r⟩).map (.fresh (some place))))) :
    Informed model w' procs := by
  obtain ⟨rfl, ⟨howes, hspawns⟩ | ⟨hend, hspawns⟩⟩ | ⟨rfl, hend, hspawns⟩ :=
    h.next hstate hanswer
  · rw [hspawns] at hprocs
    exact .owed hstate hs hchanged hprocs howes (by simpa using hothers)
  · -- The goroutine takes the debt over.
    rw [hspawns, hend] at hprocs
    have hsplit := hprocs.trans (perm_append_singleton _ (_ :: others))
    exact .owed hstate hs hchanged hsplit .save (forall_mem_cons.mpr ⟨trivial, hothers⟩)
  · rw [hspawns, hend] at hprocs
    refine .settled (settled_of_saved hstate hs hchanged) fun s' hs' other hmem => ?_
    cases hs' s hstate
    obtain rfl | hmem := mem_cons.mp (hprocs.mem_iff.mp hmem)
    · trivial
    · exact hothers other (by simpa using hmem)

theorem Owes.perform_other
    {proc ower : Proc registryOps}
    (hreach : Reached answers spawns (Orderly model) w₀ P)
    (hundisturbed : Undisturbed model P (.perform place ⟨o, r⟩) P')
    (hanswer : answers P.world o r P'.world)
    (hperm : (P.procs.eraseIdx place).Perm (ower :: others)) (howes : Owes model s ower.prog)
    (hperm' : P'.procs.Perm (⟨proc.parent, proc.init, proc.trace ++ [⟨o, r⟩], k r⟩ ::
      (P.procs.eraseIdx place ++ (spawns ⟨o, r⟩).map (.fresh (some place)))))
    (hstate : P.world.stateOf model = some s) (hs : s ≠ .stateHalfOpen)
    (hchanged : P.world.changed model = true)
    (hproc : Quiet model s (.ask (S := registryOps) o k))
    (hothers : ∀ other ∈ others, Quiet model s other.prog) :
    Informed model P'.world P'.procs := by
  obtain ⟨hstore, heffect⟩ := effect_of_answers hanswer hproc.1
  have hower : ower ∈ P.procs.eraseIdx place := hperm.mem_iff.mpr (mem_cons_self ..)
  have hpossible : P.world.Possible model s :=
    fun s' hs' => Option.some.inj (hs'.symm.trans hstate)
  cases heffect with
  | same hstate' hchanged' =>
    have hsplit := hperm'.trans (((hperm.append_right _).cons _).trans (.swap ..))
    exact .owed (hstate'.trans hstate) hs (hchanged'.trans hchanged) hsplit howes
      (quiet_next hproc hanswer hpossible hothers)
  | made hnone => exact absurd (hnone.symm.trans hstate) (by simp)
  | @moved c s₁ s' hstate₁ hstate' _ hmoves =>
    -- The one that owes the save is engaged.
    have hengaged := hundisturbed s₁ s' hstate₁ hstate' hmoves.ne ower hower
    exact absurd (quiet_of_not_engaged hreach (fun _ _ _ => orderly_calls)
      (mem_of_mem_eraseIdx hower) hengaged s) howes.not_quiet

theorem Informed.perform {e : Event registryOps} (h : Informed model P.world P.procs)
    (hreach : Reached answers spawns (Orderly model) w₀ P)
    (hstep : Step answers spawns P (.perform place e) P')
    (hundisturbed : Undisturbed model P (.perform place e) P') :
    Informed model P'.world P'.procs := by
  obtain ⟨o, r⟩ := e
  have hanswer := hstep.answer
  obtain ⟨proc, k, hprog, hperm, hperm'⟩ := hstep.others
  cases h with
  | settled hsettled hquiet =>
    exact hsettled.perform hreach hundisturbed hanswer hperm hprog hperm' hquiet
  | @owed s ower rest hstate hs hchanged howner howes hquiet =>
    have hsplit : (proc ::ₘ (P.procs.eraseIdx place : Multiset (Proc registryOps))) =
        ower ::ₘ (rest : Multiset (Proc registryOps)) :=
      Multiset.coe_eq_coe.mpr (hperm.symm.trans howner)
    obtain ⟨rfl, hrest⟩ | ⟨_, l, hothers, hrest⟩ := Multiset.cons_eq_cons.mp hsplit
    · rw [hprog] at howes
      refine howes.perform hanswer hstate hs hchanged (fun other hother => ?_) hperm'
      exact hquiet other ((Multiset.coe_eq_coe.mp hrest).mem_iff.mp hother)
    · obtain ⟨l, rfl⟩ := Quotient.exists_rep l
      have hquiet' : ∀ other ∈ proc :: l, Quiet model s other.prog :=
        fun other hmem => hquiet other ((Multiset.coe_eq_coe.mp hrest).mem_iff.mpr hmem)
      obtain ⟨hproc, hl⟩ := forall_mem_cons.mp hquiet'
      rw [hprog] at hproc
      exact Owes.perform_other hreach hundisturbed hanswer (Multiset.coe_eq_coe.mp hothers) howes
        hperm' hstate hs hchanged hproc hl

theorem informed_of_reached {policy : Policy} {store : String → Option State}
    (h : Reached answers spawns (Orderly model) (World.start policy store) P) :
    Informed model P.world P.procs := by
  induction h with
  | empty => exact .settled rfl fun _ _ => forall_mem_nil _
  | @step P P' m hreach hstep hallowed ih =>
    cases m with
    | start p =>
      have hquiet : ∀ s, Quiet model s p := by
        obtain ⟨model', rfl⟩ | ⟨model', success, rfl⟩ := hallowed.1
        · exact fun s => quiet_isAllowed model'
        · exact fun s => quiet_recordOutcome model' success
      cases hstep
      exact ih.start hquiet
    | perform place e => exact ih.perform hreach hstep hallowed.2

/-- Once all calls and saves have ended, the store has the state of a breaker that ever changed it,
unless the breaker is half open.  No change may come while another `RecordOutcome` on the model is
on its way or a save of its state is still to come. -/
theorem shared_state_iff {policy : Policy} {store : String → Option State}
    (h : Reached answers spawns (Orderly model) (World.start policy store) P)
    (hended : ∀ proc ∈ P.procs, proc.returned = true) (hchanged : P.world.changed model = true) :
    P.world.store model = P.world.stateOf model ↔
      P.world.stateOf model ≠ some .stateHalfOpen := by
  cases informed_of_reached h with
  | settled hsettled =>
    unfold Settled at hsettled
    cases hstate : P.world.stateOf model with
    | none =>
      rw [hstate, hchanged] at hsettled
      cases hsettled
    | some s =>
      rw [hstate, hchanged] at hsettled
      simpa using hsettled
  | @owed s proc rest _ _ _ hperm howes =>
    have hret := hended proc (hperm.mem_iff.mpr (mem_cons_self ..))
    unfold Proc.returned at hret
    generalize proc.prog = p at hret howes
    cases howes with
    | report | goSave | save => cases hret

end

/-! ## Calls that run on their own -/

section

variable {allowed : Pool registryOps World → Move registryOps → Pool registryOps World → Prop}
  {w₀ w w₁ : World} {procs : List (Proc registryOps)} {model : String} {b : Breaker} {now : Int}

/-- Each of the calls may run to its end. -/
def Free (allowed : Pool registryOps World → Move registryOps → Pool registryOps World → Prop)
    (others : List (Proc registryOps)) : Prop :=
  ∀ P P' place e, P.procs.eraseIdx place = others → allowed P (.perform place e) P'

theorem free_of_returned (hret : ∀ proc ∈ procs, proc.returned = true) :
    Free (Orderly model) procs := by
  intro P P' place e hothers
  refine ⟨trivial, fun _ _ _ _ _ proc hmem hengaged => ?_⟩
  rw [hothers] at hmem
  exact absurd hengaged.1 (by simp [hret proc hmem])

theorem get_of_some (hb : w.registry.breakers model = some b) : answers w (.get model) () w := by
  refine ⟨none, 0, .inl rfl, ?_⟩
  have hget : w.registry.get none 0 model = b := by simp [Registry.get, hb]
  have hsame : update w.registry.breakers model (some b) = w.registry.breakers := by
    rw [← hb, update_eq_self]
  simp [World.put, hget, hsame]

theorem reached_isAllowed (h : Reached answers spawns allowed w₀ ⟨w, procs⟩)
    (hb : w.registry.breakers model = some b) (now : Int)
    (hstart : ∀ P P' p, Calls (.start p) → allowed P (.start p) P') (hfree : Free allowed procs) :
    ∃ proc, proc.returned = true ∧ Reached answers spawns allowed w₀
      ⟨w.call model b now .allow, procs ++ [proc]⟩ := by
  have hstarted := h.step (.start _) (hstart _ _ _ (.inl ⟨model, rfl⟩))
  refine ⟨_, ?_, hstarted.solo_among (.ask (.ask .refl))
    (.cons (get_of_some hb) (.cons ⟨b, now, hb, rfl, rfl⟩ .nil)) ?_ ?_⟩
  · rfl
  · simp [spawns]
  · intro P P' e hothers
    exact hfree P P' _ e (by simpa using hothers)

theorem steps_report {before after : State} (h : after ≠ before) :
    Steps (report model before) [⟨.currentState model, after⟩] (Method.goSave model after) := by
  have hrest : (if after = before then .ret () else Method.goSave model after) =
      Method.goSave model after := if_neg h
  exact .ask (hrest ▸ .refl)

theorem reached_recordOutcome (h : Reached answers spawns allowed w₀ ⟨w, procs⟩)
    (hget : answers w (.get model) () w₁) (hb : w₁.registry.breakers model = some b) (now : Int)
    (success : Bool) {c : Call} (hc : c = if success then .recordSuccess else .recordFailure)
    {s' : State} (hs' : (b.call now c).2.state = s') (hchange : s' ≠ b.state)
    (hstart : ∀ P P' p, Calls (.start p) → allowed P (.start p) P') (hfree : Free allowed procs) :
    ∃ proc, proc.returned = true ∧ Reached answers spawns allowed w₀
      ⟨w₁.call model b now c,
        procs ++ [proc, .fresh (some procs.length) (Method.save model s')]⟩ := by
  subst hc
  have hstarted := h.step (.start _) (hstart _ _ _ (.inr ⟨model, success, rfl⟩))
  have hlook : w₁.stateOf model = some b.state := by simp [World.stateOf, hb]
  have hlook' : (w₁.call model b now (if success then .recordSuccess else .recordFailure)).stateOf
      model = some s' := by
    rw [← hs']
    exact World.stateOf_put_self ..
  have hreported := hstarted.solo_among
    (.ask (.ask (.ask (steps_report hchange))))
    (.cons hget (.cons ⟨hlook, rfl⟩ (.cons ⟨b, now, hb, rfl, rfl⟩ (.cons ⟨hlook', rfl⟩ .nil))))
    (by simp [spawns]) fun P P' e hothers => hfree P P' _ e (by simpa using hothers)
  have hsaving := hreported.step
    (.perform (S := registryOps) (o := RegistryOp.goSave model s') (r := ()) rfl)
    (hfree _ _ procs.length _ (by simp [eraseIdx_append_of_length_le]))
  rw [append_assoc] at hsaving
  exact ⟨_, rfl, hsaving⟩

theorem reached_save (before after : List (Proc registryOps)) {parent : Option Nat} {s : State}
    (h : Reached answers spawns allowed w₀
      ⟨w, before ++ .fresh parent (Method.save model s) :: after⟩)
    (hfree : Free allowed (before ++ after)) :
    ∃ proc, proc.returned = true ∧ Reached answers spawns allowed w₀
      ⟨w.save model s, before ++ proc :: after⟩ :=
  ⟨_, rfl, h.solo_among (.ask (r := ()) .refl) (.cons rfl .nil) (by simp [spawns])
    fun P P' e hothers => hfree P P' _ e hothers⟩

end

def newRegistry : World := World.start hairTrigger fun _ => none

def newBreaker : Breaker := .new hairTrigger 0

def tripped : World := (newRegistry.put "m" newBreaker).call "m" newBreaker 0 .recordFailure

theorem newRegistry_get :
    answers newRegistry (.get "m") () (newRegistry.put "m" newBreaker) :=
  ⟨none, 0, .inl rfl, rfl⟩

theorem newBreaker_trips : (newBreaker.call 0 .recordFailure).2.state = .stateOpen := by
  decide +kernel

theorem orderly_start (P P' : Pool registryOps World) (p : Method Unit) (h : Calls (.start p)) :
    Orderly "m" P (.start p) P' :=
  ⟨h, trivial⟩

theorem reached_tripped :
    ∃ procs, (∀ proc ∈ procs, proc.returned = true) ∧
      Reached answers spawns (Orderly "m") newRegistry
        ⟨tripped.save "m" .stateOpen, procs⟩ := by
  obtain ⟨record, hrecord, hreach⟩ := reached_recordOutcome .empty newRegistry_get
    (by simp [World.put]) 0 false rfl newBreaker_trips (by decide) orderly_start
    (free_of_returned (by simp))
  obtain ⟨save, hsave, hreach⟩ := reached_save [record] [] hreach
    (free_of_returned (by simpa using hrecord))
  exact ⟨_, by simp [hrecord, hsave], hreach⟩

/-- The store knows that the breaker is open. -/
theorem open_state_shared :
    ∃ P, Reached answers spawns (Orderly "m") (World.start hairTrigger fun _ => none) P ∧
      (∀ proc ∈ P.procs, proc.returned = true) ∧ P.world.changed "m" = true ∧
      P.world.store "m" = P.world.stateOf "m" := by
  obtain ⟨procs, hended, hreach⟩ := reached_tripped
  have hchanged : (tripped.save "m" .stateOpen).changed "m" = true := by decide +kernel
  have hopen : (tripped.save "m" .stateOpen).stateOf "m" ≠ some .stateHalfOpen := by decide +kernel
  exact ⟨_, hreach, hended, hchanged, (shared_state_iff hreach hended hchanged).mpr hopen⟩

def openBreaker : Breaker := newBreaker.recordFailure 0

def probingBreaker : Breaker := (openBreaker.allow 20).2

def probed : World := (tripped.save "m" .stateOpen).call "m" openBreaker 20 .allow

def probing : World := tripped.call "m" openBreaker 20 .allow

/-- The breaker has closed again at time 21.  The two saves have come in the wrong order. -/
def overtaken : World :=
  ((probing.call "m" probingBreaker 21 .recordSuccess).save "m" .stateClosed).save "m" .stateOpen

theorem reached_overtaken :
    ∃ procs, (∀ proc ∈ procs, proc.returned = true) ∧
      Reached answers spawns (fun _ m _ => Calls m) newRegistry ⟨overtaken, procs⟩ := by
  have hstart : ∀ P P' : Pool registryOps World, ∀ p, Calls (.start p) → Calls (.start p) :=
    fun _ _ _ hcalls => hcalls
  have hfree : ∀ others, Free (fun _ m _ => Calls m) others := fun _ _ _ _ _ _ => trivial
  have htripped : tripped.registry.breakers "m" = some openBreaker := by decide +kernel
  have hprobing : probing.registry.breakers "m" = some probingBreaker := by decide +kernel
  have hcloses : (probingBreaker.call 21 .recordSuccess).2.state = .stateClosed := by
    decide +kernel
  obtain ⟨record, hrecord, hreach⟩ := reached_recordOutcome .empty newRegistry_get
    (by simp [World.put]) 0 false rfl newBreaker_trips (by decide) hstart (hfree _)
  obtain ⟨allow, hallow, hreach⟩ := reached_isAllowed hreach htripped 20 hstart (hfree _)
  obtain ⟨record', hrecord', hreach⟩ := reached_recordOutcome hreach (get_of_some hprobing) hprobing
    21 true rfl hcloses (by decide +kernel) hstart (hfree _)
  obtain ⟨save', hsave', hreach⟩ := reached_save [record, _, allow, record'] [] hreach (hfree _)
  obtain ⟨save, hsave, hreach⟩ := reached_save [record] [allow, record', save'] hreach (hfree _)
  exact ⟨_, by simp [hrecord, hallow, hrecord', hsave, hsave'], hreach⟩

/-- The breaker becomes half open, and nobody tells the store.  When saves overtake each other, the
store does not have the state of a closed breaker either. -/
theorem half_open_not_shared :
    (∃ P, Reached answers spawns (Orderly "m") (World.start hairTrigger fun _ => none) P ∧
      (∀ proc ∈ P.procs, proc.returned = true) ∧ P.world.changed "m" = true ∧
      P.world.store "m" = some .stateOpen ∧ P.world.stateOf "m" = some .stateHalfOpen) ∧
    (∃ P, Reached answers spawns (fun _ m _ => Calls m)
        (World.start hairTrigger fun _ => none) P ∧
      (∀ proc ∈ P.procs, proc.returned = true) ∧ P.world.changed "m" = true ∧
      P.world.store "m" = some .stateOpen ∧ P.world.stateOf "m" = some .stateClosed) := by
  constructor
  · obtain ⟨procs, hended, hreach⟩ := reached_tripped
    have hbreaker : (tripped.save "m" .stateOpen).registry.breakers "m" = some openBreaker := by
      decide +kernel
    obtain ⟨allow, hallow, hreach⟩ := reached_isAllowed hreach hbreaker 20 orderly_start
      (free_of_returned hended)
    have hworld : probed.changed "m" = true ∧ probed.store "m" = some .stateOpen ∧
        probed.stateOf "m" = some .stateHalfOpen := by
      decide +kernel
    refine ⟨_, hreach, ?_, hworld⟩
    exact forall_mem_append.mpr ⟨hended, forall_mem_singleton.mpr hallow⟩
  · obtain ⟨procs, hended, hreach⟩ := reached_overtaken
    have hworld : overtaken.changed "m" = true ∧ overtaken.store "m" = some .stateOpen ∧
        overtaken.stateOf "m" = some .stateClosed := by
      decide +kernel
    exact ⟨_, hreach, hended, hworld⟩

end Ixr.CircuitBreaker.Shared
