import IxrGateway.Schema

/-!
# The event bus

`Publish` puts an event into a buffered channel, or drops it if the channel is
full.  `Start` takes the events out and calls every subscriber with each, and
when its context is cancelled it empties the channel before it returns.
Requests publish at any time, also while the subscribers are called.

A subscriber that panics or returns an error has been called all the same, so
what is kept of a subscriber is the list of events it was called with.
-/

namespace Ixr.Bus

open List

/-- Where `Start` is.  In `dispatch`, `next` is the place of the subscriber to be called next. -/
inductive Loop where
  | waiting
  | dispatching (ev : CallEvent) (next : Nat) (draining : Bool)
  | draining
  | returned

/-- `bus.Memory`, with the state of `Start` and of its context. -/
structure Memory where
  ch : List CallEvent := []
  bufSize : Nat
  subscribers : List (List CallEvent)
  loop : Loop := .waiting
  cancelled : Bool := false

/-- `NewMemory`, and a number of calls of `Subscribe`. -/
def newMemory (bufSize : Int) (subscribers : Nat) : Memory where
  bufSize := if bufSize ≤ 0 then 1024 else bufSize.toNat
  subscribers := replicate subscribers []

namespace Memory

/-- There is room in the channel. -/
def accepts (m : Memory) : Bool := decide (m.ch.length < m.bufSize)

/-- `Publish`. -/
def publish (m : Memory) (ev : CallEvent) : Memory :=
  if m.accepts then { m with ch := m.ch ++ [ev] } else m

/-- A step of `Start`.  With an event in the channel and the context cancelled, its `select` may go
either way. -/
inductive LoopStep : Memory → Memory → Prop where
  | receive {m : Memory} {ev : CallEvent} {ch : List CallEvent} : m.loop = .waiting →
      m.ch = ev :: ch → LoopStep m { m with ch := ch, loop := .dispatching ev 0 false }
  | done {m : Memory} : m.loop = .waiting → m.cancelled = true →
      LoopStep m { m with loop := .draining }
  | drain {m : Memory} {ev : CallEvent} {ch : List CallEvent} : m.loop = .draining →
      m.ch = ev :: ch → LoopStep m { m with ch := ch, loop := .dispatching ev 0 true }
  | finish {m : Memory} : m.loop = .draining → m.ch = [] →
      LoopStep m { m with loop := .returned }
  | call {m : Memory} {ev : CallEvent} {i : Nat} {draining : Bool} :
      m.loop = .dispatching ev i draining → i < m.subscribers.length →
      LoopStep m { m with
        subscribers := m.subscribers.modify i (· ++ [ev])
        loop := .dispatching ev (i + 1) draining }
  | dispatched {m : Memory} {ev : CallEvent} {i : Nat} {draining : Bool} :
      m.loop = .dispatching ev i draining → m.subscribers.length ≤ i →
      LoopStep m { m with loop := if draining then .draining else .waiting }

/-- The states of a bus, with the events that were published and those that were accepted. -/
inductive Reached (init : Memory) : List CallEvent → List CallEvent → Memory → Prop where
  | init : Reached init [] [] init
  | publish {evs acc : List CallEvent} {m : Memory} (ev : CallEvent) : Reached init evs acc m →
      Reached init (evs ++ [ev]) (if m.accepts then acc ++ [ev] else acc) (m.publish ev)
  | cancel {evs acc : List CallEvent} {m : Memory} : Reached init evs acc m →
      Reached init evs acc { m with cancelled := true }
  | loop {evs acc : List CallEvent} {m m' : Memory} : Reached init evs acc m → m.LoopStep m' →
      Reached init evs acc m'

/-- The event that a subscriber is still to be called with in the current `dispatch`. -/
def owed (m : Memory) (i : Nat) : List CallEvent :=
  match m.loop with
  | .dispatching ev next _ => if next ≤ i then [ev] else []
  | _ => []

/-- Every subscriber has been called with the accepted events in their order, up to the one in
`dispatch` and those in the channel. -/
structure Delivers (acc : List CallEvent) (m : Memory) : Prop where
  bounded : m.ch.length ≤ m.bufSize
  exact : ∀ i log, m.subscribers[i]? = some log → log ++ m.owed i ++ m.ch = acc

variable {m m' : Memory} {evs acc : List CallEvent} {bufSize : Int} {subscribers : Nat}

theorem Delivers.publish (h : Delivers acc m) (ev : CallEvent) :
    Delivers (if m.accepts then acc ++ [ev] else acc) (m.publish ev) := by
  unfold Memory.publish
  split
  · next hroom =>
    constructor
    · rw [length_append]
      exact Nat.succ_le_of_lt (of_decide_eq_true hroom)
    · intro i log hlog
      rw [← h.exact i log hlog]
      exact (append_assoc _ _ _).symm
  · exact h

theorem Delivers.loopStep (h : Delivers acc m) (hstep : m.LoopStep m') : Delivers acc m' := by
  cases hstep with
  | receive hloop hch | drain hloop hch =>
    constructor
    · have hbounded := h.bounded
      rw [hch, length_cons] at hbounded
      exact Nat.le_of_succ_le hbounded
    · intro i log hlog
      have hexact := h.exact i log hlog
      rw [hch, owed, hloop] at hexact
      simpa [owed] using hexact
  | done hloop _ | finish hloop _ =>
    refine ⟨h.bounded, ?_⟩
    intro i log hlog
    have hexact := h.exact i log hlog
    rwa [owed, hloop] at hexact
  | @call ev i draining hloop hi =>
    refine ⟨h.bounded, ?_⟩
    intro j log hlog
    rw [getElem?_modify] at hlog
    obtain ⟨old, hold, rfl⟩ := Option.map_eq_some_iff.mp hlog
    have hexact := h.exact j old hold
    rw [owed, hloop] at hexact
    rw [owed]
    by_cases hij : i = j
    · subst hij
      simpa using hexact
    · have hle : i ≤ j ↔ i + 1 ≤ j := by omega
      simpa [hij, hle] using hexact
  | @dispatched ev i draining hloop hi =>
    refine ⟨h.bounded, ?_⟩
    intro j log hlog
    have hj : j < i := (List.getElem?_eq_some_iff.mp hlog).1.trans_le hi
    have hexact := h.exact j log hlog
    rw [owed, hloop] at hexact
    cases draining with
    | false => simpa [owed, hj.not_ge] using hexact
    | true => simpa [owed, hj.not_ge] using hexact

theorem Reached.delivers (h : Reached (newMemory bufSize subscribers) evs acc m) :
    Delivers acc m := by
  induction h with
  | init =>
    refine ⟨Nat.zero_le _, ?_⟩
    intro i log hlog
    have hnone : log = [] := eq_of_mem_replicate (mem_of_getElem? hlog)
    rw [hnone]
    rfl
  | publish ev _ ih => exact ih.publish ev
  | cancel _ ih => exact ⟨ih.bounded, ih.exact⟩
  | loop _ hstep ih => exact ih.loopStep hstep

theorem Reached.sublist {init : Memory} (h : Reached init evs acc m) : acc.Sublist evs := by
  induction h with
  | init => exact .slnil
  | cancel _ ih | loop _ _ ih => exact ih
  | publish ev _ ih =>
    split
    · exact ih.append_right _
    · exact ih.trans (sublist_append_left _ _)

/-- In every interleaving of requests and `Start`, a subscriber is called once with every event
that the channel had room for, in the order of publication. -/
theorem bus_delivers_in_order (bufSize : Int) (subscribers : Nat) (evs acc : List CallEvent)
    (m : Memory) (hreached : Reached (newMemory bufSize subscribers) evs acc m) :
    acc.Sublist evs ∧ m.ch.length ≤ m.bufSize ∧
      ∀ i log, m.subscribers[i]? = some log → log ++ m.owed i ++ m.ch = acc :=
  ⟨hreached.sublist, hreached.delivers.bounded, hreached.delivers.exact⟩

/-- A bus with room for two events, and two subscribers. -/
def smallBus : Memory := newMemory 2 2

/-- An event. -/
def event (id : String) : CallEvent := { id := id }

/-- The third event found the channel full.  The second one has reached the first subscriber. -/
def calledBus : Memory :=
  { smallBus with
    subscribers := [[event "1", event "2"], [event "1"]]
    loop := .dispatching (event "2") 1 false }

theorem reached_calledBus :
    Reached smallBus [event "1", event "2", event "3"] [event "1", event "2"] calledBus := by
  have hfull : Reached smallBus [event "1", event "2", event "3"] [event "1", event "2"]
      { smallBus with ch := [event "1", event "2"] } :=
    ((Reached.init.publish (event "1")).publish _).publish _
  have hfirst := (((hfull.loop (.receive rfl rfl)).loop (.call rfl Nat.two_pos)).loop
    (.call rfl Nat.one_lt_two)).loop (.dispatched rfl (le_refl 2))
  have hsecond := (hfirst.loop (.receive rfl rfl)).loop (.call rfl Nat.two_pos)
  exact hsecond

/-- The second subscriber is still to be called with the second event. -/
theorem calledBus_delivers :
    calledBus.ch.length ≤ 2 ∧ calledBus.owed 1 = [event "2"] ∧
      ∀ i log, calledBus.subscribers[i]? = some log →
        log ++ calledBus.owed i ++ calledBus.ch = [event "1", event "2"] := by
  obtain ⟨-, hbounded, hexact⟩ := bus_delivers_in_order 2 2 _ _ _ reached_calledBus
  exact ⟨hbounded, rfl, hexact⟩

/-! ## Shutdown -/

/-- A bound on the steps of `Start` until it returns. -/
def work (m : Memory) : Nat :=
  (m.subscribers.length + 3) * m.ch.length +
    match m.loop with
    | .waiting => 2
    | .dispatching _ next _ => m.subscribers.length - next + 3
    | .draining => 1
    | .returned => 0

theorem LoopStep.work_lt (h : m.LoopStep m') : m'.work < m.work := by
  cases h with
  | receive hloop hch | drain hloop hch =>
    simp only [work, hloop, hch, length_cons, Nat.mul_succ]
    omega
  | done hloop _ | finish hloop _ => simp [work, hloop]
  | call hloop hi =>
    simp only [work, hloop, length_modify]
    omega
  | @dispatched _ _ draining hloop _ =>
    cases draining with
    | false => simp [work, hloop]
    | true => simp [work, hloop]

/-- The context of `Start` is cancelled, and if it has returned, it has left nothing behind. -/
structure Stopping (m : Memory) : Prop where
  cancelled : m.cancelled = true
  empty : m.loop = .returned → m.ch = []

theorem Stopping.loopStep (h : m.Stopping) (hstep : m.LoopStep m') : m'.Stopping := by
  cases hstep with
  | finish _ hch => exact ⟨h.cancelled, fun _ => hch⟩
  | receive | done | drain | call => exact ⟨h.cancelled, nofun⟩
  | @dispatched _ _ draining =>
    cases draining with
    | false => exact ⟨h.cancelled, nofun⟩
    | true => exact ⟨h.cancelled, nofun⟩

theorem Stopping.goes_on (h : m.Stopping) (hrunning : m.loop ≠ .returned) :
    ∃ next, m.LoopStep next := by
  cases hloop : m.loop with
  | waiting => exact ⟨_, .done hloop h.cancelled⟩
  | dispatching ev i draining =>
    obtain hi | hi := lt_or_ge i m.subscribers.length
    · exact ⟨_, .call hloop hi⟩
    · exact ⟨_, .dispatched hloop hi⟩
  | draining =>
    cases hch : m.ch with
    | nil => exact ⟨_, .finish hloop hch⟩
    | cons ev ch => exact ⟨_, .drain hloop hch⟩
  | returned => exact absurd hloop hrunning

/-- Once the context is cancelled, a bounded number of steps brings `Start` to its end, whichever
way it goes, and by then every subscriber has been called with every accepted event. -/
theorem shutdown_delivers_all (bufSize : Int) (subscribers : Nat) (evs acc : List CallEvent)
    (m : Memory) (hreached : Reached (newMemory bufSize subscribers) evs acc m)
    (hcancelled : m.cancelled = true) (hrunning : m.loop ≠ .returned) (ms : List Memory)
    (last : Memory) (hsteps : (m :: ms).IsChain LoopStep) (hlast : (m :: ms).getLast? = some last) :
    ms.length ≤ m.work ∧ ((∃ next, last.LoopStep next) ∨
      last.loop = .returned ∧ last.ch = [] ∧ ∀ log ∈ last.subscribers, log = acc) := by
  have hstop : m.Stopping := ⟨hcancelled, fun h => absurd h hrunning⟩
  clear hcancelled hrunning
  induction ms generalizing m with
  | nil =>
    cases hlast
    refine ⟨Nat.zero_le _, ?_⟩
    by_cases hreturned : m.loop = .returned
    · have hempty := hstop.empty hreturned
      refine .inr ⟨hreturned, hempty, fun log hlog => ?_⟩
      obtain ⟨i, hi⟩ := mem_iff_getElem?.mp hlog
      have hexact := hreached.delivers.exact i log hi
      rw [owed, hreturned, hempty] at hexact
      simpa using hexact
    · exact .inl (hstop.goes_on hreturned)
  | cons m' ms ih =>
    obtain ⟨hstep, hrest⟩ := isChain_cons_cons.mp hsteps
    obtain ⟨hbound, hend⟩ := ih m' (hreached.loop hstep) hrest (by simpa using hlast)
      (hstop.loopStep hstep)
    have hless := hstep.work_lt
    refine ⟨?_, hend⟩
    rw [length_cons]
    omega

/-- After four steps both subscribers have been called with both events. -/
theorem calledBus_shutdown :
    4 ≤ calledBus.work ∧ ∃ last : Memory, last.loop = .returned ∧
      last.subscribers = [[event "1", event "2"], [event "1", event "2"]] ∧
      ∀ log ∈ last.subscribers, log = [event "1", event "2"] := by
  obtain ⟨hbound, ⟨_, hnext⟩ | ⟨hreturned, _, hlogs⟩⟩ := shutdown_delivers_all 2 2 _ _ _
    reached_calledBus.cancel rfl nofun _ _ (.cons_cons (.call rfl Nat.one_lt_two)
      (.cons_cons (.dispatched rfl (le_refl 2))
        (.cons_cons (.done rfl rfl) (.cons_cons (.finish rfl rfl) (.singleton _))))) rfl
  · cases hnext with
    | receive hloop | done hloop | drain hloop | finish hloop | call hloop | dispatched hloop =>
      cases hloop
  · exact ⟨hbound, _, hreturned, rfl, hlogs⟩

end Memory

end Ixr.Bus
