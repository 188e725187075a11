import IxrGateway.Interaction.Tokens
import IxrGateway.Interaction.World

/-!
# Programs that run together

A *pool* holds the programs that have been started in a world.  In a move,
someone starts a program, or one of the programs performs its next operation.
The world answers it, and the event may start further programs, which are the
children of the one that performed it.

Programs are never taken out of a pool, so each keeps its place in the list.
With each goes the trace of what it has done, and what is left of it.
-/

namespace Interaction

open Prog List

/-- The program without its result. -/
def Prog.void {S : Sig} {α : Type} (p : Prog S α) : Prog S Unit := p >>= fun _ => .ret ()

theorem Runs.void {S : Sig} {α : Type} {p : Prog S α} {t : Trace S} {a : α} (h : Runs p t a) :
    Runs p.void t () :=
  runs_bind_iff.mpr ⟨t, a, [], (append_nil t).symm, h, .ret⟩

/-- A started program. -/
structure Proc (S : Sig) where
  /-- The place of the program that started it, if one did. -/
  parent : Option Nat
  init : Prog S Unit
  trace : Trace S
  prog : Prog S Unit

/-- A process at its start. -/
def Proc.fresh {S : Sig} (parent : Option Nat) (p : Prog S Unit) : Proc S := ⟨parent, p, [], p⟩

/-- The process has ended. -/
def Proc.returned {S : Sig} (proc : Proc S) : Bool :=
  match proc.prog with
  | .ret _ => true
  | .ask _ _ => false

/-- Processes that share a world. -/
structure Pool (S : Sig) (W : Type) where
  world : W
  procs : List (Proc S)

/-- What happens in a pool. -/
inductive Move (S : Sig) where
  /-- Someone starts a program. -/
  | start (p : Prog S Unit)
  /-- The program at a place performs an operation. -/
  | perform (place : Nat) (e : Event S)

namespace Pool

variable {S : Sig} {W : Type} {answers : Answers S W} {spawns : Event S → List (Prog S Unit)}

/-- One move.  The world answers as `answers` says, and an event starts what `spawns` says. -/
inductive Step (answers : Answers S W) (spawns : Event S → List (Prog S Unit)) :
    Pool S W → Move S → Pool S W → Prop where
  | start {w : W} {procs : List (Proc S)} (p : Prog S Unit) :
      Step answers spawns ⟨w, procs⟩ (.start p) ⟨w, procs ++ [.fresh none p]⟩
  | perform {w w' : W} {before after : List (Proc S)} {parent : Option Nat} {init : Prog S Unit}
      {t : Trace S} {o : S.Op} {k : S.Res o → Prog S Unit} {r : S.Res o} :
      answers w o r w' →
      Step answers spawns ⟨w, before ++ ⟨parent, init, t, .ask o k⟩ :: after⟩
        (.perform before.length ⟨o, r⟩)
        ⟨w', before ++ ⟨parent, init, t ++ [⟨o, r⟩], k r⟩ :: after ++
          (spawns ⟨o, r⟩).map (.fresh (some before.length))⟩

variable {P' : Pool S W} {place i : Nat} {e : Event S} {p q : Prog S Unit} {t : Trace S} {w w' : W}

theorem Step.answer {P : Pool S W} (h : Step answers spawns P (.perform place e) P') :
    answers P.world e.op e.res P'.world := by
  cases h
  assumption

theorem Step.procs_start {P : Pool S W} (h : Step answers spawns P (.start p) P') :
    P'.procs = P.procs ++ [.fresh none p] := by
  cases h
  rfl

/-- After an event, the program that performed it has the event in its trace, other programs are
as they were, and the rest has been started by it. -/
theorem Step.procs_cases {P : Pool S W} (h : Step answers spawns P (.perform place e) P')
    {proc' : Proc S} (hproc' : P'.procs[i]? = some proc') :
    (i = place ∧ ∃ proc, P.procs[i]? = some proc ∧ proc.returned = false ∧
      proc'.parent = proc.parent ∧ proc'.init = proc.init ∧ proc'.trace = proc.trace ++ [e]) ∨
    (i ≠ place ∧ P.procs[i]? = some proc') ∨
    (P.procs.length ≤ i ∧ ∃ p ∈ spawns e, proc' = .fresh (some place) p) := by
  cases h with
  | @perform w w' before after parent init t o k r _ =>
    dsimp only at hproc' ⊢
    by_cases hi : i < (before ++ ⟨parent, init, t ++ [⟨o, r⟩], k r⟩ :: after).length
    · rw [getElem?_append_left hi] at hproc'
      obtain hlt | rfl | hgt := lt_trichotomy i before.length
      · rw [getElem?_append_left hlt] at hproc'
        exact .inr (.inl ⟨hlt.ne, by rw [getElem?_append_left hlt, hproc']⟩)
      · rw [getElem?_append_right (le_refl _), Nat.sub_self, getElem?_cons_zero] at hproc'
        cases hproc'
        exact .inl ⟨rfl, ⟨parent, init, t, .ask o k⟩, by simp, rfl, rfl, rfl, rfl⟩
      · obtain ⟨j, rfl⟩ := Nat.exists_eq_add_of_lt hgt
        refine .inr (.inl ⟨hgt.ne', ?_⟩)
        rw [getElem?_append_right (by omega)] at hproc' ⊢
        rw [show before.length + j + 1 - before.length = j + 1 by omega] at hproc' ⊢
        exact hproc'
    · rw [getElem?_append_right (not_lt.mp hi)] at hproc'
      obtain ⟨p, hp, rfl⟩ := mem_map.mp (mem_of_getElem? hproc')
      exact .inr (.inr ⟨by simpa using hi, p, hp, rfl⟩)

theorem Step.others {P : Pool S W} (h : Step answers spawns P (.perform place e) P') :
    ∃ proc k, proc.prog = .ask e.op k ∧ P.procs.Perm (proc :: P.procs.eraseIdx place) ∧
      P'.procs.Perm (⟨proc.parent, proc.init, proc.trace ++ [e], k e.res⟩ ::
        (P.procs.eraseIdx place ++ (spawns e).map (Proc.fresh (some place)))) := by
  cases h with
  | @perform w w' before after parent init t o k r _ =>
    have hothers : (before ++ ⟨parent, init, t, .ask o k⟩ :: after).eraseIdx before.length =
        before ++ after := by
      simp [eraseIdx_append_of_length_le]
    refine ⟨⟨parent, init, t, .ask o k⟩, k, rfl, ?_, ?_⟩
    · rw [hothers]
      exact perm_middle
    · rw [hothers, append_assoc, append_assoc]
      exact perm_middle

/-- The pools that moves in `allowed` lead to from a world without programs. -/
inductive Reached (answers : Answers S W) (spawns : Event S → List (Prog S Unit))
    (allowed : Pool S W → Move S → Pool S W → Prop) (w₀ : W) : Pool S W → Prop where
  | empty : Reached answers spawns allowed w₀ ⟨w₀, []⟩
  | step {P P' : Pool S W} {m : Move S} : Reached answers spawns allowed w₀ P →
      Step answers spawns P m P' → allowed P m P' → Reached answers spawns allowed w₀ P'

variable {allowed : Pool S W → Move S → Pool S W → Prop} {w₀ : W} {P : Pool S W}

/-- What holds of every program when it is started holds of every program in the pool.  It may
depend on the place of the program that started it. -/
theorem Reached.init_of {Q : Option Nat → Prog S Unit → Prop}
    (h : Reached answers spawns allowed w₀ P)
    (hstart : ∀ P p P', allowed P (.start p) P' → Q none p)
    (hspawns : ∀ place e, ∀ p ∈ spawns e, Q (some place) p) :
    ∀ proc ∈ P.procs, Q proc.parent proc.init := by
  induction h with
  | empty => exact forall_mem_nil _
  | step _ hstep hallowed ih =>
    cases hstep with
    | start p =>
      refine forall_mem_append.mpr ⟨ih, forall_mem_singleton.mpr ?_⟩
      exact hstart _ _ _ hallowed
    | perform =>
      simp only [forall_mem_append, forall_mem_cons, forall_mem_map] at ih ⊢
      exact ⟨ih, hspawns _ _⟩

/-- What holds of a program that has done nothing, and is kept by its events, holds of every
program in the pool. -/
theorem Reached.proc_of {Q : Proc S → Prop} (h : Reached answers spawns allowed w₀ P)
    (hfresh : ∀ parent p, Q (.fresh parent p))
    (hperform : ∀ P P' place e proc proc', allowed P (.perform place e) P' →
      P.procs[place]? = some proc → P'.procs[place]? = some proc' → proc'.parent = proc.parent →
      proc'.trace = proc.trace ++ [e] → Q proc → Q proc') :
    ∀ proc ∈ P.procs, Q proc := by
  induction h with
  | empty => exact forall_mem_nil _
  | @step P P' m _ hstep hallowed ih =>
    intro proc' hmem
    cases m with
    | start p =>
      rw [hstep.procs_start] at hmem
      obtain hmem | hmem := mem_append.mp hmem
      · exact ih proc' hmem
      · rw [mem_singleton.mp hmem]
        exact hfresh _ _
    | perform place e =>
      obtain ⟨i, hi⟩ := mem_iff_getElem?.mp hmem
      obtain ⟨rfl, proc, hproc, _, hparent, _, htrace⟩ | ⟨_, hproc⟩ | ⟨_, p, _, rfl⟩ :=
        hstep.procs_cases hi
      · exact hperform _ _ _ _ proc proc' hallowed hproc hi hparent htrace
          (ih proc (mem_of_getElem? hproc))
      · exact ih proc' (mem_of_getElem? hproc)
      · exact hfresh _ _

theorem Reached.steps (h : Reached answers spawns allowed w₀ P) :
    ∀ proc ∈ P.procs, Steps proc.init proc.trace proc.prog := by
  induction h with
  | empty => exact forall_mem_nil _
  | step _ hstep _ ih =>
    cases hstep with
    | start p =>
      exact forall_mem_append.mpr ⟨ih, forall_mem_singleton.mpr .refl⟩
    | perform =>
      simp only [forall_mem_append, forall_mem_cons, forall_mem_map] at ih ⊢
      exact ⟨⟨ih.1, ih.2.1.snoc _, ih.2.2⟩, fun _ _ => .refl⟩

variable {proc : Proc S} {strict : Answers S W} {before after : List (Proc S)} {parent : Option Nat}
  {init : Prog S Unit} {t₀ : Trace S}

theorem Reached.runs (h : Reached answers spawns allowed w₀ P) (hmem : proc ∈ P.procs)
    (hret : proc.returned = true) : Runs proc.init proc.trace () := by
  have hsteps := h.steps proc hmem
  unfold Proc.returned at hret
  split at hret
  · rename_i hprog
    rw [hprog] at hsteps
    have hrun := hsteps.runs .ret
    rwa [append_nil] at hrun
  · cases hret

/-- If every event changes a quantity of the world by what it is worth, the quantity is what it was
and what all events of all programs are worth. -/
theorem Reached.quantity_eq {M : Type} [AddCommMonoid M] (quantity : W → M) {worth : Event S → M}
    (hworth : ∀ w o r w', answers w o r w' → quantity w' = quantity w + worth ⟨o, r⟩)
    (h : Reached answers spawns allowed w₀ P) :
    quantity P.world =
      quantity w₀ + (P.procs.map fun proc => (proc.trace.map worth).sum).sum := by
  induction h with
  | empty => simp
  | step _ hstep _ ih =>
    cases hstep with
    | start p => simpa [Proc.fresh] using ih
    | perform hanswer =>
      rw [hworth _ _ _ _ hanswer, ih]
      simp only [map_append, map_cons, map_nil, sum_append, sum_cons, sum_nil, map_map,
        Function.comp_def, Proc.fresh, map_const', add_zero, sum_replicate, smul_zero]
      abel

/-! ## Who started whom -/

/-- The processes started by one. -/
def children (P : Pool S W) (place : Nat) : List (Proc S) :=
  P.procs.filter fun proc => decide (proc.parent = some place)

theorem Step.place_lt (h : Step answers spawns P (.perform place e) P') :
    place < P.procs.length := by
  cases h
  simp

theorem Step.children_perform (h : Step answers spawns P (.perform place e) P') (i : Nat) :
    (P'.children i).map (·.init) =
      (P.children i).map (·.init) ++ if i = place then spawns e else [] := by
  cases h with
  | @perform w w' before after parent init t o k r _ =>
    have hkids : (((spawns ⟨o, r⟩).map (Proc.fresh (some before.length))).filter fun proc =>
        decide (proc.parent = some i)).map (·.init) =
          if i = before.length then spawns ⟨o, r⟩ else [] := by
      by_cases hi : i = before.length
      · subst hi
        simp [Proc.fresh, filter_map, Function.comp_def]
      · simp [Proc.fresh, filter_map, Function.comp_def, hi, Ne.symm hi]
    simp only [children, filter_append, map_append, hkids, append_cancel_right_eq]
    by_cases hparent : parent = some i
    · simp [hparent]
    · simp [hparent]

theorem Reached.parent_lt (h : Reached answers spawns allowed w₀ P) :
    ∀ proc ∈ P.procs, ∀ i, proc.parent = some i → i < P.procs.length := by
  induction h with
  | empty => exact forall_mem_nil _
  | step _ hstep _ ih =>
    cases hstep with
    | start p =>
      intro proc hmem i hparent
      obtain hmem | hmem := mem_append.mp hmem
      · exact (ih proc hmem i hparent).trans (by simp)
      · rw [mem_singleton.mp hmem] at hparent
        cases hparent
    | @perform w w' before after parent init t o k r _ =>
      have hlen : ∀ {i : Nat}, i < (before ++ ⟨parent, init, t, .ask o k⟩ :: after).length →
          i < (before ++ ⟨parent, init, t ++ [⟨o, r⟩], k r⟩ :: after ++
            (spawns ⟨o, r⟩).map (Proc.fresh (some before.length))).length := by
        intro i hi
        simp only [length_append, length_cons, length_map] at hi ⊢
        omega
      simp only [forall_mem_append, forall_mem_cons, forall_mem_map] at ih ⊢
      refine ⟨⟨fun proc hmem i hi => hlen (ih.1 proc hmem i hi), fun i hi => hlen (ih.2.1 i hi),
        fun proc hmem i hi => hlen (ih.2.2 proc hmem i hi)⟩, ?_⟩
      rintro p _ i ⟨⟩
      exact hlen (by simp)

theorem Reached.children_of_length_le (h : Reached answers spawns allowed w₀ P)
    (hi : P.procs.length ≤ i) : P.children i = [] := by
  refine filter_eq_nil_iff.mpr fun proc hmem hparent => ?_
  exact absurd (h.parent_lt proc hmem i (of_decide_eq_true hparent)) (not_lt.mpr hi)

theorem Reached.children_init (h : Reached answers spawns allowed w₀ P) :
    ∀ {i : Nat} {proc : Proc S}, P.procs[i]? = some proc →
      (P.children i).map (·.init) = proc.trace.flatMap spawns := by
  induction h with
  | empty =>
    intro i proc hproc
    cases hproc
  | @step P P' m hreach hstep _ ih =>
    intro i proc' hproc'
    cases m with
    | start p =>
      have hsame : P'.children i = P.children i := by
        simp [children, hstep.procs_start, Proc.fresh]
      rw [hsame]
      rw [hstep.procs_start] at hproc'
      by_cases hi : i < P.procs.length
      · rw [getElem?_append_left hi] at hproc'
        exact ih hproc'
      · have hmem := mem_of_getElem? (getElem?_append_right (not_lt.mp hi) ▸ hproc')
        rw [mem_singleton.mp hmem, hreach.children_of_length_le (not_lt.mp hi)]
        rfl
    | perform place e =>
      rw [hstep.children_perform]
      obtain ⟨rfl, proc, hproc, _, _, _, htrace⟩ | ⟨hne, hproc⟩ | ⟨hle, p, _, rfl⟩ :=
        hstep.procs_cases hproc'
      · rw [ih hproc, if_pos rfl, htrace]
        simp
      · rw [ih hproc, if_neg hne, append_nil]
      · have hne : i ≠ place := (hstep.place_lt.trans_le hle).ne'
        rw [hreach.children_of_length_le hle, if_neg hne]
        rfl

theorem Reached.started_by (h : Reached answers spawns allowed w₀ P) (hmem : proc ∈ P.procs)
    (hparent : proc.parent = some i) :
    ∃ starter, P.procs[i]? = some starter ∧ ∃ e ∈ starter.trace, proc.init ∈ spawns e := by
  obtain ⟨starter, hstarter⟩ : ∃ starter, P.procs[i]? = some starter :=
    ⟨_, getElem?_eq_getElem (h.parent_lt proc hmem i hparent)⟩
  have hchild : proc ∈ P.children i := mem_filter.mpr ⟨hmem, decide_eq_true hparent⟩
  have hinit : proc.init ∈ starter.trace.flatMap spawns :=
    h.children_init hstarter ▸ mem_map_of_mem hchild
  exact ⟨starter, hstarter, mem_flatMap.mp hinit⟩

/-! ## A run without interruption -/

/-- The world answers a trace. -/
inductive Along (answers : Answers S W) : W → Trace S → W → Prop where
  | nil {w : W} : Along answers w [] w
  | cons {w w₁ w' : W} {o : S.Op} {r : S.Res o} {t : Trace S} : answers w o r w₁ →
      Along answers w₁ t w' → Along answers w (⟨o, r⟩ :: t) w'

/-- The program at a place performs an event, with `past` behind it and `rest` to come. -/
structure Performs (parent : Option Nat) (place : Nat) (past : Trace S) (e : Event S)
    (rest : Trace S) (P P' : Pool S W) : Prop where
  before : ∃ proc, P.procs[place]? = some proc ∧ proc.parent = parent ∧ proc.trace = past
  after : ∃ proc, P'.procs[place]? = some proc ∧ proc.parent = parent ∧
    proc.trace = past ++ [e] ∧ (proc.returned = true → rest = [])

/-- A program goes through a part of its run while the others wait.  The answers it gets are in
`strict`, and moves with such answers are allowed. -/
theorem Reached.solo
    (h : Reached answers spawns allowed w₀ ⟨w, before ++ ⟨parent, init, t₀, p⟩ :: after⟩)
    (hsteps : Steps p t q) (halong : Along strict w t w')
    (hstrict : ∀ w o r w', strict w o r w' → answers w o r w')
    (hallowed : ∀ P P' past e rest, t₀ ++ t = past ++ e :: rest →
      strict P.world e.op e.res P'.world → Performs parent before.length past e rest P P' →
      allowed P (.perform before.length e) P') :
    Reached answers spawns allowed w₀ ⟨w', before ++ ⟨parent, init, t₀ ++ t, q⟩ ::
      (after ++ (t.flatMap spawns).map (.fresh (some before.length)))⟩ := by
  induction hsteps generalizing w t₀ after with
  | refl =>
    cases halong
    simpa using h
  | @ask o k r t q hsteps ih =>
    cases halong with
    | cons hanswer halong =>
      have hlast : (⟨parent, init, t₀ ++ [⟨o, r⟩], k r⟩ : Proc S).returned = true → t = [] := by
        intro hret
        generalize k r = p at hret hsteps
        cases hsteps with
        | refl => rfl
        | ask _ => cases hret
      have hnext := h.step (.perform (hstrict _ _ _ _ hanswer))
        (hallowed _ _ t₀ ⟨o, r⟩ t rfl hanswer
          ⟨⟨⟨parent, init, t₀, .ask o k⟩, by simp, rfl, rfl⟩,
            ⟨⟨parent, init, t₀ ++ [⟨o, r⟩], k r⟩, by simp, rfl, rfl, hlast⟩⟩)
      rw [append_assoc, cons_append] at hnext
      have hrest := ih hnext halong (by simpa using hallowed)
      simpa using hrest

/-- A program goes through a part of its run in which it starts nothing, while the others wait.
Whether its moves are allowed may depend on the others. -/
theorem Reached.solo_among
    (h : Reached answers spawns allowed w₀ ⟨w, before ++ ⟨parent, init, t₀, p⟩ :: after⟩)
    (hsteps : Steps p t q) (halong : Along answers w t w') (hspawns : ∀ e ∈ t, spawns e = [])
    (hallowed : ∀ P P' e, P.procs.eraseIdx before.length = before ++ after →
      allowed P (.perform before.length e) P') :
    Reached answers spawns allowed w₀ ⟨w', before ++ ⟨parent, init, t₀ ++ t, q⟩ :: after⟩ := by
  induction hsteps generalizing w t₀ with
  | refl =>
    cases halong
    simpa using h
  | @ask o k r t q _ ih =>
    cases halong with
    | cons hanswer halong =>
      obtain ⟨hnone, hrest⟩ := forall_mem_cons.mp hspawns
      have hnext := h.step (.perform hanswer)
        (hallowed _ _ ⟨o, r⟩ (by simp [eraseIdx_append_of_length_le]))
      rw [hnone, map_nil, append_nil] at hnext
      have hdone := ih hnext halong hrest
      rwa [append_assoc] at hdone

theorem Reached.steps_alone {procs : List (Proc S)}
    (h : Reached answers spawns allowed w₀ ⟨w, procs⟩) (hsteps : Steps p t q)
    (halong : Along strict w t w') (hstrict : ∀ w o r w', strict w o r w' → answers w o r w')
    (hstart : ∀ P', allowed ⟨w, procs⟩ (.start p) P')
    (hallowed : ∀ P P' past e rest, t = past ++ e :: rest →
      strict P.world e.op e.res P'.world → Performs none procs.length past e rest P P' →
      allowed P (.perform procs.length e) P') :
    Reached answers spawns allowed w₀ ⟨w', procs ++ ⟨none, p, t, q⟩ ::
      (t.flatMap spawns).map (.fresh (some procs.length))⟩ := by
  have hstarted := h.step (.start p) (hstart _)
  exact hstarted.solo hsteps halong hstrict hallowed

end Pool

/-! ## Tokens of running programs -/

section

variable {S : Sig} {W : Type} {delta : Event S → Int} {answers : Answers S W}
  {spawns : Event S → List (Prog S Unit)}

/-- The tokens that a program holds until it returns. -/
def Proc.held (delta : Event S → Int) (proc : Proc S) : Int :=
  if proc.returned then 0 else balance delta proc.trace

@[simp] theorem Proc.held_fresh (parent : Option Nat) (p : Prog S Unit) :
    (Proc.fresh parent p).held delta = 0 := by
  unfold Proc.held
  split
  · rfl
  · rfl

/-- The tokens that the running programs hold. -/
def Pool.held (delta : Event S → Int) (P : Pool S W) : Int := (P.procs.map (Proc.held delta)).sum

theorem Pool.Step.held_start {P P' : Pool S W} {p : Prog S Unit}
    (h : Step answers spawns P (.start p) P') (delta : Event S → Int) :
    P'.held delta = P.held delta := by
  cases h
  simp [Pool.held]

theorem Pool.Step.held_perform {P P' : Pool S W} {place : Nat} {e : Event S}
    (h : Step answers spawns P (.perform place e) P') (delta : Event S → Int) :
    ∃ proc, P'.procs[place]? = some proc ∧
      P'.held delta + (if proc.returned then balance delta proc.trace else 0) =
        P.held delta + delta e := by
  cases h with
  | @perform _ _ before after parent init t o k r _ =>
    refine ⟨⟨parent, init, t ++ [⟨o, r⟩], k r⟩, by simp, ?_⟩
    have hbefore : Proc.held delta ⟨parent, init, t, .ask o k⟩ = balance delta t := rfl
    have hkids : ((spawns ⟨o, r⟩).map fun p =>
        Proc.held delta (.fresh (some before.length) p)).sum = 0 := by simp
    simp only [Pool.held, map_append, map_cons, sum_append, sum_cons,
      map_map, Function.comp_def, hbefore, hkids]
    unfold Proc.held
    split
    · simp only [balance_append, balance_cons, balance_nil]
      omega
    · simp only [balance_append, balance_cons, balance_nil]
      omega

theorem Pool.Reached.held_nonneg {allowed : Pool S W → Move S → Pool S W → Prop} {w₀ : W}
    {P : Pool S W} (h : Reached answers spawns allowed w₀ P)
    (hguarded : ∀ proc ∈ P.procs, Guarded delta proc.init 0) : 0 ≤ P.held delta := by
  refine sum_nonneg fun x hx => ?_
  obtain ⟨proc, hmem, rfl⟩ := mem_map.mp hx
  unfold Proc.held
  split
  · exact le_refl 0
  · have hpay := (hguarded proc hmem).balance_nonneg (le_refl 0) (h.steps proc hmem)
    rwa [zero_add] at hpay

end

end Interaction
