import Mathlib

/-!
# Interaction programs

A program that depends on answers from outside is a finite-branching-depth
tree.  A leaf returns a value.  A node performs an operation and continues with
the answer.  Nothing in the tree says which answer comes back, so the runs of
one tree are the behaviours of the program under every environment.

A *trace* lists the operations of a run with their answers.  `Runs p t a` says
that `p` can run through `t` and return `a`.  Two modalities speak about all
runs and about some run.

* `Ensures p Q`: every run of `p` ends with trace and result in `Q`.
* `Can p Q`: some run of `p` does.

Both have one equation per constructor and one for sequencing, so a statement
about a program unfolds along the program text.
-/

namespace Interaction

open List

/-- The operations a program may perform, each with the type of its answer. -/
structure Sig where
  Op : Type
  Res : Op → Type

/-- A program that asks for operations. -/
inductive Prog (S : Sig) (α : Type) : Type where
  | ret : α → Prog S α
  | ask : (o : S.Op) → (S.Res o → Prog S α) → Prog S α

namespace Prog

/-- Run one program, then another that may use its result. -/
def bind {S : Sig} {α β : Type} : Prog S α → (α → Prog S β) → Prog S β
  | .ret a, f => f a
  | .ask o k, f => .ask o fun r => (k r).bind f

instance {S : Sig} : Monad (Prog S) where
  pure := .ret
  bind := Prog.bind

/-- The program of one operation. -/
def perform {S : Sig} (o : S.Op) : Prog S (S.Res o) := .ask o .ret

variable {S : Sig} {α β : Type}

@[simp] theorem pure_def (a : α) : (pure a : Prog S α) = .ret a := rfl

@[simp] theorem ret_bind (a : α) (f : α → Prog S β) : (Prog.ret a >>= f) = f a := rfl

@[simp] theorem ask_bind (o : S.Op) (k : S.Res o → Prog S α) (f : α → Prog S β) :
    (Prog.ask o k >>= f) = .ask o fun r => k r >>= f := rfl

@[simp] theorem perform_bind (o : S.Op) (f : S.Res o → Prog S β) :
    (perform o >>= f) = .ask o f := rfl

@[simp] theorem map_def (g : α → β) (p : Prog S α) : g <$> p = p >>= fun a => .ret (g a) := rfl

theorem bind_assoc {γ : Type} (p : Prog S α) (f : α → Prog S β) (g : β → Prog S γ) :
    (p >>= f >>= g) = p >>= fun a => f a >>= g := by
  induction p with
  | ret a => rfl
  | ask o k ih =>
    simp only [ask_bind]
    congr 1
    funext r
    exact ih r

end Prog

open Prog

/-! ## Traces and runs -/

/-- One operation of a run with the answer it got. -/
structure Event (S : Sig) where
  op : S.Op
  res : S.Res op

/-- What a run has performed. -/
abbrev Trace (S : Sig) := List (Event S)

/-- `Runs p t a`: the program `p` can run through the trace `t` and return `a`. -/
inductive Runs {S : Sig} {α : Type} : Prog S α → Trace S → α → Prop where
  | ret {a : α} : Runs (.ret a) [] a
  | ask {o : S.Op} {k : S.Res o → Prog S α} {r : S.Res o} {t : Trace S} {a : α} :
      Runs (k r) t a → Runs (.ask o k) (⟨o, r⟩ :: t) a

variable {S : Sig} {α β : Type} {a : α} {t : Trace S} {o : S.Op} {k : S.Res o → Prog S α}
  {p : Prog S α} {f : α → Prog S β} {Q R : Trace S → α → Prop} {P : Event S → Prop}

theorem runs_ret_iff {b : α} : Runs (.ret a) t b ↔ t = [] ∧ b = a := by
  constructor
  · intro h
    cases h
    exact ⟨rfl, rfl⟩
  · rintro ⟨rfl, rfl⟩
    exact .ret

theorem runs_ask_iff : Runs (.ask o k) t a ↔ ∃ r t', t = ⟨o, r⟩ :: t' ∧ Runs (k r) t' a := by
  constructor
  · intro h
    cases h with
    | ask h' => exact ⟨_, _, rfl, h'⟩
  · rintro ⟨r, t', rfl, h⟩
    exact .ask h

theorem runs_bind_iff {b : β} :
    Runs (p >>= f) t b ↔ ∃ t₁ a t₂, t = t₁ ++ t₂ ∧ Runs p t₁ a ∧ Runs (f a) t₂ b := by
  induction p generalizing t with
  | ret a =>
    constructor
    · intro h
      exact ⟨[], a, t, rfl, .ret, h⟩
    · rintro ⟨t₁, a', t₂, rfl, h₁, h₂⟩
      obtain ⟨rfl, rfl⟩ := runs_ret_iff.mp h₁
      exact h₂
  | ask o k ih =>
    rw [ask_bind, runs_ask_iff]
    constructor
    · rintro ⟨r, t', rfl, h⟩
      obtain ⟨t₁, a, t₂, rfl, h₁, h₂⟩ := (ih r).mp h
      exact ⟨⟨o, r⟩ :: t₁, a, t₂, rfl, .ask h₁, h₂⟩
    · rintro ⟨t₁, a, t₂, rfl, h₁, h₂⟩
      obtain ⟨r, t', rfl, h'⟩ := runs_ask_iff.mp h₁
      exact ⟨r, t' ++ t₂, rfl, (ih r).mpr ⟨t', a, t₂, rfl, h', h₂⟩⟩

theorem runs_perform_bind_iff {f : S.Res o → Prog S α} :
    Runs (perform o >>= f) t a ↔ ∃ r t', t = ⟨o, r⟩ :: t' ∧ Runs (f r) t' a :=
  runs_ask_iff

/-! ## Runs that go on -/

/-- `Steps p t q`: the program `p` can run through the trace `t` and be left with `q`. -/
inductive Steps {S : Sig} {α : Type} : Prog S α → Trace S → Prog S α → Prop where
  | refl {p : Prog S α} : Steps p [] p
  | ask {o : S.Op} {k : S.Res o → Prog S α} {r : S.Res o} {t : Trace S} {q : Prog S α} :
      Steps (k r) t q → Steps (.ask o k) (⟨o, r⟩ :: t) q

theorem Steps.snoc (h : Steps p t (.ask o k)) (r : S.Res o) : Steps p (t ++ [⟨o, r⟩]) (k r) := by
  generalize hq : Prog.ask o k = q at h
  induction h with
  | refl =>
    subst hq
    exact .ask .refl
  | ask _ ih => exact .ask (ih hq)

theorem Steps.runs {q : Prog S α} {t' : Trace S} (h : Steps p t q) (hrun : Runs q t' a) :
    Runs p (t ++ t') a := by
  induction h with
  | refl => exact hrun
  | ask _ ih => exact .ask (ih hrun)

theorem Runs.steps (h : Runs p t a) : Steps p t (.ret a) := by
  induction h with
  | ret => exact .refl
  | ask _ ih => exact .ask ih

theorem Runs.steps_to {t' : Trace S} {r : S.Res o} (h : Runs p (t ++ ⟨o, r⟩ :: t') a) :
    ∃ k, Steps p t (.ask o k) := by
  induction t generalizing p with
  | nil =>
    cases h
    exact ⟨_, .refl⟩
  | cons e t ih =>
    cases h with
    | ask h =>
      obtain ⟨k, hsteps⟩ := ih h
      exact ⟨k, .ask hsteps⟩

/-! ## All runs -/

/-- Every run of `p` ends with trace and result in `Q`. -/
def Ensures {S : Sig} {α : Type} (p : Prog S α) (Q : Trace S → α → Prop) : Prop :=
  ∀ t a, Runs p t a → Q t a

theorem Ensures.mono (h : Ensures p Q) (hQR : ∀ t a, Q t a → R t a) : Ensures p R :=
  fun t a hr => hQR t a (h t a hr)

theorem Ensures.and (hQ : Ensures p Q) (hR : Ensures p R) : Ensures p fun t a => Q t a ∧ R t a :=
  fun t a hr => ⟨hQ t a hr, hR t a hr⟩

@[simp] theorem ensures_ret : Ensures (.ret a) Q ↔ Q [] a := by
  constructor
  · intro h
    exact h _ _ .ret
  · intro h t b hr
    obtain ⟨rfl, rfl⟩ := runs_ret_iff.mp hr
    exact h

@[simp] theorem ensures_ask :
    Ensures (.ask o k) Q ↔ ∀ r, Ensures (k r) fun t a => Q (⟨o, r⟩ :: t) a := by
  constructor
  · intro h r t a hr
    exact h _ _ (.ask hr)
  · intro h t a hr
    obtain ⟨r, t', rfl, hr'⟩ := runs_ask_iff.mp hr
    exact h r t' a hr'

theorem ensures_bind {Q : Trace S → β → Prop} :
    Ensures (p >>= f) Q ↔ Ensures p fun t a => Ensures (f a) fun t' b => Q (t ++ t') b := by
  constructor
  · intro h t a hr t' b hr'
    exact h _ _ (runs_bind_iff.mpr ⟨t, a, t', rfl, hr, hr'⟩)
  · intro h t b hr
    obtain ⟨t₁, a, t₂, rfl, h₁, h₂⟩ := runs_bind_iff.mp hr
    exact h t₁ a h₁ t₂ b h₂

theorem Ensures.bind {P : Trace S → α → Prop} {Q : Trace S → β → Prop} (hp : Ensures p P)
    (hf : ∀ t a, P t a → Ensures (f a) fun t' b => Q (t ++ t') b) : Ensures (p >>= f) Q :=
  ensures_bind.mpr (hp.mono hf)

theorem Ensures.after {R : β → Prop} (hf : ∀ a, Ensures (f a) fun _ b => R b) :
    Ensures (p >>= f) fun _ b => R b :=
  ensures_bind.mpr fun _ a _ => hf a

/-- Every operation that `p` performs in any run is in `P`. -/
def Emits {S : Sig} {α : Type} (p : Prog S α) (P : Event S → Prop) : Prop :=
  Ensures p fun t _ => ∀ e ∈ t, P e

@[simp] theorem emits_ret : Emits (.ret a) P := by
  simp [Emits]

theorem emits_ask (h : ∀ r, P ⟨o, r⟩) (hk : ∀ r, Emits (k r) P) : Emits (.ask o k) P := by
  refine ensures_ask.mpr fun r => (hk r).mono fun t _ ht => ?_
  exact forall_mem_cons.mpr ⟨h r, ht⟩

theorem emits_perform (h : ∀ r, P ⟨o, r⟩) : Emits (perform o) P := emits_ask h fun _ => emits_ret

theorem emits_ite {c : Prop} [Decidable c] {p' : Prog S α} (hp : Emits p P) (hp' : Emits p' P) :
    Emits (if c then p else p') P := by
  split
  · exact hp
  · exact hp'

theorem Emits.bind (hp : Emits p P) (hf : ∀ a, Emits (f a) P) : Emits (p >>= f) P := by
  refine Ensures.bind hp fun t a ht => (hf a).mono fun t' _ ht' => ?_
  exact forall_mem_append.mpr ⟨ht, ht'⟩

/-! ## Some run -/

/-- Some run of `p` ends with trace and result in `Q`. -/
def Can {S : Sig} {α : Type} (p : Prog S α) (Q : Trace S → α → Prop) : Prop :=
  ∃ t a, Runs p t a ∧ Q t a

theorem Can.mono (h : Can p Q) (hQR : ∀ t a, Q t a → R t a) : Can p R := by
  obtain ⟨t, a, hr, hQ⟩ := h
  exact ⟨t, a, hr, hQR t a hQ⟩

@[simp] theorem can_ret : Can (.ret a) Q ↔ Q [] a := by
  constructor
  · rintro ⟨t, b, hr, hQ⟩
    obtain ⟨rfl, rfl⟩ := runs_ret_iff.mp hr
    exact hQ
  · intro h
    exact ⟨[], a, .ret, h⟩

theorem can_ask : Can (.ask o k) Q ↔ ∃ r, Can (k r) fun t a => Q (⟨o, r⟩ :: t) a := by
  constructor
  · rintro ⟨t, a, hr, hQ⟩
    obtain ⟨r, t', rfl, hr'⟩ := runs_ask_iff.mp hr
    exact ⟨r, t', a, hr', hQ⟩
  · rintro ⟨r, t, a, hr, hQ⟩
    exact ⟨_, a, .ask hr, hQ⟩

theorem can_bind {Q : Trace S → β → Prop} :
    Can (p >>= f) Q ↔ Can p fun t a => Can (f a) fun t' b => Q (t ++ t') b := by
  constructor
  · rintro ⟨t, b, hr, hQ⟩
    obtain ⟨t₁, a, t₂, rfl, h₁, h₂⟩ := runs_bind_iff.mp hr
    exact ⟨t₁, a, h₁, t₂, b, h₂, hQ⟩
  · rintro ⟨t₁, a, h₁, t₂, b, h₂, hQ⟩
    exact ⟨t₁ ++ t₂, b, runs_bind_iff.mpr ⟨t₁, a, t₂, rfl, h₁, h₂⟩, hQ⟩

/-- If every operation can be answered in a way, every program has a run with such answers. -/
theorem can_emit (h : ∀ o, ∃ r : S.Res o, P ⟨o, r⟩) (p : Prog S α) :
    Can p fun t _ => ∀ e ∈ t, P e := by
  induction p with
  | ret a => exact can_ret.mpr (forall_mem_nil _)
  | ask o k ih =>
    obtain ⟨r, hr⟩ := h o
    exact can_ask.mpr ⟨r, (ih r).mono fun _ _ ht => forall_mem_cons.mpr ⟨hr, ht⟩⟩

theorem can_run [∀ o, Nonempty (S.Res o)] (p : Prog S α) : Can p fun _ _ => True :=
  (can_emit (P := fun _ => True) (fun o => exists_const (S.Res o) |>.mpr trivial) p).mono
    fun _ _ _ => trivial

theorem emits_ask_iff [∀ o, Nonempty (S.Res o)] :
    Emits (.ask o k) P ↔ (∀ r, P ⟨o, r⟩) ∧ ∀ r, Emits (k r) P := by
  constructor
  · intro h
    refine ⟨fun r => ?_, fun r t a hrun e he => ?_⟩
    · obtain ⟨t, a, hrun, _⟩ := can_run (k r)
      exact h _ a (.ask hrun) _ mem_cons_self
    · exact h _ a (.ask hrun) e (mem_cons_of_mem _ he)
  · intro h
    exact emits_ask h.1 h.2

end Interaction
