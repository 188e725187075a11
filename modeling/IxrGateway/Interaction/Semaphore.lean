import IxrGateway.Interaction.Pool

/-!
# Programs beside a semaphore

A counting semaphore stands beside a world that knows nothing of it.  To
acquire a permit never waits: without a free one the answer is `false`.  A
program may be *bracketed*: it runs with a permit, which goes back at its end,
or it does not run at all.
-/

namespace Interaction

open Prog List

/-- The operations of a signature, and two on a semaphore. -/
inductive SemOp (S : Sig) where
  | inner (o : S.Op)
  | acquire
  | release

/-- The operations and a semaphore. -/
def Sig.withSem (S : Sig) : Sig where
  Op := SemOp S
  Res
    | .inner o => S.Res o
    | .acquire => Bool
    | .release => Unit

variable {S : Sig} {W α : Type}

/-- The same program beside a semaphore. -/
def Prog.beside : Prog S α → Prog S.withSem α
  | .ret a => .ret a
  | .ask o k => .ask (S := S.withSem) (.inner o) fun r => (k r).beside

/-- Run `p` with a permit, or return `busy` if there is none. -/
def Prog.bracketed (p : Prog S α) (busy : α) : Prog S.withSem α :=
  .ask (S := S.withSem) .acquire fun
    | true => do
      let a ← p.beside
      .ask (S := S.withSem) .release fun _ => .ret a
    | false => .ret busy

/-- A world beside a semaphore, with the permits that are taken. -/
def semAnswers (capacity : Nat) (answers : Answers S W) : Answers S.withSem (W × Nat)
  | (w, n), .inner o, r, (w', n') => answers w o r w' ∧ n' = n
  | (w, n), .acquire, true, (w', n') => w' = w ∧ n < capacity ∧ n' = n + 1
  | (w, n), .acquire, false, (w', n') => w' = w ∧ capacity ≤ n ∧ n' = n
  | (w, n), .release, _, (w', n') => w' = w ∧ n = n' + 1

/-- The permits that an event takes. -/
def permits : Event S.withSem → Int
  | ⟨.inner _, _⟩ => 0
  | ⟨.acquire, true⟩ => 1
  | ⟨.acquire, false⟩ => 0
  | ⟨.release, _⟩ => -1

/-- A program that has taken a permit and has not returned. -/
def Proc.inside (proc : Proc S.withSem) : Bool :=
  !proc.returned && proc.trace.any fun e => decide (permits e = 1)

variable {capacity : Nat} {answers : Answers S W} {w w' : W × Nat} {t : Trace S.withSem}

theorem semAnswers_permits {o : S.withSem.Op} {r : S.withSem.Res o}
    (h : semAnswers capacity answers w o r w') :
    (w'.2 : Int) = w.2 + permits ⟨o, r⟩ ∧ (w.2 ≤ capacity → w'.2 ≤ capacity) := by
  match o, r, h with
  | .inner o, r, ⟨_, h⟩ => simp [permits, h]
  | .acquire, true, ⟨_, hfree, h⟩ => simp [permits, h, Nat.succ_le_of_lt hfree]
  | .acquire, false, ⟨_, _, h⟩ => simp [permits, h]
  | .release, _, ⟨_, h⟩ =>
    simp only [permits, h]
    omega

/-! ## One program -/

theorem steps_beside {p : Prog S α} {q : Prog S.withSem α} (h : Steps p.beside t q) :
    ∀ e ∈ t, permits e = 0 := by
  induction p generalizing t with
  | ret a =>
    cases h
    exact forall_mem_nil _
  | ask o k ih =>
    cases h with
    | refl => exact forall_mem_nil _
    | ask h => exact forall_mem_cons.mpr ⟨rfl, ih _ h⟩

/-- Inside the brackets, nothing is taken, and the permit goes back with the last event. -/
theorem steps_release {β : Type} {p : Prog S α} {f : α → β} {q : Prog S.withSem β}
    (h : Steps (p.beside >>= fun a => .ask (S := S.withSem) .release fun _ => .ret (f a)) t q) :
    ((∀ e ∈ t, permits e = 0) ∧ ∃ o k, q = .ask o k) ∨
      ∃ t' b, t = t' ++ [⟨.release, ()⟩] ∧ (∀ e ∈ t', permits e = 0) ∧ q = .ret b := by
  induction p generalizing t with
  | ret a =>
    cases h with
    | refl => exact .inl ⟨forall_mem_nil _, _, _, rfl⟩
    | ask h =>
      cases h
      exact .inr ⟨[], f a, rfl, forall_mem_nil _, rfl⟩
  | ask o k ih =>
    cases h with
    | refl => exact .inl ⟨forall_mem_nil _, _, _, rfl⟩
    | ask h =>
      obtain ⟨hnone, hask⟩ | ⟨t', b, rfl, hnone, rfl⟩ := ih _ h
      · exact .inl ⟨forall_mem_cons.mpr ⟨rfl, hnone⟩, hask⟩
      · exact .inr ⟨_ :: t', b, rfl, forall_mem_cons.mpr ⟨rfl, hnone⟩, rfl⟩

/-- A program is bracketed, or does not know the semaphore. -/
inductive Bracketed : Prog S.withSem Unit → Prop where
  | request {α : Type} {p : Prog S α} {busy : α} : Bracketed (p.bracketed busy).void
  | beside {p : Prog S Unit} : Bracketed p.beside

/-- A program holds one permit while it is inside, and none otherwise. -/
theorem Bracketed.balance_eq {p q : Prog S.withSem Unit} (h : Bracketed p) (hsteps : Steps p t q)
    (parent : Option Nat) :
    balance permits t = if Proc.inside ⟨parent, p, t, q⟩ then 1 else 0 := by
  cases h with
  | beside =>
    have hnone := steps_beside hsteps
    have hnever : (t.any fun e => decide (permits e = 1)) = false := by
      simpa using fun e he => by simp [hnone e he]
    rw [balance_eq_zero hnone, Proc.inside, hnever, Bool.and_false]
    rfl
  | @request α p busy =>
    cases hsteps with
    | refl => rfl
    | @ask _ _ got t _ hsteps =>
      cases got with
      | false =>
        cases hsteps
        rfl
      | true =>
        have hbody : Steps (p.beside >>= fun _ =>
            .ask (S := S.withSem) .release fun _ => .ret ()) t q := by
          change Steps ((p.beside >>= fun a =>
            .ask (S := S.withSem) .release fun _ => .ret a) >>= fun _ => .ret ()) t q
              at hsteps
          rwa [bind_assoc] at hsteps
        rw [balance_cons]
        obtain ⟨hnone, o, k, rfl⟩ | ⟨t', b, rfl, hnone, rfl⟩ := steps_release hbody
        · rw [balance_eq_zero hnone]
          rfl
        · rw [balance_append, balance_eq_zero hnone]
          rfl

/-- A program that is about to give its permit back is inside. -/
theorem Bracketed.inside_of_release {p : Prog S.withSem Unit} {k : Unit → Prog S.withSem Unit}
    (h : Bracketed p) (hsteps : Steps p t (.ask (S := S.withSem) .release k))
    (parent : Option Nat) :
    Proc.inside ⟨parent, p, t, .ask (S := S.withSem) .release k⟩ = true := by
  -- with one more event the balance would be negative, had the program no permit
  have hnext := h.balance_eq (hsteps.snoc ()) parent
  by_contra hout
  rw [balance_append, h.balance_eq hsteps parent, if_neg hout] at hnext
  split at hnext
  · cases hnext
  · cases hnext

/-! ## All programs -/

/-- The programs that are inside. -/
def Pool.inside (P : Pool S.withSem (W × Nat)) : Nat := P.procs.countP Proc.inside

variable {spawns : Event S.withSem → List (Prog S.withSem Unit)} {w₀ : W}
  {P : Pool S.withSem (W × Nat)}
  {allowed : Pool S.withSem (W × Nat) → Move S.withSem → Pool S.withSem (W × Nat) → Prop}

/-- The permits that are taken are those of the programs inside. -/
theorem Pool.Reached.permits_eq_inside
    (h : Reached (semAnswers capacity answers) spawns allowed (w₀, 0) P)
    (hinit : ∀ proc ∈ P.procs, Bracketed proc.init) : P.world.2 = P.inside := by
  have htaken := h.quantity_eq (fun w => (w.2 : Int)) fun w o r w' ha => (semAnswers_permits ha).1
  have hbalance : P.procs.map (fun proc => (proc.trace.map permits).sum) =
      P.procs.map fun proc => if proc.inside then (1 : Int) else 0 :=
    map_congr_left fun proc hmem =>
      (hinit proc hmem).balance_eq (h.steps proc hmem) proc.parent
  have hcount : ((P.procs.countP Proc.inside : Nat) : Int) =
      (P.procs.map fun proc => if proc.inside then (1 : Int) else 0).sum := by
    induction P.procs with
    | nil => rfl
    | cons proc procs ih => simp [countP_cons, ih, add_comm]
  rw [hbalance, Nat.cast_zero, zero_add] at htaken
  exact_mod_cast htaken.trans hcount.symm

theorem Pool.Reached.permits_le
    (h : Reached (semAnswers capacity answers) spawns allowed (w₀, 0) P) :
    P.world.2 ≤ capacity := by
  induction h with
  | empty => exact Nat.zero_le _
  | step _ hstep _ ih =>
    cases hstep with
    | start p => exact ih
    | perform hanswer => exact (semAnswers_permits hanswer).2 ih

end Interaction
