import IxrGateway.Interaction.Par

/-!
# Programs that pay with tokens

An event may hand tokens to the program that performs it, or take some back.
`Guarded delta p c` says that `p`, started with `c` tokens, never owes any,
whatever it is answered.  The rules follow the program text.  Side by side, two
programs need no more than they need alone.
-/

namespace Interaction

open Prog List

variable {S : Sig} {α β : Type} {delta : Event S → Int}

/-- Started with `c` tokens, the program never owes any. -/
def Guarded (delta : Event S → Int) : Prog S α → Int → Prop
  | .ret _, _ => True
  | .ask o k, c => ∀ r, 0 ≤ c + delta ⟨o, r⟩ ∧ Guarded delta (k r) (c + delta ⟨o, r⟩)

/-- What the events add up to. -/
def balance (delta : Event S → Int) (t : Trace S) : Int := (t.map delta).sum

@[simp] theorem balance_nil : balance delta [] = 0 := rfl

@[simp] theorem balance_cons (e : Event S) (t : Trace S) :
    balance delta (e :: t) = delta e + balance delta t := by
  simp [balance]

@[simp] theorem balance_append (t t' : Trace S) :
    balance delta (t ++ t') = balance delta t + balance delta t' := by
  simp [balance]

variable {t : Trace S} {c : Int} {p : Prog S α}

theorem balance_eq_zero (h : ∀ e ∈ t, delta e = 0) : balance delta t = 0 := by
  induction t with
  | nil => rfl
  | cons e t ih =>
    obtain ⟨he, ht⟩ := forall_mem_cons.mp h
    rw [balance_cons, he, ih ht, add_zero]

theorem balance_nonpos (h : ∀ e ∈ t, delta e ≤ 0) : balance delta t ≤ 0 := by
  induction t with
  | nil => exact le_refl 0
  | cons e t ih =>
    obtain ⟨he, ht⟩ := forall_mem_cons.mp h
    rw [balance_cons]
    exact add_nonpos he (ih ht)

/-! ## Rules -/

theorem guarded_ret {a : α} : Guarded delta (.ret a : Prog S α) c := trivial

variable {c' : Int} {f : α → Prog S β} {choose : Prog S Bool}

theorem Guarded.mono (h : Guarded delta p c) (hc : c ≤ c') : Guarded delta p c' := by
  induction p generalizing c c' with
  | ret a => exact guarded_ret
  | ask o k ih =>
    intro r
    obtain ⟨hpay, hrest⟩ := h r
    exact ⟨by omega, ih r hrest (by omega)⟩

theorem guarded_of_emits [∀ o, Nonempty (S.Res o)] (h : Emits p fun e => 0 ≤ delta e) (hc : 0 ≤ c) :
    Guarded delta p c := by
  induction p generalizing c with
  | ret a => exact guarded_ret
  | ask o k ih =>
    intro r
    obtain ⟨hfree, hrest⟩ := emits_ask_iff.mp h
    have hpay := add_nonneg hc (hfree r)
    exact ⟨hpay, ih r (hrest r) hpay⟩

theorem guarded_of_runs [∀ o, Nonempty (S.Res o)]
    (h : Ensures p fun t _ => (∀ e ∈ t, delta e ≤ 0) ∧ 0 ≤ c + balance delta t) :
    Guarded delta p c := by
  induction p generalizing c with
  | ret a => exact guarded_ret
  | ask o k ih =>
    intro r
    have hrest := ensures_ask.mp h r
    obtain ⟨t, a, hrun, _⟩ := can_run (k r)
    obtain ⟨hnone, hpay⟩ := hrest t a hrun
    obtain ⟨_, hnone⟩ := forall_mem_cons.mp hnone
    have hlater := balance_nonpos hnone
    rw [balance_cons] at hpay
    refine ⟨by omega, ih r (hrest.mono fun t a ⟨hnone, hpay⟩ => ?_)⟩
    rw [balance_cons] at hpay
    exact ⟨(forall_mem_cons.mp hnone).2, by omega⟩

theorem Guarded.bind (hp : Guarded delta p c) (hc : 0 ≤ c) (hf : ∀ a, Guarded delta (f a) 0) :
    Guarded delta (p >>= f) c := by
  induction p generalizing c with
  | ret a => exact (hf a).mono hc
  | ask o k ih =>
    intro r
    obtain ⟨hpay, hrest⟩ := hp r
    exact ⟨hpay, ih r hrest hpay⟩

theorem guarded_bind_of_emits [∀ o, Nonempty (S.Res o)] (hp : Emits p fun e => delta e = 0)
    (hc : 0 ≤ c) (hf : ∀ a, Guarded delta (f a) c) : Guarded delta (p >>= f) c := by
  induction p with
  | ret a => exact hf a
  | ask o k ih =>
    intro r
    obtain ⟨hfree, hrest⟩ := emits_ask_iff.mp hp
    rw [hfree r, add_zero]
    exact ⟨hc, ih r (hrest r)⟩

/-- The programs pay from one purse.  `choose` moves no tokens. -/
theorem Guarded.par [∀ o, Nonempty (S.Res o)] (hchoose : Emits choose fun e => delta e = 0)
    {q : Prog S β} (hp : Guarded delta p c) (hq : Guarded delta q c') (hc : 0 ≤ c) (hc' : 0 ≤ c') :
    Guarded delta (Prog.par choose p q) (c + c') := by
  induction p generalizing q c c' with
  | ret a => exact (hq.mono (by omega)).bind (by omega) fun _ => guarded_ret
  | ask o k ih =>
    -- Inside, the second program is the one that gets smaller.
    change Guarded delta (parAsk choose o k (fun r => Prog.par choose (k r)) q) (c + c')
    induction q generalizing c' with
    | ret b =>
      intro r
      obtain ⟨hpay, hrest⟩ := hp r
      have hpay' : 0 ≤ c + c' + delta ⟨o, r⟩ := by omega
      exact ⟨hpay', (hrest.mono (by omega)).bind hpay' fun _ => guarded_ret⟩
    | ask o' k' ih' =>
      refine guarded_bind_of_emits hchoose (by omega) fun first => ?_
      cases first with
      | true =>
        intro r
        obtain ⟨hpay, hrest⟩ := hp r
        rw [add_right_comm]
        exact ⟨by omega, ih r hrest hq hpay hc'⟩
      | false =>
        intro r
        obtain ⟨hpay, hrest⟩ := hq r
        rw [add_assoc]
        exact ⟨by omega, ih' r hrest hpay⟩

theorem guarded_parList [∀ o, Nonempty (S.Res o)] (hchoose : Emits choose fun e => delta e = 0) :
    ∀ {ps : List (Prog S α)}, (∀ p ∈ ps, Guarded delta p 0) →
      Guarded delta (Prog.parList choose ps) 0
  | [], _ => guarded_ret
  | p :: ps, h => by
    obtain ⟨hp, hps⟩ := forall_mem_cons.mp h
    have hboth := hp.par hchoose (guarded_parList hchoose hps) (le_refl 0) (le_refl 0)
    exact hboth.bind (le_refl 0) fun _ => guarded_ret

theorem Guarded.balance_nonneg {q : Prog S α} (h : Guarded delta p c) (hc : 0 ≤ c)
    (hsteps : Steps p t q) : 0 ≤ c + balance delta t := by
  induction hsteps generalizing c with
  | refl => simpa using hc
  | ask _ ih =>
    obtain ⟨hpay, hrest⟩ := h _
    rw [balance_cons, ← add_assoc]
    exact ih hrest hpay

end Interaction
