import IxrGateway.Interaction.Prog

/-!
# Programs side by side

`par choose p q` runs two programs in an interleaving that `choose` decides step
by step: whenever both want to perform an operation, it says which one does.
Runs under every `choose` are all interleavings.

The recursion is on the first program, and inside it on the second
(`parAsk`).
-/

open List

namespace Interaction.Prog

variable {S : Sig} {α β : Type}

/-- The first program is about to perform `o`, and `both` goes on once it has. -/
def parAsk (choose : Prog S Bool) (o : S.Op) (k : S.Res o → Prog S α)
    (both : S.Res o → Prog S β → Prog S (α × β)) : Prog S β → Prog S (α × β)
  | .ret b => .ask o fun r => k r >>= fun a => .ret (a, b)
  | .ask o' k' => choose >>= fun first =>
    if first then .ask o fun r => both r (.ask o' k')
    else .ask o' fun r => parAsk choose o k both (k' r)

/-- Two programs side by side. -/
def par (choose : Prog S Bool) : Prog S α → Prog S β → Prog S (α × β)
  | .ret a => fun q => q >>= fun b => .ret (a, b)
  | .ask o k => parAsk choose o k fun r => par choose (k r)

/-- Programs side by side. -/
def parList (choose : Prog S Bool) : List (Prog S α) → Prog S (List α)
  | [] => .ret []
  | p :: ps => par choose p (parList choose ps) >>= fun results =>
    .ret (results.1 :: results.2)

end Interaction.Prog

namespace Interaction

open Prog

variable {S : Sig} {α β : Type} {P : Event S → Prop}

variable {choose : Prog S Bool} {p : Prog S α}

theorem Emits.par [∀ o, Nonempty (S.Res o)] {q : Prog S β} (hp : Emits p P) (hq : Emits q P)
    (hchoose : Emits choose P) : Emits (Prog.par choose p q) P := by
  induction p generalizing q with
  | ret a => exact hq.bind fun _ => emits_ret
  | ask o k ih =>
    obtain ⟨ho, hk⟩ := emits_ask_iff.mp hp
    -- Inside, the second program is the one that gets smaller.
    change Emits (parAsk choose o k (fun r => Prog.par choose (k r)) q) P
    induction q with
    | ret b => exact emits_ask ho fun r => (hk r).bind fun _ => emits_ret
    | ask o' k' ih' =>
      obtain ⟨ho', hk'⟩ := emits_ask_iff.mp hq
      refine hchoose.bind fun first => ?_
      cases first with
      | true => exact emits_ask ho fun r => ih r (hk r) hq
      | false => exact emits_ask ho' fun r => ih' r (hk' r)

theorem emits_parList [∀ o, Nonempty (S.Res o)] (hchoose : Emits choose P) :
    ∀ {ps : List (Prog S α)}, (∀ p ∈ ps, Emits p P) → Emits (Prog.parList choose ps) P
  | [], _ => emits_ret
  | p :: ps, h => by
    obtain ⟨hp, hps⟩ := forall_mem_cons.mp h
    exact (hp.par (emits_parList hchoose hps) hchoose).bind fun _ => emits_ret

/-! ## What each of the programs does -/

theorem perm_mix {t₀ t t₁ t₂ t₃ : Trace S} (h : t.Perm (t₁ ++ t₂ ++ t₃)) :
    (t₀ ++ t).Perm (t₁ ++ t₂ ++ (t₀ ++ t₃)) := by
  refine (h.append_left t₀).trans ?_
  rw [← append_assoc, ← append_assoc (t₁ ++ t₂)]
  exact perm_append_comm.append_right t₃

theorem Runs.par_split {q : Prog S β} {t : Trace S} {out : α × β} (hchoose : Emits choose P)
    (h : Runs (Prog.par choose p q) t out) :
    ∃ t₁ t₂ t₃ : Trace S, t.Perm (t₁ ++ t₂ ++ t₃) ∧ Runs p t₁ out.1 ∧ Runs q t₂ out.2 ∧
      ∀ e ∈ t₃, P e := by
  induction p generalizing q t with
  | ret a =>
    obtain ⟨t₂, b, t', rfl, hq, hret⟩ := runs_bind_iff.mp h
    obtain ⟨rfl, rfl⟩ := runs_ret_iff.mp hret
    exact ⟨[], t₂, [], by simp, .ret, hq, forall_mem_nil _⟩
  | ask o k ih =>
    change Runs (parAsk choose o k (fun r => Prog.par choose (k r)) q) t out at h
    induction q generalizing t with
    | ret b =>
      obtain ⟨r, t', rfl, hrest⟩ := runs_ask_iff.mp h
      obtain ⟨t₁, a, t'', rfl, hp, hret⟩ := runs_bind_iff.mp hrest
      obtain ⟨rfl, rfl⟩ := runs_ret_iff.mp hret
      exact ⟨_ :: t₁, [], [], by simp, .ask hp, .ret, forall_mem_nil _⟩
    | ask o' k' ih' =>
      obtain ⟨t₀, first, t', rfl, hfirst, hrest⟩ := runs_bind_iff.mp h
      have ht₀ := hchoose t₀ first hfirst
      cases first with
      | true =>
        obtain ⟨r, t', rfl, hboth⟩ := runs_ask_iff.mp hrest
        obtain ⟨t₁, t₂, t₃, ht, hp, hq, ht₃⟩ := ih r hboth
        refine ⟨⟨o, r⟩ :: t₁, t₂, t₀ ++ t₃, ?_, .ask hp, hq,
          forall_mem_append.mpr ⟨ht₀, ht₃⟩⟩
        exact perm_middle.trans ((perm_mix ht).cons _)
      | false =>
        obtain ⟨r, t', rfl, hboth⟩ := runs_ask_iff.mp hrest
        obtain ⟨t₁, t₂, t₃, ht, hp, hq, ht₃⟩ := ih' r hboth
        refine ⟨t₁, ⟨o', r⟩ :: t₂, t₀ ++ t₃, ?_, hp, .ask hq,
          forall_mem_append.mpr ⟨ht₀, ht₃⟩⟩
        refine perm_middle.trans (((perm_mix ht).cons _).trans ?_)
        simpa using perm_middle.symm

theorem Runs.parList_split (hchoose : Emits choose P) :
    ∀ {ps : List (Prog S α)} {t : Trace S} {outs : List α},
      Runs (Prog.parList choose ps) t outs →
      ∃ (runs : List (Trace S × α)) (t₀ : Trace S), outs = runs.map Prod.snd ∧
        Forall₂ (fun p run => Runs p run.1 run.2) ps runs ∧
        t.Perm ((runs.map Prod.fst).flatten ++ t₀) ∧ ∀ e ∈ t₀, P e
  | [], t, outs, h => by
    obtain ⟨rfl, rfl⟩ := runs_ret_iff.mp h
    exact ⟨[], [], rfl, .nil, .refl _, forall_mem_nil _⟩
  | p :: ps, t, outs, h => by
    obtain ⟨t', ⟨out, rest⟩, t'', rfl, hpar, hret⟩ := runs_bind_iff.mp h
    obtain ⟨rfl, rfl⟩ := runs_ret_iff.mp hret
    obtain ⟨t₁, t₂, t₃, ht, hp, hps, ht₃⟩ := hpar.par_split hchoose
    obtain ⟨runs, t₀, rfl, hruns, ht₂, ht₀⟩ := Runs.parList_split hchoose hps
    refine ⟨(t₁, out) :: runs, t₀ ++ t₃, rfl, .cons hp hruns, ?_,
      forall_mem_append.mpr ⟨ht₀, ht₃⟩⟩
    rw [append_nil]
    refine ht.trans (((ht₂.append_left t₁).append_right t₃).trans (.of_eq ?_))
    simp

/-- A property of traces that does not depend on the order of events. -/
structure Mixable (Q : Trace S → Prop) : Prop where
  nil : Q []
  append : ∀ {t t'}, Q t → Q t' → Q (t ++ t')
  perm : ∀ {t t'}, t.Perm t' → Q t → Q t'

theorem Mixable.bind {Q : Trace S → Prop} (hQ : Mixable Q) {f : α → Prog S β}
    (hp : Ensures p fun t _ => Q t) (hf : ∀ a, Ensures (f a) fun t _ => Q t) :
    Ensures (p >>= f) fun t _ => Q t :=
  hp.bind fun _ a ht => (hf a).mono fun _ _ ht' => hQ.append ht ht'

theorem Mixable.parList {Q : Trace S → Prop} (hQ : Mixable Q) (hchoose : Emits choose P)
    (hP : ∀ t : Trace S, (∀ e ∈ t, P e) → Q t) :
    ∀ {ps : List (Prog S α)}, (∀ p ∈ ps, Ensures p fun t _ => Q t) →
      Ensures (Prog.parList choose ps) fun t _ => Q t
  | [], _ => ensures_ret.mpr hQ.nil
  | p :: ps, h => by
    obtain ⟨hp, hps⟩ := forall_mem_cons.mp h
    refine hQ.bind (fun t out hrun => ?_) fun _ => ensures_ret.mpr hQ.nil
    obtain ⟨t₁, t₂, t₃, ht, hrun₁, hrun₂, ht₃⟩ := hrun.par_split hchoose
    exact hQ.perm ht.symm (hQ.append (hQ.append (hp t₁ _ hrun₁)
      (hQ.parList hchoose hP hps t₂ _ hrun₂)) (hP t₃ ht₃))

end Interaction
