import IxrGateway.Effects

/-!
# Bandits

`EpsilonGreedy` and `UCB` pick one of the candidates of a decision.  Both leave
out the arms that are cooling down, unless all are, and both take the first of
the best.  They differ in what they compare and in where they start.  Rewards
and confidence bounds are compared only, so they may be of any type with a
comparison, also one that is no order, such as that of floats with NaN.
-/

namespace Ixr.Scoring

open Routing List

/-- `armStats`, as far as `Select` reads it.  Times are in nanoseconds. -/
structure ArmStats (S : Type) where
  pulls : Int
  meanReward : S
  /-- None is the zero time. -/
  cooldownUntil : Option Int

/-- The arms by model. -/
abbrev Arms (S : Type) := String → Option (ArmStats S)

variable {S : Type}

/-- `armStats.inCooldown`. -/
def ArmStats.inCooldown (a : ArmStats S) (now : Int) : Bool :=
  match a.cooldownUntil with
  | none => false
  | some cooldownUntil => decide (now < cooldownUntil)

/-- `eligible`. -/
def eligible (candidates : List Candidate) (arms : Arms S) (now : Int) : List Candidate :=
  let out := candidates.filter fun c =>
    match arms c.model with
    | some a => !a.inCooldown now
    | none => true
  if out = [] then candidates else out

/-- The loop of `Select`: the first of the best.  A candidate without a score is passed over. -/
def bestLoop [LT S] [DecidableLT S] (score : Candidate → Option S) :
    List Candidate → (best : String) → (bestScore : S) → String
  | [], best, _ => best
  | c :: candidates, best, bestScore =>
    match score c with
    | some s =>
      if bestScore < s then bestLoop score candidates c.model s
      else bestLoop score candidates best bestScore
    | none => bestLoop score candidates best bestScore

/-- `EpsilonGreedy.Select`.  `explore` holds if the first random number is below epsilon, and
`draw` is the second one. -/
def EpsilonGreedy.select [LT S] [DecidableLT S] (negInf : S) (arms : Arms S) (now : Int)
    (explore : Bool) (draw : Nat) (candidates : List Candidate) : String :=
  match eligible candidates arms now with
  | [] => ""
  | first :: rest =>
    if explore then ((first :: rest).getD (draw % (first :: rest).length) first).model
    else bestLoop (fun c => (arms c.model).map ArmStats.meanReward) (first :: rest) first.model
      negInf

/-- `UCB.Select`.  `bound` is the mean reward of an arm plus its exploration term. -/
def UCB.select [LT S] [DecidableLT S] (negInf posInf : S) (bound : ArmStats S → S) (arms : Arms S)
    (now : Int) (candidates : List Candidate) : String :=
  let score (c : Candidate) : S :=
    match arms c.model with
    | some a => if a.pulls = 0 then posInf else bound a
    | none => posInf
  bestLoop (fun c => some (score c)) (eligible candidates arms now) "" negInf

/-! ## What is picked -/

/-- The model of one of the candidates, or none. -/
def Picked (candidates : List Candidate) (model : String) : Prop :=
  model = "" ∨ ∃ c ∈ candidates, c.model = model

theorem eligible_subset (candidates : List Candidate) (arms : Arms S) (now : Int) :
    eligible candidates arms now ⊆ candidates := by
  unfold eligible
  dsimp only
  split
  · exact List.Subset.refl _
  · exact filter_sublist.subset

variable {candidates : List Candidate} {model : String}

theorem Picked.mono {candidates' : List Candidate} (h : Picked candidates model)
    (hsub : candidates ⊆ candidates') : Picked candidates' model := by
  rcases h with hnone | ⟨c, hc, hmodel⟩
  · exact .inl hnone
  · exact .inr ⟨c, hsub hc, hmodel⟩

theorem bestLoop_picked [LT S] [DecidableLT S] (score : Candidate → Option S)
    (candidates : List Candidate) (best : String) (bestScore : S) :
    bestLoop score candidates best bestScore = best ∨
      ∃ c ∈ candidates, c.model = bestLoop score candidates best bestScore := by
  induction candidates generalizing best bestScore with
  | nil => exact .inl rfl
  | cons c candidates ih =>
    have hkeep : bestLoop score candidates best bestScore = best ∨
        ∃ d ∈ c :: candidates, d.model = bestLoop score candidates best bestScore := by
      rcases ih best bestScore with h | ⟨d, hd, h⟩
      · exact .inl h
      · exact .inr ⟨d, mem_cons_of_mem _ hd, h⟩
    rw [bestLoop]
    split
    · next s _ =>
      split
      · rcases ih c.model s with h | ⟨d, hd, h⟩
        · exact .inr ⟨c, mem_cons_self, h.symm⟩
        · exact .inr ⟨d, mem_cons_of_mem _ hd, h⟩
      · exact hkeep
    · exact hkeep

theorem EpsilonGreedy.exists_eligible [LT S] [DecidableLT S] (negInf : S) {arms : Arms S}
    {now : Int} (explore : Bool) (draw : Nat) (h : eligible candidates arms now ≠ []) :
    ∃ c ∈ eligible candidates arms now,
      c.model = EpsilonGreedy.select negInf arms now explore draw candidates := by
  unfold EpsilonGreedy.select
  cases hlist : eligible candidates arms now with
  | nil => exact absurd hlist h
  | cons first rest =>
    dsimp only
    split
    · have hlt : draw % (first :: rest).length < (first :: rest).length :=
        Nat.mod_lt _ (Nat.succ_pos _)
      rw [getD_eq_getElem _ _ hlt]
      exact ⟨_, getElem_mem hlt, rfl⟩
    · rcases bestLoop_picked (fun c => (arms c.model).map ArmStats.meanReward) (first :: rest)
        first.model negInf with h | h
      · exact ⟨first, mem_cons_self, h.symm⟩
      · exact h

theorem EpsilonGreedy.select_picked [LT S] [DecidableLT S] (negInf : S) (arms : Arms S)
    (now : Int) (explore : Bool) (draw : Nat) (candidates : List Candidate) :
    Picked candidates (EpsilonGreedy.select negInf arms now explore draw candidates) := by
  apply Picked.mono _ (eligible_subset candidates arms now)
  by_cases h : eligible candidates arms now = []
  · rw [EpsilonGreedy.select, h]
    exact .inl rfl
  · exact .inr (EpsilonGreedy.exists_eligible negInf explore draw h)

theorem UCB.select_picked [LT S] [DecidableLT S] (negInf posInf : S) (bound : ArmStats S → S)
    (arms : Arms S) (now : Int) (candidates : List Candidate) :
    Picked candidates (UCB.select negInf posInf bound arms now candidates) := by
  apply Picked.mono _ (eligible_subset candidates arms now)
  exact bestLoop_picked _ _ _ _

/-- The answer one of the two bandits gives in some state. -/
inductive Selects (candidates : List Candidate) : String → Prop where
  | epsilonGreedy {S : Type} [LT S] [DecidableLT S] (negInf : S) (arms : Arms S) (now : Int)
      (explore : Bool) (draw : Nat) :
      Selects candidates (EpsilonGreedy.select negInf arms now explore draw candidates)
  | ucb {S : Type} [LT S] [DecidableLT S] (negInf posInf : S) (bound : ArmStats S → S)
      (arms : Arms S) (now : Int) :
      Selects candidates (UCB.select negInf posInf bound arms now candidates)

theorem Selects.picked (h : Selects candidates model) : Picked candidates model := by
  cases h with
  | epsilonGreedy negInf arms now explore draw =>
    exact EpsilonGreedy.select_picked negInf arms now explore draw candidates
  | ucb negInf posInf bound arms now =>
    exact UCB.select_picked negInf posInf bound arms now candidates

end Ixr.Scoring
