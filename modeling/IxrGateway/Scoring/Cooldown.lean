import Mathlib.Data.List.DropRight
import IxrGateway.Scoring.Bandit

/-!
# Arms that cool down

An arm that fails three times in a row is left out of `Select` for a while, which
doubles with each further failure up to a limit.  A reward that is high enough ends
this at once.  So the end of the cooldown depends on the rewards since the last
success only, and on the time of the last update (`cooldownOf_armsAfter`).

`EpsilonGreedy` starts with the first candidate that may be picked, and `UCB` starts
with no model at all.  If no score is above negative infinity, `UCB` picks nothing
(`UCB.fair_iff`).

The arithmetic of rewards is any (`RewardArith`).  Counters have no upper bound.
-/

namespace Ixr.Scoring

open Routing List EpsilonGreedy UCB

variable {S : Type}

/-! ## Updates -/

/-- The arithmetic of rewards. -/
structure RewardArith (S : Type) where
  zero : S
  add : S → S → S
  sub : S → S → S
  /-- `math.Max`. -/
  max : S → S → S
  /-- Division by a number of pulls. -/
  div : S → Int → S
  /-- `math.Inf(-1)`. -/
  negInf : S
  /-- `math.Inf(1)`. -/
  posInf : S
  /-- `math.IsInf(x, 1)`. -/
  isPosInf : S → Bool
  failureRewardThreshold : S

/-- The failures before a cooldown. -/
def cooldownFailureStreak : Int := 3

/-- The first cooldown. -/
def cooldownBase : Int := 5 * 10 ^ 9

/-- The longest cooldown. -/
def cooldownMax : Int := 5 * 60 * 10 ^ 9

/-- `armStats` with all its fields. -/
structure Arm (S : Type) extends ArmStats S where
  sumReward : S
  consecutiveFail : Int

/-- The map of a bandit, as `Select` reads it. -/
def armStatsOf (arms : String → Option (Arm S)) : Arms S := fun model =>
  (arms model).map Arm.toArmStats

/-- `RegretTracker`. -/
structure RegretTracker (S : Type) where
  cumulative : S
  count : Int

/-- `RegretTracker.Record`. -/
def RegretTracker.record (F : RewardArith S) (t : RegretTracker S) (optimal chosen : S) :
    RegretTracker S where
  cumulative := F.add t.cumulative (F.max F.zero (F.sub optimal chosen))
  count := t.count + 1

/-- The backoff after some failures in a row, at least `cooldownFailureStreak`. -/
def backoffAfter (consecutiveFail : Int) : Int :=
  let exp := consecutiveFail - cooldownFailureStreak
  let exp := if 10 < exp then 10 else exp
  let backoff := cooldownBase * 2 ^ exp.toNat
  if cooldownMax < backoff ∨ backoff ≤ 0 then cooldownMax else backoff

/-- A call on a bandit, with the time it reads and the order in which it goes over the arms. -/
inductive Call (S : Type) where
  | update (model : String) (reward : S) (now : Int) (order : List String)
  | select (candidates : List Candidate) (now : Int)

/-- The reward of a model, and when. -/
def Call.outcome (model : String) : Call S → Option (S × Int)
  | .update m reward now _ => if m = model then some (reward, now) else none
  | .select _ _ => none

/-- The rewards of a model. -/
def outcomes (model : String) (calls : List (Call S)) : List (S × Int) :=
  calls.filterMap (Call.outcome model)

theorem outcomes_concat (model : String) (calls : List (Call S)) (call : Call S) :
    outcomes model (calls ++ [call]) = outcomes model calls ++ (call.outcome model).toList := by
  rw [outcomes, filterMap_append, ← outcomes, filterMap_cons]
  cases call.outcome model <;> rfl

section

variable [LE S] [DecidableLE S] (F : RewardArith S)

/-- `armStats.recordOutcome`. -/
def Arm.recordOutcome (a : Arm S) (reward : S) (now : Int) : Arm S :=
  if F.failureRewardThreshold ≤ reward then
    { a with consecutiveFail := 0, cooldownUntil := none }
  else
    let a := { a with consecutiveFail := a.consecutiveFail + 1 }
    if a.consecutiveFail < cooldownFailureStreak then a
    else { a with cooldownUntil := some (now + backoffAfter a.consecutiveFail) }

/-- `getArm`, without the map. -/
def getArm (arms : String → Option (Arm S)) (model : String) : Arm S :=
  (arms model).getD
    { pulls := 0, meanReward := F.zero, cooldownUntil := none, sumReward := F.zero,
      consecutiveFail := 0 }

/-- The arm after a reward. -/
def Arm.update (a : Arm S) (reward : S) (now : Int) : Arm S :=
  let a := { a with pulls := a.pulls + 1, sumReward := F.add a.sumReward reward }
  let a := { a with meanReward := F.div a.sumReward a.pulls }
  a.recordOutcome F reward now

/-- The arms after a reward. -/
def updateArms (arms : String → Option (Arm S)) (model : String) (reward : S) (now : Int) :
    String → Option (Arm S) :=
  Function.update arms model (some ((getArm F arms model).update F reward now))

/-- The arms after a call. -/
def stepArms (arms : String → Option (Arm S)) : Call S → String → Option (Arm S)
  | .update model reward now _ => updateArms F arms model reward now
  | .select _ _ => arms

/-- The arms after calls. -/
def armsAfter (calls : List (Call S)) : String → Option (Arm S) :=
  calls.foldl (stepArms F) fun _ => none

/-! ## The end of the cooldown -/

/-- The reward counts as a failure. -/
def failing (reward : S) : Bool := !decide (F.failureRewardThreshold ≤ reward)

/-- The failures at the end. -/
def streak (outcomes : List (S × Int)) : Nat :=
  (outcomes.rtakeWhile fun o => failing F o.1).length

/-- When the failures' cooldown ends. -/
def cooldownEnd (outcomes : List (S × Int)) : Option Int :=
  if 3 ≤ streak F outcomes then
    outcomes.getLast?.map fun o =>
      o.2 + min (cooldownBase * 2 ^ (streak F outcomes - 3)) cooldownMax
  else none

/-- The arm follows its outcomes. -/
structure Cools (outcomes : List (S × Int)) (a : Arm S) : Prop where
  consecutiveFail : a.consecutiveFail = streak F outcomes
  cooldownUntil : a.cooldownUntil = cooldownEnd F outcomes

/-- Neither the bound on the exponent nor the test for an overflow shows. -/
theorem backoffAfter_eq (k : Nat) (h : 3 ≤ k) :
    backoffAfter k = min (cooldownBase * 2 ^ (k - 3)) cooldownMax := by
  have hexp : ((k : Int) - cooldownFailureStreak).toNat = k - 3 := by
    rw [cooldownFailureStreak]
    omega
  unfold backoffAfter
  dsimp only
  rcases le_or_gt ((k : Int) - cooldownFailureStreak) 10 with hle | hgt
  · rw [if_neg (not_lt.mpr hle), hexp]
    have hpos : 0 < cooldownBase * 2 ^ (k - 3) := by
      rw [cooldownBase]
      positivity
    rcases lt_or_ge cooldownMax (cooldownBase * 2 ^ (k - 3)) with hmax | hmax
    · rw [if_pos (.inl hmax), min_eq_right hmax.le]
    · rw [if_neg (not_or.mpr ⟨not_lt.mpr hmax, not_le.mpr hpos⟩), min_eq_left hmax]
  · rw [if_pos hgt, if_pos (.inl (by decide))]
    have hlarge : cooldownBase * 2 ^ 10 ≤ cooldownBase * 2 ^ (k - 3) := by
      refine Int.mul_le_mul_of_nonneg_left ?_ (by decide)
      exact pow_le_pow_right₀ (by decide) (by omega)
    exact (min_eq_right (le_trans (by decide) hlarge)).symm

theorem streak_concat (outcomes : List (S × Int)) (reward : S) (now : Int) :
    streak F (outcomes ++ [(reward, now)]) =
      if F.failureRewardThreshold ≤ reward then 0 else streak F outcomes + 1 := by
  unfold streak
  rw [rtakeWhile_concat]
  by_cases h : F.failureRewardThreshold ≤ reward
  · simp [failing, h]
  · simp [failing, h]

theorem Cools.recordOutcome {outcomes : List (S × Int)} {a : Arm S} (h : Cools F outcomes a)
    (reward : S) (now : Int) :
    Cools F (outcomes ++ [(reward, now)]) (a.recordOutcome F reward now) := by
  have hstreak := streak_concat F outcomes reward now
  unfold Arm.recordOutcome
  by_cases hpass : F.failureRewardThreshold ≤ reward
  · rw [if_pos hpass] at hstreak ⊢
    refine ⟨?_, ?_⟩
    · rw [hstreak]
      rfl
    · rw [cooldownEnd, hstreak]
      rfl
  · rw [if_neg hpass] at hstreak ⊢
    dsimp only
    rw [h.consecutiveFail]
    by_cases hfew : (streak F outcomes : Int) + 1 < cooldownFailureStreak
    · rw [if_pos hfew]
      rw [cooldownFailureStreak] at hfew
      refine ⟨?_, ?_⟩
      · rw [hstreak]
        rfl
      · -- there was no cooldown before, since the streak was shorter
        show a.cooldownUntil = _
        rw [h.cooldownUntil, cooldownEnd, cooldownEnd, hstreak, if_neg (by omega),
          if_neg (by omega)]
    · rw [if_neg hfew]
      rw [cooldownFailureStreak] at hfew
      refine ⟨?_, ?_⟩
      · rw [hstreak]
        rfl
      · rw [cooldownEnd, hstreak, if_pos (by omega), getLast?_concat, Option.map_some,
          ← backoffAfter_eq _ (by omega)]
        rfl

theorem Cools.update {outcomes : List (S × Int)} {a : Arm S} (h : Cools F outcomes a) (reward : S)
    (now : Int) : Cools F (outcomes ++ [(reward, now)]) (a.update F reward now) := by
  unfold Arm.update
  apply Cools.recordOutcome
  exact ⟨h.consecutiveFail, h.cooldownUntil⟩

theorem cools_getArm (calls : List (Call S)) (model : String) :
    Cools F (outcomes model calls) (getArm F (armsAfter F calls) model) := by
  induction calls using reverseRecOn with
  | nil => exact ⟨rfl, rfl⟩
  | append_singleton calls call ih =>
    rw [armsAfter, foldl_concat, ← armsAfter, outcomes_concat]
    cases call with
    | select candidates now =>
      rw [Call.outcome, Option.toList_none, append_nil]
      exact ih
    | update m reward now order =>
      rw [Call.outcome, stepArms, updateArms, getArm]
      rcases eq_or_ne m model with rfl | hne
      · rw [if_pos rfl, Function.update_self, Option.getD_some]
        exact ih.update F reward now
      · rw [if_neg hne, Function.update_of_ne hne.symm, Option.toList_none, append_nil]
        exact ih

/-- The end of the cooldown of an arm, if it has one. -/
def cooldownOf (arms : String → Option (Arm S)) (model : String) : Option Int :=
  (arms model).bind fun a => a.cooldownUntil

theorem cooldownOf_armsAfter (calls : List (Call S)) (model : String) :
    cooldownOf (armsAfter F calls) model = cooldownEnd F (outcomes model calls) := by
  rw [← (cools_getArm F calls model).cooldownUntil, cooldownOf, getArm]
  cases armsAfter F calls model <;> rfl

end

/-! ## The bandits -/

section

variable [LT S] [DecidableLT S] [LE S] [DecidableLE S] (F : RewardArith S)

/-- The loop of `Update` over the arms, in some order. -/
def bestReward (arms : String → Option (Arm S)) (order : List String) : S :=
  order.foldl (fun best model =>
    match arms model with
    | some arm => if best < arm.meanReward then arm.meanReward else best
    | none => best) F.negInf

/-- The regret after a reward. -/
def updateRegret (regret : RegretTracker S) (arms : String → Option (Arm S)) (reward : S)
    (order : List String) : RegretTracker S :=
  if F.isPosInf (bestReward F arms order) then regret
  else regret.record F (bestReward F arms order) reward

/-- `EpsilonGreedy`. -/
structure EpsilonGreedy (S : Type) where
  arms : String → Option (Arm S)
  regret : RegretTracker S

/-- `NewEpsilonGreedy`. -/
def EpsilonGreedy.new : EpsilonGreedy S := ⟨fun _ => none, ⟨F.zero, 0⟩⟩

/-- `EpsilonGreedy.Update`. -/
def EpsilonGreedy.update (b : EpsilonGreedy S) (model : String) (reward : S) (now : Int)
    (order : List String) : EpsilonGreedy S :=
  let arms := updateArms F b.arms model reward now
  { b with arms := arms, regret := updateRegret F b.regret arms reward order }

/-- `UCB`.  `exploration` is the term that is added to the mean reward, from all pulls and those of
the arm. -/
structure UCB (S : Type) where
  arms : String → Option (Arm S)
  exploration : Int → Int → S
  totalPulls : Int
  regret : RegretTracker S

/-- `NewUCB`. -/
def UCB.new (exploration : Int → Int → S) : UCB S := ⟨fun _ => none, exploration, 0, ⟨F.zero, 0⟩⟩

/-- `UCB.Update`. -/
def UCB.update (b : UCB S) (model : String) (reward : S) (now : Int) (order : List String) :
    UCB S :=
  let arms := updateArms F b.arms model reward now
  { b with
    arms := arms
    totalPulls := b.totalPulls + 1
    regret := updateRegret F b.regret arms reward order }

/-- The mean reward of an arm and its exploration term. -/
def UCB.bound (b : UCB S) (a : ArmStats S) : S :=
  F.add a.meanReward (b.exploration b.totalPulls a.pulls)

/-- What a call does. -/
def EpsilonGreedy.step (b : EpsilonGreedy S) : Call S → EpsilonGreedy S
  | .update model reward now order => b.update F model reward now order
  | .select _ _ => b

/-- What a call does. -/
def UCB.step (b : UCB S) : Call S → UCB S
  | .update model reward now order => b.update F model reward now order
  | .select _ _ => b

/-- The bandit after calls. -/
def EpsilonGreedy.run (calls : List (Call S)) : EpsilonGreedy S :=
  calls.foldl (step F) (.new F)

/-- The bandit after calls. -/
def UCB.run (exploration : Int → Int → S) (calls : List (Call S)) : UCB S :=
  calls.foldl (step F) (.new F exploration)

theorem EpsilonGreedy.arms_run (calls : List (Call S)) :
    (run F calls).arms = armsAfter F calls := by
  induction calls using reverseRecOn with
  | nil => rfl
  | append_singleton calls call ih =>
    rw [run, armsAfter, foldl_concat, foldl_concat, ← run, ← armsAfter, ← ih]
    cases call <;> rfl

theorem UCB.arms_run (exploration : Int → Int → S) (calls : List (Call S)) :
    (run F exploration calls).arms = armsAfter F calls := by
  induction calls using reverseRecOn with
  | nil => rfl
  | append_singleton calls call ih =>
    rw [run, armsAfter, foldl_concat, foldl_concat, ← run, ← armsAfter, ← ih]
    cases call <;> rfl

end

/-! ## What is selected -/

/-- The arm of a model is cooling down. -/
def Cooling (arms : Arms S) (now : Int) (model : String) : Prop :=
  ∃ a, arms model = some a ∧ a.inCooldown now = true

/-- The model is one of the candidates', and is cooling down only if all are. -/
def Fair (arms : Arms S) (now : Int) (candidates : List Candidate) (model : String) : Prop :=
  ∃ c ∈ candidates, c.model = model ∧
    (Cooling arms now model → ∀ d ∈ candidates, Cooling arms now d.model)

theorem eligible_eq (candidates : List Candidate) (arms : Arms S) (now : Int) :
    eligible candidates arms now = candidates ∧ (∀ d ∈ candidates, Cooling arms now d.model) ∨
      (∃ d ∈ candidates, ¬Cooling arms now d.model) ∧
        ∀ c, c ∈ eligible candidates arms now ↔ c ∈ candidates ∧ ¬Cooling arms now c.model := by
  obtain ⟨keep, hkeep, heq⟩ : ∃ keep : Candidate → Bool,
      (∀ c, keep c ↔ ¬Cooling arms now c.model) ∧ eligible candidates arms now =
        if candidates.filter keep = [] then candidates else candidates.filter keep := by
    refine ⟨_, fun c => ?_, rfl⟩
    unfold Cooling
    cases arms c.model <;> simp
  rw [heq]
  split
  · next hnone =>
    refine .inl ⟨rfl, fun d hd => ?_⟩
    rw [filter_eq_nil_iff] at hnone
    exact not_not.mp fun hcooling => hnone d hd ((hkeep d).mpr hcooling)
  · next hsome =>
    obtain ⟨d, hd⟩ := exists_mem_of_ne_nil _ hsome
    obtain ⟨hd, hwarm⟩ := mem_filter.mp hd
    refine .inr ⟨⟨d, hd, (hkeep d).mp hwarm⟩, fun c => ?_⟩
    exact mem_filter.trans (and_congr_right fun _ => hkeep c)

theorem fair_iff_eligible {candidates : List Candidate} {arms : Arms S} {now : Int}
    {model : String} :
    Fair arms now candidates model ↔ ∃ c ∈ eligible candidates arms now, c.model = model := by
  rcases eligible_eq candidates arms now with ⟨heq, hall⟩ | ⟨⟨d, hd, hnot⟩, hmem⟩
  · rw [heq]
    constructor
    · rintro ⟨c, hc, hmodel, -⟩
      exact ⟨c, hc, hmodel⟩
    · rintro ⟨c, hc, hmodel⟩
      exact ⟨c, hc, hmodel, fun _ => hall⟩
  · constructor
    · rintro ⟨c, hc, rfl, hcooling⟩
      exact ⟨c, (hmem c).mpr ⟨hc, fun h => hnot (hcooling h d hd)⟩, rfl⟩
    · rintro ⟨c, hc, rfl⟩
      obtain ⟨hc, hwarm⟩ := (hmem c).mp hc
      exact ⟨c, hc, rfl, fun h => absurd h hwarm⟩

theorem eligible_ne_nil {candidates : List Candidate} (h : candidates ≠ []) (arms : Arms S)
    (now : Int) : eligible candidates arms now ≠ [] := by
  unfold eligible
  dsimp only
  split
  · exact h
  · assumption

section

variable [LT S] [DecidableLT S]

variable {candidates : List Candidate} {bestScore : S}

/-- The loop keeps what it started with if no score is above the first. -/
theorem bestLoop_eq_best {score : Candidate → Option S}
    (h : ∀ c ∈ candidates, ∀ s ∈ score c, ¬bestScore < s) (best : String) :
    bestLoop score candidates best bestScore = best := by
  induction candidates with
  | nil => rfl
  | cons c candidates ih =>
    have hrest := ih fun d hd => h d (mem_cons_of_mem c hd)
    rw [bestLoop]
    split
    · next s hs =>
      rw [if_neg (h c mem_cons_self s hs)]
      exact hrest
    · exact hrest

/-- The loop ends with a candidate if some score is above the first. -/
theorem exists_of_better (score : Candidate → Option S) {c : Candidate} (hc : c ∈ candidates)
    {s : S} (hs : score c = some s) (hlt : bestScore < s) (best : String) :
    ∃ d ∈ candidates, d.model = bestLoop score candidates best bestScore := by
  induction candidates with
  | nil => cases hc
  | cons d candidates ih =>
    by_cases hd : ∃ t, score d = some t ∧ bestScore < t
    · obtain ⟨t, ht, hbetter⟩ := hd
      simp only [bestLoop, ht, if_pos hbetter]
      rcases bestLoop_picked score candidates d.model t with heq | ⟨x, hx, heq⟩
      · exact ⟨d, mem_cons_self, heq.symm⟩
      · exact ⟨x, mem_cons_of_mem d hx, heq⟩
    · have hskip : bestLoop score (d :: candidates) best bestScore =
          bestLoop score candidates best bestScore := by
        rw [bestLoop]
        split
        · next t ht => exact if_neg fun hbetter => hd ⟨t, ht, hbetter⟩
        · rfl
      rcases mem_cons.mp hc with rfl | hc
      · exact absurd ⟨s, hs, hlt⟩ hd
      · obtain ⟨x, hx, heq⟩ := ih hc
        exact ⟨x, mem_cons_of_mem d hx, heq.trans hskip.symm⟩

/-- The score of a candidate in `UCB.Select`. -/
def UCB.score (posInf : S) (bound : ArmStats S → S) (arms : Arms S) (c : Candidate) : S :=
  match arms c.model with
  | some a => if a.pulls = 0 then posInf else bound a
  | none => posInf

/-- `UCB.Select` picks one that may be picked exactly if there is a score above negative infinity,
or a model without a name. -/
theorem UCB.fair_iff (negInf posInf : S) (bound : ArmStats S → S) (arms : Arms S) (now : Int)
    (candidates : List Candidate) :
    Fair arms now candidates (select negInf posInf bound arms now candidates) ↔
      (∃ c ∈ eligible candidates arms now, negInf < score posInf bound arms c) ∨
        ∃ c ∈ eligible candidates arms now, c.model = "" := by
  have hselect : select negInf posInf bound arms now candidates =
      bestLoop (fun c => some (score posInf bound arms c)) (eligible candidates arms now) ""
        negInf := rfl
  rw [fair_iff_eligible, hselect]
  by_cases hbetter : ∃ c ∈ eligible candidates arms now, negInf < score posInf bound arms c
  · obtain ⟨c, hc, hlt⟩ := hbetter
    have hsome := exists_of_better (fun c => some (score posInf bound arms c)) hc rfl hlt ""
    exact iff_of_true hsome (.inl ⟨c, hc, hlt⟩)
  · rw [bestLoop_eq_best]
    · exact (or_iff_right hbetter).symm
    · intro c hc s hs hlt
      obtain rfl := Option.some.inj hs
      exact hbetter ⟨c, hc, hlt⟩

end

section

variable [LT S] [DecidableLT S] [LE S] [DecidableLE S] (F : RewardArith S)

/-- `EpsilonGreedy.Select` of a bandit. -/
def EpsilonGreedy.pick (b : EpsilonGreedy S) (now : Int) (explore : Bool) (draw : Nat)
    (candidates : List Candidate) : String :=
  select F.negInf (armStatsOf b.arms) now explore draw candidates

/-- `UCB.Select` of a bandit. -/
def UCB.pick (b : UCB S) (now : Int) (candidates : List Candidate) : String :=
  select F.negInf F.posInf (b.bound F) (armStatsOf b.arms) now candidates

/-- Cooldown follows the failures.  After any calls, the end of an arm's cooldown is what the
failures at the end of its outcomes call for, in both bandits.  `EpsilonGreedy` picks a candidate,
and one that is cooling down only if all are.  `UCB` does so exactly if one of the candidates that
may be picked has a score above negative infinity, or no name. -/
theorem cooldown_follows_streak (exploration : Int → Int → S) (calls : List (Call S)) :
    (∀ model,
      cooldownOf (run F calls).arms model =
          cooldownEnd F (outcomes model calls) ∧
        cooldownOf (run F exploration calls).arms model =
          cooldownEnd F (outcomes model calls)) ∧
      ∀ candidates now, candidates ≠ [] →
        (∀ explore draw,
          Fair (armStatsOf (run F calls).arms) now candidates
            ((run F calls).pick F now explore draw candidates)) ∧
        (Fair (armStatsOf (run F exploration calls).arms) now candidates
            ((run F exploration calls).pick F now candidates) ↔
          (∃ c ∈ eligible candidates (armStatsOf (run F exploration calls).arms) now,
            F.negInf < score F.posInf ((run F exploration calls).bound F)
              (armStatsOf (run F exploration calls).arms) c) ∨
            ∃ c ∈ eligible candidates (armStatsOf (run F exploration calls).arms) now,
              c.model = "") := by
  refine ⟨?_, ?_⟩
  · intro model
    rw [EpsilonGreedy.arms_run, UCB.arms_run]
    exact ⟨cooldownOf_armsAfter F calls model, cooldownOf_armsAfter F calls model⟩
  · intro candidates now hne
    refine ⟨?_, fair_iff ..⟩
    intro explore draw
    rw [fair_iff_eligible]
    exact exists_eligible F.negInf explore draw (eligible_ne_nil hne _ now)

end

/-! ## Infinite rewards -/

/-- Floats without rounding. -/
inductive ExactFloat where
  | nan
  | negInf
  | finite (x : ℚ)
  | posInf
deriving DecidableEq

namespace ExactFloat

/-- The sum. -/
def add : ExactFloat → ExactFloat → ExactFloat
  | .nan, _ => .nan
  | _, .nan => .nan
  | .finite x, .finite y => .finite (x + y)
  | .negInf, .posInf => .nan
  | .posInf, .negInf => .nan
  | .negInf, _ => .negInf
  | _, .negInf => .negInf
  | .posInf, _ => .posInf
  | _, .posInf => .posInf

/-- The negative. -/
def neg : ExactFloat → ExactFloat
  | .nan => .nan
  | .negInf => .posInf
  | .finite x => .finite (-x)
  | .posInf => .negInf

/-- The quotient by an integer. -/
def div : ExactFloat → Int → ExactFloat
  | .finite x, n => .finite (x / n)
  | x, _ => x

/-- `math.Max`. -/
def max : ExactFloat → ExactFloat → ExactFloat
  | .posInf, _ => .posInf
  | _, .posInf => .posInf
  | .nan, _ => .nan
  | _, .nan => .nan
  | .negInf, y => y
  | x, .negInf => x
  | .finite x, .finite y => .finite (if x < y then y else x)

/-- The order of floats. -/
def less : ExactFloat → ExactFloat → Bool
  | .finite x, .finite y => decide (x < y)
  | .negInf, .finite _ => true
  | .negInf, .posInf => true
  | .finite _, .posInf => true
  | _, _ => false

instance : LT ExactFloat := ⟨fun x y => less x y = true⟩

instance : DecidableLT ExactFloat := fun x y => inferInstanceAs (Decidable (less x y = true))

/-- NaN is not even equal to itself. -/
instance : LE ExactFloat := ⟨fun x y => less x y = true ∨ x = y ∧ x ≠ .nan⟩

instance : DecidableLE ExactFloat := fun x y =>
  inferInstanceAs (Decidable (less x y = true ∨ x = y ∧ x ≠ .nan))

/-- Rewards without rounding. -/
def arith : RewardArith ExactFloat where
  zero := .finite 0
  add := add
  sub x y := add x (neg y)
  max := max
  div := div
  negInf := .negInf
  posInf := .posInf
  isPosInf x := x = .posInf
  failureRewardThreshold := .finite (7 / 10)

end ExactFloat

open ExactFloat (arith)

def fourFailures : List (Call ExactFloat) :=
  [.update "m" (.finite 0) 0 ["m"], .update "m" (.finite 0) 1 ["m"],
    .update "m" (.finite 0) 2 ["m"], .update "m" (.finite 0) 3 ["m"]]

/-- After four failures the arm cools down for ten seconds, and the other one is picked. -/
theorem four_failures_cool :
    cooldownOf (run arith (fun _ _ => .finite 0) fourFailures).arms "m" =
        some (3 + 10 * 10 ^ 9) ∧
      Fair (armStatsOf (run arith fourFailures).arms) 4 [⟨"m", 0⟩, ⟨"n", 0⟩]
        ((run arith fourFailures).pick arith 4 false 0 [⟨"m", 0⟩, ⟨"n", 0⟩]) := by
  obtain ⟨hcool, hpick⟩ := cooldown_follows_streak arith (fun _ _ => .finite 0) fourFailures
  refine ⟨(hcool "m").2.trans (by decide +kernel), ?_⟩
  exact (hpick _ 4 (cons_ne_nil _ _)).1 false 0

def infiniteReward : UCB ExactFloat :=
  run arith (fun _ _ => .finite 0) [.update "m" .negInf 0 ["m"]]

/-- The only arm is not cooling down, and nothing is picked. -/
theorem infinite_reward_picks_none :
    eligible [⟨"m", 0⟩] (armStatsOf infiniteReward.arms) 1 = [⟨"m", 0⟩] ∧
      cooldownOf infiniteReward.arms "m" = none ∧
      infiniteReward.pick arith 1 [⟨"m", 0⟩] = "" ∧
      ¬Fair (armStatsOf infiniteReward.arms) 1 [⟨"m", 0⟩]
        (infiniteReward.pick arith 1 [⟨"m", 0⟩]) := by
  have hpick : infiniteReward.pick arith 1 [⟨"m", 0⟩] = "" := by decide +kernel
  refine ⟨by decide +kernel, by decide +kernel, hpick, ?_⟩
  rw [hpick]
  rintro ⟨c, hc, hmodel, -⟩
  rw [mem_singleton.mp hc] at hmodel
  exact absurd hmodel (by decide)

end Ixr.Scoring
