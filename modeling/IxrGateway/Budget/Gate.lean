import IxrGateway.Budget.Conservation

/-!
# The budget gate

`Intercept` looks at every limited scope of the caller and then reserves at
every one of them, in one critical section.  So a call is refused as a whole or
admitted as a whole (`gate_atomic`), and a burst of admitted calls fits into
what was left at each scope it touches, at the average cost of a call there.
-/

namespace Ixr.Budget

open List

/-- The scope has a limit, and is at it or would pass it with one more call. -/
def Plugin.Full (limits : Limits) (p : Plugin) (scope : String) : Prop :=
  ∃ lim, limits scope = some lim ∧
    (lim.limitUSD ≤ p.spent scope ∨
      lim.limitUSD < p.spent scope + p.reserved scope + p.avgCost scope)

variable {p : Plugin} {lim : Limit} {scope : String} {limits : Limits}

theorem firstExceeded_isSome_iff (limits : Limits) (p : Plugin) : ∀ scopes : List String,
    (p.firstExceeded limits scopes).isSome = true ↔ ∃ scope ∈ scopes, p.Full limits scope
  | [] => by simp [Plugin.firstExceeded]
  | scope :: scopes => by
    have ih := firstExceeded_isSome_iff limits p scopes
    rw [Plugin.firstExceeded, exists_mem_cons_iff]
    split
    · next hnone =>
      have hopen : ¬ p.Full limits scope := by
        rintro ⟨lim, hlim, -⟩
        rw [hnone] at hlim
        cases hlim
      rw [ih, or_iff_right hopen]
    · next lim hlim =>
      have hfull : p.Full limits scope ↔ p.exceeds lim scope = true := by
        simp only [Plugin.exceeds, Bool.or_eq_true, decide_eq_true_eq]
        constructor
        · rintro ⟨lim', hlim', hover⟩
          rw [hlim] at hlim'
          cases hlim'
          exact hover
        · exact fun hover => ⟨lim, hlim, hover⟩
      split
      · next hover => exact iff_of_true rfl (.inl (hfull.mpr hover))
      · next hover => rw [ih, or_iff_right (mt hfull.mp hover)]

theorem intercept_isSome_iff (limits : Limits) (p : Plugin) (id : Identity) :
    (p.intercept limits id).1.isSome = true ↔ ∃ scope ∈ scopeKeys id, p.Full limits scope := by
  rw [← firstExceeded_isSome_iff, Plugin.intercept]
  split
  · next herr => rw [herr]
  · next hnone => rw [hnone]

theorem foldl_reserve_eq (limits : Limits) : ∀ (scopes : List String) (p : Plugin),
    scopes.foldl (Plugin.reserve limits) p =
      { p with reserved := (scopes.foldl (Plugin.reserve limits) p).reserved }
  | [], _ => rfl
  | scope :: scopes, p => by
    have hone : p.reserve limits scope =
        { p with reserved := (p.reserve limits scope).reserved } := by
      unfold Plugin.reserve
      split <;> rfl
    rw [foldl_cons, foldl_reserve_eq limits scopes, hone]

/-- What an admitted call does to the maps. -/
structure Plugin.Admits (limits : Limits) (p : Plugin) (id : Identity) (p' : Plugin) : Prop where
  /-- Exactly the limited scopes of the caller have its estimate reserved. -/
  reserved : ∀ scope, p'.reserved scope = p.reserved scope +
    if scope ∈ scopeKeys id ∧ (limits scope).isSome then p.avgCost scope else 0
  /-- The other maps are as they were. -/
  frame : p' = { p with reserved := p'.reserved }
  /-- What is spent and reserved is within the limits. -/
  within : ∀ scope ∈ scopeKeys id, ∀ lim, limits scope = some lim →
    p'.spent scope + p'.reserved scope ≤ lim.limitUSD

theorem intercept_admits {p' : Plugin} {id : Identity} (h : p.intercept limits id = (none, p')) :
    p.Admits limits id p' := by
  have hreserved (scope : String) : p'.reserved scope = p.reserved scope +
      if scope ∈ scopeKeys id ∧ (limits scope).isSome then p.avgCost scope else 0 := by
    have haccount := congrArg Account.reserved (account_intercept h scope)
    split at haccount
    · next hmine => rw [if_pos hmine]; exact haccount
    · next hother => rw [if_neg hother, add_zero]; exact haccount
  have hframe : p' = { p with reserved := p'.reserved } := by
    unfold Plugin.intercept at h
    split at h
    · cases h
    · cases h
      exact foldl_reserve_eq limits (scopeKeys id) p
  refine ⟨hreserved, hframe, fun scope hscope lim hlim => ?_⟩
  have hroom : ¬ p.Full limits scope := by
    intro hfull
    have hblocked := (intercept_isSome_iff limits p id).mpr ⟨scope, hscope, hfull⟩
    rw [h] at hblocked
    cases hblocked
  have hspent : p'.spent = p.spent := by rw [hframe]
  rw [hspent, hreserved, if_pos ⟨hscope, by rw [hlim]; rfl⟩, ← add_assoc]
  exact not_lt.mp fun hover => hroom ⟨lim, hlim, .inr hover⟩

/-! ## Bursts -/

/-- How many of some calls of `Intercept`, one after the other, are admitted and touch the scope. -/
def admissions (limits : Limits) (scope : String) : Plugin → List Identity → Nat
  | _, [] => 0
  | p, id :: ids =>
    let (err, p') := p.intercept limits id
    (if err.isNone ∧ scope ∈ scopeKeys id then 1 else 0) + admissions limits scope p' ids

theorem admissions_bounded (hlim : limits scope = some lim) : ∀ (ids : List Identity) (p : Plugin),
    1 ≤ admissions limits scope p ids →
    admissions limits scope p ids * p.avgCost scope ≤
      lim.limitUSD - p.spent scope - p.reserved scope
  | [], _, h => absurd h (by simp [admissions])
  | id :: ids, p, h => by
    rw [admissions] at h ⊢
    cases hgate : p.intercept limits id with
    | mk err p' =>
      rw [hgate] at h
      dsimp only at h ⊢
      cases err with
      | some err =>
        rw [intercept_blocked hgate] at h ⊢
        simp only [Option.isNone_some, Bool.false_eq_true, false_and, if_false, Nat.zero_add] at h ⊢
        exact admissions_bounded hlim ids p h
      | none =>
        obtain ⟨hreserved, hframe, hwithin⟩ := intercept_admits hgate
        have ih := admissions_bounded hlim ids p'
        have hsame : p'.spent scope = p.spent scope ∧ p'.avgCost scope = p.avgCost scope := by
          rw [hframe]
          exact ⟨rfl, rfl⟩
        specialize hreserved scope
        simp only [hlim, Option.isSome_some, and_true] at hreserved
        by_cases hscope : scope ∈ scopeKeys id
        · -- One more call, for which the gate has found room.
          have hroom := hwithin scope hscope lim hlim
          rw [if_pos hscope] at hreserved
          rw [hsame.1, hreserved] at hroom
          rw [hsame.1, hsame.2, hreserved] at ih
          simp only [hscope, Option.isNone_none, and_self, if_true] at h ⊢
          push_cast
          rcases Nat.eq_zero_or_pos (admissions limits scope p' ids) with hzero | hpos
          · rw [hzero]
            push_cast
            linarith
          · linarith [ih hpos]
        · rw [if_neg hscope, add_zero] at hreserved
          rw [hsame.1, hsame.2, hreserved] at ih
          simp only [hscope, and_false, if_false, Nat.zero_add] at h ⊢
          exact ih h

/-- The gate refuses a call just if one of its limited scopes is full.  A refused call changes
nothing.  An admitted call is counted at all of its limited scopes and nowhere else, and they stay
within their limits.  So do the admitted calls of a burst together. -/
theorem gate_atomic (limits : Limits) (p : Plugin) (id : Identity) :
    ((p.intercept limits id).1.isSome = true ↔ ∃ scope ∈ scopeKeys id, ∃ lim,
      limits scope = some lim ∧ (lim.limitUSD ≤ p.spent scope ∨
        lim.limitUSD < p.spent scope + p.reserved scope + p.avgCost scope)) ∧
    ((p.intercept limits id).1.isSome = true → (p.intercept limits id).2 = p) ∧
    ((p.intercept limits id).1 = none → p.Admits limits id (p.intercept limits id).2) ∧
    ∀ (ids : List Identity) (scope : String) (lim : Limit), limits scope = some lim →
      1 ≤ admissions limits scope p ids →
      admissions limits scope p ids * p.avgCost scope ≤
        lim.limitUSD - p.spent scope - p.reserved scope := by
  refine ⟨intercept_isSome_iff limits p id, fun hsome => ?_, fun hnone => ?_,
    fun ids scope lim hlim => admissions_bounded hlim ids p⟩
  · obtain ⟨err, herr⟩ := Option.isSome_iff_exists.mp hsome
    have hgate : p.intercept limits id = (some err, (p.intercept limits id).2) :=
      Prod.ext herr rfl
    exact intercept_blocked hgate
  · exact intercept_admits (Prod.ext hnone rfl)

def acmeWarm : Plugin where
  spent := fun scope => if scope = "acme" then 97 else 0
  avgCost := fun scope => if scope = "acme" then 1 else 0
  calls := fun scope => if scope = "acme" then 97 else 0

/-- Of twenty calls at once three are admitted, and three fit. -/
theorem burst_of_twenty_fits :
    admissions Desk.acmeLimits "acme" acmeWarm (replicate 20 Desk.acme) = 3 ∧
      ((3 : Nat) : ℚ) * acmeWarm.avgCost "acme" ≤
        100 - acmeWarm.spent "acme" - acmeWarm.reserved "acme" := by
  have hcount :
      admissions Desk.acmeLimits "acme" acmeWarm (replicate 20 Desk.acme) = 3 := by
    decide +kernel
  have hbound := (gate_atomic Desk.acmeLimits acmeWarm Desk.acme).2.2.2
    (replicate 20 Desk.acme) "acme" { limitUSD := 100 } (by decide) (by rw [hcount]; decide)
  rw [hcount] at hbound
  exact ⟨hcount, hbound⟩

end Ixr.Budget
