import IxrGateway.FirstByKey
import IxrGateway.Memory.Restart

/-!
# What `Recent` returns

`Recent` prunes the entries of a user, sorts them by creation time, latest first, and
takes the first entry of each category until it has `n`.  Pruning drops expired
entries and those over the limit.  No list of a store is over the limit
(`Reachable.capped`), so that `Recent` sees all that have not expired.
-/

namespace Ixr.Memory

open FirstByKey LineJournal List

/-! ## Reachable stores -/

/-- The maps that a store can have: none of the calls has to be in time order, and the entries that
are replayed are any. -/
inductive Reachable (cfg : Config) : Entries → Prop where
  | new : Reachable cfg fun _ => []
  | replayed (es : List Entry) (now : Int) : Reachable cfg (loaded cfg es now)
  | save {s : Entries} (e : Entry) (stamp now : Int) :
      Reachable cfg s → Reachable cfg (s.save cfg (stamped cfg e stamp) now)
  | prune {s : Entries} (userKey : String) (now : Int) :
      Reachable cfg s → Reachable cfg (s.prune cfg userKey now)
  | delete {s s' : Entries} {userKey entryID : String} :
      Reachable cfg s → s.delete userKey entryID = some s' → Reachable cfg s'
  | compact {s : Entries} (times : String → Int) :
      Reachable cfg s → Reachable cfg (s.compact cfg times)

/-- No user has too many entries. -/
def Capped (cfg : Config) (s : Entries) : Prop :=
  ∀ key, 0 < cfg.maxPerUser → ((s key).length : Int) ≤ cfg.maxPerUser

variable {cfg : Config} {s : Entries}

theorem length_pruneLocked_le (h : 0 < cfg.maxPerUser) (now : Int) (es : List Entry) :
    ((pruneLocked cfg now es).length : Int) ≤ cfg.maxPerUser := by
  unfold pruneLocked
  dsimp only
  rw [if_pos h, rtake, length_drop]
  omega

theorem Capped.update (h : Capped cfg s) (userKey : String) (now : Int) (es : List Entry) :
    Capped cfg (Function.update s userKey (pruneLocked cfg now es)) := by
  intro key hpos
  rcases eq_or_ne key userKey with rfl | hne
  · rw [Function.update_self]
    exact length_pruneLocked_le hpos now es
  · rw [Function.update_of_ne hne]
    exact h key hpos

theorem Reachable.capped (h : Reachable cfg s) : Capped cfg s := by
  induction h with
  | new => exact fun _ hpos => hpos.le
  | replayed es now => exact fun _ hpos => length_pruneLocked_le hpos now _
  | save e stamp now _ ih => exact ih.update _ now _
  | prune userKey now _ ih => exact ih.update userKey now _
  | delete _ hdelete ih =>
    intro key hpos
    exact (Int.ofNat_le.mpr (delete_sublist hdelete key).length_le).trans (ih key hpos)
  | compact times _ _ => exact fun key hpos => length_pruneLocked_le hpos (times key) _

section

variable {β : Type} {c : Codec β Entry} {cfg : Config}

theorem Reachable.step {st : Store β} (h : Reachable cfg st.entries) (op : Op) :
    Reachable cfg (st.step c cfg op).entries := by
  cases op with
  | save e stamp now => exact h.save e stamp now
  | recent userKey _ now | all userKey now => exact h.prune userKey now
  | delete userKey entryID order =>
    rw [Store.step]
    cases hdelete : st.entries.delete userKey entryID with
    | none => exact h
    | some entries => exact h.delete hdelete
  | compactNow times order now => exact h.compact times

theorem Reached.reachable [DecidableEq β] {st : Store β} (h : Reached c cfg st) :
    Reachable cfg st.entries := by
  induction h with
  | opened hopen _ => cases hopen <;> exact .replayed _ _
  | step _ _ ih => exact ih.step _

end

/-! ## Pruning -/

theorem Capped.pruneLocked_eq (h : Capped cfg s) (key : String) (now : Int) :
    pruneLocked cfg now (s key) = (s key).filter (live cfg now) := by
  rw [Memory.pruneLocked_eq, Retention.keep, Config.limit]
  split
  · next hpos =>
    have hle := h key hpos
    have hfilter := length_filter_le (live cfg now) (s key)
    rw [Retention.cap, rtake, Nat.sub_eq_zero_of_le (by omega), drop_zero]
  · rfl

theorem Capped.filter_prune (h : Capped cfg s) (userKey key : String) {now later : Int}
    (hle : now ≤ later) :
    (s.prune cfg userKey now key).filter (live cfg later) = (s key).filter (live cfg later) := by
  unfold Entries.prune
  rcases eq_or_ne key userKey with rfl | hne
  · rw [Function.update_self, h.pruneLocked_eq, filter_filter]
    refine filter_congr fun e _ => ?_
    cases hlive : live cfg later e with
    | false => rfl
    | true => rw [live_of_le hle hlive, Bool.and_self]
  · rw [Function.update_of_ne hne]

/-! ## The first entry of each category -/

theorem firstPerCategory_eq (n : Int) (seen : List String) (result es : List Entry)
    (h : (result.length : Int) < n) :
    firstPerCategory n seen result es =
      result ++ (firsts Entry.category seen es).take (n.toNat - result.length) := by
  induction es generalizing seen result with
  | nil => rw [firstPerCategory, firsts, take_nil, append_nil]
  | cons e es ih =>
    rw [firstPerCategory]
    by_cases hseen : e.category ∈ seen
    · rw [if_pos hseen, ih seen result h, firsts_cons_of_mem hseen]
    · rw [if_neg hseen, firsts_cons_of_not_mem hseen]
      have hlen : (result ++ [e]).length = result.length + 1 := by simp
      split
      · next hfull =>
        rw [show n.toNat - result.length = 1 by omega, take_succ_cons, take_zero]
      · next hroom =>
        rw [ih _ _ (by omega), hlen,
          show n.toNat - result.length = n.toNat - (result.length + 1) + 1 by omega,
          take_succ_cons, append_assoc, singleton_append]

/-- The order of `Recent`, latest first. -/
def NotOlder (a b : Entry) : Prop := b.createdAt ≤ a.createdAt

instance : Std.Refl NotOlder := ⟨fun a => le_refl a.createdAt⟩

instance : Std.Total NotOlder := ⟨fun a b => le_total b.createdAt a.createdAt⟩

instance : IsTrans Entry NotOlder := ⟨fun _ _ _ hab hbc => hbc.trans hab⟩

instance : DecidableRel NotOlder := fun a b =>
  inferInstanceAs (Decidable (b.createdAt ≤ a.createdAt))

theorem exists_isRecent (all : List Entry) (n : Int) : ∃ result, IsRecent all n result :=
  ⟨_, all.insertionSort NotOlder, perm_insertionSort NotOlder all,
    pairwise_insertionSort NotOlder all, rfl⟩

/-- The newest entries of up to `n` categories. -/
structure Newest (held : List Entry) (n : Int) (result : List Entry) : Prop where
  /-- There is one entry for a category. -/
  nodup : (result.map Entry.category).Nodup
  /-- It is the newest one that the category has. -/
  newest : ∀ e ∈ result, e ∈ held ∧ ∀ x ∈ held, x.category = e.category → NotOlder e x
  sorted : result.Pairwise NotOlder
  /-- Categories are left out only if there are more than `n`. -/
  length : (result.length : Int) = min n (held.map Entry.category).toFinset.card
  /-- A category that is left out has nothing newer. -/
  left_out : ∀ x ∈ held, x.category ∉ result.map Entry.category → ∀ e ∈ result, NotOlder e x

theorem IsRecent.newest {all result : List Entry} {n : Int} (hn : 1 ≤ n)
    (h : IsRecent all n result) : Newest all n result := by
  obtain ⟨sorted, hperm, hsorted, rfl⟩ := h
  have hsorted : sorted.Pairwise NotOlder := hsorted
  have hpos : (([] : List Entry).length : Int) < n := by
    rw [length_nil]
    omega
  rw [firstPerCategory_eq n [] [] sorted hpos, nil_append, length_nil, Nat.sub_zero]
  have htake := take_sublist n.toNat (firsts Entry.category [] sorted)
  have hsub := htake.trans (firsts_sublist Entry.category [] sorted)
  constructor
  case nodup => exact (nodup_keys_firsts [] sorted).sublist (htake.map Entry.category)
  case newest =>
    intro e he
    refine ⟨hperm.mem_iff.mp (hsub.mem he), fun x hx hcategory => ?_⟩
    exact rel_of_mem_firsts hsorted (htake.mem he) (hperm.mem_iff.mpr hx) hcategory
  case sorted => exact hsorted.sublist hsub
  case length =>
    rw [length_take, length_firsts, toFinset_eq_of_perm _ _ (hperm.map Entry.category),
      Nat.cast_min, Int.toNat_of_nonneg (by omega)]
  case left_out =>
    intro x hx hcategory e he
    exact rel_of_not_mem_take hsorted he (hperm.mem_iff.mpr hx) hcategory

/-- In every reachable store, `Recent` returns the newest entry of each of the `n` newest
categories, of those that the user has and that have not expired.  What has not expired then or
later is the same before and after the call, for every user. -/
theorem recent_newest {cfg : Config} {s : Entries} (h : Reachable cfg s) (userKey : String)
    (now : Int) {n : Int} (hn : 1 ≤ n) :
    (∃ result, IsRecent (pruneLocked cfg now (s userKey)) n result) ∧
      (∀ result, IsRecent (pruneLocked cfg now (s userKey)) n result →
        Newest ((s userKey).filter (live cfg now)) n result) ∧
      ∀ key later, now ≤ later →
        (s.prune cfg userKey now key).filter (live cfg later) =
          (s key).filter (live cfg later) := by
  refine ⟨exists_isRecent _ n, ?_, ?_⟩
  · intro result hresult
    rw [h.capped.pruneLocked_eq] at hresult
    exact hresult.newest hn
  · intro key later hle
    exact h.capped.filter_prune userKey key hle

/-- The newest of two facts. -/
theorem city_fact_recent :
    Newest ((twoFacts.entries "acme:u1").filter (live anHour 3)) 1
      [{ cityFact with createdAt := 2 }] := by
  refine (recent_newest reached_twoFacts.reachable "acme:u1" 3 (by decide)).2.1 _ ?_
  exact ⟨[{ cityFact with createdAt := 2 }, { nameFact with createdAt := 1 }], by decide,
    by decide, by decide⟩

end Ixr.Memory
