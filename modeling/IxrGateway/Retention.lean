import Mathlib

/-!
# Lists that forget by age and number

A list of entries, oldest first, that is pruned from time to time: entries that
are no longer *live* go, and of the rest only the last few stay.  An entry that
is not live never becomes live again, and an entry is live at least as long as
the ones before it.

Pruning can then be put off.  Pruning now and again later is pruning later
(`keep_keep`), and pruning before an append is lost in the pruning after it
(`keep_append`).
-/

namespace Retention

open List

variable {α β : Type}

/-- Keep the last `limit` entries, or all of them without a limit. -/
def cap (limit : Option Nat) (xs : List α) : List α :=
  match limit with
  | none => xs
  | some n => xs.rtake n

/-- The last live elements. -/
def keep (live : Int → α → Bool) (limit : Option Nat) (now : Int) (xs : List α) : List α :=
  cap limit (xs.filter (live now))

/-! ## The last few entries -/

theorem rtake_sublist (n : Nat) (xs : List α) : (xs.rtake n).Sublist xs := drop_sublist _ xs

theorem rtake_append_rtake (n : Nat) (xs ys : List α) :
    (xs.rtake n ++ ys).rtake n = (xs ++ ys).rtake n := by
  simp only [rtake_eq_reverse_take_reverse, reverse_append, reverse_reverse,
    take_append, take_take, length_reverse, Nat.min_eq_left (Nat.sub_le _ _)]

theorem cap_sublist (limit : Option Nat) (xs : List α) : (cap limit xs).Sublist xs := by
  cases limit with
  | none => exact Sublist.refl xs
  | some n => exact rtake_sublist n xs

theorem cap_append_cap (limit : Option Nat) (xs ys : List α) :
    cap limit (cap limit xs ++ ys) = cap limit (xs ++ ys) := by
  cases limit with
  | none => rfl
  | some n => exact rtake_append_rtake n xs ys

theorem map_cap (f : α → β) (limit : Option Nat) (xs : List α) :
    (cap limit xs).map f = cap limit (xs.map f) := by
  cases limit with
  | none => rfl
  | some n => simp only [cap, rtake, map_drop, length_map]

/-- The end of a list that is kept whole, if nothing before it is.  `p` holds of all of the end
as soon as it holds of one entry before. -/
theorem cap_filter_cap (p : α → Bool) (limit : Option Nat) {xs : List α}
    (h : xs.Pairwise fun a b => p a = true → p b = true) :
    cap limit ((cap limit xs).filter p) = cap limit (xs.filter p) := by
  cases limit with
  | none => rfl
  | some n =>
    show ((xs.rtake n).filter p).rtake n = (xs.filter p).rtake n
    have hsplit : xs = xs.take (xs.length - n) ++ xs.rtake n := (take_append_drop _ xs).symm
    have hlen : xs.take (xs.length - n) ≠ [] → (xs.rtake n).length = n := by
      intro hne
      have hpos : 0 < (xs.take (xs.length - n)).length := length_pos_of_ne_nil hne
      rw [length_take] at hpos
      rw [rtake, length_drop]
      omega
    generalize xs.rtake n = back at hsplit hlen
    generalize xs.take (xs.length - n) = front at hsplit hlen
    subst hsplit
    rw [filter_append]
    by_cases hfront : front.filter p = []
    · rw [hfront, nil_append]
    · -- some entry in front satisfies `p`, hence all entries at the back do
      obtain ⟨a, ha⟩ := exists_mem_of_ne_nil _ hfront
      obtain ⟨hafront, hpa⟩ := mem_filter.mp ha
      have hback : back.filter p = back := by
        rw [filter_eq_self]
        intro b hb
        exact (pairwise_append.mp h).2.2 a hafront b hb hpa
      have hn : back.length = n := hlen (ne_nil_of_mem hafront)
      rw [hback, ← hn]
      simp only [rtake, length_append, Nat.sub_self, drop_zero, Nat.add_sub_cancel, drop_left]

/-! ## Pruning -/

section

variable (live : Int → α → Bool) (limit : Option Nat)

theorem keep_sublist (now : Int) (xs : List α) :
    (keep live limit now xs).Sublist xs :=
  (cap_sublist limit _).trans filter_sublist

theorem keep_append (now : Int) (xs ys : List α) :
    keep live limit now (keep live limit now xs ++ ys) = keep live limit now (xs ++ ys) := by
  have hkept : (keep live limit now xs).filter (live now) = keep live limit now xs := by
    rw [filter_eq_self]
    intro a ha
    exact (mem_filter.mp ((cap_sublist limit _).mem ha)).2
  rw [keep, filter_append, hkept, keep, cap_append_cap, keep, filter_append]

theorem keep_filter (now : Int) (xs : List α) :
    keep live limit now (xs.filter (live now)) = keep live limit now xs := by
  rw [keep, filter_filter, keep]
  simp only [Bool.and_self]

theorem keep_keep (hmono : ∀ t u a, t ≤ u → live u a = true → live t a = true) {now later : Int}
    (hle : now ≤ later) {xs : List α}
    (h : xs.Pairwise fun a b => live later a = true → live later b = true) :
    keep live limit later (keep live limit now xs) = keep live limit later xs := by
  rw [keep, keep, cap_filter_cap _ _ (h.filter _), filter_filter, keep]
  congr 1
  refine filter_congr fun a _ => ?_
  cases hlater : live later a with
  | false => rfl
  | true => rw [hmono now later a hle hlater, Bool.and_self]

theorem map_keep (f : α → β) (live : Int → β → Bool) (now : Int) (xs : List α) :
    (keep (fun t a => live t (f a)) limit now xs).map f = keep live limit now (xs.map f) := by
  rw [keep, map_cap, keep, filter_map]
  rfl

end

end Retention
