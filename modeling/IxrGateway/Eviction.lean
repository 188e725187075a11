import IxrGateway.Retention

/-!
# Lists that make room by evicting

A list of entries, oldest first, with a limit on its length.  Before an entry is
added to a full list, one is evicted: the first that is *stale*, or the oldest
if none is.

An entry that is not stale is evicted only if it is the oldest.  So the list
holds all that is not stale of some end of the history (`Tracks`), and it cannot
be longer than the limit.  Whoever keeps the last entries of the whole history
that are not stale therefore keeps those of the list (`Tracks.sublist_cap`).
-/

namespace Eviction

open Retention List

variable {α : Type}

/-- Removes a stale element or the oldest. -/
def evict (stale : α → Bool) (xs : List α) : List α :=
  if xs.any stale then xs.eraseP stale else xs.tail

/-- The list has reached the limit. -/
def full (limit : Option Nat) (xs : List α) : Bool := limit.any (· ≤ xs.length)

/-- Adds an element, with eviction. -/
def push (limit : Option Nat) (stale : α → Bool) (xs : List α) (x : α) : List α :=
  (if full limit xs then evict stale xs else xs) ++ [x]

/-- The list keeps to the limit. -/
structure Fits (limit : Option Nat) (xs : List α) : Prop where
  pos : ∀ n, limit = some n → 0 < n
  length_le : ∀ n, limit = some n → xs.length ≤ n

theorem length_evict (stale : α → Bool) (xs : List α) :
    (evict stale xs).length = xs.length - 1 := by
  unfold evict
  split
  · next hany =>
    obtain ⟨a, ha, hstale⟩ := any_eq_true.mp hany
    exact length_eraseP_of_mem ha hstale
  · exact length_tail

variable {limit : Option Nat}

theorem Fits.push {xs : List α} (h : Fits limit xs) (stale : α → Bool) (x : α) :
    Fits limit (push limit stale xs x) := by
  refine ⟨h.pos, fun n hn => ?_⟩
  have hpos := h.pos n hn
  have hle := h.length_le n hn
  rw [Eviction.push, length_append, length_singleton]
  split
  · rw [length_evict]
    omega
  · next hroom =>
    simp only [full, hn, Option.any_some, decide_eq_true_eq, not_le] at hroom
    omega

theorem evict_sublist (stale : α → Bool) (xs : List α) : (evict stale xs).Sublist xs := by
  unfold evict
  split
  · exact eraseP_sublist
  · exact tail_sublist xs

theorem push_sublist {history xs : List α} (h : xs.Sublist history) (limit : Option Nat)
    (stale : α → Bool) (x : α) : (push limit stale xs x).Sublist (history ++ [x]) := by
  unfold push
  refine Sublist.append ?_ (Sublist.refl _)
  split
  · exact (evict_sublist stale xs).trans h
  · exact h

theorem exists_evict {xs : List α} (hne : xs ≠ []) (stale : α → Bool) :
    ∃ before x after, xs = before ++ x :: after ∧ evict stale xs = before ++ after ∧
      (stale x = true ∧ (∀ y ∈ before, stale y = false) ∨
        before = [] ∧ ∀ y ∈ xs, stale y = false) := by
  unfold evict
  split
  · next hany =>
    obtain ⟨a, ha, hstale⟩ := any_eq_true.mp hany
    obtain ⟨x, before, after, hbefore, hx, hsplit, herase⟩ := exists_of_eraseP ha hstale
    refine ⟨before, x, after, hsplit, herase, .inl ⟨hx, ?_⟩⟩
    intro y hy
    exact Bool.eq_false_iff.mpr (hbefore y hy)
  · next hnone =>
    obtain ⟨x, after, rfl⟩ := exists_cons_of_ne_nil hne
    refine ⟨[], x, after, rfl, rfl, .inr ⟨rfl, ?_⟩⟩
    intro y hy
    exact Bool.eq_false_iff.mpr fun hstale => hnone (any_eq_true.mpr ⟨y, hy, hstale⟩)

/-! ## What an evicting list holds -/

/-- The list holds a part of some end of the history, with all that is not stale. -/
def Tracks (stale : α → Bool) (history xs : List α) : Prop :=
  ∃ recent, recent <:+ history ∧ xs.Sublist recent ∧ (recent.filter fun a => !stale a).Sublist xs

theorem tracks_nil (stale : α → Bool) : Tracks stale ([] : List α) [] :=
  ⟨[], suffix_refl _, Sublist.refl _, Sublist.refl _⟩

variable {stale stale' : α → Bool} {history xs : List α}

theorem Tracks.mono (h : Tracks stale history xs) (hstale : ∀ a, stale a = true → stale' a = true) :
    Tracks stale' history xs := by
  obtain ⟨recent, hsuffix, hpart, hall⟩ := h
  refine ⟨recent, hsuffix, hpart, Sublist.trans ?_ hall⟩
  refine monotone_filter_right recent fun a ha => ?_
  rw [Bool.not_eq_true'] at ha ⊢
  exact Bool.eq_false_iff.mpr fun hs => Bool.eq_false_iff.mp ha (hstale a hs)

theorem Tracks.append (h : Tracks stale history xs) (x : α) :
    Tracks stale (history ++ [x]) (xs ++ [x]) := by
  obtain ⟨recent, hsuffix, hpart, hall⟩ := h
  refine ⟨recent ++ [x], suffix_append_self_iff.mpr hsuffix,
    hpart.append (Sublist.refl _), ?_⟩
  rw [filter_append]
  exact hall.append filter_sublist

theorem filter_sublist_eraseP : ∀ xs : List α,
    (xs.filter fun a => !stale a).Sublist (xs.eraseP stale)
  | [] => Sublist.refl _
  | a :: xs => by
    cases ha : stale a with
    | true =>
      rw [eraseP_cons_of_pos ha, filter_cons_of_neg (by simp [ha])]
      exact filter_sublist
    | false =>
      rw [eraseP_cons_of_neg (by simp [ha]), filter_cons_of_pos (by simp [ha])]
      exact (filter_sublist_eraseP xs).cons_cons a

/-- Some end of a list has all that a filter keeps but the first. -/
theorem exists_suffix_filter_tail (p : α → Bool) : ∀ xs : List α,
    ∃ ys, ys <:+ xs ∧ ys.filter p = (xs.filter p).tail
  | [] => ⟨[], suffix_refl _, rfl⟩
  | a :: xs => by
    cases ha : p a with
    | true =>
      rw [filter_cons_of_pos ha]
      exact ⟨xs, suffix_cons a xs, rfl⟩
    | false =>
      obtain ⟨ys, hsuffix, hfilter⟩ := exists_suffix_filter_tail p xs
      rw [filter_cons_of_neg (by simp [ha])]
      exact ⟨ys, hsuffix.trans (suffix_cons a xs), hfilter⟩

theorem Tracks.evict (h : Tracks stale history xs) : Tracks stale history (evict stale xs) := by
  obtain ⟨recent, hsuffix, hpart, hall⟩ := h
  unfold Eviction.evict
  split
  · refine ⟨recent, hsuffix, eraseP_sublist.trans hpart, ?_⟩
    have hfilter := hall.filter fun a => !stale a
    rw [filter_filter] at hfilter
    simp only [Bool.and_self] at hfilter
    exact hfilter.trans (filter_sublist_eraseP xs)
  · next hfresh =>
    -- All entries of the list are fresh, so they are the fresh ones of the end.
    have hself : xs.filter (fun a => !stale a) = xs := by
      rw [filter_eq_self]
      intro a ha
      rw [Bool.not_eq_true']
      exact Bool.eq_false_iff.mpr fun hs => hfresh (any_eq_true.mpr ⟨a, ha, hs⟩)
    have heq : (recent.filter fun a => !stale a) = xs :=
      hall.antisymm (hself ▸ hpart.filter fun a => !stale a)
    obtain ⟨later, hlater, htail⟩ := exists_suffix_filter_tail (fun a => !stale a) recent
    rw [heq] at htail
    exact ⟨later, hlater.trans hsuffix, htail ▸ filter_sublist, htail ▸ Sublist.refl _⟩

theorem Tracks.push (h : Tracks stale history xs) (limit : Option Nat) (x : α) :
    Tracks stale (history ++ [x]) (push limit stale xs x) := by
  unfold Eviction.push
  split
  · exact h.evict.append x
  · exact h.append x

theorem Tracks.sublist_cap (h : Tracks stale history xs) (hfits : Fits limit xs) :
    (xs.filter fun a => !stale a).Sublist (cap limit (history.filter fun a => !stale a)) := by
  obtain ⟨recent, ⟨old, rfl⟩, hpart, hall⟩ := h
  rw [filter_append]
  refine (hpart.filter fun a => !stale a).trans ?_
  cases limit with
  | none => exact sublist_append_right _ _
  | some n =>
    have hlen := hall.length_le.trans (hfits.length_le n rfl)
    rw [cap, rtake, length_append, drop_append_of_le_length (by omega)]
    exact sublist_append_right _ _

/-! ## Lists without stale entries -/

theorem Fits.cap_eq (h : Fits limit xs) : cap limit xs = xs := by
  cases limit with
  | none => rfl
  | some n =>
    have hle := h.length_le n rfl
    rw [cap, rtake, Nat.sub_eq_zero_of_le hle, drop_zero]

theorem push_fresh (h : Fits limit xs) (hstale : ∀ a ∈ xs, stale a = false) (x : α) :
    push limit stale xs x = cap limit (xs ++ [x]) := by
  have hany : xs.any stale = false := any_eq_false.mpr fun a ha => by simp [hstale a ha]
  cases limit with
  | none => rfl
  | some n =>
    have hle := h.length_le n rfl
    rw [push, evict, hany]
    by_cases hfull : n ≤ xs.length
    · have hlen : (xs ++ [x]).length - n = 1 := by
        rw [length_append, length_singleton]
        omega
      have hpos := h.pos n rfl
      rw [cap, rtake, hlen, drop_one, tail_append_of_ne_nil, full, Option.any_some,
        decide_eq_true hfull]
      · rfl
      · exact ne_nil_of_length_pos (by omega)
    · have hlen : (xs ++ [x]).length - n = 0 := by
        rw [length_append, length_singleton]
        omega
      rw [cap, rtake, hlen, drop_zero, full, Option.any_some, decide_eq_false hfull]
      rfl

theorem foldl_push_fresh : ∀ (ys : List α) {xs : List α}, Fits limit xs →
    (∀ a ∈ xs ++ ys, stale a = false) →
    ys.foldl (push limit stale) xs = cap limit (xs ++ ys)
  | [], xs, h, _ => by rw [append_nil, h.cap_eq, foldl_nil]
  | y :: ys, xs, h, hstale => by
    have hpush := push_fresh h (fun a ha => hstale a (mem_append_left _ ha)) y
    have hlater : ∀ a ∈ push limit stale xs y ++ ys, stale a = false := by
      rw [hpush]
      intro a ha
      refine hstale a ?_
      have hmem := ((cap_sublist limit (xs ++ [y])).append (Sublist.refl ys)).subset ha
      simpa using hmem
    rw [foldl_cons, foldl_push_fresh ys (h.push stale y) hlater, hpush, cap_append_cap,
      append_assoc, singleton_append]

end Eviction
