import IxrGateway.Routing.Executor

/-!
# The order of escalated candidates

The source sorts the slice of the eligible candidates in place, with two loops
that swap neighbours.  `escalateInPlace` has these loops, and it returns what
`escalateCandidates` returns (`escalateInPlace_eq`).

A candidate sinks past larger windows only, so one insertion keeps the slice
sorted (`sink_sorted`) and never moves a candidate past another one of its own
window (`sink_filter`).
-/

namespace Ixr.Routing

open List

/-! ## The loops of the source -/

/-- The inner loop from the index `j`: the candidate there is swapped with its left neighbour
while it has the smaller window. -/
def sinkAt : Nat → List Candidate → List Candidate
  | 0, eligible => eligible
  | j + 1, eligible =>
    match eligible[j]?, eligible[j + 1]? with
    | some left, some right =>
      if contextWindowFor right.model < contextWindowFor left.model then
        sinkAt j ((eligible.set (j + 1) left).set j right)
      else eligible
    -- not met: the outer loop stays below the length
    | _, _ => eligible

/-- `escalateCandidates`, with the swaps of its two loops. -/
def escalateInPlace (remaining : List Candidate) (minWindow : Int) : List Candidate :=
  let eligible := remaining.filter fun c => minWindow < contextWindowFor c.model
  (range' 1 (eligible.length - 1)).foldl (fun slice i => sinkAt i slice) eligible

variable (x : Candidate)

theorem sinkAt_append : ∀ sorted after : List Candidate,
    sinkAt sorted.length (sorted.reverse ++ x :: after) = (sink x sorted).reverse ++ after
  | [], after => rfl
  | y :: ys, after => by
    have hslice : (y :: ys).reverse ++ x :: after = ys.reverse ++ y :: x :: after := by simp
    have hleft : (ys.reverse ++ y :: x :: after)[ys.length]? = some y := by simp
    have hright : (ys.reverse ++ y :: x :: after)[ys.length + 1]? = some x := by simp
    rw [hslice, length_cons, sinkAt, hleft, hright, sink]
    dsimp only
    split
    · have hswap : ((ys.reverse ++ y :: x :: after).set (ys.length + 1) y).set ys.length x =
          ys.reverse ++ x :: y :: after := by simp
      rw [hswap, sinkAt_append ys (y :: after), reverse_cons, append_assoc]
      rfl
    · simp

/-- The outer loop inserts what is not sorted yet, one candidate after the other. -/
theorem foldl_sinkAt : ∀ rest sorted : List Candidate,
    (range' sorted.length rest.length).foldl (fun slice i => sinkAt i slice)
        (sorted.reverse ++ rest) =
      (rest.foldl (fun sorted c => sink c sorted) sorted).reverse
  | [], sorted => append_nil _
  | c :: rest, sorted => by
    have hlength : (sink c sorted).length = sorted.length + 1 := (sink_perm c sorted).length_eq
    rw [length_cons, range'_succ, foldl_cons, sinkAt_append, ← hlength,
      foldl_sinkAt rest, foldl_cons]

theorem escalateInPlace_eq (remaining : List Candidate) (minWindow : Int) :
    escalateInPlace remaining minWindow = escalateCandidates remaining minWindow := by
  unfold escalateInPlace escalateCandidates
  dsimp only
  cases remaining.filter fun c => minWindow < contextWindowFor c.model with
  | nil => rfl
  | cons c rest => exact foldl_sinkAt rest [c]

/-! ## What an insertion keeps -/

/-- The larger window comes first, as in a sorted slice read from its right end. -/
def FromRight (sorted : List Candidate) : Prop :=
  sorted.Pairwise fun a b => contextWindowFor b.model ≤ contextWindowFor a.model

theorem sink_sorted : ∀ {ys : List Candidate}, FromRight ys → FromRight (sink x ys)
  | [], _ => pairwise_singleton _ _
  | y :: ys, h => by
    obtain ⟨hy, hys⟩ := pairwise_cons.mp h
    unfold sink
    split
    · next hlt =>
      refine pairwise_cons.mpr ⟨?_, sink_sorted hys⟩
      intro z hz
      rcases mem_cons.mp ((sink_perm x ys).mem_iff.mp hz) with rfl | hz
      · exact hlt.le
      · exact hy z hz
    · next hge =>
      refine pairwise_cons.mpr ⟨?_, h⟩
      intro z hz
      rcases mem_cons.mp hz with rfl | hz
      · exact not_lt.mp hge
      · exact (hy z hz).trans (not_lt.mp hge)

theorem sink_filter (w : Int) : ∀ ys : List Candidate,
    (sink x ys).filter (fun c => contextWindowFor c.model = w) =
      (x :: ys).filter fun c => contextWindowFor c.model = w
  | [] => rfl
  | y :: ys => by
    unfold sink
    split
    · next hlt =>
      rw [filter_cons, sink_filter w ys]
      rcases eq_or_ne (contextWindowFor y.model) w with hy | hy
      · have hx : contextWindowFor x.model ≠ w := (hy ▸ hlt).ne
        simp [hx, hy]
      · simp [filter_cons, hy]
    · rfl

theorem foldl_sink_sorted (xs : List Candidate) :
    ∀ {sorted : List Candidate}, FromRight sorted →
      FromRight (xs.foldl (fun sorted c => sink c sorted) sorted) := by
  induction xs with
  | nil => exact id
  | cons c xs ih => exact fun h => ih (sink_sorted c h)

theorem foldl_sink_filter (w : Int) (xs : List Candidate) : ∀ sorted : List Candidate,
    (xs.foldl (fun sorted c => sink c sorted) sorted).filter
        (fun c => contextWindowFor c.model = w) =
      (xs.filter fun c => contextWindowFor c.model = w).reverse ++
        sorted.filter fun c => contextWindowFor c.model = w := by
  induction xs with
  | nil => exact fun _ => rfl
  | cons c xs ih =>
    intro sorted
    rw [foldl_cons, ih, sink_filter, filter_cons, filter_cons]
    split
    · rw [reverse_cons, append_assoc, singleton_append]
    · rfl

/-- The escalated candidates are those with a larger window, each as often as it was left, the
smallest window first and equal windows in their old order. -/
theorem escalateCandidates_order (remaining : List Candidate) (minWindow : Int) :
    escalateInPlace remaining minWindow = escalateCandidates remaining minWindow ∧
      (escalateCandidates remaining minWindow).Perm
        (remaining.filter fun c => minWindow < contextWindowFor c.model) ∧
      ((escalateCandidates remaining minWindow).Pairwise fun a b =>
        contextWindowFor a.model ≤ contextWindowFor b.model) ∧
      ∀ w, (escalateCandidates remaining minWindow).filter (fun c => contextWindowFor c.model = w) =
        (remaining.filter fun c => minWindow < contextWindowFor c.model).filter fun c =>
          contextWindowFor c.model = w := by
  refine ⟨escalateInPlace_eq remaining minWindow, escalateCandidates_perm remaining minWindow,
    ?_, fun w => ?_⟩
  · exact pairwise_reverse.mpr (foldl_sink_sorted _ List.Pairwise.nil)
  · rw [escalateCandidates, filter_reverse, foldl_sink_filter, filter_nil,
      append_nil, reverse_reverse]

end Ixr.Routing
