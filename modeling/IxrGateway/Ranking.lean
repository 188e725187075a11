import Mathlib

/-!
# Rankings

Candidates with scores in a linear order, the best of them first.  A decision
takes one of them as its primary, and the best of the others as a chain of
fallbacks.  What makes a decision sound is said without the order in which
equal scores come, so it holds for every way of sorting (`sound_chain`).
-/

namespace Ranking

open List

/-- A key and its score. -/
structure Scored (κ S : Type) where
  key : κ
  score : S

variable {κ S : Type}

/-- The first `n` of the others. -/
def chainOf [DecidableEq κ] (primary : κ) (n : Nat) (ranked : List (Scored κ S)) :
    List (Scored κ S) :=
  (ranked.filter fun c => c.key ≠ primary).take n

theorem length_filter_ne [DecidableEq κ] {cs : List (Scored κ S)} {primary : κ}
    (hdistinct : (cs.map Scored.key).Nodup) (hprimary : ∃ c ∈ cs, c.key = primary) :
    (cs.filter fun c => c.key ≠ primary).length = cs.length - 1 := by
  induction cs with
  | nil =>
    obtain ⟨c, hc, -⟩ := hprimary
    cases hc
  | cons d cs ih =>
    rw [map_cons, nodup_cons] at hdistinct
    obtain ⟨hd, hdistinct⟩ := hdistinct
    rcases eq_or_ne d.key primary with rfl | hne
    · have hothers : cs.filter (fun c => c.key ≠ d.key) = cs := by
        apply filter_eq_self.mpr
        intro c hc
        rw [decide_eq_true_iff]
        intro hsame
        exact hd (hsame ▸ mem_map_of_mem hc)
      rw [filter_cons_of_neg (by simp), hothers, length_cons, Nat.add_sub_cancel]
    · obtain ⟨c, hc, hkey⟩ := hprimary
      have hlater : ∃ c ∈ cs, c.key = primary := by
        rcases mem_cons.mp hc with rfl | hc
        · exact absurd hkey hne
        · exact ⟨c, hc, hkey⟩
      have hpos : 0 < cs.length := by
        obtain ⟨c, hc, -⟩ := hlater
        exact length_pos_of_mem hc
      rw [filter_cons_of_pos (by simpa using hne), length_cons, ih hdistinct hlater, length_cons]
      omega

variable [LinearOrder S]

/-- The best score comes first. -/
def Descending (cs : List (Scored κ S)) : Prop := cs.Pairwise fun a b => b.score ≤ a.score

/-- A way of sorting: it reorders, and the best score comes first. -/
structure Sorts (sort : List (Scored κ S) → List (Scored κ S)) : Prop where
  perm : ∀ cs, (sort cs).Perm cs
  descending : ∀ cs, Descending (sort cs)

theorem sorts_mergeSort :
    Sorts fun cs : List (Scored κ S) => cs.mergeSort fun a b => decide (b.score ≤ a.score) := by
  constructor
  · intro cs
    exact mergeSort_perm cs _
  · intro cs
    have htrans : ∀ a b c : Scored κ S, decide (b.score ≤ a.score) = true →
        decide (c.score ≤ b.score) = true → decide (c.score ≤ a.score) = true := by
      intro a b c hab hbc
      rw [decide_eq_true_eq] at hab hbc ⊢
      exact hbc.trans hab
    have htotal : ∀ a b : Scored κ S,
        (decide (b.score ≤ a.score) || decide (a.score ≤ b.score)) = true := by
      intro a b
      rw [Bool.or_eq_true, decide_eq_true_eq, decide_eq_true_eq]
      exact le_total _ _
    apply (pairwise_mergeSort htrans htotal cs).imp
    intro a b h
    exact of_decide_eq_true h

/-- A decision is sound for the candidates it was made from.  It has a primary and at most `n`
fallbacks. -/
structure Sound (n : Nat) (passing : List (Scored κ S)) (primary : κ)
    (chain : List (Scored κ S)) : Prop where
  primary_passing : ∃ c ∈ passing, c.key = primary
  chain_passing : ∀ c ∈ chain, c ∈ passing
  primary_apart : ∀ c ∈ chain, c.key ≠ primary
  distinct : (chain.map Scored.key).Nodup
  length : chain.length = min n (passing.length - 1)
  descending : Descending chain
  best : ∀ c ∈ passing, c.key ≠ primary → c ∉ chain → ∀ d ∈ chain, c.score ≤ d.score

theorem score_le_of_mem_take {cs : List (Scored κ S)} (h : Descending cs) {n : Nat}
    {c d : Scored κ S} (hd : d ∈ cs.take n) (hc : c ∈ cs) (hout : c ∉ cs.take n) :
    c.score ≤ d.score := by
  rw [← take_append_drop n cs] at h hc
  have hlater : c ∈ cs.drop n := (mem_append.mp hc).resolve_left hout
  exact (pairwise_append.mp h).2.2 d hd c hlater

theorem score_le_head {best : Scored κ S} {rest : List (Scored κ S)}
    (h : Descending (best :: rest)) {c : Scored κ S} (hc : c ∈ best :: rest) :
    c.score ≤ best.score := by
  rcases mem_cons.mp hc with rfl | hc
  · exact le_refl _
  · exact (pairwise_cons.mp h).1 c hc

/-- The chain of a sorted list is sound, whichever candidate is the primary. -/
theorem sound_chain [DecidableEq κ] {ranked passing : List (Scored κ S)}
    (hperm : ranked.Perm passing) (hsorted : Descending ranked)
    (hdistinct : (passing.map Scored.key).Nodup) {primary : κ}
    (hprimary : ∃ c ∈ passing, c.key = primary) (n : Nat) :
    Sound n passing primary (chainOf primary n ranked) := by
  have hsub : (chainOf primary n ranked).Sublist ranked :=
    (take_sublist _ _).trans filter_sublist
  have hdistinct' : (ranked.map Scored.key).Nodup := (hperm.map _).nodup_iff.mpr hdistinct
  have hprimary' : ∃ c ∈ ranked, c.key = primary := by
    obtain ⟨c, hc, hkey⟩ := hprimary
    exact ⟨c, hperm.mem_iff.mpr hc, hkey⟩
  constructor
  case primary_passing => exact hprimary
  case chain_passing =>
    intro c hc
    exact hperm.mem_iff.mp (hsub.subset hc)
  case primary_apart =>
    intro c hc
    simpa using (mem_filter.mp (mem_of_mem_take hc)).2
  case distinct => exact (hsub.map _).nodup hdistinct'
  case length =>
    rw [chainOf, length_take, length_filter_ne hdistinct' hprimary', hperm.length_eq]
  case descending => exact List.Pairwise.sublist hsub hsorted
  case best =>
    intro c hc hkey hout d hd
    have hothers : Descending (ranked.filter fun c => c.key ≠ primary) :=
      List.Pairwise.sublist filter_sublist hsorted
    have hmem : c ∈ ranked.filter fun c => c.key ≠ primary :=
      mem_filter.mpr ⟨hperm.mem_iff.mpr hc, by simpa using hkey⟩
    exact score_le_of_mem_take hothers hd hmem hout

end Ranking
