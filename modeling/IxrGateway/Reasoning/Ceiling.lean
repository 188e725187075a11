import IxrGateway.Reasoning.Budget
import IxrGateway.Binary64

/-!
# The token budget in floating point

`AdjustTokenBudget` computes with floats, and rounds up by adding 0.999 before
it drops the fraction.  Every rate of the table is a number of ninths, so the
quotient is at least a ninth away from the integers it does not reach.  The
rounding errors are far smaller, so the result is the ceiling
(`toInt_scaled`).  Limits above the cap are cut down to it.
-/

namespace Ixr.Reasoning

open GoStrings List Binary64
open Binary64 (Arith)

/-- `visible/(1.0-overhead) + 0.999`. -/
def scaled (f : Arith) (visible : Int) (overhead : ℚ) : ℚ :=
  f.round (f.round (f.round visible / f.round (1 - overhead)) + f.round 0.999)

/-- `AdjustTokenBudget`, with the arithmetic of floats. -/
def adjustTokenBudgetFloat (f : Arith) (req : RequestEnvelope) : RequestEnvelope :=
  let overhead := f.round (overheadFor req.model)
  if overhead = 0 ∨ req.maxTokens ≤ 0 then req
  else { req with maxTokens := min (f.toInt (scaled f req.maxTokens overhead)) maxAdjusted }

/-- Without rounding it is the budget in exact numbers. -/
theorem adjustTokenBudgetFloat_exact (req : RequestEnvelope) :
    adjustTokenBudgetFloat exact req = adjustTokenBudget req := by
  rw [adjustTokenBudgetFloat, adjustTokenBudget]
  -- the table of overheads is not to be searched here
  generalize overheadFor req.model = overhead
  rfl

/-! ## The longest prefix -/

theorem eq_of_hasPrefix_of_len_eq {s p q : String} (hp : hasPrefix s p = true)
    (hq : hasPrefix s q = true) (hlen : len p = len q) : p = q := by
  rw [hasPrefix, decide_eq_true_eq] at hp hq
  -- one of them is a start of the other, and what it lacks has no bytes
  have hstart : ∀ {p q : String}, p.toList <+: q.toList → len p = len q → p = q := by
    rintro p q ⟨more, hmore⟩ hlen
    have hq : q = p ++ String.ofList more := by
      rw [← String.toList_inj, String.toList_append, String.toList_ofList, hmore]
    rw [hq, len, len, String.utf8ByteSize_append, Nat.cast_inj] at hlen
    have hzero : (String.ofList more).utf8ByteSize = 0 := by omega
    rw [String.utf8ByteSize_eq_zero_iff] at hzero
    rw [hq, hzero, String.append_empty]
  rcases prefix_or_prefix_of_prefix hp hq with h | h
  · exact hstart h hlen
  · exact (hstart h hlen.symm).symm

variable {overhead : ℚ} {req : RequestEnvelope}

theorem longestOverhead_eq {lower start : String} {table : List (String × ℚ)}
    (hmax : ∀ e ∈ table, hasPrefix lower e.1 = true → len e.1 < len start ∨ e = (start, overhead))
    (hstart : hasPrefix lower start = true) (best : String) (bestOverhead : ℚ)
    (hbest : (start, overhead) ∈ table ∧ len best < len start ∨
      (best, bestOverhead) = (start, overhead)) :
    longestOverhead lower table best bestOverhead = overhead := by
  induction table generalizing best bestOverhead with
  | nil =>
    rcases hbest with ⟨hmem, _⟩ | heq
    · cases hmem
    · exact congrArg Prod.snd heq
  | cons e table ih =>
    obtain ⟨p, o⟩ := e
    obtain ⟨hhead, hmax⟩ := forall_mem_cons.mp hmax
    rw [longestOverhead]
    split
    · next htake =>
      simp only [Bool.and_eq_true, decide_eq_true_eq] at htake
      rcases hhead htake.1 with hshort | heq
      · apply ih hmax
        rcases hbest with ⟨hmem, _⟩ | heq
        · rcases mem_cons.mp hmem with heq | hmem
          · cases heq
            exact absurd hshort (lt_irrefl _)
          · exact .inl ⟨hmem, hshort⟩
        · cases heq
          exact absurd (htake.2.trans hshort) (lt_irrefl _)
      · exact ih hmax p o (.inr heq)
    · next hkeep =>
      apply ih hmax
      rcases hbest with ⟨hmem, hlt⟩ | heq
      · rcases mem_cons.mp hmem with heq | hmem
        · cases heq
          simp [hstart, hlt] at hkeep
        · exact .inl ⟨hmem, hlt⟩
      · exact .inr heq

/-- The entry of the table whose start is the longest that matches the model. -/
def LongestMatch (model : String) (start : String) (overhead : ℚ) : Prop :=
  (start, overhead) ∈ reasoningOverhead ∧ hasPrefix (toLower model) start = true ∧
    ∀ e ∈ reasoningOverhead, hasPrefix (toLower model) e.1 = true → len e.1 ≤ len start

theorem overheadFor_eq {model start : String} (h : LongestMatch model start overhead) :
    overheadFor model = overhead := by
  obtain ⟨hmem, hstart, hmax⟩ := h
  have hempty : len "" < len start := by
    have hall : ∀ e ∈ reasoningOverhead, len "" < len e.1 := by decide
    exact hall _ hmem
  apply longestOverhead_eq _ hstart "" 0 (.inl ⟨hmem, hempty⟩)
  intro e he hmatch
  rcases lt_or_eq_of_le (hmax e he hmatch) with hlt | heq
  · exact .inl hlt
  · have hnodup : (reasoningOverhead.map Prod.fst).Nodup := by decide
    exact .inr (inj_on_of_nodup_map hnodup he hmem (eq_of_hasPrefix_of_len_eq hmatch hstart heq))

theorem longestOverhead_mem (lower : String) (table : List (String × ℚ)) (best : String)
    (bestOverhead : ℚ) :
    longestOverhead lower table best bestOverhead = bestOverhead ∨
      ∃ e ∈ table, longestOverhead lower table best bestOverhead = e.2 := by
  induction table generalizing best bestOverhead with
  | nil => exact .inl rfl
  | cons e table ih =>
    obtain ⟨p, o⟩ := e
    rw [longestOverhead]
    split
    · rcases ih p o with h | ⟨e, he, h⟩
      · exact .inr ⟨(p, o), mem_cons_self, h⟩
      · exact .inr ⟨e, mem_cons_of_mem _ he, h⟩
    · rcases ih best bestOverhead with h | ⟨e, he, h⟩
      · exact .inl h
      · exact .inr ⟨e, mem_cons_of_mem _ he, h⟩

/-- A rate of the table: what is left for the caller divides nine, and is at least a tenth. -/
structure Rate (overhead : ℚ) : Prop where
  tenth : 1 / 10 ≤ 1 - overhead
  quarter : 1 - overhead ≤ 1 / 4
  ninths : ∃ k : Nat, (k : ℚ) * (1 - overhead) = 9

theorem rate_of_mem {e : String × ℚ} (h : e ∈ reasoningOverhead) : Rate e.2 := by
  simp only [reasoningOverhead, mem_cons, not_mem_nil, or_false] at h
  rcases h with rfl | rfl | rfl | rfl | rfl | rfl | rfl | rfl
  · exact ⟨by norm_num, by norm_num, 45, by norm_num⟩
  · exact ⟨by norm_num, by norm_num, 90, by norm_num⟩
  · exact ⟨by norm_num, by norm_num, 36, by norm_num⟩
  · exact ⟨by norm_num, by norm_num, 60, by norm_num⟩
  · exact ⟨by norm_num, by norm_num, 60, by norm_num⟩
  · exact ⟨by norm_num, by norm_num, 60, by norm_num⟩
  · exact ⟨by norm_num, by norm_num, 45, by norm_num⟩
  · exact ⟨by norm_num, by norm_num, 50, by norm_num⟩

theorem overheadFor_rate (model : String) : overheadFor model = 0 ∨ Rate (overheadFor model) := by
  rcases longestOverhead_mem (toLower model) reasoningOverhead "" 0 with h | ⟨e, he, h⟩
  · exact .inl h
  · rw [overheadFor, h]
    exact .inr (rate_of_mem he)

/-! ## The rounding errors -/

section

variable {f : Arith} {overhead : ℚ} {n : Int}

theorem round_overhead_near (f : Arith) (h : Rate overhead) :
    |f.round overhead - overhead| ≤ unit := by
  have hnear := f.round_self (x := overhead) 1 (by linarith [h.quarter]) (by linarith [h.tenth])
    (by norm_num)
  rwa [mul_one] at hnear

theorem round_rest_near (f : Arith) (h : Rate overhead) :
    |f.round (1 - f.round overhead) - (1 - overhead)| ≤ 2 * unit := by
  have hoverhead := round_overhead_near f h
  have hrest : |1 - f.round overhead - (1 - overhead)| ≤ unit := by
    rw [sub_sub_sub_cancel_left, abs_sub_comm]
    exact hoverhead
  obtain ⟨hlow, hhigh⟩ := abs_le.mp hoverhead
  have hunit : unit ≤ 1 / 20 := by norm_num [unit]
  have hnear := f.round_within 1 (by linarith [h.tenth]) (by linarith [h.quarter]) (by norm_num)
    hrest
  linarith

theorem quotient_le (h : Rate overhead) (hn : 1 ≤ n) (hcap : n ≤ maxAdjusted) :
    (n : ℚ) ≤ n / (1 - overhead) ∧ (n : ℚ) / (1 - overhead) ≤ 1000000 := by
  have hpos : 0 < 1 - overhead := lt_of_lt_of_le (by norm_num) h.tenth
  have hn' : (1 : ℚ) ≤ n := by exact_mod_cast hn
  have hcap' : (n : ℚ) ≤ 100000 := by exact_mod_cast hcap
  constructor
  · rw [le_div_iff₀ hpos]
    nlinarith [h.quarter]
  · rw [div_le_iff₀ hpos]
    linarith [h.tenth]

theorem round_quotient_near (f : Arith) (h : Rate overhead) (hn : 1 ≤ n) (hcap : n ≤ maxAdjusted) :
    |f.round (f.round n / f.round (1 - f.round overhead)) - n / (1 - overhead)| ≤
      44000000 * unit := by
  obtain ⟨hlow, hhigh⟩ := quotient_le h hn hcap
  have hn' : (1 : ℚ) ≤ n := by exact_mod_cast hn
  have hcap' : (n : ℚ) ≤ 100000 := by exact_mod_cast hcap
  have hunit : unit ≤ 1 / 10 ^ 15 := by norm_num [unit]
  have hpos : 0 ≤ unit := by norm_num [unit]
  have hvisible := f.round_self 100000 (by linarith) hcap' (by norm_num)
  have hrest := round_rest_near f h
  obtain ⟨hrest', -⟩ := abs_le.mp hrest
  have hquot := abs_div_sub_div_le (1 / 20) (by norm_num) (by linarith [h.tenth])
    (by linarith [h.tenth]) hvisible hrest
  rw [abs_of_nonneg (a := (n : ℚ) / (1 - overhead)) (by linarith)] at hquot
  have hquot' : |f.round n / f.round (1 - f.round overhead) - n / (1 - overhead)| ≤
      42000000 * unit := by
    refine hquot.trans ?_
    have hmul := mul_le_mul_of_nonneg_right hhigh hpos
    linarith
  obtain ⟨hq, hq'⟩ := abs_le.mp hquot'
  have hround := f.round_within 2000000 (by linarith) (by linarith) (by norm_num) hquot'
  linarith

theorem scaled_near (f : Arith) (h : Rate overhead) (hn : 1 ≤ n) (hcap : n ≤ maxAdjusted) :
    |scaled f n (f.round overhead) - (n / (1 - overhead) + 0.999)| ≤ 1 / 1000000 := by
  obtain ⟨hlow, hhigh⟩ := quotient_le h hn hcap
  have hn' : (1 : ℚ) ≤ n := by exact_mod_cast hn
  have hunit : unit ≤ 1 / 10 ^ 15 := by norm_num [unit]
  have hsmall := f.round_self (x := 0.999) 1 (by norm_num) (by norm_num) (by norm_num)
  have hsum := abs_add_sub_add_le (round_quotient_near f h hn hcap) hsmall
  obtain ⟨hs, hs'⟩ := abs_le.mp hsum
  have hlast := f.round_within 2000000 (by linarith) (by linarith) (by norm_num) hsum
  rw [scaled]
  linarith

/-- A number of ninths is at least a ninth above the integer below its ceiling. -/
theorem ceil_le_of_ninths (h : Rate overhead) :
    (⌈(n : ℚ) / (1 - overhead)⌉ : ℚ) ≤ n / (1 - overhead) + 8 / 9 := by
  obtain ⟨k, hk⟩ := h.ninths
  have hpos : 0 < 1 - overhead := lt_of_lt_of_le (by norm_num) h.tenth
  -- with nine times the quotient an integer, the bounds are bounds of integers
  have hnine : (9 : ℚ) * (n / (1 - overhead)) = ((n * k : Int) : ℚ) := by
    push_cast
    rw [← hk]
    field_simp
  have hlt : (⌈(n : ℚ) / (1 - overhead)⌉ : ℚ) - 1 < n / (1 - overhead) := by
    have hceil := Int.ceil_lt_add_one ((n : ℚ) / (1 - overhead))
    linarith
  have hint : 9 * ⌈(n : ℚ) / (1 - overhead)⌉ - 9 < n * k := by
    have hcast : ((9 * ⌈(n : ℚ) / (1 - overhead)⌉ - 9 : Int) : ℚ) < ((n * k : Int) : ℚ) := by
      rw [← hnine]
      push_cast
      linarith
    exact_mod_cast hcast
  have hint' : ((9 * ⌈(n : ℚ) / (1 - overhead)⌉ - 8 : Int) : ℚ) ≤ ((n * k : Int) : ℚ) := by
    exact_mod_cast (by omega : 9 * ⌈(n : ℚ) / (1 - overhead)⌉ - 8 ≤ n * k)
  rw [← hnine] at hint'
  push_cast at hint'
  linarith

theorem toInt_scaled (f : Arith) (h : Rate overhead) (hn : 1 ≤ n) (hcap : n ≤ maxAdjusted) :
    f.toInt (scaled f n (f.round overhead)) = ⌈(n : ℚ) / (1 - overhead)⌉ := by
  obtain ⟨hlow, hhigh⟩ := quotient_le h hn hcap
  obtain ⟨hs, hs'⟩ := abs_le.mp (scaled_near f h hn hcap)
  have hn' : (1 : ℚ) ≤ n := by exact_mod_cast hn
  rw [f.toInt_floor _ (by linarith) (by linarith), Int.floor_eq_iff]
  constructor
  · have hninth := ceil_le_of_ninths (n := n) h
    linarith
  · have hceil := Int.le_ceil ((n : ℚ) / (1 - overhead))
    linarith

end

/-! ## The adjusted request -/

/-- `IsReasoningModel`. -/
def isReasoningModel (model : String) : Bool := decide (0 < overheadFor model)

theorem isReasoningModel_eq_false_iff {model : String} :
    isReasoningModel model = false ↔ overheadFor model = 0 := by
  rw [isReasoningModel, decide_eq_false_iff_not]
  rcases overheadFor_rate model with h | h
  · rw [h]
    exact ⟨fun _ => rfl, fun _ => lt_irrefl 0⟩
  · have hpos : 0 < overheadFor model := by linarith [h.quarter]
    exact ⟨fun hn => absurd hpos hn, fun hz => absurd hz hpos.ne'⟩

theorem Rate.round_ne_zero (h : Rate overhead) (f : Arith) : f.round overhead ≠ 0 := by
  intro hzero
  have hnear := round_overhead_near f h
  have hunit : unit ≤ 1 / 20 := by norm_num [unit]
  rw [hzero, zero_sub, abs_neg, abs_of_nonneg (by linarith [h.quarter])] at hnear
  linarith [h.quarter]

theorem adjustTokenBudgetFloat_of_left (f : Arith)
    (h : overheadFor req.model = 0 ∨ req.maxTokens ≤ 0) : adjustTokenBudgetFloat f req = req := by
  rw [adjustTokenBudgetFloat, if_pos]
  rcases h with h | h
  · exact .inl (by rw [h, f.round_zero])
  · exact .inr h

theorem adjustTokenBudgetFloat_maxTokens (f : Arith) (h : Rate (overheadFor req.model))
    (hpos : 0 < req.maxTokens) :
    (adjustTokenBudgetFloat f req).maxTokens =
      min (f.toInt (scaled f req.maxTokens (f.round (overheadFor req.model)))) maxAdjusted := by
  rw [adjustTokenBudgetFloat, if_neg (not_or.mpr ⟨h.round_ne_zero f, not_le.mpr hpos⟩)]

theorem adjustTokenBudgetFloat_eq_min (f : Arith) (h : Rate (overheadFor req.model))
    (hpos : 0 < req.maxTokens) (hcap : req.maxTokens ≤ maxAdjusted) :
    (adjustTokenBudgetFloat f req).maxTokens =
      min ⌈(req.maxTokens : ℚ) / (1 - overheadFor req.model)⌉ maxAdjusted := by
  rw [adjustTokenBudgetFloat_maxTokens f h hpos, toInt_scaled f h hpos hcap]

theorem le_ceil_quotient (h : Rate (overheadFor req.model)) (hpos : 0 < req.maxTokens) :
    req.maxTokens ≤ ⌈(req.maxTokens : ℚ) / (1 - overheadFor req.model)⌉ := by
  have hn : (0 : ℚ) < req.maxTokens := by exact_mod_cast hpos
  have hquot : (req.maxTokens : ℚ) ≤ req.maxTokens / (1 - overheadFor req.model) := by
    rw [le_div_iff₀ (lt_of_lt_of_le (by norm_num) h.tenth)]
    nlinarith [h.quarter]
  exact_mod_cast hquot.trans (Int.le_ceil _)

/-- Only the limit changes.  It stays at least the caller's exactly for a model that does not
reason and for a limit within the cap, and below the cap it becomes the ceiling. -/
theorem budget_scales_up_iff (f : Arith) (req : RequestEnvelope) :
    adjustTokenBudgetFloat f req =
        { req with maxTokens := (adjustTokenBudgetFloat f req).maxTokens } ∧
      (req.maxTokens ≤ (adjustTokenBudgetFloat f req).maxTokens ↔
        isReasoningModel req.model = false ∨ req.maxTokens ≤ maxAdjusted) ∧
      ∀ start overhead, LongestMatch req.model start overhead → 0 < req.maxTokens →
        ⌈(req.maxTokens : ℚ) / (1 - overhead)⌉ ≤ maxAdjusted →
        (adjustTokenBudgetFloat f req).maxTokens = ⌈(req.maxTokens : ℚ) / (1 - overhead)⌉ := by
  refine ⟨?_, ?_, ?_⟩
  · unfold adjustTokenBudgetFloat
    dsimp only
    split
    · rfl
    · rfl
  · rw [isReasoningModel_eq_false_iff]
    rcases overheadFor_rate req.model with hzero | hrate
    · rw [adjustTokenBudgetFloat_of_left f (.inl hzero)]
      exact ⟨fun _ => .inl hzero, fun _ => le_refl _⟩
    · have hne : overheadFor req.model ≠ 0 := by linarith [hrate.quarter]
      rcases le_or_gt req.maxTokens 0 with hnone | hpos
      · rw [adjustTokenBudgetFloat_of_left f (.inr hnone)]
        exact ⟨fun _ => .inr (hnone.trans (by decide)), fun _ => le_refl _⟩
      · constructor
        · intro hup
          rw [adjustTokenBudgetFloat_maxTokens f hrate hpos] at hup
          exact .inr (hup.trans (min_le_right _ _))
        · rintro (hzero | hcap)
          · exact absurd hzero hne
          · rw [adjustTokenBudgetFloat_eq_min f hrate hpos hcap]
            exact le_min (le_ceil_quotient hrate hpos) hcap
  · intro start overhead hmatch hpos hfits
    have hrate : Rate (overheadFor req.model) := by
      rw [overheadFor_eq hmatch]
      exact rate_of_mem hmatch.1
    rw [← overheadFor_eq hmatch] at hfits ⊢
    have hcap := (le_ceil_quotient hrate hpos).trans hfits
    rw [adjustTokenBudgetFloat_eq_min f hrate hpos hcap, min_eq_left hfits]

def o3Request (maxTokens : Int) : RequestEnvelope where
  model := "o3"
  maxTokens := maxTokens

theorem longestMatch_o3 : LongestMatch "o3" "o3" 0.90 := by
  refine ⟨?_, by decide, by decide⟩
  rw [reasoningOverhead]
  exact mem_cons_of_mem _ mem_cons_self

theorem thousand_tokens_scaled :
    LongestMatch (o3Request 1000).model "o3" 0.90 ∧
      (adjustTokenBudgetFloat exact (o3Request 1000)).maxTokens = 10000 := by
  have hceil : ⌈((1000 : Int) : ℚ) / (1 - 0.90)⌉ = 10000 := by
    rw [Int.ceil_eq_iff]
    norm_num
  have hscaled := (budget_scales_up_iff exact (o3Request 1000)).2.2 "o3" 0.90
    longestMatch_o3 (by decide) (hceil.le.trans (by decide))
  exact ⟨longestMatch_o3, hscaled.trans hceil⟩

/-- A limit above the cap is cut. -/
theorem large_limit_cut :
    (adjustTokenBudgetFloat exact (o3Request 200000)).maxTokens <
      (o3Request 200000).maxTokens := by
  have hle :
      (adjustTokenBudgetFloat exact (o3Request 200000)).maxTokens ≤ maxAdjusted := by
    rw [adjustTokenBudgetFloat_maxTokens]
    · exact min_le_right _ _
    · show Rate (overheadFor "o3")
      rw [overheadFor_eq longestMatch_o3]
      exact rate_of_mem longestMatch_o3.1
    · decide
  exact hle.trans_lt (by decide)

end Ixr.Reasoning
