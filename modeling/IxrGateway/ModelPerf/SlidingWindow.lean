import IxrGateway.ModelPerf.Memory
import IxrGateway.Ring

/-!
# The success rate is a sliding average

The ring of an entry has the results of the last hundred samples under its key,
and the success rate is their average (`Entry.Follows`).  The head of the ring is
never reset.
-/

namespace Ixr.ModelPerf

open List

/-- The sample is a success. -/
def ModelStats.succeeded (s : ModelStats) : Bool := decide (1 ≤ s.successRate)

/-- The success rate of the last hundred. -/
def recentRate (samples : List ModelStats) : ℚ :=
  (samples.rtake 100).countP ModelStats.succeeded / min samples.length 100

/-- The entry of a key after some samples. -/
structure Entry.Follows (e : Entry) (samples : List ModelStats) : Prop where
  sampleCount : e.stats.sampleCount = samples.length
  resultHead : e.resultHead = samples.length
  resultCount : e.resultCount = min samples.length 100
  ring : Ring.Holds e.recentResults (samples.map ModelStats.succeeded)
  /-- Before the first sample there is no rate. -/
  successRate : samples ≠ [] → e.stats.successRate = recentRate samples

theorem follows_nil (model intent : String) :
    Entry.Follows { stats := { model := model, intent := intent } } [] where
  sampleCount := rfl
  resultHead := rfl
  resultCount := rfl
  ring := Ring.holds_nil _
  successRate h := absurd rfl h

theorem Entry.Follows.observe {e : Entry} {samples : List ModelStats} (h : e.Follows samples)
    (now : Int) (s : ModelStats) : (e.observe now s).Follows (samples ++ [s]) := by
  have hring : Ring.Holds (e.observe now s).recentResults
      ((samples ++ [s]).map ModelStats.succeeded) := by
    have hlength : (samples.map ModelStats.succeeded).length = e.resultHead := by
      rw [length_map, h.resultHead]
    have hset := h.ring.set (Nat.mod_lt _ (by decide)) s.succeeded
    rw [map_append, map_singleton]
    simp only [hlength] at hset
    exact hset
  have hcount : min (e.resultCount + 1) 100 = min (samples ++ [s]).length 100 := by
    rw [h.resultCount, length_append, length_singleton]
    omega
  have hsuccesses : ((e.observe now s).recentResults.toList.take
      (min (e.resultCount + 1) 100)).count true =
        ((samples ++ [s]).rtake 100).countP ModelStats.succeeded := by
    have htake := hring.count_take true
    rw [length_map, ← hcount] at htake
    rw [htake, rtake, length_map, ← map_drop, count_eq_countP, countP_map]
    apply countP_congr
    intro s' _
    simp
  constructor
  case sampleCount =>
    show e.stats.sampleCount + 1 = ((samples ++ [s]).length : Int)
    rw [h.sampleCount, length_append, length_singleton]
    rfl
  case resultHead =>
    show e.resultHead + 1 = (samples ++ [s]).length
    rw [h.resultHead, length_append, length_singleton]
  case resultCount => exact hcount
  case ring => exact hring
  case successRate =>
    intro _
    show (((e.observe now s).recentResults.toList.take (min (e.resultCount + 1) 100)).count true
      / (min (e.resultCount + 1) 100 : Nat) : ℚ) = _
    rw [hsuccesses, hcount, recentRate, Nat.cast_min, Nat.cast_ofNat]

/-! ## Runs -/

/-- A store after some calls of `Upsert`, each with its time. -/
def upserted (upserts : List (Int × ModelStats)) : Memory :=
  upserts.foldl (fun m u => m.upsert u.1 u.2) {}

/-- The samples under a key. -/
def samplesOf (k : String) (upserts : List (Int × ModelStats)) : List ModelStats :=
  (upserts.map Prod.snd).filter fun s => key s.model s.intent = k

theorem samplesOf_concat (k : String) (upserts : List (Int × ModelStats)) (u : Int × ModelStats) :
    samplesOf k (upserts ++ [u]) =
      samplesOf k upserts ++ if key u.2.model u.2.intent = k then [u.2] else [] := by
  rw [samplesOf, map_append, filter_append, map_singleton, filter_singleton, samplesOf]
  split
  · next hkey => rw [decide_eq_true hkey, cond_true]
  · next hkey => rw [decide_eq_false hkey, cond_false]

theorem upserted_follows (upserts : List (Int × ModelStats)) (k : String) :
    match (upserted upserts).stats k with
    | none => samplesOf k upserts = []
    | some e => e.Follows (samplesOf k upserts) := by
  induction upserts using reverseRecOn with
  | nil => rfl
  | append_singleton upserts u ih =>
    rw [upserted, foldl_concat, ← upserted, samplesOf_concat, Memory.upsert]
    dsimp only
    rcases eq_or_ne (key u.2.model u.2.intent) k with rfl | hne
    · rw [Function.update_self, if_pos rfl]
      cases hold : (upserted upserts).stats (key u.2.model u.2.intent) with
      | none =>
        rw [hold] at ih
        rw [show samplesOf _ upserts = [] from ih]
        exact (follows_nil u.2.model u.2.intent).observe u.1 u.2
      | some e =>
        rw [hold] at ih
        exact Entry.Follows.observe ih u.1 u.2
    · rw [Function.update_of_ne hne.symm, if_neg hne, append_nil]
      exact ih

/-- The samples of a key are counted, and the success rate is the average of the last hundred. -/
theorem success_rate_window (upserts : List (Int × ModelStats)) (model intent : String)
    (h : samplesOf (key model intent) upserts ≠ []) :
    ((upserted upserts).get model intent).sampleCount =
        (samplesOf (key model intent) upserts).length ∧
      ((upserted upserts).get model intent).successRate =
        (((samplesOf (key model intent) upserts).rtake 100).countP fun s =>
          1 ≤ s.successRate) / min (samplesOf (key model intent) upserts).length 100 := by
  have hentry := upserted_follows upserts (key model intent)
  rw [Memory.get]
  cases hold : (upserted upserts).stats (key model intent) with
  | none =>
    rw [hold] at hentry
    exact absurd hentry h
  | some e =>
    rw [hold] at hentry
    exact ⟨Entry.Follows.sampleCount hentry, Entry.Follows.successRate hentry h⟩

def twoSamples : List (Int × ModelStats) :=
  [(0, { model := "gpt-5.2", intent := "chat", successRate := 1 }),
    (1, { model := "gpt-5.2", intent := "chat", successRate := 0 })]

theorem two_samples_averaged :
    ((upserted twoSamples).get "gpt-5.2" "chat").sampleCount = 2 ∧
      ((upserted twoSamples).get "gpt-5.2" "chat").successRate = 1 / 2 := by
  have hsamples : samplesOf (key "gpt-5.2" "chat") twoSamples = twoSamples.map Prod.snd := by
    decide
  have hne : samplesOf (key "gpt-5.2" "chat") twoSamples ≠ [] := by
    rw [hsamples]
    exact cons_ne_nil _ _
  obtain ⟨hcount, hrate⟩ := success_rate_window twoSamples "gpt-5.2" "chat" hne
  rw [hsamples] at hcount hrate
  refine ⟨hcount, hrate.trans ?_⟩
  norm_num [twoSamples, rtake]

end Ixr.ModelPerf
