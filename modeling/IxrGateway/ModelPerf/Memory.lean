import IxrGateway.Routing.Router

/-!
# The model performance store

`modelperf.Memory` keeps running statistics for each pair of a model and an
intent.  Latency and cost are exponential moving averages.  The success rate is
the average over a ring of the last hundred results.  `List` is left out:
nothing in the gateway calls it.

The two names of a pair are joined with a colon.  So two pairs may share a key,
but not if neither intent contains a colon.
-/

namespace Ixr.ModelPerf

/-- `store.ModelStats`: what scoring reads, and the rest. -/
structure ModelStats extends Routing.ModelStats where
  model : String := ""
  intent : String := ""
  p95LatencyMS : ℚ := 0
  medianCostUSD : ℚ := 0
  updatedAt : Int := 0
deriving Repr, DecidableEq

/-- The weight of a new sample. -/
def emaAlpha : ℚ := 0.1

/-- `entry`.  The ring is part of the type, and never holds more results than it has room for. -/
structure Entry where
  stats : ModelStats
  recentResults : Vector Bool 100 := .replicate 100 false
  resultHead : Nat := 0
  resultCount : Nat := 0
  resultCount_le : resultCount ≤ 100 := by decide

/-- `Memory`. -/
structure Memory where
  stats : String → Option Entry := fun _ => none

/-- `key`. -/
def key (model intent : String) : String := model ++ ":" ++ intent

/-- `Get`. -/
def Memory.get (m : Memory) (model intent : String) : ModelStats :=
  match m.stats (key model intent) with
  | none => { model := model, intent := intent }
  | some e => e.stats

/-- The moving average. -/
def ema (sampleCount : Int) (old new : ℚ) : ℚ :=
  if sampleCount = 1 then new else emaAlpha * new + (1 - emaAlpha) * old

/-- The body of `Upsert`, for the entry of the key. -/
def Entry.observe (now : Int) (e : Entry) (s : ModelStats) : Entry :=
  let sampleCount := e.stats.sampleCount + 1
  let results := e.recentResults.set (e.resultHead % 100) (decide (1 ≤ s.successRate))
    (Nat.mod_lt _ (by decide))
  let n := min (e.resultCount + 1) 100
  let successes := (results.toList.take n).count true
  { stats :=
      { e.stats with
        sampleCount := sampleCount
        updatedAt := now
        p50LatencyMS := ema sampleCount e.stats.p50LatencyMS s.p50LatencyMS
        p95LatencyMS := ema sampleCount e.stats.p95LatencyMS s.p95LatencyMS
        medianCostUSD := ema sampleCount e.stats.medianCostUSD s.medianCostUSD
        successRate := successes / n }
    recentResults := results
    resultHead := e.resultHead + 1
    resultCount := n
    resultCount_le := min_le_right _ _ }

/-- `Upsert`. -/
def Memory.upsert (now : Int) (m : Memory) (s : ModelStats) : Memory where
  stats := Function.update m.stats (key s.model s.intent)
    (some (((m.stats (key s.model s.intent)).getD
      { stats := { model := s.model, intent := s.intent } }).observe now s))

/-! ## Samples -/

theorem Memory.get_upsert_of_ne {now : Int} {m : Memory} {s : ModelStats} {model intent : String}
    (hne : key s.model s.intent ≠ key model intent) :
    (m.upsert now s).get model intent = m.get model intent := by
  simp only [Memory.get, Memory.upsert, Function.update_of_ne (Ne.symm hne)]

theorem Memory.get_upsert_sampleCount (now : Int) (m : Memory) (s : ModelStats)
    (model intent : String) :
    ((m.upsert now s).get model intent).sampleCount = (m.get model intent).sampleCount +
      if key s.model s.intent = key model intent then 1 else 0 := by
  by_cases heq : key s.model s.intent = key model intent
  · simp only [Memory.get, Memory.upsert, ← heq, Function.update_self, if_true]
    cases m.stats (key s.model s.intent) with
    | none | some => rfl
  · rw [Memory.get_upsert_of_ne heq, if_neg heq, add_zero]

theorem key_inj {model model' intent intent' : String} (h : ':' ∉ intent.toList)
    (h' : ':' ∉ intent'.toList) (heq : key model intent = key model' intent') :
    model = model' ∧ intent = intent' := by
  have hlist : model.toList ++ ':' :: intent.toList = model'.toList ++ ':' :: intent'.toList := by
    simpa [key, String.toList_append] using congrArg String.toList heq
  have hnil : ∀ {ms ms' is is' : List Char} {as : List Char}, ':' ∉ is → ms' = ms ++ as →
      ':' :: is = as ++ ':' :: is' → ms = ms' ∧ is = is' := by
    intro ms ms' is is' as his hms his'
    cases as with
    | nil =>
      rw [List.nil_append, List.cons.injEq] at his'
      exact ⟨by rw [hms, List.append_nil], his'.2⟩
    | cons a as =>
      rw [List.cons_append, List.cons.injEq] at his'
      exact absurd (his'.2 ▸ List.mem_append_right as List.mem_cons_self) his
  obtain ⟨as, hms, his⟩ | ⟨as, hms, his⟩ := List.append_eq_append_iff.mp hlist
  · obtain ⟨hm, hi⟩ := hnil h hms his
    exact ⟨String.ext hm, String.ext hi⟩
  · obtain ⟨hm, hi⟩ := hnil h' hms his
    exact ⟨String.ext hm.symm, String.ext hi.symm⟩

end Ixr.ModelPerf
