import IxrGateway.Effects
import IxrGateway.ModelPerf.Memory

/-!
# Who writes the performance store

The telemetry plugin upserts a sample for every call event, and the shadow
orchestrator one for every shadow call.  The scoring engine reads.

Telemetry also writes a record of the event to a sink, which is left out.
-/

namespace Ixr

open ModelPerf

/-- `Duration.Milliseconds`. -/
def milliseconds (d : Int) : Int := d.tdiv 1000000

/-- `successFloat`, and `floatBool`. -/
def successFloat (ok : Bool) : ℚ := if ok then 1 else 0

/-- `telemetry.Plugin.OnEvent`. -/
def Telemetry.onEvent (now : Int) (perf : Memory) (ev : CallEvent) : Memory :=
  perf.upsert now
    { model := ev.model
      intent := ev.useCaseID
      successRate := successFloat (ev.error == "")
      p50LatencyMS := milliseconds ev.latency
      p95LatencyMS := milliseconds ev.latency }

namespace Scoring

/-- `QualityFromFinishReason`. -/
def qualityFromFinishReason : List Choice → ℚ
  | [] => 0
  | choice :: _ =>
    if choice.finishReason = "stop" ∨ choice.finishReason = "tool_calls" then 1
    else if choice.finishReason = "length" then 0.3
    else if choice.finishReason = "content_filter" then 0
    else 0.5

/-- `Orchestrator`, without its stores.  Of the weights only `Delta` is read. -/
structure Orchestrator where
  delta : ℚ := 0.1
  hasBandit : Bool := false

/-- `Record`: the store with the sample, and the reward that the bandit gets, if there is one. -/
def Orchestrator.record (o : Orchestrator) (now : Int) (perf : Memory) (model : String)
    (success : Bool) (latency : Int) (choices : List Choice) : Memory × Option ℚ :=
  let perf := perf.upsert now
    { model := model
      successRate := successFloat success
      p50LatencyMS := milliseconds latency
      p95LatencyMS := milliseconds latency }
  if o.hasBandit then
    let reward := successFloat success * 0.7 + (if latency < 2000000000 then 0.3 else 0)
    (perf, some (reward + o.delta * qualityFromFinishReason choices))
  else (perf, none)

theorem Orchestrator.record_fst (o : Orchestrator) (now : Int) (perf : Memory) (model : String)
    (success : Bool) (latency : Int) (choices : List Choice) :
    (o.record now perf model success latency choices).1 = perf.upsert now
      { model := model, successRate := successFloat success,
        p50LatencyMS := milliseconds latency, p95LatencyMS := milliseconds latency } := by
  unfold Orchestrator.record
  split
  · rfl
  · rfl

end Scoring

end Ixr
