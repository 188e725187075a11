import IxrGateway.Effects
import IxrGateway.Routing.Errors

/-!
# The executor

`execute` and `executeStream` walk a decision's candidates: the primary first,
then the fallback chain.  Each candidate is retried with backoff.  A
context-length error restarts the walk on the remaining candidates with a
larger window, smallest window first.

The two loops of the source differ in the call they retry and in what they
collect, so the retry loop and the candidate loop are written once over that
call.  Its state `σ` holds what the source keeps in variables of the closure.
-/

namespace Ixr.Routing

open Interaction List

/-- `routing.ProviderLookup`. -/
abbrev ProviderLookup := String → Except GoError Provider

/-- `routing.RetryConfig`, with durations in nanoseconds. -/
structure RetryConfig where
  maxAttempts : Int
  initialBackoff : Int
  maxBackoff : Int
  backoffFactor : ℚ
deriving Repr, DecidableEq, Inhabited

/-- `DefaultRetryConfig`. -/
def defaultRetryConfig : RetryConfig where
  maxAttempts := 3
  initialBackoff := 200000000
  maxBackoff := 5000000000
  backoffFactor := 2

/-- `routing.ExecuteResult`. -/
structure ExecuteResult where
  response : Option ResponseEnvelope := none
  provider : Option Provider := none
  model : String := ""
  fallbackUsed : Bool := false
  fallbackFrom : String := ""
  attempts : Int := 0
deriving Repr, DecidableEq, Inhabited

/-! ## One candidate -/

/-- The next value of `backoff`. -/
def nextBackoff (cfg : RetryConfig) (backoff : Int) : Int :=
  min (truncate (backoff * cfg.backoffFactor)) cfg.maxBackoff

/-- The attempt loop of `chatWithRetry` and `streamWithRetry` with `left`
attempts to go and `i` made.  `call` makes one attempt, and reports whether it
may not be repeated, and its error. -/
def retryLoop {σ : Type} (cfg : RetryConfig) (call : σ → Go (Bool × Option GoError × σ)) :
    (left : Nat) → (i : Int) → (backoff : Int) → (lastErr : Option GoError) → σ →
      Go (σ × Int × Option GoError)
  | 0, _, _, lastErr, s => pure (s, cfg.maxAttempts, lastErr)
  | left + 1, i, backoff, _, s => do
    let (final, err, s) ← call s
    match err with
    | none => pure (s, i + 1, none)
    | some e =>
      if final || e.aborted || isClientError e then pure (s, i + 1, some e)
      else if i < cfg.maxAttempts - 1 then do
        match ← Go.backoff backoff with
        | some ctxErr => pure (s, i + 1, some ctxErr.toError)
        | none => retryLoop cfg call left (i + 1) (nextBackoff cfg backoff) (some e) s
      else retryLoop cfg call left (i + 1) backoff (some e) s

/-- `retryLoop` from its first attempt. -/
def withRetry {σ : Type} (cfg : RetryConfig) (call : σ → Go (Bool × Option GoError × σ))
    (s : σ) : Go (σ × Int × Option GoError) :=
  retryLoop cfg call cfg.maxAttempts.toNat 0 cfg.initialBackoff none s

/-- One attempt of `chatWithRetry`. -/
def chatOnce (p : Provider) (req : RequestEnvelope) (_ : Option ResponseEnvelope) :
    Go (Bool × Option GoError × Option ResponseEnvelope) := do
  match ← Go.chat p req with
  | .ok resp => pure (false, none, some resp)
  | .error e => pure (false, some e, none)

/-- `chatWithRetry`. -/
def chatWithRetry (cfg : RetryConfig) (req : RequestEnvelope) (p : Provider) :
    Option ResponseEnvelope → Go (Option ResponseEnvelope × Int × Option GoError) :=
  withRetry cfg (chatOnce p req)

/-- A stream callback: what it keeps of a chunk, and the chunk it hands to the
client.  The hand-over may fail. -/
structure Callback (σ : Type) where
  /-- The callback's bookkeeping, with the error of the hand-over. -/
  record : StreamChunk → Option GoError → σ → σ
  /-- The chunk the client gets. -/
  relabel : StreamChunk → StreamChunk

/-- Hands a chunk on. -/
def Callback.call {σ : Type} (fn : Callback σ) (chunk : StreamChunk) (s : σ) :
    Go (Option GoError × σ) := do
  let err ← Go.deliver (fn.relabel chunk)
  pure (err, fn.record chunk err s)

/-- Play a provider's stream against the callback `fn`.  The flag is `wrote`. -/
def playStream {σ : Type} (fn : Callback σ) :
    StreamScript → (wrote : Bool) → σ → Go (Bool × Option GoError × σ)
  | .done err, wrote, s => pure (wrote, err, s)
  | .emit chunk next, _, s => do
    let (err, s) ← fn.call chunk s
    playStream fn (next err) true s

/-- One attempt of `streamWithRetry`.  After partial output it may not be repeated. -/
def streamOnce {σ : Type} (fn : Callback σ) (p : Provider) (req : RequestEnvelope) (s : σ) :
    Go (Bool × Option GoError × σ) := do
  let script ← Go.stream p req
  playStream fn script false s

/-- `streamWithRetry`. -/
def streamWithRetry {σ : Type} (cfg : RetryConfig) (fn : Callback σ) (req : RequestEnvelope)
    (p : Provider) : σ → Go (σ × Int × Option GoError) :=
  withRetry cfg (streamOnce fn p req)

/-! ## The candidates -/

/-- `orderedCandidates`. -/
def orderedCandidates (d : RoutingDecision) : List Candidate :=
  { model := d.model } :: d.fallbackChain

/-- The inner loop of `escalateCandidates`: `x` moves left past larger windows.
The sorted part is listed from its right end. -/
def sink (x : Candidate) : List Candidate → List Candidate
  | [] => [x]
  | y :: ys =>
    if contextWindowFor x.model < contextWindowFor y.model then y :: sink x ys
    else x :: y :: ys

/-- `escalateCandidates`. -/
def escalateCandidates (remaining : List Candidate) (minWindow : Int) : List Candidate :=
  let eligible := remaining.filter fun c => minWindow < contextWindowFor c.model
  (eligible.foldl (fun sorted c => sink c sorted) []).reverse

theorem sink_perm (x : Candidate) : ∀ ys : List Candidate, (sink x ys).Perm (x :: ys)
  | [] => Perm.refl _
  | y :: ys => by
    unfold sink
    split
    · exact ((sink_perm x ys).cons y).trans (Perm.swap x y ys)
    · exact Perm.refl _

theorem foldl_sink_perm : ∀ (xs sorted : List Candidate),
    (xs.foldl (fun sorted c => sink c sorted) sorted).Perm (xs ++ sorted)
  | [], _ => Perm.refl _
  | x :: xs, sorted =>
    (foldl_sink_perm xs (sink x sorted)).trans
      (((sink_perm x sorted).append_left xs).trans perm_middle)

theorem escalateCandidates_perm (remaining : List Candidate) (minWindow : Int) :
    (escalateCandidates remaining minWindow).Perm
      (remaining.filter fun c => minWindow < contextWindowFor c.model) := by
  have h := foldl_sink_perm (remaining.filter fun c => minWindow < contextWindowFor c.model) []
  rw [append_nil] at h
  exact (reverse_perm _).trans h

/-- The escalated candidates stand at some of the positions that were left. -/
theorem exists_escalated_positions {ι : Type} (candidate : ι → Candidate) (positions : List ι)
    (minWindow : Int) :
    ∃ left : List ι,
      escalateCandidates (positions.map candidate) minWindow = left.map candidate ∧
        left.Perm (positions.filter fun i => minWindow < contextWindowFor (candidate i).model) := by
  have hperm := escalateCandidates_perm (positions.map candidate) minWindow
  rw [filter_map] at hperm
  obtain ⟨left, hleft, hsame⟩ := perm_comp_forall₂ (r := fun c i => c = candidate i) hperm
    (forall₂_map_left_iff.mpr (forall₂_same.mpr fun _ _ => rfl))
  refine ⟨left, ?_, hsame⟩
  rw [← forall₂_map_right_iff, forall₂_eq_eq_eq] at hleft
  exact hleft

theorem escalateCandidates_length_le (remaining : List Candidate) (minWindow : Int) :
    (escalateCandidates remaining minWindow).length ≤ remaining.length := by
  rw [(escalateCandidates_perm remaining minWindow).length_eq]
  exact length_filter_le _ _

theorem escalateCandidates_subset (remaining : List Candidate) (minWindow : Int) :
    escalateCandidates remaining minWindow ⊆ remaining := by
  intro c hc
  exact mem_of_mem_filter ((escalateCandidates_perm remaining minWindow).mem_iff.mp hc)

/-- What the loop keeps. -/
structure LoopState where
  lastErr : Option GoError := none
  lastCandidate : String := ""
  lastProvider : Option Provider := none
  totalAttempts : Int := 0
  usedFallback : Bool := false

/-- The head of the loop body, at index `i`. -/
def LoopState.enter (st : LoopState) (i : Nat) (c : Candidate) : LoopState :=
  { st with lastCandidate := c.model, usedFallback := st.usedFallback || decide (0 < i) }

/-- A candidate failed after `n` attempts. -/
def LoopState.failed (st : LoopState) (p : Provider) (n : Int) (e : GoError) : LoopState :=
  { st with lastErr := some e, lastProvider := some p, totalAttempts := st.totalAttempts + n }

/-- The candidate loop of `Execute` and `ExecuteStream` from index `i` on, with
the candidates from there on.  `attempt` runs one candidate with its retries. -/
def candidateLoop {σ : Type} (primary : String) (lookup : ProviderLookup)
    (attempt : Provider → σ → Go (σ × Int × Option GoError)) :
    (rest : List Candidate) → (i : Nat) → LoopState → σ → Go (ExecuteResult × Option GoError × σ)
  | [], _, st, s =>
    pure ({ model := st.lastCandidate, provider := st.lastProvider,
            fallbackUsed := st.usedFallback, fallbackFrom := primary,
            attempts := st.totalAttempts }, st.lastErr, s)
  | c :: rest, i, st, s => do
    let st := st.enter i c
    Go.lookup c.model
    match lookup c.model with
    | .error err =>
      candidateLoop primary lookup attempt rest (i + 1) { st with lastErr := some err } s
    | .ok p => do
      let (s, n, err) ← attempt p s
      match err with
      | none =>
        pure ({ provider := some p, model := c.model, fallbackUsed := st.usedFallback,
                fallbackFrom := primary, attempts := st.totalAttempts + n }, none, s)
      | some e =>
        if e.aborted then
          pure ({ provider := some p, model := c.model, attempts := st.totalAttempts + n },
            some e, s)
        else if isContextLengthError e then
          -- The source sets `i = -1` and latches `usedFallback`.
          candidateLoop primary lookup attempt
            (escalateCandidates rest (contextWindowFor c.model)) 0
            { st.failed p n e with usedFallback := true } s
        else
          candidateLoop primary lookup attempt rest (i + 1) (st.failed p n e) s
termination_by rest => rest.length
decreasing_by
  · exact Nat.lt_succ_self _
  · exact Nat.lt_succ_of_le (escalateCandidates_length_le _ _)
  · exact Nat.lt_succ_self _

/-- `Execute`. -/
def execute (decision : RoutingDecision) (req : RequestEnvelope) (lookup : ProviderLookup)
    (cfg : RetryConfig) : Go (ExecuteResult × Option GoError) := do
  let (result, err, response) ← candidateLoop decision.model lookup (chatWithRetry cfg req)
    (orderedCandidates decision) 0 {} none
  pure ({ result with response := response }, err)

/-- `ExecuteStream`. -/
def executeStream {σ : Type} (decision : RoutingDecision) (req : RequestEnvelope)
    (lookup : ProviderLookup) (cfg : RetryConfig) (fn : Callback σ) (s : σ) :
    Go (ExecuteResult × Option GoError × σ) :=
  candidateLoop decision.model lookup (streamWithRetry cfg fn req)
    (orderedCandidates decision) 0 {} s

end Ixr.Routing
