import IxrGateway.Routing.StreamReplay

/-!
# The provider calls of a run

What a trace says about the calls to providers: whom they went to, whether they
reached the client, and how they ended.  Calls of `Chat` and of `Stream` read
the same, so a fact about the attempts of a candidate holds for both.
-/

namespace Ixr.Routing

open Interaction List

/-- A call to a provider as its caller sees it. -/
structure Called where
  provider : Provider
  /-- A chunk was handed to the callback. -/
  wrote : Bool
  err : Option GoError

/-- The error of a `Chat` call. -/
def chatErr : Except GoError ResponseEnvelope → Option GoError
  | .ok _ => none
  | .error e => some e

/-- The calls in a trace. -/
def calls : Trace effects → List Called
  | [] => []
  | ⟨.chat p _, r⟩ :: t => ⟨p, false, chatErr r⟩ :: calls t
  | ⟨.stream p _, script⟩ :: t =>
    ⟨p, StreamScript.emits script, StreamScript.outcome script t⟩ :: calls t
  | _ :: t => calls t

/-- How the waits ended. -/
def waits : Trace effects → List (Option CtxErr)
  | [] => []
  | ⟨.backoff _, r⟩ :: t => r :: waits t
  | _ :: t => waits t

/-- The event is neither a lookup nor a call nor a wait. -/
def Silent (e : Event effects) : Prop :=
  match e.op with
  | .lookup _ | .chat _ _ | .stream _ _ | .backoff _ => False
  | _ => True

theorem calls_silent : ∀ {t : Trace effects} (u : Trace effects), (∀ e ∈ t, Silent e) →
    calls (t ++ u) = calls u
  | [], _, _ => rfl
  | ⟨o, r⟩ :: t, u, h => by
    obtain ⟨he, ht⟩ := forall_mem_cons.mp h
    have ih := calls_silent u ht
    cases o with
    | lookup | chat | stream | backoff => exact False.elim he
    | _ => exact ih

theorem waits_silent : ∀ {t : Trace effects} (u : Trace effects), (∀ e ∈ t, Silent e) →
    waits (t ++ u) = waits u
  | [], _, _ => rfl
  | ⟨o, r⟩ :: t, u, h => by
    obtain ⟨he, ht⟩ := forall_mem_cons.mp h
    have ih := waits_silent u ht
    cases o with
    | lookup | chat | stream | backoff => exact False.elim he
    | _ => exact ih

theorem silent_of_delivers {e : Event effects} (h : delivers e = true) : Silent e := by
  obtain ⟨o, r⟩ := e
  cases o with
  | deliver _ => trivial
  | _ => cases h

/-! ## One attempt -/

/-- Every run of `call` makes one call to `p`, and reports what it made. -/
def CallsOnce {σ : Type} (p : Provider) (call : σ → Go (Bool × Option GoError × σ)) : Prop :=
  ∀ s, Ensures (call s) fun t r => (∀ e ∈ t, ∀ m, e.op ≠ .lookup m) ∧
    (∀ u, calls (t ++ u) = ⟨p, r.1, r.2.1⟩ :: calls u) ∧ ∀ u, waits (t ++ u) = waits u

theorem chatOnce_callsOnce (p : Provider) (req : RequestEnvelope) :
    CallsOnce p (chatOnce p req) := by
  intro s
  refine ensures_ask.mpr ?_
  rintro (e | resp)
  · exact ensures_ret.mpr ⟨by simp, fun _ => rfl, fun _ => rfl⟩
  · exact ensures_ret.mpr ⟨by simp, fun _ => rfl, fun _ => rfl⟩

theorem chatOnce_silent (p : Provider) (req : RequestEnvelope) (s : Option ResponseEnvelope) :
    Ensures (chatOnce p req s) fun _ r => r.1 = false := by
  refine ensures_ask.mpr ?_
  rintro (e | resp)
  · exact ensures_ret.mpr rfl
  · exact ensures_ret.mpr rfl

variable {σ : Type} {p : Provider} {n : Nat} {lastErr err : Option GoError}

theorem streamOnce_callsOnce (fn : Callback σ) (p : Provider) (req : RequestEnvelope) :
    CallsOnce p (streamOnce fn p req) := by
  intro s
  refine ensures_ask.mpr fun script => (playStream_run fn script false s).mono ?_
  rintro t ⟨final, err, s'⟩ ⟨hall, _, hfinal, hout⟩
  have hsilent : ∀ e ∈ t, Silent e := fun e he => silent_of_delivers (hall e he)
  refine ⟨?_, fun u => ?_, fun u => waits_silent (t := t) u hsilent⟩
  · rintro e he m hm
    obtain rfl | he := mem_cons.mp he
    · cases hm
    · have := hsilent e he
      rw [Silent, hm] at this
      exact this
  · rw [cons_append, calls, calls_silent u hsilent, hout u, hfinal, Bool.false_or]

/-! ## The attempts of one candidate -/

theorem CtxErr.aborted_toError (c : CtxErr) : c.toError.aborted = true := by
  cases c with
  | canceled | deadlineExceeded => rfl

/-- At most `n` attempts on a provider, after one that failed with `lastErr`.  They make calls to
the provider only.  The error they end with is that of the last call unless the caller gave up. -/
structure AttemptsOn (p : Provider) (n : Nat) (lastErr : Option GoError) (t : Trace effects)
    (err : Option GoError) : Prop where
  noLookup : ∀ e ∈ t, ∀ m, e.op ≠ .lookup m
  whole : ∀ u, calls (t ++ u) = calls t ++ calls u
  onProvider : ∀ c ∈ calls t, c.provider = p
  bounded : (calls t).length ≤ n
  last : ∀ e, err = some e → e.aborted = false →
    calls t = [] ∧ lastErr = some e ∨
      ∃ earlier wrote, calls t = earlier ++ [⟨p, wrote, some e⟩]

theorem attemptsOn_nil (h : ∀ e, err = some e → e.aborted = false → lastErr = some e) :
    AttemptsOn p n lastErr [] err where
  noLookup := by simp
  whole := fun _ => rfl
  onProvider := by simp [calls]
  bounded := Nat.zero_le n
  last := fun e herr hab => .inl ⟨rfl, h e herr hab⟩

variable {t : Trace effects} {cfg : RetryConfig} {call : σ → Go (Bool × Option GoError × σ)}

theorem AttemptsOn.wait (h : AttemptsOn p n lastErr t err) (d : Int) (r : Option CtxErr) :
    AttemptsOn p n lastErr (⟨.backoff d, r⟩ :: t) err where
  noLookup := forall_mem_cons.mpr ⟨by simp, h.noLookup⟩
  whole := h.whole
  onProvider := h.onProvider
  bounded := h.bounded
  last := h.last

theorem AttemptsOn.cons {first : Option GoError} {t' : Trace effects} {wrote : Bool}
    (hlookup : ∀ e ∈ t, ∀ m, e.op ≠ .lookup m)
    (hcalls : ∀ u, calls (t ++ u) = ⟨p, wrote, first⟩ :: calls u)
    (h : AttemptsOn p n first t' err) : AttemptsOn p (n + 1) lastErr (t ++ t') err where
  noLookup := forall_mem_append.mpr ⟨hlookup, h.noLookup⟩
  whole := fun u => by
    rw [append_assoc, hcalls, hcalls, h.whole, cons_append]
  onProvider := by
    rw [hcalls]
    exact forall_mem_cons.mpr ⟨rfl, h.onProvider⟩
  bounded := by
    rw [hcalls]
    exact Nat.succ_le_succ h.bounded
  last := fun e herr hab => .inr <| by
    rw [hcalls]
    obtain ⟨hnone, rfl⟩ | ⟨earlier, wrote', heq⟩ := h.last e herr hab
    · exact ⟨[], wrote, by rw [hnone, nil_append]⟩
    · exact ⟨_ :: earlier, wrote', by rw [heq, cons_append]⟩

theorem retryLoop_attempts (hcall : CallsOnce p call) :
    ∀ left i backoff lastErr s, Ensures (retryLoop cfg call left i backoff lastErr s) fun t r =>
      AttemptsOn p left lastErr t r.2.2 := by
  intro left
  induction left with
  | zero =>
    intro i backoff lastErr s
    exact ensures_ret.mpr (attemptsOn_nil fun _ herr _ => herr)
  | succ left ih =>
    intro i backoff lastErr s
    refine (hcall s).bind ?_
    rintro t ⟨wrote, err, s'⟩ ⟨hlookup, hcalls, _⟩
    have hcons {t' : Trace effects} {err' : Option GoError} (h : AttemptsOn p left err t' err') :
        AttemptsOn p (left + 1) lastErr (t ++ t') err' := .cons hlookup hcalls h
    cases err with
    | none => exact ensures_ret.mpr (hcons (attemptsOn_nil fun _ herr _ => herr))
    | some e =>
      dsimp only
      split
      · exact ensures_ret.mpr (hcons (attemptsOn_nil fun _ herr _ => herr))
      · split
        · rw [Prog.perform_bind, ensures_ask]
          rintro (_ | ctxErr)
          · exact (ih _ _ _ _).mono fun t' r h => hcons (h.wait _ _)
          · refine ensures_ret.mpr (hcons ((attemptsOn_nil ?_).wait _ _))
            rintro _ ⟨⟩ hab
            rw [CtxErr.aborted_toError] at hab
            cases hab
        · exact (ih _ _ _ _).mono fun t' r h => hcons h

theorem withRetry_attempts (hcall : CallsOnce p call) (s : σ) :
    Ensures (withRetry cfg call s) fun t r => AttemptsOn p cfg.maxAttempts.toNat none t r.2.2 :=
  retryLoop_attempts hcall _ _ _ _ _

end Ixr.Routing
