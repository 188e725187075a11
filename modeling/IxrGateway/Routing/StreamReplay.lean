import IxrGateway.Routing.ExecutorRuns

/-!
# Replayed streams

`streamWithRetry` does not repeat an attempt that has written to the client.
`ExecuteStream` does not know what an attempt has written: it goes on to the
next candidate after every error that is not an abort.  So a stream that breaks
off after its first chunk is followed by the whole reply of the next candidate.
-/

namespace Ixr

open Interaction List

/-- The stream has a chunk. -/
def StreamScript.emits : StreamScript → Bool
  | .done _ => false
  | .emit _ _ => true

/-- The error `Stream` returns when the callback answers as the trace says. -/
def StreamScript.outcome : StreamScript → Trace effects → Option GoError
  | .done err, _ => err
  | .emit _ next, ⟨.deliver _, r⟩ :: t => (next r).outcome t
  | .emit _ _, _ => none

namespace Routing

/-! ## Deliveries in a trace -/

/-- A chunk is handed on. -/
def delivers (e : Event effects) : Bool :=
  match e.op with
  | .deliver _ => true
  | _ => false

/-- Some chunk was handed on. -/
def delivered (t : Trace effects) : Bool := t.any delivers

@[simp] theorem delivered_cons (e : Event effects) (t : Trace effects) :
    delivered (e :: t) = (delivers e || delivered t) := rfl

@[simp] theorem delivered_append (t t' : Trace effects) :
    delivered (t ++ t') = (delivered t || delivered t') := any_append

/-- Once the callback has been invoked, no later `Stream` attempt invokes it. -/
def SingleWriter (t : Trace effects) : Prop :=
  ∀ before p req script after, t = before ++ ⟨.stream p req, script⟩ :: after →
    delivered before = true → delivered after = false

variable {t t' : Trace effects} {σ : Type}

theorem singleWriter_of_silent (h : delivered t = false) : SingleWriter t := by
  rintro before p req script after rfl hb
  simp [hb] at h

theorem singleWriter_of_deliveries (h : ∀ e ∈ t, delivers e = true) : SingleWriter t := by
  rintro before p req script after rfl _
  exact absurd (h _ (mem_append_right _ mem_cons_self)) (by simp [delivers])

theorem SingleWriter.append_silent (h : SingleWriter t) (h' : delivered t' = false) :
    SingleWriter (t ++ t') := by
  intro before p req script after heq hb
  obtain ⟨as, rfl, rfl⟩ | ⟨bs, rfl, hbs⟩ := append_eq_append_iff.mp heq
  · simp only [delivered_append, delivered_cons, Bool.or_eq_false_iff] at h'
    exact h'.2.2
  · cases bs with
    | nil =>
      rw [nil_append] at hbs
      rw [← hbs, delivered_cons, Bool.or_eq_false_iff] at h'
      exact h'.2
    | cons b bs =>
      rw [cons_append] at hbs
      obtain ⟨rfl, rfl⟩ := List.cons.inj hbs
      rw [delivered_append, h', h before p req script bs rfl hb, Bool.or_false]

theorem SingleWriter.silent_append (h : delivered t = false) (h' : SingleWriter t') :
    SingleWriter (t ++ t') := by
  intro before p req script after heq hb
  obtain ⟨as, rfl, rfl⟩ | ⟨bs, rfl, _⟩ := append_eq_append_iff.mp heq
  · rw [delivered_append, h, Bool.false_or] at hb
    exact h' as p req script after rfl hb
  · rw [delivered_append, hb, Bool.true_or] at h
    cases h

/-! ## One candidate -/

/-- Every attempt that emits a chunk ends with success, or because the caller gave up. -/
def NoLateFailure (t : Trace effects) : Prop :=
  ∀ before p req script after, t = before ++ ⟨.stream p req, script⟩ :: after →
    StreamScript.emits script = true → ∀ e, StreamScript.outcome script after = some e →
      e.aborted = true

theorem NoLateFailure.of_append (h : NoLateFailure (t ++ t')) : NoLateFailure t' := by
  rintro before p req script after rfl
  exact h (t ++ before) p req script after (append_assoc _ _ _).symm

/-- What the attempts of one candidate leave behind: one writer, and after partial output an error
that is the writer's own.  `t'` is the rest of the run. -/
def Committed (t : Trace effects) (err : Option GoError) : Prop :=
  SingleWriter t ∧ (delivered t = true → ∀ t' e, NoLateFailure (t ++ t') → err = some e →
    e.aborted = true)

variable {err : Option GoError} {lookup : ProviderLookup} {c : Candidate} {cfg : RetryConfig}

theorem committed_of_silent (h : delivered t = false) : Committed t err := by
  refine ⟨singleWriter_of_silent h, fun h' => ?_⟩
  rw [h] at h'
  cases h'

theorem Committed.silent_append (h : delivered t = false) (h' : Committed t' err) :
    Committed (t ++ t') err := by
  refine ⟨h'.1.silent_append h, fun hd t'' e hlate => ?_⟩
  rw [delivered_append, h, Bool.false_or] at hd
  rw [append_assoc] at hlate
  exact h'.2 hd t'' e hlate.of_append

/-- Attempts that end in an error other than an abort have written nothing. -/
theorem Committed.silent_of_not_aborted {e : GoError} (h : Committed t (some e))
    (hlate : NoLateFailure (t ++ t')) (he : e.aborted = false) : delivered t = false := by
  cases hd : delivered t with
  | false => rfl
  | true =>
    have hab := h.2 hd t' e hlate rfl
    rw [he] at hab
    cases hab

theorem playStream_run (fn : Callback σ) : ∀ (script : StreamScript) (wrote : Bool)
    (s : σ), Ensures (playStream fn script wrote s) fun t r =>
      (∀ e ∈ t, delivers e = true) ∧ delivered t = script.emits ∧ r.1 = (wrote || script.emits) ∧
        ∀ t', script.outcome (t ++ t') = r.2.1 := by
  intro script
  induction script with
  | done err =>
    intro wrote s
    exact ensures_ret.mpr ⟨by simp, rfl, (Bool.or_false wrote).symm, fun _ => rfl⟩
  | emit chunk next ih =>
    intro wrote s
    refine ensures_ask.mpr fun r => (ih r true _).mono ?_
    rintro t ⟨final, err, s'⟩ ⟨hall, _, hfinal, hout⟩
    refine ⟨forall_mem_cons.mpr ⟨rfl, hall⟩, rfl, ?_, hout⟩
    rw [hfinal, Bool.true_or, StreamScript.emits, Bool.or_true]

theorem streamOnce_run (fn : Callback σ) (p : Provider) (req : RequestEnvelope) (s : σ) :
    Ensures (streamOnce fn p req s) fun t r => Committed t r.2.1 ∧ r.1 = delivered t := by
  refine ensures_ask.mpr fun script => (playStream_run fn script false s).mono ?_
  rintro t ⟨final, err, s'⟩ ⟨hall, hdel, hfinal, hout⟩
  refine ⟨⟨(singleWriter_of_deliveries hall).silent_append (t := [_]) rfl, ?_⟩, ?_⟩
  · intro hd t' e hlate herr
    refine hlate [] p req script (t ++ t') rfl ?_ e ?_
    · rwa [delivered_cons, hdel] at hd
    · rw [hout t', herr]
  · rw [delivered_cons, hdel, hfinal]
    rfl

theorem retryLoop_committed (cfg : RetryConfig) (fn : Callback σ) (p : Provider)
    (req : RequestEnvelope) : ∀ left i backoff lastErr s,
      Ensures (retryLoop cfg (streamOnce fn p req) left i backoff lastErr s) fun t r =>
        Committed t r.2.2 := by
  intro left
  induction left with
  | zero =>
    intro i backoff lastErr s
    exact ensures_ret.mpr (committed_of_silent rfl)
  | succ left ih =>
    intro i backoff lastErr s
    refine (streamOnce_run fn p req s).bind ?_
    rintro t ⟨final, err, s'⟩ ⟨hcom, hfinal⟩
    cases err with
    | none =>
      refine ensures_ret.mpr ?_
      rwa [append_nil]
    | some e =>
      dsimp only at hfinal ⊢
      split
      · refine ensures_ret.mpr ?_
        rwa [append_nil]
      · next hgo =>
        -- Only an attempt that wrote nothing is repeated.
        simp only [Bool.or_eq_true, not_or, Bool.not_eq_true] at hgo
        have hsilent : delivered t = false := hfinal ▸ hgo.1.1
        split
        · refine ensures_ask.mpr ?_
          rintro (_ | ctxErr)
          · exact (ih _ _ _ _).mono fun t' r h' =>
              (h'.silent_append (t := [_]) rfl).silent_append hsilent
          · exact ensures_ret.mpr
              ((committed_of_silent (t := [_]) rfl).silent_append hsilent)
        · exact (ih _ _ _ _).mono fun t' r h' => h'.silent_append hsilent

theorem streamWithRetry_committed (cfg : RetryConfig) (fn : Callback σ) (req : RequestEnvelope)
    (p : Provider) (s : σ) :
    Ensures (streamWithRetry cfg fn req p s) fun t r => Committed t r.2.2 :=
  retryLoop_committed cfg fn p req _ _ _ _ _

/-! ## The walk over the candidates -/

/-- The candidates with a provider. -/
def resolvable (lookup : ProviderLookup) (candidates : List Candidate) : List Candidate :=
  candidates.filter fun c => (lookup c.model).isOk

theorem resolvable_cons_ok {p : Provider} (h : lookup c.model = .ok p) (rest : List Candidate) :
    resolvable lookup (c :: rest) = c :: resolvable lookup rest := by
  simp [resolvable, h, Except.isOk, Except.toBool]

theorem resolvable_cons_error {err : GoError} (h : lookup c.model = .error err)
    (rest : List Candidate) : resolvable lookup (c :: rest) = resolvable lookup rest := by
  simp [resolvable, h, Except.isOk, Except.toBool]

theorem resolvable_escalate_length_le (lookup : ProviderLookup) (rest : List Candidate)
    (minWindow : Int) :
    (resolvable lookup (escalateCandidates rest minWindow)).length ≤
      (resolvable lookup rest).length := by
  have hperm := (escalateCandidates_perm rest minWindow).filter fun c => (lookup c.model).isOk
  have hsub := (filter_sublist (l := rest)
    (p := fun c => minWindow < contextWindowFor c.model)).filter fun c => (lookup c.model).isOk
  rw [resolvable, hperm.length_eq]
  exact hsub.length_le

section

variable {σ : Type} {primary : String} {lookup : ProviderLookup}
  {attempt : Provider → σ → Go (σ × Int × Option GoError)}

variable {rest : List Candidate} {i : Nat} {st : LoopState} {s : σ} {t : Trace effects}
  {r : ExecuteResult × Option GoError × σ}

theorem Walk.silent (h : Walk primary lookup attempt rest i st s t r)
    (hnone : resolvable lookup rest = []) : delivered t = false := by
  induction h with
  | exhausted => rfl
  | skip hl _ ih => exact ih (resolvable_cons_error hl _ ▸ hnone)
  | success hl _ | abort hl _ _ | escalate hl _ _ _ _ _ | next hl _ _ _ _ _ =>
    rw [resolvable_cons_ok hl] at hnone
    cases hnone

/-- With one provider at most, only its attempts can write. -/
theorem Walk.singleWriter_of_resolvable_le_one
    (hattempt : ∀ p s, Ensures (attempt p s) fun t r => Committed t r.2.2)
    (h : Walk primary lookup attempt rest i st s t r) (hone : (resolvable lookup rest).length ≤ 1) :
    SingleWriter t := by
  induction h with
  | exhausted => exact singleWriter_of_silent rfl
  | skip hl _ ih =>
    rw [resolvable_cons_error hl] at hone
    exact (ih hone).silent_append (t := [_]) rfl
  | success _ ha | abort _ ha => exact (hattempt _ _ _ _ ha).1.silent_append (t := [_]) rfl
  | @escalate c rest _ _ _ _ _ _ _ _ _ _ hl ha _ _ hw _ =>
    rw [resolvable_cons_ok hl, length_cons] at hone
    have hle := resolvable_escalate_length_le lookup rest (contextWindowFor c.model)
    have hnone := eq_nil_of_length_eq_zero (by omega :
      (resolvable lookup (escalateCandidates rest (contextWindowFor c.model))).length = 0)
    exact ((hattempt _ _ _ _ ha).1.append_silent (hw.silent hnone)).silent_append (t := [_]) rfl
  | @next c rest _ _ _ _ _ _ _ _ _ _ hl ha _ _ hw _ =>
    rw [resolvable_cons_ok hl, length_cons] at hone
    have hnone := eq_nil_of_length_eq_zero (by omega : (resolvable lookup rest).length = 0)
    exact ((hattempt _ _ _ _ ha).1.append_silent (hw.silent hnone)).silent_append (t := [_]) rfl

/-- If no attempt breaks off after partial output, the loop stops at the one that writes. -/
theorem Walk.singleWriter_of_noLateFailure
    (hattempt : ∀ p s, Ensures (attempt p s) fun t r => Committed t r.2.2)
    (h : Walk primary lookup attempt rest i st s t r) (hlate : NoLateFailure t) :
    SingleWriter t := by
  induction h with
  | exhausted => exact singleWriter_of_silent rfl
  | skip hl _ ih =>
    have htail := hlate.of_append (t := [_])
    exact (ih htail).silent_append (t := [_]) rfl
  | success _ ha | abort _ ha => exact (hattempt _ _ _ _ ha).1.silent_append (t := [_]) rfl
  | escalate hl ha hab _ _ ih | next hl ha hab _ _ ih =>
    have htail := hlate.of_append (t := [_])
    have hsilent := (hattempt _ _ _ _ ha).silent_of_not_aborted htail hab
    exact ((ih htail.of_append).silent_append hsilent).silent_append (t := [_]) rfl

theorem exists_walk_replaying {req : RequestEnvelope} {e : GoError} (hab : e.aborted = false)
    (hctx : isContextLengthError e = false)
    (hwrite : ∀ p s, ∃ script t s' n,
      Runs (attempt p s) (⟨.stream p req, script⟩ :: t) (s', n, some e) ∧ delivered t = true) :
    ∀ rest i st s, ∃ t r, Walk primary lookup attempt rest i st s t r ∧
      (resolvable lookup rest ≠ [] → ∃ before p script after,
        t = before ++ ⟨.stream p req, script⟩ :: after ∧ delivered after = true) ∧
      (SingleWriter t → (resolvable lookup rest).length ≤ 1) := by
  intro rest
  induction rest with
  | nil =>
    intro i st s
    exact ⟨_, _, .exhausted, fun h => absurd rfl h, fun _ => Nat.zero_le 1⟩
  | cons c rest ih =>
    intro i st s
    cases hl : lookup c.model with
    | error err =>
      obtain ⟨t, r, hw, hsome, htwo⟩ := ih (i + 1) { st.enter i c with lastErr := some err } s
      rw [resolvable_cons_error hl]
      refine ⟨_, r, .skip hl hw, fun hne => ?_, fun hsingle => htwo ?_⟩
      · obtain ⟨before, p, script, after, rfl, hd⟩ := hsome hne
        exact ⟨_ :: before, p, script, after, rfl, hd⟩
      · rintro before p req script after rfl
        exact hsingle (_ :: before) p req script after rfl
    | ok p =>
      obtain ⟨script, t, s', n, ha, hd⟩ := hwrite p s
      obtain ⟨t', r, hw, hsome, _⟩ := ih (i + 1) ((st.enter i c).failed p n e) s'
      rw [resolvable_cons_ok hl]
      refine ⟨_, r, .next hl ha hab hctx hw, fun _ => ?_, fun hsingle => ?_⟩
      · refine ⟨[_], p, script, t ++ t', rfl, ?_⟩
        rw [delivered_append, hd, Bool.true_or]
      · by_contra hlen
        have hne : resolvable lookup rest ≠ [] := by
          intro hnil
          simp [hnil] at hlen
        -- The second writer comes after the first one's chunks.
        obtain ⟨before, q, script', after, rfl, hd'⟩ := hsome hne
        have hagain := hsingle
          (⟨.lookup c.model, ()⟩ :: ⟨.stream p req, script⟩ :: (t ++ before)) q req script'
          after (by simp) (by simp [hd])
        rw [hd'] at hagain
        cases hagain

end

/-! ## `executeStream` -/

def connectionLost : GoError := { msg := "openai: unexpected EOF" }

def brokenOff (chunk : StreamChunk) : StreamScript :=
  .emit chunk fun err => .done (some (err.getD connectionLost))

theorem streamWithRetry_brokenOff (h : 1 ≤ cfg.maxAttempts) (fn : Callback σ)
    (req : RequestEnvelope) (p : Provider) (s : σ) (chunk : StreamChunk) :
    Runs (streamWithRetry cfg fn req p s)
      [⟨.stream p req, brokenOff chunk⟩, ⟨.deliver (fn.relabel chunk), none⟩]
      (fn.record chunk none s, 1, some connectionLost) :=
  withRetry_stop h (.ask (.ask .ret)) rfl

def oneChunk (chunk : StreamChunk) : StreamScript :=
  .emit chunk fun err => .done err

theorem streamWithRetry_finishes (h : 1 ≤ cfg.maxAttempts) (fn : Callback σ)
    (req : RequestEnvelope) (p : Provider) (s : σ) (chunk : StreamChunk) :
    Runs (streamWithRetry cfg fn req p s)
      [⟨.stream p req, oneChunk chunk⟩, ⟨.deliver (fn.relabel chunk), none⟩]
      (fn.record chunk none s, 1, none) :=
  withRetry_success h (.ask (.ask .ret))

theorem isContextLengthError_connectionLost : isContextLengthError connectionLost = false := by
  decide

/-- Whatever the providers do, the client sees the chunks of one attempt only, just when no attempts
are allowed or one candidate at most has a provider.  With more, it does as long as no attempt fails
after partial output. -/
theorem executeStream_singleWriter_iff {σ : Type} (decision : RoutingDecision)
    (req : RequestEnvelope) (lookup : ProviderLookup) (cfg : RetryConfig) (fn : Callback σ)
    (s : σ) :
    (Ensures (executeStream decision req lookup cfg fn s) (fun t _ => SingleWriter t) ↔
      cfg.maxAttempts ≤ 0 ∨ (resolvable lookup (orderedCandidates decision)).length ≤ 1) ∧
    Ensures (executeStream decision req lookup cfg fn s)
      fun t _ => NoLateFailure t → SingleWriter t := by
  have hattempt := streamWithRetry_committed cfg fn req
  simp only [Ensures, executeStream, runs_candidateLoop_iff]
  refine ⟨⟨fun h => ?_, ?_⟩, fun t r hw => hw.singleWriter_of_noLateFailure hattempt⟩
  · by_cases hmax : cfg.maxAttempts ≤ 0
    · exact .inl hmax
    · have hone : 1 ≤ cfg.maxAttempts := by omega
      obtain ⟨t, r, hw, _, htwo⟩ := exists_walk_replaying rfl isContextLengthError_connectionLost
        (fun p s => ⟨_, _, _, _, streamWithRetry_brokenOff hone fn req p s default, rfl⟩)
        (orderedCandidates decision) 0 {} s
      exact .inr (htwo (h t r hw))
  · rintro (hmax | hone) t r hw
    · have hsilent := hw.emits (P := fun e => delivers e = false)
        (fun p s => by rw [streamWithRetry, withRetry_of_nonpos hmax]; exact emits_ret)
        (fun _ => rfl)
      exact singleWriter_of_silent (any_eq_false.mpr (by simpa using hsilent))
    · exact hw.singleWriter_of_resolvable_le_one hattempt hone

/-! ## A reply written twice -/

def hello : StreamChunk := { delta := { role := "assistant", content := "Hel" } }

/-- OpenAI's connection breaks after the first chunk, and Anthropic's reply is written after it. -/
theorem fallback_writes_after_partial_output :
    ¬ Ensures (executeStream gptThenClaude gptRequest twoProviders defaultRetryConfig
        (⟨fun _ _ s => s, id⟩ : Callback Unit) ())
      (fun t _ => SingleWriter t) := by
  intro h
  have hmax : 1 ≤ defaultRetryConfig.maxAttempts := by decide
  have hgpt : twoProviders "gpt-5.2" = .ok ⟨0, "openai"⟩ := by decide
  have hclaude : twoProviders "claude-sonnet-4-6" = .ok ⟨1, "anthropic"⟩ := by decide
  have hsingle := h _ _ (Walk.runs (.next hgpt
    (streamWithRetry_brokenOff hmax _ gptRequest _ () hello) rfl
    isContextLengthError_connectionLost
    (.success hclaude (streamWithRetry_finishes hmax _ gptRequest _ _ hello))))
  have hagain := hsingle [_, _, _, _] ⟨1, "anthropic"⟩ gptRequest _ _ rfl rfl
  exact absurd hagain (by decide)

end Routing

end Ixr
