import IxrGateway.Routing.ExecutorRuns

/-!
# What the executor reports about fallbacks

An `ExecuteResult` says whether a fallback served the request, and which model
it stood in for.  A run looks each candidate up once, so the lookups of a trace
say which positions of `orderedCandidates` the run went through
(`Walk.visits`).  The flag is right on success.  On success the companion field
is set in any case, and on cancellation neither is (`Walk.exit`).
-/

namespace Ixr.Routing

open Interaction List

/-! ## The positions of a run -/

/-- The model that is looked up. -/
def lookedUp (e : Event effects) : Option String :=
  match e.op with
  | .lookup model => some model
  | _ => none

/-- The models that are looked up. -/
def lookups (t : Trace effects) : List String := t.filterMap lookedUp

theorem lookups_cons (model : String) (t : Trace effects) :
    lookups (⟨.lookup model, ()⟩ :: t) = model :: lookups t := rfl

theorem lookups_append (t t' : Trace effects) : lookups (t ++ t') = lookups t ++ lookups t' :=
  filterMap_append

/-- The attempts on a candidate look nothing up. -/
def Quiet {σ : Type} (attempt : Provider → σ → Go (σ × Int × Option GoError)) : Prop :=
  ∀ p s, Emits (attempt p s) fun e => lookedUp e = none

variable {σ : Type} {attempt : Provider → σ → Go (σ × Int × Option GoError)} {s : σ}
  {t : Trace effects} {lookup : ProviderLookup} {primary : String} {rest : List Candidate} {i : Nat}
  {st : LoopState} {r : ExecuteResult × Option GoError × σ}

variable {p : Provider} {positions : List Nat} {c : Candidate} {position : Nat}

theorem Quiet.lookups_eq (h : Quiet attempt) {r : σ × Int × Option GoError}
    (hrun : Runs (attempt p s) t r) : lookups t = [] :=
  filterMap_eq_nil_iff.mpr (h p s t r hrun)

theorem Quiet.lookups_call (h : Quiet attempt) {r : σ × Int × Option GoError}
    (hrun : Runs (attempt p s) t r) (model : String) (t' : Trace effects) :
    lookups (⟨.lookup model, ()⟩ :: (t ++ t')) = model :: lookups t' := by
  rw [lookups_cons, lookups_append, h.lookups_eq hrun, nil_append]

theorem not_resolves_of_error {model : String} {err : GoError} (h : lookup model = .error err) :
    ¬ Resolves lookup model := by
  rintro ⟨p, hp⟩
  rw [h] at hp
  cases hp

theorem chatWithRetry_quiet (cfg : RetryConfig) (req : RequestEnvelope) :
    Quiet (chatWithRetry cfg req) := by
  intro p s
  apply withRetry_emits
  · intro s
    apply emits_ask
    · intro r
      rfl
    · rintro (e | resp)
      · exact emits_ret
      · exact emits_ret
  · intro d r
    rfl

theorem streamWithRetry_quiet (cfg : RetryConfig) (fn : Callback σ) (req : RequestEnvelope) :
    Quiet (streamWithRetry cfg fn req) := by
  intro p s
  apply withRetry_emits
  · intro s
    apply emits_ask
    · intro r
      rfl
    · intro script
      apply playStream_emits
      intro chunk r
      rfl
  · intro d r
    rfl

theorem visited_cons {k : Nat} {visited : List Nat} (hk : k ∉ positions) (hnodup : visited.Nodup)
    (hsub : visited ⊆ positions) : (k :: visited).Nodup ∧ k :: visited ⊆ k :: positions :=
  ⟨hnodup.cons fun hmem => hk (hsub hmem), cons_subset_cons _ hsub⟩

theorem Walk.visits (hquiet : Quiet attempt) (h : Walk primary lookup attempt rest i st s t r)
    (candidate : Nat → Candidate) (hnodup : positions.Nodup)
    (hrest : rest = positions.map candidate) :
    ∃ visited : List Nat, visited.Nodup ∧ visited ⊆ positions ∧
      visited.head? = positions.head? ∧
      lookups t = visited.map fun k => (candidate k).model := by
  induction h generalizing positions with
  | exhausted =>
    have hnil : positions = [] := map_eq_nil_iff.mp hrest.symm
    exact ⟨[], .nil, nil_subset _, by rw [hnil], rfl⟩
  | skip _ _ ih =>
    obtain ⟨k, later, rfl, rfl, rfl⟩ := map_eq_cons_iff.mp hrest.symm
    obtain ⟨hk, hlater⟩ := nodup_cons.mp hnodup
    obtain ⟨visited, hv, hsub, _, heq⟩ := ih hlater rfl
    obtain ⟨hv', hsub'⟩ := visited_cons hk hv hsub
    exact ⟨k :: visited, hv', hsub', rfl, by rw [lookups_cons, heq, map_cons]⟩
  | success _ ha | abort _ ha _ =>
    obtain ⟨k, later, rfl, rfl, rfl⟩ := map_eq_cons_iff.mp hrest.symm
    refine ⟨[k], nodup_singleton k, ?_, rfl, ?_⟩
    · exact cons_subset_cons _ (nil_subset _)
    · rw [lookups_cons, hquiet.lookups_eq ha, map_singleton]
  | next _ ha _ _ _ ih =>
    obtain ⟨k, later, rfl, rfl, rfl⟩ := map_eq_cons_iff.mp hrest.symm
    obtain ⟨hk, hlater⟩ := nodup_cons.mp hnodup
    obtain ⟨visited, hv, hsub, _, heq⟩ := ih hlater rfl
    obtain ⟨hv', hsub'⟩ := visited_cons hk hv hsub
    exact ⟨k :: visited, hv', hsub', rfl, by rw [hquiet.lookups_call ha, heq, map_cons]⟩
  | escalate _ ha _ _ _ ih =>
    obtain ⟨k, later, rfl, rfl, rfl⟩ := map_eq_cons_iff.mp hrest.symm
    obtain ⟨hk, hlater⟩ := nodup_cons.mp hnodup
    obtain ⟨escalated, hesc, hperm⟩ :=
      exists_escalated_positions candidate later (contextWindowFor (candidate k).model)
    have hsub : escalated ⊆ later := fun j hj => mem_of_mem_filter (hperm.subset hj)
    obtain ⟨visited, hv, hvisited, _, heq⟩ := ih (hperm.nodup_iff.mpr (hlater.filter _)) hesc
    obtain ⟨hv', hsub'⟩ := visited_cons hk hv (List.Subset.trans hvisited hsub)
    exact ⟨k :: visited, hv', hsub', rfl, by rw [hquiet.lookups_call ha, heq, map_cons]⟩

/-! ## How a walk ends -/

/-- What is reported at the end of a walk, given the model that was looked up last and whether
other candidates came before it. -/
inductive Exit (primary : String) (lookup : ProviderLookup) (later : Bool) (model : String)
    (result : ExecuteResult) : Option GoError → Prop where
  | reported {err : Option GoError} :
      (∀ e, err = some e → e.aborted = true ∧ ¬ Resolves lookup model) →
      result.fallbackUsed = later → result.fallbackFrom = primary →
      Exit primary lookup later model result err
  /-- The candidate was running when the request was cancelled. -/
  | cancelled {e : GoError} :
      e.aborted = true → Resolves lookup model →
      result.fallbackUsed = false → result.fallbackFrom = "" →
      Exit primary lookup later model result (some e)
  /-- All candidates failed. -/
  | failed {e : GoError} : e.aborted = false → Exit primary lookup later model result (some e)

theorem LoopState.enter_usedFallback (h : 0 < i ∨ st.usedFallback = true) (c : Candidate) :
    (st.enter i c).usedFallback = true := by
  rcases h with h | h
  · simp [LoopState.enter, h]
  · simp [LoopState.enter, h]

/-- A walk that comes after a candidate, whose model is given.  An error that was left there is no
cancellation of a call. -/
theorem Walk.exit (hquiet : Quiet attempt) (h : Walk primary lookup attempt rest i st s t r)
    (hlater : 0 < i ∨ st.usedFallback = true) (model : String) {last : GoError}
    (hlast : st.lastErr = some last) (habort : last.aborted = true → ¬ Resolves lookup model) :
    Exit primary lookup (st.usedFallback || !(lookups t).isEmpty) ((lookups t).getLastD model)
      r.1 r.2.1 := by
  induction h generalizing model last with
  | exhausted =>
    show Exit primary lookup (_ || false) model _ _
    rw [Bool.or_false, hlast]
    cases hab : last.aborted with
    | true =>
      refine .reported ?_ rfl rfl
      intro e he
      cases he
      exact ⟨hab, habort hab⟩
    | false => exact .failed hab
  | @skip c rest i st s err t r hl _ ih =>
    have hused := LoopState.enter_usedFallback hlater c
    have hexit := ih (.inl (Nat.succ_pos i)) c.model rfl fun _ => not_resolves_of_error hl
    rw [lookups_cons, getLastD_cons]
    simpa [hused] using hexit
  | @success c rest i st s s' p n t hl ha =>
    have hused := LoopState.enter_usedFallback hlater c
    rw [lookups_cons, hquiet.lookups_eq ha]
    refine .reported ?_ ?_ rfl
    · intro e he
      cases he
    · simp [hused]
  | @abort c rest i st s s' p n e t hl ha hab =>
    rw [lookups_cons, hquiet.lookups_eq ha]
    exact .cancelled hab ⟨p, hl⟩ rfl rfl
  | @escalate c rest i st s s' p n e t t' r hl ha hab hctx _ ih =>
    have hexit := ih (.inr rfl) c.model rfl fun h => absurd (hab.symm.trans h) Bool.false_ne_true
    rw [hquiet.lookups_call ha, getLastD_cons]
    simpa using hexit
  | @next c rest i st s s' p n e t t' r hl ha hab hctx _ ih =>
    have hused := LoopState.enter_usedFallback hlater c
    have hexit := ih (.inl (Nat.succ_pos i)) c.model rfl
      fun h => absurd (hab.symm.trans h) Bool.false_ne_true
    rw [hquiet.lookups_call ha, getLastD_cons]
    simpa [LoopState.failed, hused] using hexit

theorem Walk.err_of_lookups_eq_nil (h : Walk primary lookup attempt rest i st s t r)
    (hnone : lookups t = []) : r.2.1 = st.lastErr := by
  cases h with
  | exhausted => rfl
  | skip _ _ | success _ _ | abort _ _ _ | escalate _ _ _ _ _ | next _ _ _ _ _ => cases hnone

theorem Walk.exit_first (hquiet : Quiet attempt)
    (h : Walk primary lookup attempt (c :: rest) 0 {} s t r) :
    ∃ later : List String, lookups t = c.model :: later ∧
      Exit primary lookup (!later.isEmpty) (later.getLastD c.model) r.1 r.2.1 := by
  cases h with
  | @skip _ _ _ _ _ err t r hl hw =>
    refine ⟨lookups t, lookups_cons _ _, ?_⟩
    exact hw.exit hquiet (.inl Nat.one_pos) c.model rfl fun _ => not_resolves_of_error hl
  | success hl ha =>
    refine ⟨[], ?_, .reported ?_ rfl rfl⟩
    · rw [lookups_cons, hquiet.lookups_eq ha]
    · intro e he
      cases he
  | @abort _ _ _ _ _ s' p n e t hl ha hab =>
    refine ⟨[], ?_, .cancelled hab ⟨p, hl⟩ rfl rfl⟩
    rw [lookups_cons, hquiet.lookups_eq ha]
  | @next _ _ _ _ _ s' p n e t t' r hl ha hab hctx hw =>
    refine ⟨lookups t', hquiet.lookups_call ha _ _, ?_⟩
    exact hw.exit hquiet (.inl Nat.one_pos) c.model rfl fun h =>
      absurd (hab.symm.trans h) Bool.false_ne_true
  | @escalate _ _ _ _ _ s' p n e t t' r hl ha hab hctx hw =>
    refine ⟨lookups t', hquiet.lookups_call ha _ _, ?_⟩
    cases hnone : lookups t' with
    | nil =>
      -- no candidate has a larger window, so the error is the overflow
      rw [hw.err_of_lookups_eq_nil hnone]
      exact .failed hab
    | cons m ms =>
      have hexit := hw.exit hquiet (.inr rfl) c.model rfl fun h =>
        absurd (hab.symm.trans h) Bool.false_ne_true
      rw [hnone] at hexit
      exact hexit

/-! ## Truthful reports -/

/-- The positions of the lookups. -/
structure Visits (ordered : List Candidate) (t : Trace effects) (positions : List Nat) : Prop where
  nodup : positions.Nodup
  first : positions.head? = some 0
  models : positions.map (fun k => (ordered[k]?).map Candidate.model) = (lookups t).map some

/-- The report about a request whose last candidate stood at the given position. -/
def Truthful (primary : String) (position : Nat) (result : ExecuteResult) : Prop :=
  (result.fallbackUsed = true ↔ position ≠ 0) ∧
    result.fallbackFrom = if result.fallbackUsed then primary else ""

/-- A candidate has failed. -/
def Running (lookup : ProviderLookup) (c : Candidate) (err : Option GoError) : Prop :=
  err ≠ none ∧ Resolves lookup c.model

theorem Exit.truthful_iff {result : ExecuteResult} {err : Option GoError}
    (h : Exit primary lookup (decide (position ≠ 0)) c.model result err)
    (hend : ∀ e, err = some e → e.aborted = true) :
    Truthful primary position result ↔
      (Running lookup c err → position = 0) ∧
        (¬ Running lookup c err → position ≠ 0 ∨ primary = "") := by
  cases h with
  | reported herr hused hfrom =>
    have hidle : ¬ Running lookup c err := by
      rintro ⟨hne, hres⟩
      obtain ⟨e, rfl⟩ := Option.ne_none_iff_exists'.mp hne
      exact (herr e rfl).2 hres
    rw [Truthful, hused, hfrom]
    constructor
    · rintro ⟨-, hcompanion⟩
      refine ⟨fun hrun => absurd hrun hidle, fun _ => ?_⟩
      rcases eq_or_ne position 0 with rfl | hpos
      · exact .inr hcompanion
      · exact .inl hpos
    · rintro ⟨-, hright⟩
      refine ⟨decide_eq_true_iff, ?_⟩
      rcases eq_or_ne position 0 with rfl | hpos
      · exact (hright hidle).resolve_left fun h => h rfl
      · rw [if_pos (decide_eq_true hpos)]
  | @cancelled e hab hres hused hfrom =>
    have hrunning : Running lookup c (some e) := ⟨Option.some_ne_none e, hres⟩
    rw [Truthful, hused, hfrom]
    constructor
    · rintro ⟨hflag, -⟩
      refine ⟨fun _ => ?_, fun hidle => absurd hrunning hidle⟩
      exact not_not.mp fun hpos => Bool.false_ne_true (hflag.mpr hpos)
    · rintro ⟨hzero, -⟩
      refine ⟨⟨?_, ?_⟩, rfl⟩
      · intro h
        exact absurd h Bool.false_ne_true
      · intro hpos
        exact absurd (hzero hrunning) hpos
  | failed hab => exact absurd (hab.symm.trans (hend _ rfl)) Bool.false_ne_true

/-- A run ended at a position for which its report is right exactly if a running candidate that was
cancelled stood first, and any other did not.  A decision without a model makes no difference. -/
def TruthfulExactly (decision : RoutingDecision) (lookup : ProviderLookup) (t : Trace effects)
    (result : ExecuteResult) (err : Option GoError) : Prop :=
  ∃ before position c, Visits (orderedCandidates decision) t (before ++ [position]) ∧
    (orderedCandidates decision)[position]? = some c ∧
    (Truthful decision.model position result ↔
      (Running lookup c err → position = 0) ∧
        (¬ Running lookup c err → position ≠ 0 ∨ decision.model = ""))

/-- Positions without repeats that start at the first one end there only if they are just that
one. -/
theorem last_ne_zero_iff {before : List Nat} (hnodup : (before ++ [position]).Nodup)
    (hfirst : (before ++ [position]).head? = some 0) : position ≠ 0 ↔ before ≠ [] := by
  cases before with
  | nil =>
    have hzero : position = 0 := Option.some_inj.mp hfirst
    exact ⟨fun h => absurd hzero h, fun h => absurd rfl h⟩
  | cons k before =>
    have hk : k = 0 := Option.some_inj.mp hfirst
    have hne : k ≠ position := by
      rintro rfl
      rw [cons_append, nodup_cons] at hnodup
      exact hnodup.1 (mem_append_right _ mem_cons_self)
    rw [hk] at hne
    exact ⟨fun _ => cons_ne_nil _ _, fun _ => hne.symm⟩

theorem map_getD_range (ordered : List Candidate) :
    ((range ordered.length).map fun k => ordered.getD k default) = ordered := by
  apply ext_getElem
  · rw [length_map, length_range]
  · intro k _ hk
    rw [getElem_map, getElem_range, getD_eq_getElem _ _ hk]

theorem Walk.truthful_iff {decision : RoutingDecision} (hquiet : Quiet attempt)
    (h : Walk decision.model lookup attempt (orderedCandidates decision) 0 {} s t r)
    (hend : ∀ e, r.2.1 = some e → e.aborted = true) :
    TruthfulExactly decision lookup t r.1 r.2.1 := by
  let ordered := orderedCandidates decision
  let candidate (k : Nat) : Candidate := ordered.getD k default
  obtain ⟨visited, hnodup, hsub, hhead, hlookups⟩ :=
    h.visits hquiet candidate nodup_range (map_getD_range ordered).symm
  have hfirst : visited.head? = some 0 := by
    rw [hhead]
    simp [ordered, orderedCandidates, head?_range]
  obtain ⟨later, hlater, hexit⟩ := h.exit_first hquiet
  rcases eq_nil_or_concat visited with rfl | ⟨before, position, rfl⟩
  · cases hfirst
  · rw [concat_eq_append] at hnodup hsub hfirst hlookups
    have hget : ∀ k ∈ before ++ [position], ordered[k]? = some (candidate k) := by
      intro k hk
      have hlt : k < ordered.length := mem_range.mp (hsub hk)
      rw [getElem?_eq_getElem hlt]
      exact congrArg some (getD_eq_getElem _ _ hlt).symm
    have hmodels : decision.model :: later =
        (before ++ [position]).map fun k => (candidate k).model := by
      rw [← hlookups]
      exact hlater.symm
    have hlast : later.getLastD decision.model = (candidate position).model := by
      have hend : (decision.model :: later).getLastD "" = (candidate position).model := by
        rw [hmodels, map_append, map_singleton, getLastD_concat]
      rwa [getLastD_cons] at hend
    have hflag : (!later.isEmpty) = decide (position ≠ 0) := by
      rw [Bool.eq_iff_iff, decide_eq_true_iff, last_ne_zero_iff hnodup hfirst]
      have hlength := congrArg List.length hmodels
      simp only [length_cons, length_map, length_append, length_nil,
        Nat.add_right_cancel_iff] at hlength
      rw [Bool.not_eq_true', ← Bool.not_eq_true, List.isEmpty_iff, ← length_eq_zero_iff,
        ne_eq, ← length_eq_zero_iff, hlength]
    have hexit' : Exit decision.model lookup (decide (position ≠ 0)) (candidate position).model
        r.1 r.2.1 := by
      rw [← hflag, ← hlast]
      exact hexit
    refine ⟨before, position, candidate position, ⟨hnodup, hfirst, ?_⟩, ?_,
      hexit'.truthful_iff hend⟩
    · rw [hlookups, map_map]
      apply map_congr_left
      intro k hk
      rw [hget k hk]
      rfl
    · exact hget position (mem_append_right _ mem_cons_self)

/-- The report is right for a fallback that served the request, and for a first candidate that was
cancelled.  It is wrong in all other cases, unless the decision names no model. -/
theorem fallback_report_iff (decision : RoutingDecision) (req : RequestEnvelope)
    (lookup : ProviderLookup) (cfg : RetryConfig) :
    (∀ t result err, Runs (execute decision req lookup cfg) t (result, err) →
      (∀ e, err = some e → e.aborted = true) → TruthfulExactly decision lookup t result err) ∧
    ∀ (σ : Type) (fn : Callback σ) (s s' : σ) t result err,
      Runs (executeStream decision req lookup cfg fn s) t (result, err, s') →
      (∀ e, err = some e → e.aborted = true) → TruthfulExactly decision lookup t result err := by
  constructor
  · intro t result err hrun hend
    obtain ⟨walked, err', response, heq, hwalk⟩ := runs_execute_iff.mp hrun
    cases heq
    exact hwalk.truthful_iff (chatWithRetry_quiet cfg req) hend
  · intro σ fn s s' t result err hrun hend
    have hwalk := runs_candidateLoop_iff.mp hrun
    exact hwalk.truthful_iff (streamWithRetry_quiet cfg fn req) hend

/-- The provider of the first candidate rejects the request, and the fallback serves it. -/
theorem served_by_claude :
    ∃ t result, Runs (execute gptThenClaude gptRequest twoProviders defaultRetryConfig) t
        (result, none) ∧
      TruthfulExactly gptThenClaude twoProviders t result none ∧
      lookups t = ["gpt-5.2", "claude-sonnet-4-6"] ∧ result.fallbackUsed = true := by
  have hwalk : Walk gptThenClaude.model twoProviders (chatWithRetry defaultRetryConfig gptRequest)
      (orderedCandidates gptThenClaude) 0 {} none _ _ :=
    .next (by rfl) (chatWithRetry_clientError (by decide) _ _ _) (by decide) (by decide)
      (.success (by rfl) (chatWithRetry_success (by decide) gptRequest _ _ default))
  have hrun := runs_execute_iff.mpr ⟨_, _, _, rfl, hwalk⟩
  refine ⟨_, _, hrun, ?_, rfl, rfl⟩
  apply (fallback_report_iff gptThenClaude gptRequest twoProviders defaultRetryConfig).1 _ _ _ hrun
  intro e he
  cases he

/-- A request the first candidate serves is reported with a model it stood in for. -/
theorem served_by_gpt :
    ∃ t result, Runs (execute gptThenClaude gptRequest twoProviders defaultRetryConfig) t
        (result, none) ∧
      lookups t = ["gpt-5.2"] ∧ result.fallbackUsed = false ∧ result.fallbackFrom = "gpt-5.2" := by
  have hwalk : Walk gptThenClaude.model twoProviders (chatWithRetry defaultRetryConfig gptRequest)
      (orderedCandidates gptThenClaude) 0 {} none _ _ :=
    .success (by rfl) (chatWithRetry_success (by decide) gptRequest _ _ default)
  exact ⟨_, _, runs_execute_iff.mpr ⟨_, _, _, rfl, hwalk⟩, rfl, rfl, rfl⟩

end Ixr.Routing
