import IxrGateway.Routing.ExecutorRuns
import IxrGateway.Segments

/-!
# Client errors by their text

The adapters put the status of an answer and its body into one error text, and
`isClientError` looks for patterns in that text.  So it knows six codes, and it
also finds a pattern in the body, or in the name of the provider
(`isClientError_statusError`).  The attempts on a provider that keeps answering
alike follow from the class of its error (`retryLoop_steady`).
-/

namespace Ixr.Routing

open GoStrings Interaction List

/-- The error of a status code. -/
def statusError (name : String) (stream : Bool) (code : Nat) (body : String) : GoError where
  msg := name ++ (if stream then ": stream status " else ": status ") ++ toString code ++ ": " ++
    body

variable (name : String) (stream : Bool)

@[simp] theorem statusError_aborted (code : Nat) (body : String) :
    (statusError name stream code body).aborted = false := rfl

/-! ## The text of the error -/

/-- The codes that are not retried. -/
def clientCodes : List Nat := [400, 401, 403, 404, 422, 429]

/-- The pattern of a code. -/
def statusPattern (code : Nat) : String := "status " ++ toString code

/-- Its other pattern. -/
def colonPattern (code : Nat) : String := ": " ++ toString code ++ " "

theorem clientErrorPatterns_eq :
    clientErrorPatterns = clientCodes.map statusPattern ++ [400, 401, 403, 404].map colonPattern :=
  by decide

/-- The status in the message. -/
def statusPart (stream : Bool) (code : Nat) : List Char :=
  (if stream then " stream status " else " status ").toList ++ (toString code).toList

theorem statusError_msg (code : Nat) (body : String) :
    (statusError name stream code body).msg.toList =
      name.toList ++ ':' :: (statusPart stream code ++ ':' :: ' ' :: body.toList) := by
  cases stream with
  | true | false => simp [statusError, statusPart]

variable {code : Nat} {p : Provider} {req : RequestEnvelope} {s : Option ResponseEnvelope}
  {t : Trace effects} {cfg : RetryConfig} {e : GoError}
  {r : Option ResponseEnvelope × Int × Option GoError}

theorem exists_three_digits (hlow : 100 ≤ code) (hhigh : code < 1000) :
    ∃ a b c, (toString code).toList = [a, b, c] := by
  have hdigits : (toString code).toList = Nat.toDigits 10 code := Nat.toList_repr
  have hmost : (Nat.toDigits 10 code).length ≤ 3 :=
    (Nat.length_toDigits_le_iff (by decide) (by decide)).mpr hhigh
  have hleast : ¬ (Nat.toDigits 10 code).length ≤ 2 := by
    rw [Nat.length_toDigits_le_iff (by decide) (by decide)]
    omega
  rw [hdigits]
  exact length_eq_three.mp (by omega)

theorem toString_nat_not_mem {c : Char} (hc : c.isDigit = false) : c ∉ (toString code).toList := by
  intro hmem
  rw [show (toString code).toList = Nat.toDigits 10 code from Nat.toList_repr] at hmem
  have hdigit := Nat.isDigit_of_mem_toDigits (by decide) (by decide) hmem
  rw [hc] at hdigit
  cases hdigit

theorem statusPart_not_mem (code : Nat) : ':' ∉ statusPart stream code := by
  have hdigits : ':' ∉ (toString code).toList := toString_nat_not_mem (by decide)
  cases stream with
  | true | false => simpa [statusPart] using hdigits

theorem statusPattern_infix_statusPart {c : Nat} (hlow : 100 ≤ code) (hhigh : code < 1000)
    (hlow' : 100 ≤ c) (hhigh' : c < 1000) :
    (statusPattern c).toList <:+: statusPart stream code ↔ code = c := by
  obtain ⟨x, y, z, hcode⟩ := exists_three_digits hlow hhigh
  obtain ⟨x', y', z', hc⟩ := exists_three_digits hlow' hhigh'
  have hsame : code = c ↔ [x', y', z'] = [x, y, z] := by
    rw [← hcode, ← hc, String.toList_inj]
    exact Nat.repr_inj.symm.trans eq_comm
  rw [hsame, statusPattern, String.toList_append, hc, statusPart, hcode]
  cases stream with
  | true | false => simp [infix_cons_iff]

/-! ## The class of the error -/

/-- The body, or the name of the provider, has a pattern of its own. -/
def Misleading (name body : String) : Prop :=
  ∃ pat ∈ clientErrorPatterns, contains name pat = true ∨ contains (": " ++ body) pat = true

theorem contains_iff {s pat : String} : contains s pat = true ↔ pat.toList <:+: s.toList :=
  decide_eq_true_iff

theorem colon_body (body : String) : (": " ++ body).toList = ':' :: ' ' :: body.toList := by
  simp

theorem contains_statusPattern_iff (code : Nat) (body : String) (c : Nat) :
    contains (statusError name stream code body).msg (statusPattern c) = true ↔
      (statusPattern c).toList <:+: statusPart stream code ∨
        contains name (statusPattern c) = true ∨
        contains (": " ++ body) (statusPattern c) = true := by
  have hcolon : ':' ∉ (statusPattern c).toList := by
    have hdigits : ':' ∉ (toString c).toList := toString_nat_not_mem (by decide)
    simpa [statusPattern] using hdigits
  have hne : (statusPattern c).toList ≠ [] := by simp [statusPattern]
  have hbody : (statusPattern c).toList <:+: ':' :: ' ' :: body.toList ↔
      (statusPattern c).toList <:+: ' ' :: body.toList := by
    rw [← nil_append (':' :: _), Segments.infix_append_cons_iff hcolon, infix_nil]
    exact or_iff_right hne
  rw [contains_iff, contains_iff, contains_iff, statusError_msg, colon_body, hbody,
    Segments.infix_append_cons_iff hcolon, Segments.infix_append_cons_iff hcolon]
  exact or_left_comm

/-- After the name, the text goes on with a letter and not with a digit. -/
theorem not_digits_prefix_statusPart (code c : Nat) (rest : List Char) :
    ¬ ' ' :: ((toString c).toList ++ [' ']) <+: statusPart stream code ++ rest := by
  have hletter : 's' ∉ (toString c).toList := toString_nat_not_mem (by decide)
  have hpart : ∃ more, statusPart stream code ++ rest = ' ' :: 's' :: more := by
    cases stream with
    | true | false => exact ⟨_, rfl⟩
  obtain ⟨more, hmore⟩ := hpart
  rw [hmore, cons_prefix_cons]
  rintro ⟨-, hstart⟩
  cases hdigits : (toString c).toList with
  | nil =>
    rw [hdigits, nil_append, cons_prefix_cons] at hstart
    exact absurd hstart.1 (by decide)
  | cons d ds =>
    rw [hdigits, cons_append, cons_prefix_cons] at hstart
    rw [hdigits, ← hstart.1] at hletter
    exact hletter mem_cons_self

theorem contains_colonPattern_iff (code : Nat) (body : String) (c : Nat) :
    contains (statusError name stream code body).msg (colonPattern c) = true ↔
      contains name (colonPattern c) = true ∨
        contains (": " ++ body) (colonPattern c) = true := by
  have hpattern : (colonPattern c).toList = ':' :: ' ' :: ((toString c).toList ++ [' ']) := by
    simp [colonPattern]
  have hcolon : ':' ∉ ' ' :: ((toString c).toList ++ [' ']) := by
    have hdigits : ':' ∉ (toString c).toList := toString_nat_not_mem (by decide)
    simpa using hdigits
  have hname : ∀ rest,
      ¬ ' ' :: ((toString c).toList ++ [' ']) <+: statusPart stream code ++ rest := by
    intro rest
    exact not_digits_prefix_statusPart stream code c rest
  have hpart : ¬ ':' :: ' ' :: ((toString c).toList ++ [' ']) <:+: statusPart stream code := by
    intro h
    exact statusPart_not_mem stream code (h.subset mem_cons_self)
  have hbody : ':' :: ' ' :: ((toString c).toList ++ [' ']) <:+: ':' :: ' ' :: body.toList ↔
      ' ' :: ((toString c).toList ++ [' ']) <+: ' ' :: body.toList ∨
        ':' :: ' ' :: ((toString c).toList ++ [' ']) <:+: ' ' :: body.toList := by
    rw [infix_cons_iff, cons_prefix_cons]
    exact or_congr_left (and_iff_right rfl)
  rw [contains_iff, contains_iff, contains_iff, statusError_msg, colon_body, hpattern, hbody,
    Segments.cons_infix_append_cons_iff hcolon, Segments.cons_infix_append_cons_iff hcolon]
  simp only [hname, hpart, false_or]

theorem isClientError_statusError (body : String) (hlow : 100 ≤ code) (hhigh : code < 1000) :
    isClientError (statusError name stream code body) = true ↔
      code ∈ clientCodes ∨ Misleading name body := by
  have hcodes : ∀ c ∈ clientCodes, 100 ≤ c ∧ c < 1000 := by decide
  rw [isClientError, any_eq_true, Misleading, clientErrorPatterns_eq]
  constructor
  · rintro ⟨pat, hpat, hfound⟩
    rcases mem_append.mp hpat with hword | hcolon
    · obtain ⟨c, hc, rfl⟩ := mem_map.mp hword
      rcases (contains_statusPattern_iff name stream code body c).mp hfound with hpart | hother
      · obtain ⟨hlow', hhigh'⟩ := hcodes c hc
        rw [statusPattern_infix_statusPart stream hlow hhigh hlow' hhigh'] at hpart
        rw [hpart]
        exact .inl hc
      · exact .inr ⟨_, hpat, hother⟩
    · obtain ⟨c, hc, rfl⟩ := mem_map.mp hcolon
      exact .inr ⟨_, hpat, (contains_colonPattern_iff name stream code body c).mp hfound⟩
  · rintro (hknown | ⟨pat, hpat, hfound⟩)
    · refine ⟨statusPattern code, mem_append_left _ (mem_map_of_mem hknown), ?_⟩
      apply (contains_statusPattern_iff name stream code body code).mpr
      exact .inl ((statusPattern_infix_statusPart stream hlow hhigh hlow hhigh).mpr rfl)
    · refine ⟨pat, hpat, ?_⟩
      rcases mem_append.mp hpat with hword | hcolon
      · obtain ⟨c, hc, rfl⟩ := mem_map.mp hword
        exact (contains_statusPattern_iff name stream code body c).mpr (.inr hfound)
      · obtain ⟨c, hc, rfl⟩ := mem_map.mp hcolon
        exact (contains_colonPattern_iff name stream code body c).mpr hfound

/-! ## The attempts -/

/-- Every call fails with the error. -/
def Answers (e : GoError) (ev : Event effects) : Prop :=
  match ev with
  | ⟨.chat _ _, res⟩ => res = .error e
  | ⟨.backoff _, res⟩ => res = none
  | _ => True

/-- A call of a provider. -/
def isChat (ev : Event effects) : Bool :=
  match ev.op with
  | .chat _ _ => true
  | _ => false

theorem runs_chatOnce {r : Bool × Option GoError × Option ResponseEnvelope}
    (h : Runs (chatOnce p req s) t r) :
    (∃ resp, t = [⟨.chat p req, .ok resp⟩]) ∨
      ∃ e, t = [⟨.chat p req, .error e⟩] ∧ r = (false, some e, none) := by
  obtain ⟨res, t', rfl, hret⟩ := runs_ask_iff.mp h
  cases res with
  | ok resp =>
    obtain ⟨rfl, rfl⟩ := runs_ret_iff.mp hret
    exact .inl ⟨resp, rfl⟩
  | error e =>
    obtain ⟨rfl, rfl⟩ := runs_ret_iff.mp hret
    exact .inr ⟨e, rfl, rfl⟩

variable {left : Nat} {i backoff : Int} {lastErr : Option GoError}

theorem retryLoop_step (habort : e.aborted = false)
    (h : Runs (retryLoop cfg (chatOnce p req) (left + 1) i backoff lastErr s) t r)
    (hall : ∀ ev ∈ t, Answers e ev) :
    isClientError e = true ∧ t.countP isChat = 1 ∧ r.2.1 = i + 1 ∨
      isClientError e = false ∧ ∃ t' backoff', (∀ ev ∈ t', Answers e ev) ∧
        t.countP isChat = t'.countP isChat + 1 ∧
        Runs (retryLoop cfg (chatOnce p req) left (i + 1) backoff' (some e) none) t' r := by
  rw [retryLoop] at h
  obtain ⟨t₁, _, t', rfl, hcall, hrest⟩ := runs_bind_iff.mp h
  obtain ⟨hfirst, hlater⟩ := forall_mem_append.mp hall
  rcases runs_chatOnce hcall with ⟨resp, rfl⟩ | ⟨e', rfl, rfl⟩
  · cases hfirst _ mem_cons_self
  · obtain rfl : e' = e := Except.error.inj (hfirst _ mem_cons_self)
    have hcount : ([⟨.chat p req, .error e'⟩] : Trace effects).countP isChat = 1 := rfl
    rw [countP_append, hcount, Nat.add_comm]
    simp only [habort, Bool.or_false, Bool.false_or] at hrest
    cases hclass : isClientError e' with
    | true =>
      rw [hclass, if_pos rfl] at hrest
      obtain ⟨rfl, rfl⟩ := runs_ret_iff.mp hrest
      exact .inl ⟨rfl, rfl, rfl⟩
    | false =>
      rw [hclass, if_neg Bool.false_ne_true] at hrest
      refine .inr ⟨rfl, ?_⟩
      split at hrest
      · obtain ⟨res, t'', rfl, hgo⟩ := runs_ask_iff.mp hrest
        obtain ⟨hwait, hmore⟩ := forall_mem_cons.mp hlater
        obtain rfl : res = none := hwait
        exact ⟨t'', _, hmore, rfl, hgo⟩
      · exact ⟨t', _, hlater, rfl, hrest⟩

theorem retryLoop_steady (habort : e.aborted = false) (hleft : i + left = cfg.maxAttempts)
    (h : Runs (retryLoop cfg (chatOnce p req) left i backoff lastErr s) t r)
    (hall : ∀ ev ∈ t, Answers e ev) :
    t.countP isChat = (if isClientError e then min left 1 else left) ∧
      r.2.1 = i + t.countP isChat := by
  induction left generalizing i backoff lastErr s t with
  | zero =>
    rw [retryLoop] at h
    obtain ⟨rfl, rfl⟩ := runs_ret_iff.mp h
    refine ⟨?_, hleft.symm⟩
    split
    · rfl
    · rfl
  | succ left ih =>
    rcases retryLoop_step habort h hall with
      ⟨hclass, hcount, hr⟩ | ⟨hclass, t', backoff', hall', hcount, hrest⟩
    · rw [if_pos hclass, hcount]
      exact ⟨by omega, hr⟩
    · obtain ⟨hcount', hr⟩ := ih (by omega) hrest hall'
      rw [if_neg (by rw [hclass]; exact Bool.false_ne_true)] at hcount'
      rw [if_neg (by rw [hclass]; exact Bool.false_ne_true), hcount, hcount']
      refine ⟨rfl, ?_⟩
      rw [hr, hcount']
      omega

theorem can_answer (e : GoError) {α : Type} (p : Go α) :
    Can p fun t _ => ∀ ev ∈ t, Answers e ev := by
  refine can_emit (fun o => ?_) p
  obtain ⟨res⟩ : Nonempty (effects.Res o) := inferInstance
  cases o with
  | chat => exact ⟨.error e, rfl⟩
  | backoff => exact ⟨none, rfl⟩
  | _ => exact ⟨res, trivial⟩

/-- The class is right exactly for a code the patterns know, or where the rest of the text is
misleading only with a code of the class.  A provider that keeps answering alike gets one call if
the class is found, and all attempts otherwise. -/
theorem status_class_iff (name : String) (stream : Bool) (code : Nat) (body : String)
    (hlow : 300 ≤ code) (hhigh : code ≤ 599) :
    ((isClientError (statusError name stream code body) = true ↔ 400 ≤ code ∧ code ≤ 499) ↔
      code ∈ clientCodes ∨ (Misleading name body ↔ 400 ≤ code ∧ code ≤ 499)) ∧
    ∀ (cfg : RetryConfig) req p s t r, 1 ≤ cfg.maxAttempts →
      Runs (chatWithRetry cfg req p s) t r →
      (∀ ev ∈ t, Answers (statusError name stream code body) ev) →
      (t.countP isChat : Int) =
        if isClientError (statusError name stream code body) then 1 else cfg.maxAttempts := by
  constructor
  · rw [isClientError_statusError name stream body (by omega) (by omega)]
    have hclass : ∀ c ∈ clientCodes, 400 ≤ c ∧ c ≤ 499 := by decide
    by_cases hknown : code ∈ clientCodes
    · simp only [hknown, hclass code hknown, true_or, and_self]
    · simp only [hknown, false_or]
  · intro cfg req p s t r hmax hrun hall
    obtain ⟨hcount, -⟩ :=
      retryLoop_steady (statusError_aborted name stream code body) (by omega) hrun hall
    rw [hcount]
    split
    · omega
    · omega

/-- An answer 503, with a body that names no code. -/
theorem overloaded_retried :
    ∃ t r, Runs (chatWithRetry defaultRetryConfig gptRequest ⟨0, "openai"⟩ none) t r ∧
      (∀ ev ∈ t, Answers (statusError "openai" false 503 "busy") ev) ∧
      (t.countP isChat : Int) = 3 := by
  obtain ⟨t, r, hrun, hall⟩ := can_answer (statusError "openai" false 503 "busy")
    (chatWithRetry defaultRetryConfig gptRequest ⟨0, "openai"⟩ none)
  have hclass : isClientError (statusError "openai" false 503 "busy") = false := by decide
  have hcount := (status_class_iff "openai" false 503 "busy" (by decide) (by decide)).2
    defaultRetryConfig gptRequest ⟨0, "openai"⟩ none t r (by decide) hrun hall
  rw [hclass, if_neg Bool.false_ne_true] at hcount
  exact ⟨t, r, hrun, hall, hcount⟩

/-- A body that quotes another code makes a 5xx answer a client error. -/
theorem quoted_code_not_retried :
    isClientError (statusError "openai" false 500 "upstream status 400") = true ∧
      isClientError (statusError "openai" false 402 "payment required") = false := by
  constructor
  · rw [isClientError_statusError _ _ _ (by decide) (by decide)]
    exact .inr ⟨"status 400", by decide, .inr (by decide)⟩
  · decide

end Ixr.Routing
