import IxrGateway.Cache.Isolation
import IxrGateway.Ingress.Middleware

/-!
# The text that the cache embeds

The semantic cache should compare what callers ask, not what the gateway adds.
`SessionMiddleware` tells it how much history it has injected, and the history
is left out of the text.  `MemoryMiddleware` puts a system message before the
caller's messages and tells nobody.  So the text is the caller's own exactly if
no memories were injected (`lookup_own_text_iff`).
-/

namespace Ixr.Ingress

open Interaction GoStrings Cache List

/-! ## Ink -/

/-- The characters of a text that are not space. -/
def ink (s : String) : Nat := s.toList.countP fun c => !isSpace c

theorem countP_dropWhile_isSpace (cs : List Char) :
    (cs.dropWhile isSpace).countP (fun c => !isSpace c) = cs.countP fun c => !isSpace c := by
  have hzero : (cs.takeWhile isSpace).countP (fun c => !isSpace c) = 0 := by
    refine countP_eq_zero.mpr fun c hc => ?_
    simp [mem_takeWhile_imp hc]
  have hsplit := congrArg (countP fun c => !isSpace c)
    (takeWhile_append_dropWhile (p := isSpace) (l := cs))
  rw [countP_append, hzero, Nat.zero_add] at hsplit
  exact hsplit

theorem ink_trimSpace (s : String) : ink (trimSpace s) = ink s := by
  simp only [ink, trimSpace, String.toList_ofList, countP_reverse, countP_dropWhile_isSpace]

theorem ink_append (s t : String) : ink (s ++ t) = ink s + ink t := by
  rw [ink, String.toList_append, countP_append, ink, ink]

theorem ink_formatMemories {contents : List String} (h : contents ≠ []) :
    0 < ink (formatMemories contents) := by
  rw [formatMemories, if_neg h, ink_append]
  have hhead : ink "What you know about this user (from prior conversations):\n" = 49 := by decide
  omega

/-! ## Memories in the text -/

/-- A system message with ink in it shows in the text. -/
theorem requestText_cons_ne (req : RequestEnvelope) {m : Message} (hrole : m.role = "system")
    (hink : 0 < ink m.content) :
    requestText { req with messages := m :: req.messages } 0 ≠ requestText req 0 := by
  intro h
  have hcount := congrArg ink h
  have hnl : ink "\n" = 0 := by decide
  simp only [requestText, lt_irrefl, false_and, if_false, ink_trimSpace, filterMap_cons, hrole,
    or_true, if_true, join_cons, ink_append, hnl] at hcount
  omega

/-- What the cache is asked for in a session is the caller's text, whatever the history. -/
theorem requestText_injectHistory (stored : List Message) (req : RequestEnvelope) :
    requestText (injectHistory stored req).1 (injectHistory stored req).2 = requestText req 0 :=
  requestText_append req _

/-! ## The way to the cache -/

/-- The cache is asked. -/
def IsLookup : Op → Prop
  | .cacheLookup _ _ => True
  | _ => False

variable {next : Handler} {r : HttpRequest} {req : RequestEnvelope} {t : Trace effects}
  {reply : Reply}

theorem cacheMiddleware_looks_up {ttl : Int} (hbody : r.body = some req) (hpost : r.method = "POST")
    (hstream : req.stream = false) (h : Runs (cacheMiddleware ttl next r) t reply) :
    ∃ hit after, t = ⟨.cacheLookup req r.historyLen, hit⟩ :: after := by
  rw [cacheMiddleware, if_neg (not_not_intro hpost), hbody] at h
  simp only [hstream, Bool.false_eq_true, if_false] at h
  obtain ⟨hit, after, rfl, -⟩ := runs_ask_iff.mp h
  exact ⟨hit, after, rfl⟩

theorem sessionMiddleware_looks_up {ttl : Int} (hbody : r.body = some req)
    (hpost : r.method = "POST") (hstream : req.stream = false)
    (h : Runs (sessionMiddleware (cacheMiddleware ttl next) r) t reply) :
    ∃ stored before hit after, (∀ e ∈ before, ¬IsLookup e.op) ∧
      t = before ++
        ⟨.cacheLookup (injectHistory stored req).1 (injectHistory stored req).2, hit⟩ :: after := by
  have hid : Emits (resolveSessionID r) fun e => ¬IsLookup e.op :=
    emits_ite (emits_perform fun _ => id) emits_ret
  have hreset : ∀ storeKey, Emits (resetSession r storeKey) fun e => ¬IsLookup e.op :=
    fun _ => emits_ite (emits_perform fun _ => id) emits_ret
  obtain ⟨t₁, sessionID, t₂, rfl, h₁, h₂⟩ := runs_bind_iff.mp h
  obtain ⟨t₃, u, t₄, rfl, h₃, h₄⟩ := runs_bind_iff.mp h₂
  simp only [hbody] at h₄
  obtain ⟨stored, t₅, rfl, h₅⟩ := runs_perform_bind_iff.mp h₄
  obtain ⟨t₆, reply', t₇, rfl, h₆, -⟩ := runs_bind_iff.mp h₅
  obtain ⟨hit, after, rfl⟩ :=
    cacheMiddleware_looks_up (by rfl) (by exact hpost) (by exact hstream) h₆
  refine ⟨stored.getD [], t₁ ++ t₃ ++ [⟨.sessionGet _, stored⟩], hit, after ++ t₇, ?_, ?_⟩
  · intro e he
    simp only [mem_append, mem_singleton] at he
    rcases he with (he | he) | rfl
    · exact hid t₁ sessionID h₁ e he
    · exact hreset _ t₃ u h₃ e he
    · exact id
  · simp only [append_assoc, cons_append, nil_append]

/-- The request with the memories of a user before its messages, if there are any. -/
def withMemories (req : RequestEnvelope) : Except GoError (List String) → RequestEnvelope
  | .error _ => req
  | .ok [] => req
  | .ok (content :: contents) =>
    let memory : Message :=
      { role := "system", content := formatMemories (content :: contents) }
    { req with messages := memory :: req.messages }

theorem requestText_withMemories_iff (req : RequestEnvelope) (res : Except GoError (List String)) :
    requestText (withMemories req res) 0 = requestText req 0 ↔
      ∀ contents, res = .ok contents → contents = [] := by
  cases res with
  | error err => exact ⟨fun _ contents hok => by simp at hok, fun _ => rfl⟩
  | ok contents =>
    cases contents with
    | nil => exact ⟨fun _ contents hok => (Except.ok.inj hok).symm, fun _ => rfl⟩
    | cons content contents =>
      have hink := ink_formatMemories (cons_ne_nil content contents)
      have hne := requestText_cons_ne req (m := ⟨"system", _, [], [], "", ""⟩) rfl hink
      constructor
      · exact fun heq => absurd heq hne
      · exact fun hall => absurd (hall _ rfl) (cons_ne_nil content contents)

theorem runs_memoryMiddleware {topK : Int} (hbody : r.body = some req) (hpost : r.method = "POST")
    (hkey : memoryUserKey r.identity ≠ "") (h : Runs (memoryMiddleware topK next r) t reply) :
    ∃ res t', t = ⟨.memoryRecent (memoryUserKey r.identity) (if topK ≤ 0 then 5 else topK), res⟩ ::
        t' ∧
      Runs (next { r with body := some (withMemories req res) }) t' reply := by
  rw [memoryMiddleware, if_neg (not_or_intro hkey (not_not_intro hpost))] at h
  obtain ⟨res, t', rfl, hrest⟩ := runs_perform_bind_iff.mp h
  have hsame : { r with body := some req } = r := by rw [← hbody]
  refine ⟨res, t', rfl, ?_⟩
  cases res with
  | error err => rwa [withMemories, hsame]
  | ok contents =>
    cases contents with
    | nil => rwa [withMemories, hsame]
    | cons content contents =>
      simp only [hbody] at hrest
      exact hrest

/-- The memory store answers by `remembered`. -/
def AnsweredBy (remembered : String → Int → Except GoError (List String))
    (t : Trace effects) : Prop :=
  ∀ userKey n res, (⟨.memoryRecent userKey n, res⟩ : Event effects) ∈ t → res = remembered userKey n

/-- A request with a body of its own that is looked up in the cache: the lookup embeds the caller's
text and nothing else iff there are no memories to inject, because the caller has no user identity,
the store fails or it has nothing for the user. -/
theorem lookup_own_text_iff (topK ttl : Int) (next : Handler) {r : HttpRequest}
    {req : RequestEnvelope} (hbody : r.body = some req) (hpost : r.method = "POST")
    (hstream : req.stream = false) {remembered : String → Int → Except GoError (List String)}
    {t : Trace effects} {reply : Reply}
    (h : Runs (memoryMiddleware topK (sessionMiddleware (cacheMiddleware ttl next)) r) t reply)
    (hanswers : AnsweredBy remembered t) :
    ∃ req' historyLen before hit after, (∀ e ∈ before, ¬IsLookup e.op) ∧
      t = before ++ ⟨.cacheLookup req' historyLen, hit⟩ :: after ∧
      (requestText req' historyLen = requestText req 0 ↔
        memoryUserKey r.identity = "" ∨
          ∀ contents, remembered (memoryUserKey r.identity) (if topK ≤ 0 then 5 else topK) =
            .ok contents → contents = []) := by
  by_cases hkey : memoryUserKey r.identity = ""
  · rw [memoryMiddleware, if_pos (Or.inl hkey)] at h
    obtain ⟨stored, before, hit, after, hbefore, rfl⟩ :=
      sessionMiddleware_looks_up hbody hpost hstream h
    refine ⟨_, _, before, hit, after, hbefore, rfl, ?_⟩
    rw [requestText_injectHistory]
    exact ⟨fun _ => Or.inl hkey, fun _ => rfl⟩
  · obtain ⟨res, t', rfl, hrest⟩ := runs_memoryMiddleware hbody hpost hkey h
    have hstream' : (withMemories req res).stream = false := by
      unfold withMemories
      split <;> exact hstream
    obtain ⟨stored, before, hit, after, hbefore, rfl⟩ :=
      sessionMiddleware_looks_up (by rfl) (by exact hpost) hstream' hrest
    have hres := hanswers _ _ res mem_cons_self
    refine ⟨_, _, _ :: before, hit, after, forall_mem_cons.mpr ⟨id, hbefore⟩,
      (cons_append ..).symm, ?_⟩
    rw [requestText_injectHistory, requestText_withMemories_iff, ← hres]
    exact (or_iff_right hkey).symm

/-! ## One question, asked by a known user and by nobody -/

def question : RequestEnvelope :=
  { model := "gpt-4o", messages := [{ role := "user", content := "What is 2+2?" }] }

/-- The question in a session of `user`. -/
def asksAs (user : String) : HttpRequest :=
  { body := some question
    identity := { tenantID := "acme", userID := user }
    sessionID := "s1" }

def facts : List String := ["User's name is Arun"]

/-- The middlewares before a handler that is not reached when the cache has an answer. -/
def toCache : Handler :=
  memoryMiddleware 5 (sessionMiddleware (cacheMiddleware 0 fun _ => pure .panicked))

def remindedQuestion : RequestEnvelope :=
  { question with
    messages := { role := "system", content := formatMemories facts } :: question.messages }

/-- The user's facts are in the text that the cache embeds. -/
theorem memories_in_lookup_text :
    Runs (toCache (asksAs "u1"))
      [⟨.memoryRecent "acme:u1" 5, .ok facts⟩, ⟨.sessionGet "acme:s1", none⟩,
        ⟨.cacheLookup remindedQuestion 0, some ({}, .semantic)⟩] (.ok (some {})) ∧
      requestText remindedQuestion 0 ≠ requestText question 0 :=
  ⟨.ask (.ask (.ask .ret)),
    requestText_cons_ne question rfl (ink_formatMemories (cons_ne_nil _ _))⟩

/-- Without a user, the cache embeds the question. -/
theorem anonymous_own_text :
    ∃ req' historyLen before hit after,
      ([⟨.sessionGet "acme:s1", none⟩, ⟨.cacheLookup question 0, some ({}, .semantic)⟩] :
        Trace effects) = before ++ ⟨.cacheLookup req' historyLen, hit⟩ :: after ∧
      requestText req' historyLen = requestText question 0 := by
  have hrun : Runs (toCache (asksAs ""))
      [⟨.sessionGet "acme:s1", none⟩, ⟨.cacheLookup question 0, some ({}, .semantic)⟩]
      (.ok (some {})) := .ask (.ask .ret)
  have hanswers : AnsweredBy (fun _ _ => .ok facts)
      [⟨.sessionGet "acme:s1", none⟩, ⟨.cacheLookup question 0, some ({}, .semantic)⟩] := by
    intro userKey n res hmem
    simp at hmem
  obtain ⟨req', historyLen, before, hit, after, -, ht, htext⟩ :=
    lookup_own_text_iff 5 0 _ rfl rfl rfl hrun hanswers
  exact ⟨req', historyLen, before, hit, after, ht, htext.mpr (Or.inl rfl)⟩

end Ixr.Ingress
