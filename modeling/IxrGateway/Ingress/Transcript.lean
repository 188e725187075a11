import IxrGateway.Ingress.Middleware
import IxrGateway.Interaction.World
import IxrGateway.Session.Restart

/-!
# Tool calls in a session

Of each exchange, `SessionMiddleware` stores two messages: the last message of
role user among the new ones, and the reply.  Tool results are not stored.  A
reply with tool calls is therefore followed in the history by the user message
of the next exchange, and if that exchange had none, by an empty one that the
client never sent.

What is forwarded is a valid transcript as long as turns are stored only for
requests with a user message, and not behind a reply with tool calls
(`forwarded_valid`).

A session is seen from its client here (`Chat`).  `sessionMiddleware_after` says
that the middleware and the store act on it as `Chat.after` does, and
`session_follows_exchanges` that they do so over any number of requests: an entry
goes when its time is up or the client resets the session, and at no other time.
-/

namespace Ixr.Ingress

open Interaction Session List

/-! ## Transcripts -/

/-- The tool messages answer the calls. -/
def AnswersAll (calls : List ToolCall) (messages : List Message) : Prop :=
  ∀ call ∈ calls, ∃ m ∈ messages.takeWhile fun m => m.role = "tool", m.toolCallID = call.id

instance (calls : List ToolCall) (messages : List Message) :
    Decidable (AnswersAll calls messages) :=
  inferInstanceAs (Decidable (∀ call ∈ calls, ∃ m ∈ _, _))

/-- Each assistant message with tool calls is followed by the answers to them. -/
def ValidTranscript : List Message → Prop
  | [] => True
  | m :: messages =>
    (m.role = "assistant" → AnswersAll m.toolCalls messages) ∧ ValidTranscript messages

instance decidableValidTranscript : ∀ messages, Decidable (ValidTranscript messages)
  | [] => .isTrue trivial
  | _ :: messages =>
    @instDecidableAnd _ _ (inferInstanceAs (Decidable (_ → _)))
      (decidableValidTranscript messages)

/-- The assistant calls tools. -/
def CallsTools (m : Message) : Prop := m.role = "assistant" ∧ m.toolCalls ≠ []

theorem ValidTranscript.suffix : ∀ {front back : List Message},
    ValidTranscript (front ++ back) → ValidTranscript back
  | [], _, h => h
  | _ :: _, _, h => ValidTranscript.suffix h.2

/-- Only the last message may wait for answers. -/
def ClosedBefore (messages : List Message) : Prop := ∀ m ∈ messages.dropLast, ¬CallsTools m

/-- A history in which only the last message waits, continued by answers to it. -/
theorem validTranscript_append : ∀ {history new : List Message}, ClosedBefore history →
    ValidTranscript (history.getLast?.toList ++ new) → ValidTranscript (history ++ new)
  | [], _, _, hnew => hnew
  | [_], _, _, hnew => hnew
  | m :: m' :: history, new, hclosed, hnew => by
    have hrest : ClosedBefore (m' :: history) := fun x hx => hclosed x (mem_cons_of_mem m hx)
    refine ⟨fun hrole call hcall => ?_, validTranscript_append hrest ?_⟩
    · exact absurd ⟨hrole, ne_nil_of_mem hcall⟩ (hclosed m mem_cons_self)
    · rwa [getLast?_cons_cons] at hnew

variable {back messages history : List Message} {key : String} {req : RequestEnvelope}
  {reply : Reply} {u : Unit} {r : HttpRequest} {user : Message}

theorem ClosedBefore.suffix {front : List Message} (h : ClosedBefore (front ++ back)) :
    ClosedBefore back := by
  cases back with
  | nil => exact fun m hm => absurd hm not_mem_nil
  | cons b back =>
    intro m hm
    refine h m ?_
    rw [dropLast_append_of_ne_nil (cons_ne_nil b back)]
    exact mem_append_right front hm

/-! ## Trimming keeps the end -/

theorem dropTurns_suffix (available : Int) : ∀ history : List Message,
    dropTurns available history <:+ history
  | [] => by
    simp only [dropTurns]
    split <;> exact suffix_refl []
  | [m] => by
    simp only [dropTurns]
    split
    · exact nil_suffix
    · exact suffix_refl [m]
  | first :: second :: rest => by
    rw [dropTurns]
    split
    · exact (dropTurns_suffix available rest).trans
        ((suffix_cons second rest).trans (suffix_cons first _))
    · exact suffix_refl _

theorem trimToContextWindow_suffix (history incoming : List Message) (model : String) :
    trimToContextWindow history incoming model <:+ history := by
  rw [trimToContextWindow]
  split
  · exact suffix_refl history
  · dsimp only
    split
    · exact nil_suffix
    · exact dropTurns_suffix _ history

theorem trim_suffix (cfg : Config) (messages : List Message) : trim cfg messages <:+ messages := by
  rw [trim]
  split
  · exact drop_suffix _ messages
  · exact suffix_refl messages

/-! ## A session and its client -/

/-- A session in the store, and what its client knows. -/
structure Chat where
  entry : Option SessionEntry := none
  /-- The last reply with a turn of the assistant in it. -/
  last : Option Message := none
  sent : List Message := []

/-- One request and its reply. -/
structure Exchange where
  req : RequestEnvelope
  /-- `X-IXR-Session-Reset` is set. -/
  reset : Bool := false
  reply : Reply
  /-- The session expires while the reply is made. -/
  lost : Bool := false
  now : Int := 0

/-- The chat after a reset, if asked for. -/
def Chat.begin (chat : Chat) (reset : Bool) : Chat :=
  if reset then { chat with entry := none, last := none } else chat

/-- The messages in the store. -/
def Chat.stored (chat : Chat) : List Message := (chat.entry.getD {}).messages

/-- The messages the model is sent. -/
def Chat.forwarded (chat : Chat) (ex : Exchange) : List Message :=
  (injectHistory (chat.begin ex.reset).stored ex.req).1.messages

/-- The entry when the turn is about to be stored. -/
def Chat.entryAt (chat : Chat) (ex : Exchange) : Option SessionEntry :=
  if ex.lost then none else (chat.begin ex.reset).entry

/-- The session after an exchange. -/
def Chat.after (cfg : Config) (chat : Chat) (ex : Exchange) : Chat :=
  match assistantTurn ex.req.stream ex.reply with
  | none =>
    { entry := chat.entryAt ex
      last := (chat.begin ex.reset).last
      sent := chat.sent ++ ex.req.messages }
  | some turn =>
    { entry := some (appendTurn cfg ((chat.entryAt ex).getD {}) (lastUserMessage ex.req.messages)
        turn ex.now)
      last := some turn
      sent := chat.sent ++ ex.req.messages }

/-- The new messages go on from the last reply: if it called tools, they begin with the answers. -/
def Chat.Continues (chat : Chat) (ex : Exchange) : Prop :=
  ValidTranscript ((chat.begin ex.reset).last.toList ++ ex.req.messages)

/-- If a turn is stored, the request has a user message, the reply is not a user message, and what
is stored before the turn and kept does not end in a message that calls tools. -/
def Chat.Simple (cfg : Config) (chat : Chat) (ex : Exchange) : Prop :=
  ∀ turn, assistantTurn ex.req.stream ex.reply = some turn →
    (∃ m ∈ ex.req.messages, m.role = "user") ∧ turn.role ≠ "user" ∧
      (cfg.maxTurns = 1 ∨
        ∀ m, ((chat.entryAt ex).getD {}).messages.getLast? = some m → ¬CallsTools m)

/-- The sessions reached by exchanges that go on from the last reply and meet a condition.  The
entry may go at any time. -/
inductive Chat.Reached (cfg : Config) (allowed : Chat → Exchange → Prop) : Chat → Prop where
  | start : Reached cfg allowed {}
  | expire {chat : Chat} :
      Reached cfg allowed chat → Reached cfg allowed { chat with entry := none }
  | exchange {chat : Chat} {ex : Exchange} :
      Reached cfg allowed chat → chat.Continues ex → allowed chat ex →
      Reached cfg allowed (chat.after cfg ex)

/-! ## The middleware and the store -/

/-- The session store is called. -/
def IsSessionOp : Op → Prop
  | .sessionGet _ | .sessionAppend _ _ _ | .sessionDelete _ => True
  | _ => False

/-- The store answers at the time on the clock, which does not go back.  While other things happen,
the collector may run. -/
def storeAnswers (cfg : Config) : Answers effects (Sessions × Int) := fun (s, t) o res (s', t') =>
  t ≤ t' ∧ match o, res with
    | .sessionGet key, res => res = s.get key t' ∧ s' = s.afterGet key t'
    | .sessionAppend key user assistant, _ => s' = s.append cfg key user assistant t'
    | .sessionDelete key, _ => s' = s.delete key
    | _, _ => s' = s ∨ s' = s.gc t'

/-- The entry at a time: gone, if it has expired. -/
def Chat.at (chat : Chat) (now : Int) : Chat := { chat with entry := dropExpired now chat.entry }

/-- The client cannot tell the two entries apart from this time on. -/
def SameFrom (t : Int) (e e' : Option SessionEntry) : Prop :=
  ∀ now, t ≤ now → dropExpired now e = dropExpired now e'

theorem dropExpired_cases (now : Int) (e : Option SessionEntry) :
    dropExpired now e = e ∨ dropExpired now e = none := by
  cases h : dropExpired now e with
  | none => exact Or.inr rfl
  | some a =>
    rw [(dropExpired_eq_some.mp h).1]
    exact Or.inl rfl

section

variable {t now : Int} {e : Option SessionEntry}

theorem dropExpired_later (h : dropExpired t e = none) (hle : t ≤ now) :
    dropExpired now e = none :=
  dropExpired_eq_none.mpr fun a ha => expired_mono (dropExpired_eq_none.mp h a ha) hle

theorem dropExpired_dropExpired (hle : t ≤ now) :
    dropExpired now (dropExpired t e) = dropExpired now e := by
  obtain hkeep | hnone := dropExpired_cases t e
  · rw [hkeep]
  · rw [hnone, dropExpired_later hnone hle, dropExpired_none]

end

variable {cfg : Config} {s s' : Sessions × Int} {chat : Chat}

/-- Whatever else is done, an entry stays as it is, or it is collected when its time is up. -/
theorem exec_other {α : Type} {p : Go α} {a : α} (h : Exec (storeAnswers cfg) p s a s')
    (hp : Emits p fun e => ¬IsSessionOp e.op) (key : String) :
    s.2 ≤ s'.2 ∧ (s'.1 key = s.1 key ∨ s'.1 key = none ∧ dropExpired s'.2 (s.1 key) = none) := by
  induction h with
  | ret => exact ⟨le_refl _, Or.inl rfl⟩
  | @ask o k res s s₁ s' a hstep _ ih =>
    obtain ⟨hops, hks⟩ := emits_ask_iff.mp hp
    have hop := hops res
    obtain ⟨htime, hgc⟩ : s.2 ≤ s₁.2 ∧ (s₁.1 = s.1 ∨ s₁.1 = s.1.gc s₁.2) := by
      refine ⟨hstep.1, ?_⟩
      cases o <;> first | exact hstep.2 | exact absurd trivial hop
    obtain ⟨htime', hrest⟩ := ih (hks res)
    have hone : s₁.1 key = s.1 key ∨ s₁.1 key = none ∧ dropExpired s'.2 (s.1 key) = none := by
      rcases hgc with heq | heq
      · rw [heq]
        exact Or.inl rfl
      · have hkey : s₁.1 key = dropExpired s₁.2 (s.1 key) := congrFun heq key
        rw [hkey]
        exact (dropExpired_cases s₁.2 (s.1 key)).imp_right fun hnone =>
          ⟨hnone, dropExpired_later hnone htime'⟩
    refine ⟨htime.trans htime', ?_⟩
    rcases hone with hsame | ⟨hnone, hgone⟩
    · rwa [hsame] at hrest
    · refine Or.inr ⟨?_, hgone⟩
      rcases hrest with hsame | hrest
      · rw [hsame, hnone]
      · exact hrest.1

theorem exec_persistTurn (h : Exec (storeAnswers cfg) (persistTurn key req reply) s u s') :
    s.2 ≤ s'.2 ∧ s'.1 key = match assistantTurn req.stream reply with
      | none => s.1 key
      | some turn =>
          some (appendTurn cfg ((s.1 key).getD {}) (lastUserMessage req.messages) turn s'.2) := by
  rw [persistTurn] at h
  cases hturn : assistantTurn req.stream reply with
  | none =>
    rw [hturn] at h
    obtain ⟨-, rfl⟩ := exec_ret_iff.mp h
    exact ⟨le_refl _, rfl⟩
  | some turn =>
    rw [hturn] at h
    obtain ⟨_, s₁, ⟨htime, hstore⟩, hret⟩ := exec_ask_iff.mp h
    obtain ⟨-, rfl⟩ := exec_ret_iff.mp hret
    refine ⟨htime, ?_⟩
    rw [hstore]
    exact Function.update_self ..

theorem exec_resetSession (h : Exec (storeAnswers cfg) (resetSession r key) s u s') :
    s.2 ≤ s'.2 ∧ s'.1 key = if r.sessionReset = "true" then none else s.1 key := by
  rw [resetSession] at h
  split
  · next hreset =>
    rw [if_pos hreset] at h
    obtain ⟨_, s₁, ⟨htime, hstore⟩, hret⟩ := exec_ask_iff.mp h
    obtain ⟨-, rfl⟩ := exec_ret_iff.mp hret
    refine ⟨htime, ?_⟩
    rw [hstore]
    exact Function.update_self ..
  · next hreset =>
    rw [if_neg hreset] at h
    obtain ⟨-, rfl⟩ := exec_ret_iff.mp h
    exact ⟨le_refl _, rfl⟩

/-- An exchange at the times `got`, when the history is read, and `ex.now`, when the turn is stored.
The entry is lost in between only if its time is up. -/
structure Chat.Timed (chat : Chat) (got : Int) (ex : Exchange) (start stop : Int) : Prop where
  /-- The history is read after the request has come. -/
  started : start ≤ got
  /-- The turn is stored after that. -/
  ordered : got ≤ ex.now
  /-- Then the request is done. -/
  stopped : ex.now ≤ stop
  /-- What is lost has expired. -/
  lost : ex.lost = true → dropExpired ex.now ((chat.at got).begin ex.reset).entry = none

/-- A run of `SessionMiddleware` on a request with a session ID and a body, before a handler that
leaves the session store alone, is an exchange of the session.  The handler gets the messages that
the exchange forwards. -/
theorem sessionMiddleware_after {next : Handler} (hbody : r.body = some req)
    (hid : r.sessionID ≠ "") (hnext : ∀ r', Emits (next r') fun e => ¬IsSessionOp e.op)
    (h : Exec (storeAnswers cfg) (sessionMiddleware next r) s reply s')
    (hchat : SameFrom s.2 chat.entry (s.1 (sessionStoreKey r.identity r.sessionID))) :
    ∃ got ex, chat.Timed got ex s.2 s'.2 ∧ ex.req = req ∧ ex.reply = reply ∧
      ex.reset = decide (r.sessionReset = "true") ∧
      (∃ r' s₁ s₂, r'.body = some { req with messages := (chat.at got).forwarded ex } ∧
        Exec (storeAnswers cfg) (next r') s₁ reply s₂) ∧
      s'.1 (sessionStoreKey r.identity r.sessionID) = ((chat.at got).after cfg ex).entry := by
  obtain ⟨sessionID, s₀, hsession, h₀⟩ := exec_bind_iff.mp h
  rw [resolveSessionID, if_neg hid] at hsession
  obtain ⟨rfl, rfl⟩ := exec_ret_iff.mp hsession
  generalize hkey : sessionStoreKey r.identity r.sessionID = key at h₀ hchat
  obtain ⟨u, s₁, hreset, h₁⟩ := exec_bind_iff.mp h₀
  obtain ⟨htime, hentry⟩ := exec_resetSession hreset
  simp only [hbody] at h₁
  obtain ⟨stored, s₂, hget, h₂⟩ := exec_bind_iff.mp h₁
  obtain ⟨reply', s₃, hrun, h₃⟩ := exec_bind_iff.mp h₂
  obtain ⟨u', s₄, hpersist, h₄⟩ := exec_bind_iff.mp h₃
  obtain ⟨rfl, rfl⟩ := exec_ret_iff.mp h₄
  obtain ⟨stored', s₂', ⟨htime', hstored, hkept⟩, hgot⟩ := exec_ask_iff.mp hget
  obtain ⟨rfl, rfl⟩ := exec_ret_iff.mp hgot
  -- the entry that `Get` leaves is the one of the session at that time
  have hbegin : ((chat.at s₂.2).begin (decide (r.sessionReset = "true"))).entry =
      dropExpired s₂.2 (s₁.1 key) := by
    rw [hentry, Chat.begin, Chat.at, hchat s₂.2 (htime.trans htime')]
    by_cases hr : r.sessionReset = "true" <;> simp [hr]
  have hhistory : ((chat.at s₂.2).begin (decide (r.sessionReset = "true"))).stored =
      stored.getD [] := by
    rw [Chat.stored, hbegin, hstored, get_eq]
    cases dropExpired s₂.2 (s₁.1 key) <;> rfl
  have hleft : s₂.1 key = dropExpired s₂.2 (s₁.1 key) := by
    rw [hkept]
    exact Function.update_self ..
  obtain ⟨hwait, hother⟩ := exec_other hrun (hnext _) key
  obtain ⟨hlast, hafter⟩ := exec_persistTurn hpersist
  obtain ⟨lost, hgone, hlost⟩ : ∃ lost : Bool, (lost = true →
      dropExpired s'.2 ((chat.at s₂.2).begin (decide (r.sessionReset = "true"))).entry = none) ∧
      s₃.1 key = if lost then none else
        ((chat.at s₂.2).begin (decide (r.sessionReset = "true"))).entry := by
    rw [hbegin, ← hleft]
    rcases hother with hsame | ⟨hnone, hgone⟩
    · exact ⟨false, Bool.noConfusion, hsame⟩
    · exact ⟨true, fun _ => dropExpired_later hgone hlast, hnone⟩
  refine ⟨s₂.2, ⟨req, decide (r.sessionReset = "true"), reply, lost, s'.2⟩,
    ⟨htime.trans htime', hwait.trans hlast, le_refl _, hgone⟩, rfl, rfl, rfl,
    ⟨_, _, s₃, ?_, hrun⟩, ?_⟩
  · rw [Chat.forwarded, hhistory]
    rfl
  · rw [hafter, Chat.after, Chat.entryAt, hlost]
    cases assistantTurn req.stream reply <;> rfl

/-- What is known of a request that was served. -/
structure Logged where
  /-- The request. -/
  req : RequestEnvelope
  /-- `X-IXR-Session-Reset` was set. -/
  reset : Bool
  /-- The reply. -/
  reply : Reply
  /-- When the request came. -/
  start : Int
  /-- When it was done. -/
  stop : Int

/-- The requests of a session are served one after the other.  In between, time passes, and the
entry may be collected once it has expired. -/
inductive SessionRun (cfg : Config) (next : Handler) (key : String) :
    List Logged → Sessions × Int → Prop where
  | new {s : Sessions × Int} : s.1 key = none → SessionRun cfg next key [] s
  | request {log : List Logged} {s s' : Sessions × Int} {r : HttpRequest} {req : RequestEnvelope}
      {reply : Reply} : SessionRun cfg next key log s → r.body = some req → r.sessionID ≠ "" →
      sessionStoreKey r.identity r.sessionID = key →
      Exec (storeAnswers cfg) (sessionMiddleware next r) s reply s' →
      SessionRun cfg next key
        (log ++ [⟨req, decide (r.sessionReset = "true"), reply, s.2, s'.2⟩]) s'
  | other {log : List Logged} {s s' : Sessions × Int} : SessionRun cfg next key log s →
      s.2 ≤ s'.2 → s'.1 key = s.1 key ∨ s'.1 key = dropExpired s'.2 (s.1 key) →
      SessionRun cfg next key log s'

/-- The sessions that exchanges with these requests, resets, replies and times lead to. -/
inductive Chat.Follows (cfg : Config) : List Logged → Chat → Prop where
  | start : Follows cfg [] {}
  | exchange {log : List Logged} {chat : Chat} {got start stop : Int} (ex : Exchange) :
      Follows cfg log chat → chat.Timed got ex start stop →
      Follows cfg (log ++ [⟨ex.req, ex.reset, ex.reply, start, stop⟩]) ((chat.at got).after cfg ex)

/-- Whatever requests of a session are served, from then on the store answers for it what the
exchanges have made of it, and nothing once its time is up. -/
theorem session_follows_exchanges (cfg : Config) (next : Handler)
    (hnext : ∀ r, Emits (next r) fun e => ¬IsSessionOp e.op) (key : String) (log : List Logged)
    (s : Sessions × Int) (hserved : SessionRun cfg next key log s) :
    ∃ chat, Chat.Follows cfg log chat ∧
      ∀ now, s.2 ≤ now → s.1.get key now = (chat.at now).entry.map (·.messages) := by
  have hsame : ∃ chat, Chat.Follows cfg log chat ∧ SameFrom s.2 chat.entry (s.1 key) := by
    induction hserved with
    | new hnone => exact ⟨{}, .start, fun now _ => by rw [hnone]⟩
    | other _ htime hother ih =>
      obtain ⟨chat, hfollows, hentry⟩ := ih
      refine ⟨chat, hfollows, fun now hnow => ?_⟩
      rw [hentry now (htime.trans hnow)]
      obtain hsame | hdrop := hother
      · rw [hsame]
      · rw [hdrop, dropExpired_dropExpired hnow]
    | @request log _ _ _ _ _ _ hbody hid hkey hrun ih =>
      subst hkey
      obtain ⟨chat, hfollows, hentry⟩ := ih
      obtain ⟨got, ex, htimed, rfl, rfl, hreset, _, hafter⟩ :=
        sessionMiddleware_after hbody hid hnext hrun hentry
      rw [← hreset]
      exact ⟨_, hfollows.exchange ex htimed, fun now _ => by rw [hafter]⟩
  obtain ⟨chat, hfollows, hentry⟩ := hsame
  refine ⟨chat, hfollows, fun now hnow => ?_⟩
  rw [get_eq, ← hentry now hnow]
  rfl

/-- A request for a model with a large window. -/
def newMessages (messages : List Message) : RequestEnvelope :=
  { model := "gpt-4o", messages := messages }

/-- A reply of one choice. -/
def replies (m : Message) : Reply := .ok (some { choices := [{ message := m }] })

/-- The client says thanks. -/
def sayThanks : Exchange where
  req := newMessages [{ role := "user", content := "Thanks." }]
  reply := replies { role := "assistant", content := "Welcome." }

/-- Two turns, of which the second resets the session. -/
theorem reset_session_followed : ∃ (log : List Logged) (chat : Chat),
    log.map Logged.reset = [false, true] ∧ Chat.Follows anHour log chat ∧
      (chat.at 9).entry.map (·.messages.length) = some 2 := by
  let thank (reset : String) : HttpRequest :=
    { sessionID := "s", sessionReset := reset, body := some sayThanks.req }
  have htick (t : Int) : t ≤ t + 1 := by omega
  have hget (s : Sessions) (t : Int) (key : String) : storeAnswers anHour (s, t) (.sessionGet key)
      (s.get key (t + 1)) (s.afterGet key (t + 1), t + 1) := ⟨htick t, rfl, rfl⟩
  have happend (s : Sessions) (t : Int) (key : String) (user assistant : Message) :
      storeAnswers anHour (s, t) (.sessionAppend key user assistant) ()
        (s.append anHour key user assistant (t + 1), t + 1) := ⟨htick t, rfl⟩
  have hdelete (s : Sessions) (t : Int) (key : String) :
      storeAnswers anHour (s, t) (.sessionDelete key) () (s.delete key, t + 1) := ⟨htick t, rfl⟩
  let served (r : HttpRequest) : Go Reply :=
    sessionMiddleware (fun _ => .ret sayThanks.reply) r
  have hfirst : Exec (storeAnswers anHour) (served (thank "")) (fun _ => none, 0) _ (_, 2) :=
    .ask (hget _ 0 _) (.ask (happend _ 1 _ _ _) .ret)
  have hsecond (s : Sessions) :
      Exec (storeAnswers anHour) (served (thank "true")) (s, 2) _ (_, 5) :=
    .ask (hdelete _ 2 _) (.ask (hget _ 3 _) (.ask (happend _ 4 _ _ _) .ret))
  obtain ⟨chat, hfollows, hstored⟩ := session_follows_exchanges anHour _ (fun _ => emits_ret) ":s"
    _ _ (((SessionRun.new rfl).request rfl (by decide) (by decide) hfirst).request rfl (by decide)
      (by decide) (hsecond _))
  refine ⟨_, chat, rfl, hfollows, ?_⟩
  have hnine := congrArg (Option.map List.length) (hstored 9 (by decide))
  rw [Option.map_map] at hnine
  exact hnine.symm

/-! ## What is forwarded -/

/-- The stored messages of a session. -/
structure Tidy (chat : Chat) : Prop where
  /-- Only the last one may wait for tool results. -/
  closed : ClosedBefore chat.stored
  /-- The last one is the last reply. -/
  last : chat.stored ≠ [] → chat.stored.getLast? = chat.last
  /-- User messages come from the client. -/
  users : ∀ m ∈ chat.stored, m.role = "user" → m ∈ chat.sent

theorem tidy_of_stored_nil (h : chat.stored = []) : Tidy chat where
  closed m hm := by
    rw [h] at hm
    exact absurd hm not_mem_nil
  last hne := absurd h hne
  users m hm := by
    rw [h] at hm
    exact absurd hm not_mem_nil

theorem Chat.begin_sent (chat : Chat) (reset : Bool) : (chat.begin reset).sent = chat.sent := by
  rw [Chat.begin]
  split <;> rfl

theorem Tidy.begin (h : Tidy chat) (reset : Bool) : Tidy (chat.begin reset) := by
  rw [Chat.begin]
  split
  · exact tidy_of_stored_nil rfl
  · exact h

variable {ex : Exchange}

theorem Tidy.forwarded (h : Tidy chat) (hcont : chat.Continues ex) :
    ValidTranscript (chat.forwarded ex) ∧
      ∀ m ∈ chat.forwarded ex, m.role = "user" → m ∈ chat.sent ++ ex.req.messages := by
  have hbegin := h.begin ex.reset
  obtain ⟨front, hfront⟩ := trimToContextWindow_suffix (chat.begin ex.reset).stored
    ex.req.messages ex.req.model
  have hforwarded : chat.forwarded ex =
      trimToContextWindow (chat.begin ex.reset).stored ex.req.messages ex.req.model ++
        ex.req.messages := rfl
  rw [hforwarded]
  generalize trimToContextWindow (chat.begin ex.reset).stored ex.req.messages ex.req.model =
    history at hfront
  refine ⟨?_, fun m hm hrole => ?_⟩
  · have hclosed := hbegin.closed
    rw [← hfront] at hclosed
    refine validTranscript_append hclosed.suffix ?_
    cases history with
    | nil => exact ValidTranscript.suffix hcont
    | cons m history =>
      have hlast := hbegin.last (by rw [← hfront]; simp)
      rw [← hfront, getLast?_append_of_ne_nil _ (cons_ne_nil m history)] at hlast
      rw [hlast]
      exact hcont
  · rcases mem_append.mp hm with hold | hnew
    · have hmem := hbegin.users m (by rw [← hfront]; exact mem_append_right front hold) hrole
      rw [Chat.begin_sent] at hmem
      exact mem_append_left _ hmem
    · exact mem_append_right _ hnew

theorem lastUserMessage_mem (h : ∃ m ∈ messages, m.role = "user") :
    lastUserMessage messages ∈ messages := by
  rw [lastUserMessage]
  cases hfind : messages.reverse.find? fun m => decide (m.role = "user") with
  | some m => exact mem_reverse.mp (mem_of_find?_eq_some hfind)
  | none =>
    obtain ⟨m, hm, hrole⟩ := h
    have hnone := find?_eq_none.mp hfind m (mem_reverse.mpr hm)
    exact absurd (decide_eq_true hrole) hnone

theorem lastUserMessage_role (messages : List Message) :
    (lastUserMessage messages).role = "user" := by
  rw [lastUserMessage]
  cases hfind : messages.reverse.find? fun m => decide (m.role = "user") with
  | some m =>
    have hrole := find?_some hfind
    exact of_decide_eq_true hrole
  | none => rfl

theorem Tidy.seen (h : Tidy chat) (ex : Exchange) :
    Tidy
      { entry := chat.entryAt ex
        last := (chat.begin ex.reset).last
        sent := chat.sent ++ ex.req.messages } := by
  have hbegin := h.begin ex.reset
  rw [Chat.entryAt]
  split
  · exact tidy_of_stored_nil rfl
  · refine ⟨hbegin.closed, hbegin.last, fun m hm hrole => mem_append_left _ ?_⟩
    rw [← Chat.begin_sent chat ex.reset]
    exact hbegin.users m hm hrole

/-- A tidy history stays tidy when a turn is appended behind a message that waits for nothing. -/
theorem closedBefore_append (h : ClosedBefore history)
    (hlast : ∀ m, history.getLast? = some m → ¬CallsTools m) (huser : user.role = "user")
    (turn : Message) : ClosedBefore (history ++ [user, turn]) := by
  intro m hm
  have hdrop : (history ++ [user, turn]).dropLast = history ++ [user] := by
    rw [dropLast_append_of_ne_nil (cons_ne_nil _ _)]
    rfl
  rw [hdrop] at hm
  rcases mem_append.mp hm with hold | hnew
  · cases hlast' : history.getLast? with
    | none =>
      rw [getLast?_eq_none_iff.mp hlast'] at hold
      exact absurd hold not_mem_nil
    | some last =>
      rw [← dropLast_append_getLast? last hlast'] at hold
      rcases mem_append.mp hold with hold | hold
      · exact h m hold
      · rw [mem_singleton.mp hold]
        exact hlast last hlast'
  · rw [mem_singleton.mp hnew]
    rintro ⟨hrole, -⟩
    rw [huser] at hrole
    exact absurd hrole (by decide)

/-- Trimming keeps it so.  With one turn kept, it does not matter what the old messages were. -/
theorem ClosedBefore.trim (h : ClosedBefore history)
    (hlast : cfg.maxTurns = 1 ∨ ∀ m, history.getLast? = some m → ¬CallsTools m)
    (huser : user.role = "user") (turn : Message) :
    ClosedBefore (Session.trim cfg (history ++ [user, turn])) := by
  have hkept {messages : List Message} (hclosed : ClosedBefore messages) :
      ClosedBefore (Session.trim cfg messages) := by
    obtain ⟨front, hfront⟩ := trim_suffix cfg messages
    rw [← hfront] at hclosed
    exact hclosed.suffix
  rcases hlast with hone | hlast
  · rw [trim_append_of_one hone]
    have hnil : ClosedBefore [] := fun m hm => absurd hm not_mem_nil
    exact hkept (closedBefore_append hnil (fun m hm => nomatch hm) huser turn)
  · exact hkept (closedBefore_append h hlast huser turn)

theorem getLast?_of_suffix (h : back <:+ messages) (hne : back ≠ []) :
    back.getLast? = messages.getLast? := by
  obtain ⟨front, rfl⟩ := h
  exact (getLast?_append_of_ne_nil front hne).symm

theorem Tidy.after (h : Tidy chat) (hsimple : chat.Simple cfg ex) : Tidy (chat.after cfg ex) := by
  have hseen := h.seen ex
  cases hturn : assistantTurn ex.req.stream ex.reply with
  | none =>
    rw [Chat.after, hturn]
    exact hseen
  | some turn =>
    obtain ⟨huser, hrole, hlast⟩ := hsimple turn hturn
    have hstored : (chat.after cfg ex).stored = trim cfg
        (((chat.entryAt ex).getD {}).messages ++ [lastUserMessage ex.req.messages, turn]) := by
      rw [Chat.after, hturn]
      rfl
    have hchat : (chat.after cfg ex).last = some turn ∧
        (chat.after cfg ex).sent = chat.sent ++ ex.req.messages := by
      rw [Chat.after, hturn]
      exact ⟨rfl, rfl⟩
    have hsuffix := trim_suffix cfg
      (((chat.entryAt ex).getD {}).messages ++ [lastUserMessage ex.req.messages, turn])
    refine ⟨?_, fun hne => ?_, fun m hm hmrole => ?_⟩
    · rw [hstored]
      exact hseen.closed.trim hlast (lastUserMessage_role ex.req.messages) turn
    · rw [hstored] at hne ⊢
      rw [getLast?_of_suffix hsuffix hne, hchat.1]
      simp
    · rw [hstored] at hm
      rw [hchat.2]
      rcases mem_append.mp (hsuffix.mem hm) with hold | hnew
      · exact hseen.users m hold hmrole
      · rcases mem_cons.mp hnew with rfl | hnew
        · exact mem_append_right _ (lastUserMessage_mem huser)
        · rw [mem_singleton.mp hnew] at hmrole
          exact absurd hmrole hrole

theorem Chat.Reached.tidy (h : Chat.Reached cfg (Chat.Simple cfg) chat) : Tidy chat := by
  induction h with
  | start | expire => exact tidy_of_stored_nil rfl
  | exchange _ _ hsimple ih => exact ih.after hsimple

/-- In every session whose exchanges all meet the condition, what is forwarded for a request that
goes on from the last reply is a valid transcript, with no user message the client never sent. -/
theorem forwarded_valid {cfg : Config} {chat : Chat} (h : Chat.Reached cfg (Chat.Simple cfg) chat)
    {ex : Exchange} (hcont : chat.Continues ex) :
    ValidTranscript (chat.forwarded ex) ∧
      ∀ m ∈ chat.forwarded ex, m.role = "user" → m ∈ chat.sent ++ ex.req.messages :=
  h.tidy.forwarded hcont

/-! ## A tool call and its answer -/

/-- The client asks for the weather, and the assistant calls a tool. -/
def askWeather : Exchange where
  req := newMessages [{ role := "user", content := "Weather?" }]
  reply := replies { role := "assistant", toolCalls := [{ id := "c1" }] }

/-- The client sends what the tool found. -/
def answerCall : Exchange where
  req := newMessages [{ role := "tool", content := "sunny", toolCallID := "c1" }]
  reply := replies { role := "assistant", content := "It is sunny." }

/-- With the third request the tool call is forwarded without its answer, before an empty user
message. -/
theorem tool_results_forgotten :
    let chat := (Chat.after anHour {} askWeather).after anHour answerCall
    Chat.Reached anHour (fun _ _ => True) chat ∧ chat.Continues sayThanks ∧
      ¬ValidTranscript (chat.forwarded sayThanks) ∧
      ∃ m ∈ chat.forwarded sayThanks, m.role = "user" ∧
        m ∉ chat.sent ++ sayThanks.req.messages := by
  intro chat
  have hfirst : Chat.Continues {} askWeather := by
    show ValidTranscript _
    decide
  have hsecond : (Chat.after anHour {} askWeather).Continues answerCall := by
    show ValidTranscript _
    decide
  have hthird : chat.Continues sayThanks := by
    show ValidTranscript _
    decide
  refine ⟨(Chat.Reached.start.exchange hfirst trivial).exchange hsecond trivial, hthird, ?_, ?_⟩
  · decide +kernel
  · exact ⟨{ role := "user" }, by decide +kernel, rfl, by decide +kernel⟩

/-- The call of a tool is forwarded with its answer behind it. -/
theorem answered_call_forwarded :
    let chat := Chat.after anHour {} askWeather
    (∃ m ∈ chat.forwarded answerCall, CallsTools m) ∧
      ValidTranscript (chat.forwarded answerCall) ∧
      ∀ m ∈ chat.forwarded answerCall, m.role = "user" →
        m ∈ chat.sent ++ answerCall.req.messages := by
  intro chat
  have hfirst : Chat.Continues {} askWeather := by
    show ValidTranscript _
    decide
  have hsecond : chat.Continues answerCall := by
    show ValidTranscript _
    decide
  have hsimple : Chat.Simple anHour {} askWeather := by
    intro turn hturn
    obtain rfl : ({ role := "assistant", toolCalls := [{ id := "c1" }] } : Message) = turn :=
      Option.some.inj hturn
    exact ⟨⟨_, mem_singleton_self _, rfl⟩, by decide, Or.inr fun m hm => nomatch hm⟩
  exact ⟨⟨{ role := "assistant", toolCalls := [{ id := "c1" }] }, by decide +kernel, rfl,
    cons_ne_nil _ _⟩, forwarded_valid (.exchange .start hfirst hsimple) hsecond⟩

end Ixr.Ingress
