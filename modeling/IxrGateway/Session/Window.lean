import IxrGateway.Session.Restart

/-!
# Which turns of a session are returned

A session is meant to end when nothing is appended to it for longer than `ttl`.
`Get` and the collector remove a session that has expired.  `Append` does not look at
the expiry.  It adds to an expired session that is still there and makes it live
again, with all its old turns.

`window` has the turns that the session should have, and `kept` those that the store
has.  `kept` ends with `window` (`Tracks`).  The answer of `Get` is right exactly if
the two are the same, or `Get` comes too late, or the limit on turns hides the
difference (`get_eq_answer_iff`).
-/

namespace Ixr.Session

open List Sessions Function

/-! ## Runs -/

/-- A call on a `MemorySessionStore`, with the time it reads.  `gc` is a round of `gcLoop`. -/
inductive Call where
  | append (key : String) (user assistant : Message) (now : Int)
  | delete (key : String)
  | get (key : String) (now : Int)
  | gc (now : Int)

/-- What a call does. -/
def Sessions.step (cfg : Config) (s : Sessions) : Call → Sessions
  | .append key user assistant now => s.append cfg key user assistant now
  | .delete key => s.delete key
  | .get key now => s.afterGet key now
  | .gc now => s.gc now

/-- The sessions after calls. -/
def sessionsAfter (cfg : Config) (calls : List Call) : Sessions :=
  calls.foldl (step cfg) fun _ => none

/-- The time that a call reads. -/
def Call.reading : Call → Option Int
  | .append _ _ _ now => some now
  | .delete _ => none
  | .get _ now => some now
  | .gc now => some now

/-- The times that calls read. -/
def readings (calls : List Call) : List Int := calls.filterMap Call.reading

/-! ## Turns -/

/-- A turn, with the time of its `Append`. -/
structure Appended where
  user : Message
  assistant : Message
  time : Int
deriving Repr, DecidableEq

/-- The messages of turns. -/
def messagesOf (turns : List Appended) : List Message :=
  turns.flatMap fun turn => [turn.user, turn.assistant]

/-- More than `ttl` has passed since the last turn. -/
def lapsed (ttl now : Int) (turns : List Appended) : Bool :=
  turns.getLast?.any fun turn => expired (expiry ttl turn.time) now

/-- The turns, unless lapsed. -/
def dropLapsed (ttl now : Int) (turns : List Appended) : List Appended :=
  if lapsed ttl now turns then [] else turns

/-- The turns of a session after a call.  A session that has lapsed starts again with the next
turn. -/
def Call.window (ttl : Int) (key : String) (turns : List Appended) : Call → List Appended
  | .append k user assistant now =>
    if k = key then dropLapsed ttl now turns ++ [⟨user, assistant, now⟩] else turns
  | .delete k => if k = key then [] else turns
  | .get _ _ => turns
  | .gc _ => turns

/-- The turns that are in the store after a call.  They go if a `Get` of the key or the collector
finds that they have lapsed. -/
def Call.kept (ttl : Int) (key : String) (turns : List Appended) : Call → List Appended
  | .append k user assistant now =>
    if k = key then turns ++ [⟨user, assistant, now⟩] else turns
  | .delete k => if k = key then [] else turns
  | .get k now => if k = key then dropLapsed ttl now turns else turns
  | .gc now => dropLapsed ttl now turns

/-- The appends to a key since the store was made, the last `Delete` of the key and the last time
that more than `ttl` had passed since the append before. -/
def window (ttl : Int) (key : String) (calls : List Call) : List Appended :=
  calls.foldl (Call.window ttl key) []

/-- The turns in the store. -/
def kept (ttl : Int) (key : String) (calls : List Call) : List Appended :=
  calls.foldl (Call.kept ttl key) []

/-- The turns within the limit. -/
def lastTurns (maxTurns : Int) (turns : List Appended) : List Appended :=
  if 0 < maxTurns then turns.rtake maxTurns.toNat else turns

/-- What `Get` returns for a session with some turns. -/
def answer (cfg : Config) (now : Int) (turns : List Appended) : Option (List Message) :=
  if turns = [] ∨ lapsed cfg.ttl now turns then none
  else some (messagesOf (lastTurns cfg.maxTurns turns))

theorem lapsed_concat (ttl now : Int) (turns : List Appended) (turn : Appended) :
    lapsed ttl now (turns ++ [turn]) = expired (expiry ttl turn.time) now := by
  rw [lapsed, getLast?_concat, Option.any_some]

variable {ttl now : Int} {turns stored : List Appended}

theorem lapsed_mono {later : Int} (h : lapsed ttl now turns = true) (hle : now ≤ later) :
    lapsed ttl later turns = true := by
  induction turns using reverseRecOn with
  | nil => cases h
  | append_singleton turns turn _ =>
    rw [lapsed_concat] at h ⊢
    exact expired_mono h hle

theorem length_messagesOf (turns : List Appended) :
    (messagesOf turns).length = 2 * turns.length := by
  rw [messagesOf, length_flatMap]
  simp [Nat.mul_comm]

theorem drop_messagesOf (n : Nat) (turns : List Appended) :
    (messagesOf turns).drop (2 * n) = messagesOf (turns.drop n) := by
  induction n generalizing turns with
  | zero => rfl
  | succ n ih =>
    cases turns with
    | nil => rfl
    | cons turn turns => exact ih turns

theorem trim_messagesOf (cfg : Config) (turns : List Appended) :
    trim cfg (messagesOf turns) = messagesOf (lastTurns cfg.maxTurns turns) := by
  unfold trim lastTurns
  split
  · rw [rtake, rtake, ← drop_messagesOf, length_messagesOf]
    congr 1
    omega
  · rfl

/-! ## The store -/

/-- The entry with these turns. -/
def entryOf (cfg : Config) (turns : List Appended) : Option SessionEntry :=
  turns.getLast?.map fun turn => ⟨trim cfg (messagesOf turns), expiry cfg.ttl turn.time⟩

theorem entryOf_concat (cfg : Config) (turns : List Appended) (turn : Appended) :
    entryOf cfg (turns ++ [turn]) =
      some ⟨trim cfg (messagesOf (turns ++ [turn])), expiry cfg.ttl turn.time⟩ := by
  rw [entryOf, getLast?_concat, Option.map_some]

theorem dropExpired_entryOf (cfg : Config) (now : Int) (turns : List Appended) :
    dropExpired now (entryOf cfg turns) = entryOf cfg (dropLapsed cfg.ttl now turns) := by
  induction turns using reverseRecOn with
  | nil => rfl
  | append_singleton turns turn _ =>
    rw [entryOf_concat, dropExpired_some, dropLapsed, lapsed_concat]
    split
    · rfl
    · rw [entryOf_concat]

theorem appendTurn_entryOf (cfg : Config) (turns : List Appended) (user assistant : Message)
    (now : Int) :
    some (appendTurn cfg ((entryOf cfg turns).getD {}) user assistant now) =
      entryOf cfg (turns ++ [⟨user, assistant, now⟩]) := by
  have hmessages : ((entryOf cfg turns).getD {}).messages = trim cfg (messagesOf turns) := by
    induction turns using reverseRecOn with
    | nil => simp [entryOf, messagesOf, trim, rtake]
    | append_singleton turns turn _ => rw [entryOf_concat, Option.getD_some]
  have hexpires : 0 < cfg.ttl ∨ ((entryOf cfg turns).getD {}).expiresAt = none := by
    rcases lt_or_ge 0 cfg.ttl with hpos | hle
    · exact .inl hpos
    · right
      induction turns using reverseRecOn with
      | nil => rfl
      | append_singleton turns turn _ =>
        rw [entryOf_concat, Option.getD_some, expiry, if_neg (not_lt.mpr hle)]
  rw [appendTurn, hmessages, trim_append_trim, entryOf_concat, expiry, messagesOf, messagesOf,
    flatMap_append, flatMap_singleton]
  rcases hexpires with hpos | hnone
  · rw [if_pos hpos, if_pos hpos]
  · rw [hnone]

theorem sessionsAfter_eq (cfg : Config) (calls : List Call) (key : String) :
    sessionsAfter cfg calls key = entryOf cfg (kept cfg.ttl key calls) := by
  induction calls using reverseRecOn with
  | nil => rfl
  | append_singleton calls call ih =>
    rw [sessionsAfter, kept, foldl_concat, foldl_concat, ← sessionsAfter, ← kept]
    cases call with
    | append k user assistant now =>
      rw [step, Call.kept, append]
      rcases eq_or_ne k key with rfl | hne
      · rw [update_self, if_pos rfl, ih, appendTurn_entryOf]
      · rw [update_of_ne hne.symm, if_neg hne, ih]
    | delete k =>
      rw [step, Call.kept, delete]
      rcases eq_or_ne k key with rfl | hne
      · rw [update_self, if_pos rfl]
        rfl
      · rw [update_of_ne hne.symm, if_neg hne, ih]
    | get k now =>
      rw [step, Call.kept, afterGet]
      rcases eq_or_ne k key with rfl | hne
      · rw [update_self, if_pos rfl, ih, dropExpired_entryOf]
      · rw [update_of_ne hne.symm, if_neg hne, ih]
    | gc now => rw [step, Call.kept, gc, ih, dropExpired_entryOf]

theorem get_sessionsAfter (cfg : Config) (calls : List Call) (key : String) (now : Int) :
    (sessionsAfter cfg calls).get key now = answer cfg now (kept cfg.ttl key calls) := by
  rw [get_eq, sessionsAfter_eq, dropExpired_entryOf, answer, dropLapsed]
  generalize kept cfg.ttl key calls = turns
  induction turns using reverseRecOn with
  | nil => rfl
  | append_singleton turns turn _ =>
    by_cases hlapsed : lapsed cfg.ttl now (turns ++ [turn]) = true
    · rw [if_pos hlapsed, if_pos (.inr hlapsed)]
      rfl
    · rw [if_neg hlapsed, if_neg (by simpa using hlapsed), entryOf_concat, Option.map_some,
        trim_messagesOf]

/-! ## What is kept and what should be -/

/-- How the turns in the store go with the turns of the session.  Either the store has the turns of
the session, perhaps with older ones before them, or it has none and the session has lapsed. -/
inductive Tracks (ttl now : Int) : List Appended → List Appended → Prop where
  | held (old turns : List Appended) (last : Appended) :
      Tracks ttl now (turns ++ [last]) (old ++ (turns ++ [last]))
  | gone {turns : List Appended} :
      turns = [] ∨ lapsed ttl now turns = true → Tracks ttl now turns []

theorem Tracks.later {later : Int} (h : Tracks ttl now turns stored) (hle : now ≤ later) :
    Tracks ttl later turns stored := by
  cases h with
  | held old turns last => exact .held old turns last
  | gone hgone => exact .gone (hgone.imp_right fun hlapsed => lapsed_mono hlapsed hle)

theorem Tracks.append (h : Tracks ttl now turns stored) (turn : Appended) :
    Tracks ttl now (dropLapsed ttl now turns ++ [turn]) (stored ++ [turn]) := by
  cases h with
  | held old turns last =>
    unfold dropLapsed
    split
    · exact .held (old ++ (turns ++ [last])) [] turn
    · rw [append_assoc old]
      exact .held old (turns ++ [last]) turn
  | gone hgone =>
    have hdrop : dropLapsed ttl now turns = [] := by
      rcases hgone with rfl | hlapsed
      · rfl
      · exact if_pos hlapsed
    rw [hdrop]
    exact .held [] [] turn

theorem Tracks.drop (h : Tracks ttl now turns stored) :
    Tracks ttl now turns (dropLapsed ttl now stored) := by
  cases h with
  | held old turns last =>
    rw [dropLapsed, ← append_assoc, lapsed_concat, ← lapsed_concat ttl now turns]
    split
    · next hlapsed => exact .gone (.inr hlapsed)
    · rw [append_assoc]
      exact .held old turns last
  | gone hgone => exact .gone hgone

theorem Tracks.step (h : Tracks ttl now turns stored) (key : String) {call : Call}
    (hnow : ∀ t ∈ call.reading, t = now) :
    Tracks ttl now (call.window ttl key turns) (call.kept ttl key stored) := by
  cases call with
  | append k user assistant t =>
    obtain rfl := hnow t rfl
    rw [Call.window, Call.kept]
    split
    · exact h.append _
    · exact h
  | delete k =>
    rw [Call.window, Call.kept]
    split
    · exact .gone (.inl rfl)
    · exact h
  | get k t =>
    obtain rfl := hnow t rfl
    rw [Call.window, Call.kept]
    split
    · exact h.drop
    · exact h
  | gc t =>
    obtain rfl := hnow t rfl
    exact h.drop

theorem readings_concat (calls : List Call) (call : Call) :
    readings (calls ++ [call]) = readings calls ++ call.reading.toList := by
  rw [readings, filterMap_append, ← readings]
  cases call <;> rfl

/-- The clock does not go back, so what the store has removed has lapsed. -/
theorem tracks (ttl : Int) (key : String) {calls : List Call}
    (hclock : (readings calls ++ [now]).Pairwise (· ≤ ·)) :
    Tracks ttl now (window ttl key calls) (kept ttl key calls) := by
  induction calls using reverseRecOn generalizing now with
  | nil => exact .gone (.inl rfl)
  | append_singleton calls call ih =>
    rw [window, kept, foldl_concat, foldl_concat, ← window, ← kept]
    rw [readings_concat, append_assoc] at hclock
    cases hreading : call.reading with
    | none =>
      rw [hreading] at hclock
      exact (ih hclock).step key fun t ht => by rw [hreading] at ht; cases ht
    | some t =>
      rw [hreading] at hclock
      have hbefore : (readings calls ++ [t]).Pairwise (· ≤ ·) := by
        refine hclock.sublist (Sublist.append_left ?_ _)
        exact sublist_append_left [t] [now]
      have hle : t ≤ now :=
        rel_of_pairwise_cons (pairwise_append.mp hclock).2.1 mem_cons_self
      refine ((ih hbefore).step key fun u hu => ?_).later hle
      rw [hreading] at hu
      exact (Option.mem_some.mp hu).symm

theorem lastTurns_append {maxTurns : Int} (hpos : 0 < maxTurns) (hle : maxTurns ≤ turns.length)
    (old : List Appended) : lastTurns maxTurns (old ++ turns) = lastTurns maxTurns turns := by
  rw [lastTurns, lastTurns, if_pos hpos, if_pos hpos, rtake, rtake, length_append,
    show old.length + turns.length - maxTurns.toNat =
      old.length + (turns.length - maxTurns.toNat) by omega, drop_length_add_append]

theorem length_lastTurns (maxTurns : Int) (turns : List Appended) :
    ((lastTurns maxTurns turns).length : Int) =
      if 0 < maxTurns then min maxTurns turns.length else turns.length := by
  unfold lastTurns
  split
  · rw [rtake, length_drop]
    omega
  · rfl

/-- Older turns show in the answer unless the limit cuts them off. -/
theorem Tracks.answer_eq_iff {cfg : Config} (h : Tracks cfg.ttl now turns stored) :
    answer cfg now stored = answer cfg now turns ↔
      lapsed cfg.ttl now turns = true ∨ stored = turns ∨
        0 < cfg.maxTurns ∧ cfg.maxTurns ≤ turns.length := by
  cases h with
  | gone hgone =>
    rcases hgone with rfl | hlapsed
    · exact iff_of_true rfl (.inr (.inl rfl))
    · refine iff_of_true ?_ (.inl hlapsed)
      rw [answer, answer, if_pos (.inl rfl), if_pos (.inr hlapsed)]
  | held old turns last =>
    have hsame : lapsed cfg.ttl now (old ++ (turns ++ [last])) =
        lapsed cfg.ttl now (turns ++ [last]) := by
      rw [← append_assoc, lapsed_concat, lapsed_concat]
    generalize hw : turns ++ [last] = w at hsame
    have hne : w ≠ [] := by
      rw [← hw]
      exact concat_ne_nil last turns
    rw [answer, answer, hsame]
    by_cases hlapsed : lapsed cfg.ttl now w = true
    · rw [if_pos (.inr hlapsed), if_pos (.inr hlapsed)]
      exact iff_of_true rfl (.inl hlapsed)
    · rw [if_neg (not_or.mpr ⟨append_ne_nil_of_right_ne_nil old hne, hlapsed⟩),
        if_neg (not_or.mpr ⟨hne, hlapsed⟩), Option.some.injEq]
      constructor
      · intro heq
        have hlen := congrArg List.length heq
        rw [length_messagesOf, length_messagesOf] at hlen
        have hstored := length_lastTurns cfg.maxTurns (old ++ w)
        have hturns := length_lastTurns cfg.maxTurns w
        rw [length_append, Nat.cast_add] at hstored
        rcases eq_or_ne old [] with rfl | hold
        · exact .inr (.inl rfl)
        · have hpos := length_pos_iff.mpr hold
          right
          right
          split at hstored <;> split at hturns <;> omega
      · rintro (hcontra | heq | ⟨hpos, hle⟩)
        · exact absurd hcontra hlapsed
        · rw [heq]
        · rw [lastTurns_append hpos hle]

/-- What `Get` returns when the clock does not go back.  It is the last turns of those in the store,
if there are any and the last is no more than `ttl` ago.  This is right, with the turns of the
session for those in the store, exactly if the session has lapsed, or the store has no older turns,
or there are enough turns in the session to reach the limit. -/
theorem get_eq_answer_iff (cfg : Config) {calls : List Call} {now : Int}
    (hclock : (readings calls ++ [now]).Pairwise (· ≤ ·)) (key : String) :
    (sessionsAfter cfg calls).get key now = answer cfg now (kept cfg.ttl key calls) ∧
      ((sessionsAfter cfg calls).get key now = answer cfg now (window cfg.ttl key calls) ↔
        lapsed cfg.ttl now (window cfg.ttl key calls) = true ∨
          kept cfg.ttl key calls = window cfg.ttl key calls ∨
          0 < cfg.maxTurns ∧ cfg.maxTurns ≤ (window cfg.ttl key calls).length) := by
  refine ⟨get_sessionsAfter cfg calls key now, ?_⟩
  rw [get_sessionsAfter]
  exact (tracks cfg.ttl key hclock).answer_eq_iff

def greeting (now : Int) : Call :=
  .append "s" { role := "user", content := "hi" } { role := "assistant", content := "hello" } now

/-- A session that the collector has removed starts again. -/
theorem collected_session_restarts :
    (sessionsAfter ⟨10, 0⟩ [greeting 0, .gc 50, greeting 100]).get "s" 101 =
      answer ⟨10, 0⟩ 101 (window 10 "s" [greeting 0, .gc 50, greeting 100]) :=
  (get_eq_answer_iff ⟨10, 0⟩ (by decide) "s").2.mpr (.inr (.inl (by decide)))

/-- A session that has expired and is still there goes on. -/
theorem expired_session_goes_on :
    (readings [greeting 0, greeting 100] ++ [101]).Pairwise (· ≤ ·) ∧
      (sessionsAfter ⟨10, 0⟩ [greeting 0, greeting 100]).get "s" 101 =
        some [{ role := "user", content := "hi" }, { role := "assistant", content := "hello" },
          { role := "user", content := "hi" }, { role := "assistant", content := "hello" }] ∧
      answer ⟨10, 0⟩ 101 (window 10 "s" [greeting 0, greeting 100]) =
        some [{ role := "user", content := "hi" }, { role := "assistant", content := "hello" }] :=
  ⟨by decide, by decide, by decide⟩

end Ixr.Session
