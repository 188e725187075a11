import IxrGateway.Policy.RateLimit

/-!
# What a refused caller is told

`Check` tells a refused caller to come back when the oldest entry of the window
has left it.  There may be no entry: a call that alone is above the token cap is
refused on an empty window as well, and `Check` reads past its end
(`check_answers_iff`).

The entry that leaves need not make room.  It may have been one of too many, or
have too few tokens.  So the caller is let in after the delay only if there is
room for it whichever of the other entries are left then (`retry_admitted_iff`).
-/

namespace Ixr.Policy

open List

/-- A call of the limiter. -/
inductive LimiterCall where
  | check (id : Identity) (tokenCost : Int)
  | record (id : Identity) (tokensUsed : Int)
  | reload (cfg : RateLimit)
deriving Repr, DecidableEq

/-- The call is a `Check`. -/
def LimiterCall.isCheck : LimiterCall → Bool
  | .check _ _ => true
  | _ => false

namespace MemoryRateLimiter

/-- What a call at the time `now` leaves. -/
def apply (m : MemoryRateLimiter) (now : Int) : LimiterCall → MemoryRateLimiter
  | .check id tokenCost => (m.check id tokenCost now).2
  | .record id tokensUsed => m.record id tokensUsed now
  | .reload cfg => m.reload cfg

/-- The calls one after the other. -/
def run (m : MemoryRateLimiter) (calls : List (Int × LimiterCall)) : MemoryRateLimiter :=
  calls.foldl (fun m call => m.apply call.1 call.2) m

/-- The entries leave room for the call. -/
def HasRoom (m : MemoryRateLimiter) (entries : List WindowEntry) (tokenCost : Int) : Prop :=
  (0 < m.maxReq → (entries.length : Int) < m.maxReq) ∧
    (0 < m.maxTok → sumTokens entries + tokenCost ≤ m.maxTok)

/-- The call is let in. -/
def Admits (m : MemoryRateLimiter) (id : Identity) (tokenCost now : Int) : Prop :=
  ∃ d, (m.check id tokenCost now).1 = some d ∧ d.allowed = true

/-! ## One check -/

theorem check_decision (m : MemoryRateLimiter) (id : Identity) (tokenCost now : Int) :
    (m.HasRoom (m.current (windowKey id) now) tokenCost ∧ m.Admits id tokenCost now) ∨
      (¬ m.HasRoom (m.current (windowKey id) now) tokenCost ∧
        (m.check id tokenCost now).1 = m.refuse (m.current (windowKey id) now) now) := by
  unfold HasRoom Admits check
  split
  · next hfree =>
    refine .inl ⟨⟨fun h => ?_, fun h => ?_⟩, _, rfl, rfl⟩
    · omega
    · omega
  · dsimp only
    split
    · next hreq =>
      refine .inr ⟨fun hroom => ?_, rfl⟩
      have := hroom.1 hreq.1
      omega
    · next hreq =>
      split
      · next htok =>
        refine .inr ⟨fun hroom => ?_, rfl⟩
        have := hroom.2 htok.1
        omega
      · next htok =>
        refine .inl ⟨⟨fun h => ?_, fun h => ?_⟩, _, rfl, rfl⟩
        · omega
        · omega

variable {m : MemoryRateLimiter} {id : Identity} {tokenCost now t : Int}
  {entries rest : List WindowEntry} {calls : List (Int × LimiterCall)} {oldest : WindowEntry}

theorem not_admits_of_refuse (h : (m.check id tokenCost now).1 = m.refuse entries now) :
    ¬ m.Admits id tokenCost now := by
  rintro ⟨d, hd, hallowed⟩
  rw [h, refuse] at hd
  obtain ⟨oldest, -, rfl⟩ := Option.map_eq_some_iff.mp hd
  cases hallowed

theorem admits_iff :
    m.Admits id tokenCost now ↔ m.HasRoom (m.current (windowKey id) now) tokenCost := by
  rcases m.check_decision id tokenCost now with ⟨hroom, hadmits⟩ | ⟨hfull, hrefuse⟩
  · exact ⟨fun _ => hroom, fun _ => hadmits⟩
  · exact ⟨fun h => absurd h (not_admits_of_refuse hrefuse), fun h => absurd h hfull⟩

/-- After any calls, `Check` answers unless the window is empty and the call alone is above the
token cap. -/
theorem check_answers_iff (maxRequests maxTokens windowDur : Int)
    (calls : List (Int × LimiterCall)) (id : Identity) (tokenCost now : Int) :
    let m := (newMemoryRateLimiter maxRequests maxTokens windowDur).run calls
    (m.check id tokenCost now).1.isSome ↔
      ¬ (m.current (windowKey id) now = [] ∧ 0 < m.maxTok ∧ m.maxTok < tokenCost) := by
  intro m
  rcases m.check_decision id tokenCost now with ⟨hroom, d, hd, -⟩ | ⟨hfull, hrefuse⟩
  · refine ⟨fun _ hbad => ?_, fun _ => by rw [hd]; rfl⟩
    obtain ⟨hempty, hcap, hcost⟩ := hbad
    have hfits := hroom.2 hcap
    rw [hempty] at hfits
    simp only [sumTokens, map_nil, sum_nil] at hfits
    omega
  · rw [hrefuse, refuse, Option.isSome_map, isSome_head?]
    refine ⟨fun hne hbad => hne hbad.1, fun hok hempty => hok ⟨hempty, ?_⟩⟩
    -- an empty window only has no room if the call is above the token cap
    rw [hempty] at hfull
    by_contra hcap
    refine hfull ⟨fun h => by simpa using h, fun h => ?_⟩
    simp only [sumTokens, map_nil, sum_nil]
    omega

def tenTokens : MemoryRateLimiter := newMemoryRateLimiter 0 10 10

/-- A first call above the token cap reads past the end of the empty window. -/
theorem first_call_out_of_range :
    ((tenTokens.run []).check {} 11 0).1 = none := by decide

/-! ## The order of the entries -/

/-- The entries of each window are in the order of their times, and none is later than `t`. -/
structure Ordered (m : MemoryRateLimiter) (t : Int) : Prop where
  sorted : ∀ key, (m.windows key).Pairwise fun a b => a.time ≤ b.time
  past : ∀ key, ∀ e ∈ m.windows key, e.time ≤ t

theorem purge_sublist (entries : List WindowEntry) (cutoff : Int) :
    (purge entries cutoff).Sublist entries := dropWhile_sublist _

theorem Ordered.later (h : m.Ordered t) (ht : t ≤ now) : m.Ordered now :=
  ⟨h.sorted, fun key e he => (h.past key e he).trans ht⟩

theorem Ordered.setWindow (h : m.Ordered t) (key : String)
    (hsorted : entries.Pairwise fun a b => a.time ≤ b.time) (hpast : ∀ e ∈ entries, e.time ≤ t) :
    (m.setWindow key entries).Ordered t := by
  constructor
  · intro key'
    by_cases hkey : key' = key
    · subst hkey
      rw [setWindow_self]
      exact hsorted
    · rw [setWindow_of_ne m hkey]
      exact h.sorted key'
  · intro key'
    by_cases hkey : key' = key
    · subst hkey
      rw [setWindow_self]
      exact hpast
    · rw [setWindow_of_ne m hkey]
      exact h.past key'

theorem Ordered.current_sorted (h : m.Ordered t) (key : String) (now : Int) :
    (m.current key now).Pairwise fun a b => a.time ≤ b.time :=
  (h.sorted key).sublist (purge_sublist _ _)

theorem Ordered.current_past (h : m.Ordered t) (key : String) (now : Int) :
    ∀ e ∈ m.current key now, e.time ≤ t :=
  fun e he => h.past key e ((purge_sublist _ _).subset he)

theorem Ordered.apply (h : m.Ordered t) (ht : t ≤ now) (call : LimiterCall) :
    (m.apply now call).Ordered now := by
  have hnow := h.later ht
  cases call with
  | check id tokenCost =>
    rcases m.check_limiter id tokenCost now with heq | heq
    · rw [MemoryRateLimiter.apply, heq]
      exact hnow
    · rw [MemoryRateLimiter.apply, heq]
      exact hnow.setWindow _ (hnow.current_sorted _ _) (hnow.current_past _ _)
  | record id tokensUsed =>
    refine hnow.setWindow _ (pairwise_append.mpr ⟨hnow.current_sorted _ _, ?_, ?_⟩) ?_
    · exact pairwise_singleton _ _
    · intro a ha b hb
      rw [mem_singleton.mp hb]
      exact hnow.current_past _ _ a ha
    · intro e he
      rcases mem_append.mp he with he | he
      · exact hnow.current_past _ _ e he
      · rw [mem_singleton.mp he]
  | reload cfg => exact ⟨hnow.sorted, hnow.past⟩

theorem Ordered.run (h : m.Ordered t)
    (hclock : (t :: calls.map Prod.fst ++ [now]).Pairwise (· ≤ ·)) : (m.run calls).Ordered now := by
  induction calls generalizing m t with
  | nil =>
    rw [map_nil, cons_append] at hclock
    exact h.later ((pairwise_cons.mp hclock).1 now mem_cons_self)
  | cons call calls ih =>
    obtain ⟨hfirst, hrest⟩ := pairwise_cons.mp hclock
    exact ih (h.apply (hfirst call.1 mem_cons_self) call.2) hrest

theorem ordered_run_new (maxRequests maxTokens windowDur : Int)
    (hclock : (calls.map Prod.fst ++ [now]).Pairwise (· ≤ ·)) :
    ((newMemoryRateLimiter maxRequests maxTokens windowDur).run calls).Ordered now := by
  have hnew (t : Int) : (newMemoryRateLimiter maxRequests maxTokens windowDur).Ordered t :=
    ⟨fun _ => List.Pairwise.nil, fun _ => forall_mem_nil _⟩
  cases calls with
  | nil => exact hnew now
  | cons call calls =>
    obtain ⟨hfirst, -⟩ := pairwise_cons.mp hclock
    have hall : ∀ t ∈ (call :: calls).map Prod.fst ++ [now], call.1 ≤ t :=
      forall_mem_cons.mpr ⟨le_refl _, hfirst⟩
    exact (hnew call.1).run (pairwise_cons.mpr ⟨hall, hclock⟩)

/-! ## Coming back -/

theorem purge_purge (entries : List WindowEntry) {cutoff cutoff' : Int} (h : cutoff ≤ cutoff') :
    purge (purge entries cutoff) cutoff' = purge entries cutoff' := by
  induction entries with
  | nil => rfl
  | cons e entries ih =>
    unfold purge at ih ⊢
    by_cases hold : e.time < cutoff
    · have hold' : e.time < cutoff' := by omega
      rw [dropWhile_cons_of_pos (by simpa using hold), ih,
        dropWhile_cons_of_pos (by simpa using hold')]
    · rw [dropWhile_cons_of_neg (by simpa using hold)]

/-- Two limiters with the same caps that have the same windows left at the time `t`. -/
structure Alike (m m' : MemoryRateLimiter) (t : Int) : Prop where
  maxReq : m'.maxReq = m.maxReq
  maxTok : m'.maxTok = m.maxTok
  windowDur : m'.windowDur = m.windowDur
  current : ∀ key, m'.current key t = m.current key t

theorem Alike.refl (m : MemoryRateLimiter) (t : Int) : m.Alike m t := ⟨rfl, rfl, rfl, fun _ => rfl⟩

theorem Alike.trans {m' m'' : MemoryRateLimiter} (h : m.Alike m' t) (h' : m'.Alike m'' t) :
    m.Alike m'' t :=
  ⟨h'.maxReq.trans h.maxReq, h'.maxTok.trans h.maxTok, h'.windowDur.trans h.windowDur,
    fun key => (h'.current key).trans (h.current key)⟩

theorem alike_check {later : Int} (m : MemoryRateLimiter) (id : Identity) (tokenCost : Int)
    (h : now ≤ later) : m.Alike (m.check id tokenCost now).2 later := by
  rcases m.check_limiter id tokenCost now with heq | heq
  · rw [heq]
    exact Alike.refl m later
  · rw [heq]
    refine ⟨rfl, rfl, rfl, fun key => ?_⟩
    by_cases hkey : key = windowKey id
    · rw [current, hkey, setWindow_self, setWindow_windowDur, current, purge_purge _ (by omega)]
      rfl
    · rw [current, setWindow_of_ne m hkey, setWindow_windowDur]
      rfl

theorem alike_run {later : Int} (h : ∀ call ∈ calls, call.1 ≤ later ∧ call.2.isCheck = true) :
    m.Alike (m.run calls) later := by
  induction calls generalizing m with
  | nil => exact Alike.refl m later
  | cons call calls ih =>
    obtain ⟨⟨htime, hcheck⟩, hrest⟩ := forall_mem_cons.mp h
    obtain ⟨now, call⟩ := call
    cases call with
    | check id tokenCost => exact (m.alike_check id tokenCost htime).trans (ih hrest)
    | record | reload => cases hcheck

/-- There is room for the call whichever of the entries are left at a time after `t`. -/
def Relieved (m : MemoryRateLimiter) (entries : List WindowEntry) (t tokenCost : Int) : Prop :=
  ∀ cutoff, t < cutoff → m.HasRoom (purge entries cutoff) tokenCost

theorem le_time_of_current {key : String} (h : m.current key now = oldest :: rest) :
    now - m.windowDur ≤ oldest.time := by
  have hkept := head?_dropWhile_not (fun e => decide (e.time < now - m.windowDur))
    (m.windows key)
  rw [← purge, ← current, h, head?_cons] at hkept
  have : ¬ oldest.time < now - m.windowDur := of_decide_eq_false hkept
  omega

/-- Once the oldest entry has left the window, what is left of the others is left. -/
theorem current_later {later : Int} {key : String} (h : m.current key now = oldest :: rest)
    (hlater : oldest.time + m.windowDur < later) :
    m.current key later = purge rest (later - m.windowDur) := by
  have hold := m.le_time_of_current h
  have hgone : oldest.time < later - m.windowDur := by omega
  calc m.current key later
      = purge (m.current key now) (later - m.windowDur) := (purge_purge _ (by omega)).symm
    _ = purge (oldest :: rest) (later - m.windowDur) := by rw [h]
    _ = purge rest (later - m.windowDur) := dropWhile_cons_of_pos (by simpa using hgone)

/-- After the oldest entry has left, a call is let in if the others leave room for it. -/
theorem admits_later_iff {between : List (Int × LimiterCall)}
    (hentries : m.current (windowKey id) now = oldest :: rest)
    (hbetween : ∀ call ∈ between, call.1 ≤ later ∧ call.2.isCheck = true)
    (hlater : oldest.time + m.windowDur < later) :
    ((m.check id tokenCost now).2.run between).Admits id tokenCost later ↔
      m.HasRoom (purge rest (later - m.windowDur)) tokenCost := by
  have hwindow := m.le_time_of_current hentries
  have hnow : now ≤ later := by omega
  have halike := (m.alike_check id tokenCost hnow).trans (alike_run hbetween)
  rw [admits_iff, HasRoom, halike.maxReq, halike.maxTok, halike.current,
    current_later hentries hlater, HasRoom]

/-- A call is refused after any calls under a clock that does not go back.  The delay it is told
lies between zero and the length of the window.  It is let in at every time after the delay, with
only checks in between, exactly if the entries after the oldest one always leave room for it. -/
theorem retry_admitted_iff {maxRequests maxTokens windowDur now : Int}
    {calls : List (Int × LimiterCall)} (hclock : (calls.map Prod.fst ++ [now]).Pairwise (· ≤ ·))
    {m : MemoryRateLimiter}
    (hm : m = (newMemoryRateLimiter maxRequests maxTokens windowDur).run calls) {id : Identity}
    {tokenCost : Int} {d : Decision} (hd : (m.check id tokenCost now).1 = some d)
    (hrefused : d.allowed = false) :
    0 ≤ d.retryAfter ∧ d.retryAfter ≤ m.windowDur ∧
      ∃ oldest rest, m.current (windowKey id) now = oldest :: rest ∧
        ((∀ between later, (∀ call ∈ between, call.1 ≤ later ∧ call.2.isCheck = true) →
            now + d.retryAfter < later →
            ((m.check id tokenCost now).2.run between).Admits id tokenCost later) ↔
          m.Relieved rest oldest.time tokenCost) := by
  have hordered : m.Ordered now := hm ▸ ordered_run_new maxRequests maxTokens windowDur hclock
  -- the delay is that of the oldest entry
  obtain ⟨oldest, rest, hentries, hdelay⟩ : ∃ oldest rest,
      m.current (windowKey id) now = oldest :: rest ∧
        d.retryAfter = m.windowDur - (now - oldest.time) := by
    rcases m.check_decision id tokenCost now with ⟨-, d', hd', hallowed⟩ | ⟨-, hrefuse⟩
    · rw [hd] at hd'
      cases hd'
      rw [hrefused] at hallowed
      cases hallowed
    · rw [hd, refuse] at hrefuse
      obtain ⟨oldest, holdest, rfl⟩ := Option.map_eq_some_iff.mp hrefuse.symm
      obtain ⟨rest, hrest⟩ := head?_eq_some_iff.mp holdest
      exact ⟨oldest, rest, hrest, rfl⟩
  have hwindow := m.le_time_of_current hentries
  have hpast := hordered.current_past (windowKey id) now oldest (hentries ▸ mem_cons_self)
  refine ⟨by omega, by omega, oldest, rest, hentries, fun hback cutoff hcutoff => ?_,
    fun hrelieved between later hbetween hlater => ?_⟩
  · have hadmits := hback [] (cutoff + m.windowDur) (forall_mem_nil _) (by omega)
    rw [admits_later_iff hentries (forall_mem_nil _) (by omega), add_sub_cancel_right]
      at hadmits
    exact hadmits
  · exact (admits_later_iff hentries hbetween (by omega)).mpr (hrelieved _ (by omega))

/-- With no entry of negative tokens, it is enough to look at the time right after `t`. -/
theorem relieved_of_next (hpos : ∀ e ∈ entries, 0 ≤ e.tokens)
    (h : m.HasRoom (purge entries (t + 1)) tokenCost) : m.Relieved entries t tokenCost := by
  intro cutoff hcutoff
  rw [← purge_purge entries (show t + 1 ≤ cutoff by omega)]
  have hsub := purge_sublist (purge entries (t + 1)) cutoff
  have hsum : sumTokens (purge (purge entries (t + 1)) cutoff) ≤
      sumTokens (purge entries (t + 1)) := by
    refine (hsub.map _).sum_le_sum fun n hn => ?_
    obtain ⟨e, he, rfl⟩ := mem_map.mp hn
    exact hpos e ((purge_sublist _ _).subset he)
  have hlength := hsub.length_le
  constructor
  · intro hreq
    have := h.1 hreq
    omega
  · intro htok
    have := h.2 htok
    omega

def twoCalls : List (Int × LimiterCall) := [(0, .record {} 5), (5, .record {} 5)]

/-- A third call of five tokens is let in after the delay it is told. -/
theorem third_call_admitted :
    let m := tenTokens.run twoCalls
    ((m.check {} 5 6).1 = some { allowed := false, retryAfter := 4 }) ∧
      (m.check {} 5 6).2.Admits {} 5 11 := by
  intro m
  have hd : (m.check {} 5 6).1 = some { allowed := false, retryAfter := 4 } := by decide
  have hclock : (twoCalls.map Prod.fst ++ [6]).Pairwise (· ≤ ·) := by decide
  obtain ⟨-, -, oldest, rest, hentries, hadmitted⟩ := retry_admitted_iff hclock rfl hd rfl
  have hcurrent : m.current (windowKey {}) 6 = [⟨0, 5⟩, ⟨5, 5⟩] := by decide
  obtain ⟨rfl, rfl⟩ := List.cons.inj (hentries.symm.trans hcurrent)
  refine ⟨hd, hadmitted.mpr (relieved_of_next (by decide) ⟨?_, ?_⟩) [] 11 (by decide) (by decide)⟩
  · decide
  · decide

/-- A third call of six tokens is refused again. -/
theorem third_call_refused :
    let m := tenTokens.run twoCalls
    ((m.check {} 6 6).1 = some { allowed := false, retryAfter := 4 }) ∧
      ¬ (m.check {} 6 6).2.Admits {} 6 11 := by
  intro m
  refine ⟨by decide, fun hadmits => ?_⟩
  rw [admits_iff] at hadmits
  exact absurd (hadmits.2 (by decide)) (by decide)

end MemoryRateLimiter

end Ixr.Policy
