import IxrGateway.GoStrings
import IxrGateway.Http

/-!
# Rate limits

A limiter keeps, for each key, the calls of the last `windowDur`.  `Check` looks
at them before a call and `Record` adds the call once it is over.  Each is one
critical section, and the clock is read inside it.
-/

namespace Ixr.Policy

open List

/-- `policy.RateLimit`. -/
structure RateLimit where
  windowSec : Int
  maxRequests : Int
  maxTokens : Int
deriving Repr, DecidableEq

/-- `policy.Decision`. -/
structure Decision where
  allowed : Bool
  retryAfter : Int := 0
  remaining : Int := 0
deriving Repr, DecidableEq

/-- `windowEntry`: when a call was recorded, and its tokens. -/
structure WindowEntry where
  time : Int
  tokens : Int
deriving Repr, DecidableEq

/-- `MemoryRateLimiter`.  A key without a window has an empty one. -/
structure MemoryRateLimiter where
  windows : String → List WindowEntry := fun _ => []
  maxReq : Int
  maxTok : Int
  windowDur : Int

/-- `NewMemoryRateLimiter`. -/
def newMemoryRateLimiter (maxRequests maxTokens windowDur : Int) : MemoryRateLimiter where
  maxReq := maxRequests
  maxTok := maxTokens
  windowDur := if windowDur ≤ 0 then 60000000000 else windowDur

/-- `windowKey`. -/
def windowKey (id : Identity) : String :=
  id.tenantID ++ ":" ++ id.userID ++ ":" ++ id.useCaseID

/-- `purge`. -/
def purge (entries : List WindowEntry) (cutoff : Int) : List WindowEntry :=
  entries.dropWhile fun e => e.time < cutoff

/-- `sumTokens`. -/
def sumTokens (entries : List WindowEntry) : Int := (entries.map (·.tokens)).sum

namespace MemoryRateLimiter

/-- What is left of the key's window at time `now`. -/
def current (m : MemoryRateLimiter) (key : String) (now : Int) : List WindowEntry :=
  purge (m.windows key) (now - m.windowDur)

/-- Sets the entries of a key. -/
def setWindow (m : MemoryRateLimiter) (key : String) (entries : List WindowEntry) :
    MemoryRateLimiter :=
  { m with windows := Function.update m.windows key entries }

/-- The call is refused until the oldest entry leaves the window.  Without an entry the index is
out of range. -/
def refuse (m : MemoryRateLimiter) (entries : List WindowEntry) (now : Int) : Option Decision :=
  entries.head?.map fun oldest =>
    { allowed := false, retryAfter := m.windowDur - (now - oldest.time) }

/-- `Check`.  No decision is a panic. -/
def check (m : MemoryRateLimiter) (id : Identity) (tokenCost now : Int) :
    Option Decision × MemoryRateLimiter :=
  if m.maxReq = 0 ∧ m.maxTok = 0 then (some { allowed := true }, m)
  else
    let key := windowKey id
    let entries := m.current key now
    let m' := m.setWindow key entries
    if 0 < m.maxReq ∧ m.maxReq ≤ entries.length then (m.refuse entries now, m')
    else if 0 < m.maxTok ∧ m.maxTok < sumTokens entries + tokenCost then (m.refuse entries now, m')
    else
      let remaining := if 0 < m.maxReq then m.maxReq - entries.length - 1 else 0
      (some { allowed := true, remaining := remaining }, m')

/-- `Record`. -/
def record (m : MemoryRateLimiter) (id : Identity) (tokensUsed now : Int) : MemoryRateLimiter :=
  let key := windowKey id
  m.setWindow key (m.current key now ++ [⟨now, tokensUsed⟩])

/-- `Reload`. -/
def reload (m : MemoryRateLimiter) (cfg : RateLimit) : MemoryRateLimiter :=
  { m with
    maxReq := cfg.maxRequests
    maxTok := cfg.maxTokens
    windowDur := if 0 < cfg.windowSec then cfg.windowSec * 1000000000 else m.windowDur }

/-! ## What they leave -/

variable (m : MemoryRateLimiter) (key : String) (entries : List WindowEntry)

@[simp] theorem setWindow_maxReq : (m.setWindow key entries).maxReq = m.maxReq := rfl

@[simp] theorem setWindow_windowDur : (m.setWindow key entries).windowDur = m.windowDur := rfl

@[simp] theorem setWindow_self : (m.setWindow key entries).windows key = entries := by
  simp [setWindow]

theorem setWindow_of_ne {key key' : String} (h : key' ≠ key) (entries : List WindowEntry) :
    (m.setWindow key entries).windows key' = m.windows key' := by
  simp [setWindow, h]

theorem check_limiter (id : Identity) (tokenCost now : Int) :
    (m.check id tokenCost now).2 = m ∨
      (m.check id tokenCost now).2 = m.setWindow (windowKey id) (m.current (windowKey id) now) := by
  unfold check
  split
  · exact .inl rfl
  · dsimp only
    split
    · exact .inr rfl
    · split
      · exact .inr rfl
      · exact .inr rfl

theorem countP_purge {cutoff lo : Int} (h : cutoff ≤ lo) :
    (purge entries cutoff).countP (fun e => lo ≤ e.time) =
      entries.countP (fun e => lo ≤ e.time) := by
  induction entries with
  | nil => rfl
  | cons e entries ih =>
    unfold purge at ih ⊢
    rw [dropWhile_cons]
    split
    · next hold =>
      have hlo : ¬ lo ≤ e.time := by
        have : e.time < cutoff := by simpa using hold
        omega
      rw [ih, countP_cons_of_neg (by simpa using hlo)]
    · rfl

theorem countP_current (key' : String) {now lo : Int} (h : now - m.windowDur ≤ lo) :
    ((m.setWindow key (m.current key now)).windows key').countP (fun e => lo ≤ e.time) =
      (m.windows key').countP (fun e => lo ≤ e.time) := by
  by_cases hkey : key' = key
  · subst hkey
    rw [setWindow_self]
    exact countP_purge _ h
  · rw [setWindow_of_ne m hkey]

theorem countP_record (id : Identity) (tokens : Int) (key : String) {now lo : Int}
    (h : now - m.windowDur ≤ lo) :
    ((m.record id tokens now).windows key).countP (fun e => lo ≤ e.time) =
      (m.windows key).countP (fun e => lo ≤ e.time) +
        if windowKey id = key ∧ lo ≤ now then 1 else 0 := by
  by_cases hkey : key = windowKey id
  · subst hkey
    rw [record, setWindow_self, countP_append, current, countP_purge _ h]
    simp [countP_singleton]
  · rw [record, setWindow_of_ne m hkey, if_neg (fun h => hkey h.1.symm), Nat.add_zero]

end MemoryRateLimiter

end Ixr.Policy
