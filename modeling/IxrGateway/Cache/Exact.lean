import Mathlib.Data.List.AList
import IxrGateway.GoTime
import IxrGateway.Schema

/-!
# The exact-match cache

`cache.Memory` is a map from request keys to responses with expiry times and a
size limit.  `ExactCache` keys it by `Key`, a hash of the model and the
messages.  The hash and the encoding under it are taken to be injective, so the
key is the pair itself.

A Go map is ranged over in any order.  A function that ranges over one takes
the order as an argument, and the runs quantify over it.
-/

namespace Ixr.Cache

/-- The canonical form of a request, under the hash of `cache.Key`. -/
structure CacheKey where
  model : String
  messages : List Message
deriving Repr, DecidableEq

/-- `cache.Key`. -/
def key (req : RequestEnvelope) : CacheKey := ⟨req.model, req.messages⟩

/-- `cache.entry`. -/
structure Entry (ρ : Type) where
  resp : ρ
  expiresAt : Option Int
deriving Repr, DecidableEq

/-- `cache.Memory`. -/
structure Memory (κ ρ : Type) where
  entries : AList fun _ : κ => Entry ρ
  maxSize : Int
  defaultTTL : Int

namespace Memory

variable {κ ρ : Type} [DecidableEq κ]

/-- `NewMemory`. -/
def new (maxSize defaultTTL : Int) : Memory κ ρ := ⟨∅, maxSize, defaultTTL⟩

/-- `Memory.Size`. -/
def size (m : Memory κ ρ) : Int := m.entries.keys.length

/-- The result of `Memory.Get`, and the cache without the entry if it has expired. -/
def get (m : Memory κ ρ) (k : κ) (now : Int) : Option ρ × Memory κ ρ :=
  match m.entries.lookup k with
  | none => (none, m)
  | some e =>
    if expired e.expiresAt now then (none, { m with entries := m.entries.erase k })
    else (some e.resp, m)

/-- The key's entry has expired. -/
def hasExpired (m : Memory κ ρ) (now : Int) (k : κ) : Bool :=
  (m.entries.lookup k).any fun e => expired e.expiresAt now

/-- `Memory.evictOldest`, with the orders of its two loops: the first expired entry goes, or else
any entry. -/
def evictOldest (m : Memory κ ρ) (now : Int) (order order' : List κ) : Memory κ ρ :=
  match order.find? (m.hasExpired now) with
  | some k => { m with entries := m.entries.erase k }
  | none =>
    match order' with
    | k :: _ => { m with entries := m.entries.erase k }
    | [] => m

/-- `Memory.Set`.  The clock is read once for an eviction and once for the expiry. -/
def set (m : Memory κ ρ) (k : κ) (resp : ρ) (ttl now now' : Int) (order order' : List κ) :
    Memory κ ρ :=
  let m := if 0 < m.maxSize ∧ m.maxSize ≤ m.size then m.evictOldest now order order' else m
  let e := ⟨resp, expiry (if 0 < ttl then ttl else m.defaultTTL) now'⟩
  { m with entries := m.entries.insert k e }

/-- `Memory.Invalidate`. -/
def invalidate (m : Memory κ ρ) (k : κ) : Memory κ ρ := { m with entries := m.entries.erase k }

/-- Every entry satisfies `P`, of its key and its response. -/
def All (P : κ → ρ → Prop) (m : Memory κ ρ) : Prop :=
  ∀ k e, m.entries.lookup k = some e → P k e.resp

variable {P : κ → ρ → Prop} {m : Memory κ ρ}

theorem all_new (maxSize defaultTTL : Int) : (new maxSize defaultTTL : Memory κ ρ).All P :=
  fun k e h => by simp [new] at h

theorem All.erase (h : m.All P) (k : κ) : All P { m with entries := m.entries.erase k } := by
  intro k' e he
  by_cases hk : k' = k
  · rw [hk] at he
    simp at he
  · exact h k' e ((AList.lookup_erase_ne hk).symm.trans he)

theorem All.get (h : m.All P) (k : κ) (now : Int) : (m.get k now).2.All P := by
  unfold Memory.get
  split
  · exact h
  · split
    · exact h.erase k
    · exact h

theorem All.evictOldest (h : m.All P) (now : Int) (order order' : List κ) :
    (m.evictOldest now order order').All P := by
  unfold Memory.evictOldest
  split
  · exact h.erase _
  · split
    · exact h.erase _
    · exact h

theorem All.set (h : m.All P) {k : κ} (resp : ρ) (hresp : P k resp) (ttl now now' : Int)
    (order order' : List κ) : (m.set k resp ttl now now' order order').All P := by
  intro k' e he
  by_cases hk : k' = k
  · subst hk
    simp only [Memory.set, AList.lookup_insert, Option.some.injEq] at he
    subst he
    exact hresp
  · simp only [Memory.set, AList.lookup_insert_ne hk] at he
    split at he
    · exact h.evictOldest now order order' k' e he
    · exact h k' e he

theorem All.of_get (h : m.All P) {k : κ} {now : Int} {resp : ρ}
    (hget : (m.get k now).1 = some resp) : P k resp := by
  unfold Memory.get at hget
  split at hget
  · cases hget
  · next e he =>
    split at hget
    · cases hget
    · cases hget
      exact h k e he

theorem get_set (m : Memory κ ρ) (k : κ) (resp : ρ) (ttl now now' : Int) (order order' : List κ) :
    ((m.set k resp ttl now now' order order').get k now').1 = some resp := by
  simp [get, set, expired_expiry]

theorem get_set_new_of_ne {k k' : κ} (hk : k' ≠ k) (maxSize defaultTTL : Int) (resp : ρ)
    (ttl now now' later : Int) (order order' : List κ) :
    (((new maxSize defaultTTL).set k resp ttl now now' order order').get k' later).1 = none := by
  have hall : ((new maxSize defaultTTL).set k resp ttl now now' order order').All
      fun x _ => x = k :=
    (all_new (P := fun x _ => x = k) maxSize defaultTTL).set resp rfl ttl now now' order order'
  cases hget : (((new maxSize defaultTTL).set k resp ttl now now' order order').get k' later).1 with
  | none => rfl
  | some resp => exact absurd (hall.of_get hget) hk

end Memory

end Ixr.Cache
