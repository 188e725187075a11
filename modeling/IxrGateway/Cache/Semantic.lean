import Mathlib.Algebra.Order.Field.Rat
import IxrGateway.Cache.Exact
import IxrGateway.GoStrings

/-!
# The semantic cache

`SemanticCache` looks a request up in two tiers.  The exact tier comes first.
On a miss, the text of the request is embedded and the backend returns the
stored response whose vector is most similar, if it is similar enough.  An
optional quality tier is a second embedder with its own backend.  It is asked
when the first one finds nothing, and filled by a goroutine that `Store` leaves
behind.

Embedders are remote or cut off by a timeout, so what they return is an
argument here.  Vectors are rational, and `math.Sqrt` is a parameter.
-/

namespace Ixr.Cache

open GoStrings List

/-! ## The vector backend -/

/-- An embedding. -/
abbrev Vec := List ℚ

/-- `cosineSimilarity`: 0 for vectors of different dimensions or of no length. -/
def cosineSimilarity (sqrt : ℚ → ℚ) (a b : Vec) : ℚ :=
  if a.length ≠ b.length ∨ a = [] then 0
  else
    let dot := (a.zipWith (· * ·) b).sum
    let normA := (a.map fun x => x * x).sum
    let normB := (b.map fun x => x * x).sum
    if normA = 0 ∨ normB = 0 then 0 else dot / (sqrt normA * sqrt normB)

/-- `vectorEntry`. -/
structure VectorEntry (ρ : Type) where
  vec : Vec
  resp : ρ
  expiresAt : Option Int
deriving Repr, DecidableEq

/-- `MemorySemanticBackend`. -/
structure MemorySemanticBackend (ρ : Type) where
  entries : List (VectorEntry ρ) := []
  maxSize : Int
deriving Repr, DecidableEq

namespace MemorySemanticBackend

variable {ρ : Type}

/-- One round of the loop of `Find`, on the best response so far and its score. -/
def findStep (sqrt : ℚ → ℚ) (vec : Vec) (threshold : ℚ) (now : Int) (best : Option ρ × ℚ)
    (e : VectorEntry ρ) : Option ρ × ℚ :=
  if expired e.expiresAt now then best
  else
    let score := cosineSimilarity sqrt vec e.vec
    if threshold ≤ score ∧ best.2 < score then (some e.resp, score) else best

/-- `MemorySemanticBackend.Find`. -/
def find (sqrt : ℚ → ℚ) (b : MemorySemanticBackend ρ) (vec : Vec) (threshold : ℚ) (now : Int) :
    Option ρ :=
  (b.entries.foldl (findStep sqrt vec threshold now) (none, 0)).1

/-- `MemorySemanticBackend.evict`: the first expired entry goes, or else the oldest. -/
def evict (entries : List (VectorEntry ρ)) (now : Int) : List (VectorEntry ρ) :=
  if entries.any (fun e => expired e.expiresAt now) then
    entries.eraseP fun e => expired e.expiresAt now
  else entries.tail

/-- `MemorySemanticBackend.Store`.  The clock is read once for an eviction and once for the
expiry. -/
def store (b : MemorySemanticBackend ρ) (vec : Vec) (resp : ρ) (ttl now now' : Int) :
    MemorySemanticBackend ρ :=
  let entries :=
    if 0 < b.maxSize ∧ b.maxSize ≤ b.entries.length then evict b.entries now else b.entries
  { b with entries := entries ++ [⟨vec, resp, expiry ttl now'⟩] }

end MemorySemanticBackend

/-! ## The two tiers -/

/-- `requestText`: what the user and system messages after the history say. -/
def requestText (req : RequestEnvelope) (historyLen : Int) : String :=
  let messages :=
    if 0 < historyLen ∧ historyLen ≤ req.messages.length then req.messages.drop historyLen.toNat
    else req.messages
  let texts := messages.filterMap fun m =>
    if m.role = "user" ∨ m.role = "system" then some (m.content ++ "\n") else none
  trimSpace (join "" texts)

/-- `CacheHit`, of a lookup that found something. -/
inductive CacheHit where
  | exact
  | semantic
deriving Repr, DecidableEq

/-- `SemanticCache`, without its embedders. -/
structure SemanticCache (ρ : Type) where
  exact : Memory CacheKey ρ
  backend : MemorySemanticBackend ρ
  threshold : ℚ
  qualityBackend : Option (MemorySemanticBackend ρ) := none

/-- What the embedders return during a lookup, and the clock readings of the three searches. -/
structure LookupEnv where
  vec : Option Vec
  qVec : Option Vec
  nowExact : Int
  nowFind : Int
  nowQuality : Int

/-- What the fast embedder returns during a store, the clock readings of the two tiers, and the
orders in which the exact tier is ranged over. -/
structure StoreEnv where
  vec : Option Vec
  nowEvict : Int
  nowSet : Int
  nowEvictVec : Int
  nowStore : Int
  order : List CacheKey := []
  order' : List CacheKey := []

/-- What the goroutine of a store goes on to embed and store in the quality tier. -/
structure QualityJob (ρ : Type) where
  text : String
  resp : ρ
  ttl : Int

namespace SemanticCache

variable {ρ : Type}

/-- What `SemanticCache.Lookup` finds in the vector tiers. -/
def findSimilar (sqrt : ℚ → ℚ) (s : SemanticCache ρ) (text : String) (env : LookupEnv) :
    Option ρ :=
  if text = "" then none
  else
    match env.vec with
    | none => none
    | some vec =>
      match s.backend.find sqrt vec s.threshold env.nowFind with
      | some resp => some resp
      | none =>
        match s.qualityBackend, env.qVec with
        | some backend, some qVec => backend.find sqrt qVec s.threshold env.nowQuality
        | _, _ => none

/-- `SemanticCache.Lookup`. -/
def lookup (sqrt : ℚ → ℚ) (s : SemanticCache ρ) (req : RequestEnvelope) (historyLen : Int)
    (env : LookupEnv) : Option (ρ × CacheHit) × SemanticCache ρ :=
  let (found, exact) := s.exact.get (key req) env.nowExact
  let result :=
    match found with
    | some resp => some (resp, .exact)
    | none => (s.findSimilar sqrt (requestText req historyLen) env).map (·, .semantic)
  (result, { s with exact := exact })

/-- `SemanticCache.Store`, and the goroutine it starts. -/
def store (s : SemanticCache ρ) (req : RequestEnvelope) (historyLen : Int) (resp : ρ) (ttl : Int)
    (env : StoreEnv) : SemanticCache ρ × Option (QualityJob ρ) :=
  let exact := s.exact.set (key req) resp ttl env.nowEvict env.nowSet env.order env.order'
  let s := { s with exact := exact }
  let text := requestText req historyLen
  if text = "" then (s, none)
  else
    let backend :=
      match env.vec with
      | none => s.backend
      | some vec => s.backend.store vec resp ttl env.nowEvictVec env.nowStore
    ({ s with backend := backend }, s.qualityBackend.map fun _ => ⟨text, resp, ttl⟩)

/-- The job at the quality backend. -/
def storeQuality (s : SemanticCache ρ) (job : QualityJob ρ) (qVec : Option Vec)
    (nowEvict nowStore : Int) : SemanticCache ρ :=
  match s.qualityBackend, qVec with
  | some backend, some vec =>
    { s with qualityBackend := some (backend.store vec job.resp job.ttl nowEvict nowStore) }
  | _, _ => s

end SemanticCache

namespace SemanticCache

variable {ρ : Type}

theorem lookup_fst (sqrt : ℚ → ℚ) (s : SemanticCache ρ) (req : RequestEnvelope) (historyLen : Int)
    (env : LookupEnv) :
    (s.lookup sqrt req historyLen env).1 =
      match (s.exact.get (key req) env.nowExact).1 with
      | some resp => some (resp, .exact)
      | none => (s.findSimilar sqrt (requestText req historyLen) env).map (·, .semantic) := by
  simp only [lookup]

variable {s : SemanticCache ρ}

variable {sqrt : ℚ → ℚ} {text : String} {env : LookupEnv} {vec : Vec} {resp : ρ}
  {b : MemorySemanticBackend ρ}

theorem findSimilar_of_find (htext : text ≠ "") (hvec : env.vec = some vec)
    (hfind : s.backend.find sqrt vec s.threshold env.nowFind = some resp) :
    s.findSimilar sqrt text env = some resp := by
  simp only [findSimilar, htext, if_false, hvec, hfind]

theorem findSimilar_of_quality {qVec : Vec} (htext : text ≠ "") (hvec : env.vec = some vec)
    (hb : s.qualityBackend = some b) (hqVec : env.qVec = some qVec)
    (hfind : b.find sqrt qVec s.threshold env.nowQuality = some resp) :
    ∃ found, s.findSimilar sqrt text env = some found := by
  simp only [findSimilar, htext, if_false, hvec, hb, hqVec]
  split
  · exact ⟨_, rfl⟩
  · exact ⟨resp, hfind⟩

theorem store_of_text {req : RequestEnvelope} {historyLen : Int}
    (htext : requestText req historyLen ≠ "") (resp : ρ) (ttl : Int) (env : StoreEnv) :
    s.store req historyLen resp ttl env =
      ({ s with
          exact := s.exact.set (key req) resp ttl env.nowEvict env.nowSet env.order env.order'
          backend :=
            match env.vec with
            | none => s.backend
            | some vec => s.backend.store vec resp ttl env.nowEvictVec env.nowStore },
        s.qualityBackend.map fun _ => ⟨requestText req historyLen, resp, ttl⟩) := by
  simp only [store, htext, if_false]

end SemanticCache

/-! ## What a search returns -/

namespace MemorySemanticBackend

variable {ρ : Type} {P : Vec → ρ → Prop} {b : MemorySemanticBackend ρ}

/-- Every entry satisfies `P`, of its vector and its response. -/
def All (P : Vec → ρ → Prop) (b : MemorySemanticBackend ρ) : Prop :=
  ∀ e ∈ b.entries, P e.vec e.resp

theorem all_new (maxSize : Int) : ({ maxSize := maxSize } : MemorySemanticBackend ρ).All P :=
  fun _ h => (not_mem_nil h).elim

variable {now : Int} {vec : Vec} {sqrt : ℚ → ℚ} {threshold : ℚ}

variable {entries : List (VectorEntry ρ)} {e : VectorEntry ρ}

theorem mem_of_mem_evict (h : e ∈ evict entries now) : e ∈ entries := by
  unfold evict at h
  split at h
  · exact mem_of_mem_eraseP h
  · exact mem_of_mem_tail h

theorem All.store (h : b.All P) (resp : ρ) (hresp : P vec resp) (ttl now now' : Int) :
    (b.store vec resp ttl now now').All P := by
  intro e he
  rcases mem_append.mp he with he | he
  · split at he
    · exact h e (mem_of_mem_evict he)
    · exact h e he
  · cases mem_singleton.mp he
    exact hresp

/-- What the loop of `Find` has reached: a score, and an entry that is similar enough. -/
def Scored (sqrt : ℚ → ℚ) (vec : Vec) (threshold : ℚ) (entries : List (VectorEntry ρ))
    (best : Option ρ × ℚ) : Prop :=
  0 ≤ best.2 ∧ ∀ resp, best.1 = some resp → ∃ e ∈ entries, e.resp = resp ∧
    threshold ≤ cosineSimilarity sqrt vec e.vec ∧ 0 < cosineSimilarity sqrt vec e.vec

theorem Scored.step {best : Option ρ × ℚ} (h : Scored sqrt vec threshold entries best)
    (he : e ∈ entries) :
    Scored sqrt vec threshold entries (findStep sqrt vec threshold now best e) := by
  simp only [findStep]
  split
  · exact h
  · split
    · next hscore =>
      have hpos := h.1.trans_lt hscore.2
      exact ⟨hpos.le, fun resp hresp => ⟨e, he, Option.some.inj hresp, hscore.1, hpos⟩⟩
    · exact h

theorem All.of_find (h : b.All P) {resp : ρ} (hfind : b.find sqrt vec threshold now = some resp) :
    ∃ vec', P vec' resp ∧ threshold ≤ cosineSimilarity sqrt vec vec' ∧
      0 < cosineSimilarity sqrt vec vec' := by
  have hstart : Scored sqrt vec threshold b.entries (none, 0) :=
    ⟨le_refl 0, fun _ h => by cases h⟩
  have hend : Scored sqrt vec threshold b.entries
      (b.entries.foldl (findStep sqrt vec threshold now) (none, 0)) :=
    foldlRecOn b.entries _ hstart fun _ hbest _ he => hbest.step he
  obtain ⟨e, he, rfl, hscore⟩ := hend.2 resp hfind
  exact ⟨e.vec, h e he, hscore⟩

theorem find_store_new {vec' : Vec}
    (hscore : threshold ≤ cosineSimilarity sqrt vec vec' ∧ 0 < cosineSimilarity sqrt vec vec')
    (maxSize : Int) (resp : ρ) (ttl now now' : Int) :
    (store { maxSize := maxSize } vec' resp ttl now now').find sqrt vec threshold now' =
      some resp := by
  simp [store, evict, find, findStep, expired_expiry, hscore]

end MemorySemanticBackend

end Ixr.Cache
