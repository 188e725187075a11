import IxrGateway.Cache.Semantic

/-!
# What a cache hit answers

Two requests *collide* if one can be answered with what was stored for the
other.  In the exact tier they do if model and messages agree, and in the
vector tiers if their texts are embedded alike.  Neither tier looks at the tools
or the tool choice, and the vector tiers do not look at the model.

A run is any sequence of stores, finished goroutines and lookups over a set of
calls.  The responses of a run carry the call they were stored for.  So
`hits_same_question_iff` can say when every hit answers the question that was
asked: exactly when the calls that collide ask the same one.
-/

namespace Ixr.Cache

open List SemanticCache MemorySemanticBackend

/-- What an embedder may return for a text.  `none` is an error or a timeout. -/
structure Embedder where
  returns : String → Option Vec → Prop
  total : ∀ text, ∃ vec, returns text vec

/-- The arguments of `NewMemory`, `NewMemorySemanticBackend`, `NewSemanticCache` and
`WithQualityTier`. -/
structure Settings where
  exactSize : Int
  exactTTL : Int
  backendSize : Int
  threshold : ℚ
  embedder : Embedder
  quality : Option (Embedder × Int) := none

/-- The cache at its start. -/
def Settings.new {ρ : Type} (cfg : Settings) : SemanticCache ρ where
  exact := .new cfg.exactSize cfg.exactTTL
  backend := { maxSize := cfg.backendSize }
  threshold := cfg.threshold
  qualityBackend := cfg.quality.map fun q => { maxSize := q.2 }

/-- A request at the cache. -/
structure Call where
  req : RequestEnvelope
  historyLen : Int := 0

/-- The text that is embedded. -/
def Call.text (call : Call) : String := requestText call.req call.historyLen

theorem Call.text_eq (call : Call) : requestText call.req call.historyLen = call.text := rfl

/-- A response and what it answers. -/
structure Stored where
  call : Call
  resp : ResponseEnvelope

/-- The cache and its pending jobs. -/
structure Running where
  cache : SemanticCache Stored
  jobs : List (QualityJob Stored)

/-- `Lookup`, for a call. -/
def Running.lookup (sqrt : ℚ → ℚ) (st : Running) (call : Call) (env : LookupEnv) :
    Option (Stored × CacheHit) × SemanticCache Stored :=
  st.cache.lookup sqrt call.req call.historyLen env

/-- `Store`, for a call. -/
def Running.store (st : Running) (call : Call) (resp : ResponseEnvelope) (ttl : Int)
    (env : StoreEnv) : Running :=
  let (cache, job) := st.cache.store call.req call.historyLen ⟨call, resp⟩ ttl env
  ⟨cache, st.jobs ++ job.toList⟩

/-- The embedders may return this during a lookup. -/
def LookupEnv.Possible (cfg : Settings) (text : String) (env : LookupEnv) : Prop :=
  cfg.embedder.returns text env.vec ∧ ∀ q ∈ cfg.quality, q.1.returns text env.qVec

/-- The embedder may return this during a store, and the exact tier may be ranged over so. -/
def StoreEnv.Possible (cfg : Settings) (st : Running) (text : String) (env : StoreEnv) : Prop :=
  cfg.embedder.returns text env.vec ∧ env.order.Perm st.cache.exact.entries.keys ∧
    env.order'.Perm st.cache.exact.entries.keys

/-- The caches that calls from `W` lead to. -/
inductive Reached (sqrt : ℚ → ℚ) (cfg : Settings) (W : Set Call) : Running → Prop where
  | new : Reached sqrt cfg W ⟨cfg.new, []⟩
  | store {st : Running} {call : Call} {resp : ResponseEnvelope} {ttl : Int} {env : StoreEnv} :
      Reached sqrt cfg W st → call ∈ W → env.Possible cfg st call.text →
      Reached sqrt cfg W (st.store call resp ttl env)
  | storeQuality {st : Running} {job : QualityJob Stored} {jobs : List (QualityJob Stored)}
      {q : Embedder × Int} {qVec : Option Vec} {nowEvict nowStore : Int} :
      Reached sqrt cfg W st → st.jobs.Perm (job :: jobs) → q ∈ cfg.quality →
      q.1.returns job.text qVec →
      Reached sqrt cfg W ⟨st.cache.storeQuality job qVec nowEvict nowStore, jobs⟩
  | lookup {st : Running} {call : Call} {env : LookupEnv} :
      Reached sqrt cfg W st → call ∈ W → env.Possible cfg call.text →
      Reached sqrt cfg W ⟨(st.lookup sqrt call env).2, st.jobs⟩

theorem Reached.mono {sqrt : ℚ → ℚ} {cfg : Settings} {W W' : Set Call} (hsub : W ⊆ W')
    {st : Running} (h : Reached sqrt cfg W st) : Reached sqrt cfg W' st := by
  induction h with
  | new => exact .new
  | store _ hcall henv ih => exact ih.store (hsub hcall) henv
  | storeQuality _ hperm hq hvec ih => exact ih.storeQuality hperm hq hvec
  | lookup _ hcall henv ih => exact ih.lookup (hsub hcall) henv

/-! ## Where the entries come from -/

/-- An entry of a vector tier: the call's text is not empty and was embedded so. -/
structure Embedded (W : Set Call) (embedder : Embedder) (vec : Vec) (stored : Stored) : Prop where
  mem : stored.call ∈ W
  text : stored.call.text ≠ ""
  returns : embedder.returns stored.call.text (some vec)

/-- Every entry was stored for a call from `W`, where that call is looked up. -/
structure Tagged (cfg : Settings) (W : Set Call) (st : Running) : Prop where
  exact : st.cache.exact.All fun k stored => stored.call ∈ W ∧ key stored.call.req = k
  backend : st.cache.backend.All (Embedded W cfg.embedder)
  quality : ∀ q ∈ cfg.quality, ∀ b, st.cache.qualityBackend = some b → b.All (Embedded W q.1)
  jobs : ∀ job ∈ st.jobs, job.resp.call ∈ W ∧ job.resp.call.text ≠ "" ∧
    job.text = job.resp.call.text
  noQuality : cfg.quality = none → st.cache.qualityBackend = none
  threshold : st.cache.threshold = cfg.threshold

section

variable {sqrt : ℚ → ℚ} {cfg : Settings} {W : Set Call} {st : Running}

theorem tagged_new : Tagged cfg W ⟨cfg.new, []⟩ where
  exact := Memory.all_new _ _
  backend := all_new _
  quality := by
    intro q hq b hb
    simp only [Settings.new, Option.mem_def.mp hq, Option.map_some, Option.some.injEq] at hb
    subst hb
    exact all_new _
  jobs := fun _ h => (not_mem_nil h).elim
  noQuality := fun h => by simp [Settings.new, h]
  threshold := rfl

theorem Tagged.store (h : Tagged cfg W st) {call : Call} (hcall : call ∈ W)
    (resp : ResponseEnvelope) (ttl : Int) {env : StoreEnv} (henv : env.Possible cfg st call.text) :
    Tagged cfg W (st.store call resp ttl env) := by
  have hexact : (st.cache.exact.set (key call.req) ⟨call, resp⟩ ttl env.nowEvict env.nowSet
      env.order env.order').All fun k stored => stored.call ∈ W ∧ key stored.call.req = k :=
    h.exact.set ⟨call, resp⟩ ⟨hcall, rfl⟩ _ _ _ _ _
  simp only [Running.store, SemanticCache.store, Call.text_eq]
  by_cases htext : call.text = ""
  · simp only [htext, if_true, Option.toList_none, append_nil]
    exact ⟨hexact, h.backend, h.quality, h.jobs, h.noQuality, h.threshold⟩
  · simp only [htext, if_false]
    refine ⟨hexact, ?_, h.quality, ?_, h.noQuality, h.threshold⟩
    · cases hvec : env.vec with
      | none => exact h.backend
      | some vec =>
        have hreturns := henv.1
        rw [hvec] at hreturns
        exact h.backend.store ⟨call, resp⟩ ⟨hcall, htext, hreturns⟩ _ _ _
    · intro job hjob
      rcases mem_append.mp hjob with hjob | hjob
      · exact h.jobs job hjob
      · rw [Option.mem_toList, Option.map_eq_some_iff] at hjob
        obtain ⟨_, _, hjob⟩ := hjob
        rw [← hjob]
        exact ⟨hcall, htext, rfl⟩

theorem Tagged.storeQuality (h : Tagged cfg W st) {job : QualityJob Stored}
    {jobs : List (QualityJob Stored)} (hperm : st.jobs.Perm (job :: jobs)) {q : Embedder × Int}
    (hq : q ∈ cfg.quality) {qVec : Option Vec} (hvec : q.1.returns job.text qVec)
    (nowEvict nowStore : Int) :
    Tagged cfg W ⟨st.cache.storeQuality job qVec nowEvict nowStore, jobs⟩ := by
  have hall := h.jobs
  simp only [hperm.mem_iff, forall_mem_cons] at hall
  obtain ⟨⟨hmem, htext, heq⟩, hjobs⟩ := hall
  simp only [SemanticCache.storeQuality]
  split
  · next b vec hb =>
    refine ⟨h.exact, h.backend, ?_, hjobs, ?_, h.threshold⟩
    · intro q' hq' b' hb'
      cases Option.mem_unique hq hq'
      cases hb'
      exact (h.quality q hq b hb).store job.resp ⟨hmem, htext, heq ▸ hvec⟩ _ _ _
    · intro hnone
      cases hnone.symm.trans hq
  · exact ⟨h.exact, h.backend, h.quality, hjobs, h.noQuality, h.threshold⟩

theorem Tagged.lookup (h : Tagged cfg W st) (call : Call) (env : LookupEnv) :
    Tagged cfg W ⟨(st.lookup sqrt call env).2, st.jobs⟩ := by
  have hexact := h.exact.get (key call.req) env.nowExact
  simp only [Running.lookup]
  exact ⟨hexact, h.backend, h.quality, h.jobs, h.noQuality, h.threshold⟩

theorem Reached.tagged (h : Reached sqrt cfg W st) : Tagged cfg W st := by
  induction h with
  | new => exact tagged_new
  | store _ hcall henv ih => exact ih.store hcall _ _ henv
  | storeQuality _ hperm hq hvec ih => exact ih.storeQuality hperm hq hvec _ _
  | lookup _ _ _ ih => exact ih.lookup _ _

end

/-! ## Collisions -/

section

variable (sqrt : ℚ → ℚ) (cfg : Settings)

/-- The embedder may return similar vectors for the text of a store and that of a lookup. -/
def Similar (embedder : Embedder) (stored asked : String) : Prop :=
  ∃ vec vec', embedder.returns asked (some vec) ∧ embedder.returns stored (some vec') ∧
    cfg.threshold ≤ cosineSimilarity sqrt vec vec' ∧ 0 < cosineSimilarity sqrt vec vec'

/-- A lookup of `asked` in the vector tiers may return what is stored for `stored`.  The quality
tier is asked only if the fast embedder returns a vector. -/
def TextsCollide (stored asked : String) : Prop :=
  stored ≠ "" ∧ asked ≠ "" ∧
    (Similar sqrt cfg cfg.embedder stored asked ∨
      (∃ vec, cfg.embedder.returns asked (some vec)) ∧
        ∃ q ∈ cfg.quality, Similar sqrt cfg q.1 stored asked)

variable {sqrt cfg} {W : Set Call} {st : Running}

variable {stored : Stored} {env : LookupEnv} {call a b : Call}

theorem MemorySemanticBackend.All.similar {b : MemorySemanticBackend Stored} {embedder : Embedder}
    (h : b.All (Embedded W embedder)) {text : String} {vec : Vec}
    (hvec : embedder.returns text (some vec)) {now : Int}
    (hfind : b.find sqrt vec cfg.threshold now = some stored) :
    stored.call ∈ W ∧ stored.call.text ≠ "" ∧ Similar sqrt cfg embedder stored.call.text text := by
  obtain ⟨vec', hstored, hscore⟩ := h.of_find hfind
  exact ⟨hstored.mem, hstored.text, vec, vec', hvec, hstored.returns, hscore⟩

theorem Tagged.of_findSimilar (h : Tagged cfg W st) {text : String} (henv : env.Possible cfg text)
    (hfind : st.cache.findSimilar sqrt text env = some stored) :
    stored.call ∈ W ∧ TextsCollide sqrt cfg stored.call.text text := by
  obtain ⟨hfast, hslow⟩ := henv
  simp only [findSimilar, h.threshold] at hfind
  split at hfind
  · cases hfind
  next htext =>
  split at hfind
  · cases hfind
  next vec hvec =>
  rw [hvec] at hfast
  split at hfind
  · next resp hresp =>
    cases hfind
    obtain ⟨hmem, hne, hsim⟩ := h.backend.similar hfast hresp
    exact ⟨hmem, hne, htext, .inl hsim⟩
  split at hfind
  · next b qVec hb hqVec =>
    cases hquality : cfg.quality with
    | none => cases (h.noQuality hquality).symm.trans hb
    | some q =>
      have hreturns := hslow q hquality
      rw [hqVec] at hreturns
      obtain ⟨hmem, hne, hsim⟩ := (h.quality q hquality b hb).similar hreturns hfind
      exact ⟨hmem, hne, htext, .inr ⟨⟨vec, hfast⟩, q, hquality, hsim⟩⟩
  · cases hfind

theorem Tagged.of_lookup (h : Tagged cfg W st) (henv : env.Possible cfg call.text)
    {hit : CacheHit} (hlookup : (st.lookup sqrt call env).1 = some (stored, hit)) :
    stored.call ∈ W ∧
      match hit with
      | .exact => key stored.call.req = key call.req
      | .semantic => TextsCollide sqrt cfg stored.call.text call.text := by
  rw [Running.lookup, lookup_fst] at hlookup
  split at hlookup
  · next resp hget =>
    cases hlookup
    exact h.exact.of_get hget
  · obtain ⟨_, hfind, heq⟩ := Option.map_eq_some_iff.mp hlookup
    cases heq
    exact h.of_findSimilar henv hfind

/-! ## Every collision is a hit -/

theorem Settings.exists_quality (cfg : Settings) (text : String) :
    ∃ qVec, ∀ q ∈ cfg.quality, q.1.returns text qVec := by
  cases hquality : cfg.quality with
  | none => exact ⟨none, fun _ h => by cases h⟩
  | some q =>
    obtain ⟨qVec, hq⟩ := q.1.total text
    exact ⟨qVec, fun _ h => by cases h; exact hq⟩

/-- A new cache after one store.  The clock stands still. -/
def Settings.oneStore (cfg : Settings) (call : Call) (vec : Option Vec) : Running :=
  Running.store ⟨cfg.new, []⟩ call default 0 ⟨vec, 0, 0, 0, 0, [], []⟩

theorem reached_oneStore {vec : Option Vec} (hvec : cfg.embedder.returns call.text vec) :
    Reached sqrt cfg {call} (cfg.oneStore call vec) :=
  .store .new rfl ⟨hvec, .refl _, .refl _⟩

theorem oneStore_exact (cfg : Settings) (call : Call) (vec : Option Vec) :
    (cfg.oneStore call vec).cache.exact =
      (Memory.new cfg.exactSize cfg.exactTTL).set (key call.req) ⟨call, default⟩ 0 0 0 [] [] := by
  simp only [Settings.oneStore, Running.store, SemanticCache.store, Settings.new]
  split <;> rfl

theorem oneStore_threshold (htext : call.text ≠ "") (vec : Option Vec) :
    (cfg.oneStore call vec).cache.threshold = cfg.threshold := by
  simp only [Settings.oneStore, Running.store, store_of_text htext, Settings.new]

theorem oneStore_backend (htext : call.text ≠ "") (vec : Vec) :
    (cfg.oneStore call (some vec)).cache.backend =
      store { maxSize := cfg.backendSize } vec ⟨call, default⟩ 0 0 0 := by
  simp only [Settings.oneStore, Running.store, store_of_text htext, Settings.new]

theorem oneStore_quality (htext : call.text ≠ "") (vec : Option Vec) {q : Embedder × Int}
    (hq : cfg.quality = some q) :
    (cfg.oneStore call vec).jobs = [⟨call.text, ⟨call, default⟩, 0⟩] ∧
      (cfg.oneStore call vec).cache.qualityBackend = some { maxSize := q.2 } := by
  simp only [Settings.oneStore, Running.store, store_of_text htext, Settings.new, hq,
    Option.map_some, Option.toList_some, nil_append, Call.text_eq, and_self]

theorem exists_exact_hit (sqrt : ℚ → ℚ) (cfg : Settings) (hkey : key a.req = key b.req) :
    ∃ st env stored, Reached sqrt cfg {a} st ∧ env.Possible cfg b.text ∧
      (st.lookup sqrt b env).1 = some (stored, .exact) := by
  obtain ⟨vec, hvec⟩ := cfg.embedder.total a.text
  obtain ⟨vec', hvec'⟩ := cfg.embedder.total b.text
  obtain ⟨qVec, hq⟩ := cfg.exists_quality b.text
  refine ⟨cfg.oneStore a vec, ⟨vec', qVec, 0, 0, 0⟩, ⟨a, default⟩, reached_oneStore hvec,
    ⟨hvec', hq⟩, ?_⟩
  rw [Running.lookup, lookup_fst, oneStore_exact, hkey, Memory.get_set]

theorem oneStore_get (hkey : key b.req ≠ key a.req) (vec : Option Vec) (now : Int) :
    ((cfg.oneStore a vec).cache.exact.get (key b.req) now).1 = none := by
  rw [oneStore_exact]
  exact Memory.get_set_new_of_ne hkey ..

theorem Running.lookup_of_findSimilar
    (hmiss : (st.cache.exact.get (key call.req) env.nowExact).1 = none)
    (hsim : st.cache.findSimilar sqrt call.text env = some stored) :
    (st.lookup sqrt call env).1 = some (stored, .semantic) := by
  rw [Running.lookup, lookup_fst, hmiss, Call.text_eq, hsim]
  rfl

theorem exists_semantic_hit (hkey : key b.req ≠ key a.req)
    (hcollide : TextsCollide sqrt cfg a.text b.text) :
    ∃ st env stored, Reached sqrt cfg {a} st ∧ env.Possible cfg b.text ∧
      (st.lookup sqrt b env).1 = some (stored, .semantic) := by
  obtain ⟨hstored, hasked, hfast | ⟨⟨vec, hvec⟩, q, hq, hslow⟩⟩ := hcollide
  · obtain ⟨vec, vec', hvec, hvec', hscore⟩ := hfast
    obtain ⟨qVec, hq⟩ := cfg.exists_quality b.text
    have hfind := find_store_new hscore cfg.backendSize
      (⟨a, default⟩ : Stored) 0 0 0
    rw [← oneStore_backend hstored, ← oneStore_threshold hstored (some vec')] at hfind
    have hsim : (cfg.oneStore a (some vec')).cache.findSimilar sqrt b.text
        ⟨some vec, qVec, 0, 0, 0⟩ = some ⟨a, default⟩ :=
      findSimilar_of_find hasked rfl hfind
    exact ⟨_, ⟨some vec, qVec, 0, 0, 0⟩, _, reached_oneStore hvec', ⟨hvec, hq⟩,
      Running.lookup_of_findSimilar (oneStore_get hkey _ _) hsim⟩
  · obtain ⟨qVec, qVec', hqVec, hqVec', hscore⟩ := hslow
    obtain ⟨vec', hvec'⟩ := cfg.embedder.total a.text
    obtain ⟨hjobs, hbackend⟩ := oneStore_quality hstored vec' hq
    have hreached : Reached sqrt cfg {a}
        ⟨(cfg.oneStore a vec').cache.storeQuality ⟨a.text, ⟨a, default⟩, 0⟩ (some qVec') 0 0, []⟩ :=
      (reached_oneStore hvec').storeQuality (.of_eq hjobs) hq hqVec'
    simp only [storeQuality, hbackend] at hreached
    have hmiss : ((cfg.oneStore a vec').cache.exact.get (key b.req) 0).1 = none :=
      oneStore_get hkey vec' 0
    have hfind := find_store_new hscore q.2 (⟨a, default⟩ : Stored) 0 0 0
    rw [← oneStore_threshold hstored vec'] at hfind
    generalize (cfg.oneStore a vec').cache = cache at hreached hmiss hfind
    obtain ⟨found, hsim⟩ : ∃ found, ({ cache with
          qualityBackend := some (.store { maxSize := q.2 } qVec' ⟨a, default⟩ 0 0 0) }).findSimilar
        sqrt b.text ⟨some vec, some qVec, 0, 0, 0⟩ = some found :=
      findSimilar_of_quality hasked rfl rfl rfl hfind
    refine ⟨_, ⟨some vec, some qVec, 0, 0, 0⟩, found, hreached, ⟨hvec, ?_⟩,
      Running.lookup_of_findSimilar hmiss hsim⟩
    intro q' hq'
    cases Option.mem_unique hq hq'
    exact hqVec

/-! ## The question a hit answers -/

/-- The same model and tools. -/
structure SameQuestion (a b : RequestEnvelope) : Prop where
  model : a.model = b.model
  tools : a.tools = b.tools
  toolChoice : a.toolChoice = b.toolChoice

/-- Every hit of a run over `W` returns a response to the question that was asked, and an exact
hit one to the same messages.  This holds exactly if the calls of `W` that collide ask the same
question. -/
theorem hits_same_question_iff (sqrt : ℚ → ℚ) (cfg : Settings) (W : Set Call) :
    (∀ st, Reached sqrt cfg W st → ∀ call ∈ W, ∀ env, LookupEnv.Possible cfg call.text env →
      ∀ stored hit, (st.lookup sqrt call env).1 = some (stored, hit) →
        SameQuestion stored.call.req call.req ∧
          (hit = .exact → stored.call.req.messages = call.req.messages)) ↔
      ∀ a ∈ W, ∀ b ∈ W, key a.req = key b.req ∨ TextsCollide sqrt cfg a.text b.text →
        SameQuestion a.req b.req := by
  constructor
  · intro h a ha b hb hcollide
    -- One store of `a` and one lookup of `b` is a run, and its hit can only be the entry of `a`.
    have hrun : ∃ st env stored hit, Reached sqrt cfg {a} st ∧ env.Possible cfg b.text ∧
        (st.lookup sqrt b env).1 = some (stored, hit) := by
      by_cases hkey : key a.req = key b.req
      · obtain ⟨st, env, stored, hrun⟩ := exists_exact_hit sqrt cfg hkey
        exact ⟨st, env, stored, .exact, hrun⟩
      · obtain ⟨st, env, stored, hrun⟩ :=
          exists_semantic_hit (Ne.symm hkey) (hcollide.resolve_left hkey)
        exact ⟨st, env, stored, .semantic, hrun⟩
    obtain ⟨st, env, stored, hit, hreached, henv, hlookup⟩ := hrun
    obtain ⟨hstored, _⟩ := hreached.tagged.of_lookup henv hlookup
    have hsub : {a} ⊆ W := Set.singleton_subset_iff.mpr ha
    obtain ⟨hsame, _⟩ := h st (hreached.mono hsub) b hb env henv stored hit hlookup
    rwa [Set.mem_singleton_iff.mp hstored] at hsame
  · intro h st hreached call hcall env henv stored hit hlookup
    obtain ⟨hstored, hcollide⟩ := hreached.tagged.of_lookup henv hlookup
    cases hit with
    | exact =>
      exact ⟨h _ hstored call hcall (.inl hcollide), fun _ => congrArg CacheKey.messages hcollide⟩
    | semantic => exact ⟨h _ hstored call hcall (.inr hcollide), fun h => by cases h⟩

end

/-! ## Tools are not part of the key -/

def constantEmbedder : Embedder where
  returns _ vec := vec = some [1]
  total _ := ⟨_, rfl⟩

/-- Unbounded tiers, and a similarity of at least 0.92. -/
def unbounded : Settings where
  exactSize := 0
  exactTTL := 0
  backendSize := 0
  threshold := 0.92
  embedder := constantEmbedder

def plainCall : Call where
  req := { model := "gpt-5.2", messages := [{ role := "user", content := "weather in Paris?" }] }

def toolCall : Call where
  req :=
    { plainCall.req with
      tools := [{ type := "function", function := { name := "get_weather" } }] }

/-- The call with a tool is answered with the response to the call without. -/
theorem exact_hit_ignores_tools :
    Reached id unbounded {plainCall, toolCall} (unbounded.oneStore plainCall (some [1])) ∧
    ((unbounded.oneStore plainCall (some [1])).lookup id toolCall ⟨some [1], none, 0, 0, 0⟩).1 =
      some (⟨plainCall, default⟩, .exact) ∧
    ¬ SameQuestion plainCall.req toolCall.req := by
  refine ⟨(reached_oneStore rfl).mono (by simp), ?_, fun h => ?_⟩
  · have hkey : key toolCall.req = key plainCall.req := rfl
    rw [Running.lookup, lookup_fst, oneStore_exact, hkey, Memory.get_set]
  · exact absurd h.tools (by decide)

end Ixr.Cache
