import IxrGateway.Cache.Collisions
import IxrGateway.Ingress.SessionHistory

/-!
# Conversations in the vector tiers

`SessionMiddleware` tells the cache how many of a request's messages are
injected history, and the vector tiers leave these out of the text they embed.
So the text of a forwarded request is the text of the caller's own messages,
whatever the conversation was (`forward_text`).  A semantic hit is confined to
one conversation only where no history can be injected at all.
-/

namespace Ixr.Cache

open Ingress

/-- The call that `SessionMiddleware` forwards for a request in a session with these turns. -/
def forward (turns : List (Message × Message)) (req : RequestEnvelope) : Call :=
  let (req, historyLen) := injectHistory (turnMessages turns) req
  ⟨req, historyLen⟩

/-- The calls forwarded for requests from `W`, in any session. -/
def Forwarded (W : Set RequestEnvelope) : Set Call :=
  { call | ∃ turns, ∃ req ∈ W, call = forward turns req }

/-- The messages of earlier turns. -/
def Call.history (call : Call) : List Message := call.req.messages.take call.historyLen.toNat

theorem requestText_append (req : RequestEnvelope) : ∀ history : List Message,
    requestText { req with messages := history ++ req.messages } history.length =
      requestText req 0
  | [] => rfl
  | m :: history => by
    have hpos : 0 < ((m :: history).length : Int) := by simp
    have hlen : ((m :: history).length : Int) ≤ (m :: history ++ req.messages).length := by simp
    simp only [requestText, hpos, hlen, and_self, if_true, Int.toNat_natCast, List.drop_left,
      lt_irrefl, false_and, if_false]

theorem forward_text (turns : List (Message × Message)) (req : RequestEnvelope) :
    (forward turns req).text = requestText req 0 :=
  requestText_append req _

variable {req : RequestEnvelope} {turn : Message × Message}

theorem forward_of_not_fits (h : ¬ HistoryFits req) (turns : List (Message × Message)) :
    forward turns req = ⟨req, 0⟩ := by
  rw [forward, injectHistory_of_not_fits h]

theorem forward_nil (req : RequestEnvelope) : forward [] req = ⟨req, 0⟩ := by
  simp [forward, injectHistory, trimToContextWindow, turnMessages]

theorem forward_of_le
    (h : estimateTokens [turn.1, turn.2] ≤ availableTokens req.messages req.model) :
    forward [turn] req = ⟨{ req with messages := turn.1 :: turn.2 :: req.messages }, 2⟩ := by
  rw [forward, injectHistory_of_le h]

theorem forward_of_fits (h : HistoryFits req) (hshort : ShortTurn turn) :
    forward [turn] req = ⟨{ req with messages := turn.1 :: turn.2 :: req.messages }, 2⟩ := by
  rw [forward, injectHistory_of_fits h hshort]

theorem exists_shortTurn (messages rest : List Message) :
    ∃ turn, ShortTurn turn ∧ messages ≠ turn.1 :: turn.2 :: rest := by
  let turn (content : String) : Message × Message :=
    ({ role := "user", content := content }, { role := "assistant" })
  by_cases h : messages = (turn "").1 :: (turn "").2 :: rest
  · refine ⟨turn "x", ⟨by decide, by decide⟩, ?_⟩
    rw [h]
    simp [turn]
  · exact ⟨turn "", ⟨by decide, by decide⟩, h⟩

section

variable {sqrt : ℚ → ℚ} {cfg : Settings} {W : Set RequestEnvelope}

/-- A call of `W` answers another with a similar text, whatever their histories are. -/
theorem exists_hit_forwarded {a b : RequestEnvelope} (ha : a ∈ W)
    {turns turns' : List (Message × Message)}
    (hkey : key (forward turns' b).req ≠ key (forward turns a).req)
    (hcollide : TextsCollide sqrt cfg (requestText a 0) (requestText b 0)) :
    ∃ st env stored, Reached sqrt cfg (Forwarded W) st ∧
      LookupEnv.Possible cfg (forward turns' b).text env ∧
      (st.lookup sqrt (forward turns' b) env).1 = some (stored, .semantic) ∧
      stored.call = forward turns a := by
  rw [← forward_text turns a, ← forward_text turns' b] at hcollide
  obtain ⟨st, env, stored, hreached, henv, hlookup⟩ := exists_semantic_hit hkey hcollide
  obtain ⟨hstored, _⟩ := hreached.tagged.of_lookup henv hlookup
  have hsub : {forward turns a} ⊆ Forwarded W :=
    Set.singleton_subset_iff.mpr ⟨turns, a, ha, rfl⟩
  exact ⟨st, env, stored, hreached.mono hsub, henv, hlookup, hstored⟩

/-- Every semantic hit of a run over requests forwarded from `W` returns a response with the
history of the call that is answered.  This holds exactly if two requests of `W` with similar
texts leave no room for history. -/
theorem conversations_isolated_iff (sqrt : ℚ → ℚ) (cfg : Settings) (W : Set RequestEnvelope) :
    (∀ st, Reached sqrt cfg (Forwarded W) st → ∀ call ∈ Forwarded W,
      ∀ env, LookupEnv.Possible cfg call.text env →
      ∀ stored, (st.lookup sqrt call env).1 = some (stored, .semantic) →
        stored.call.historyLen = call.historyLen ∧ stored.call.history = call.history) ↔
      ∀ a ∈ W, ∀ b ∈ W, TextsCollide sqrt cfg (requestText a 0) (requestText b 0) →
        ¬ HistoryFits a ∧ ¬ HistoryFits b := by
  constructor
  · intro h a ha b hb hcollide
    refine ⟨fun hfits => ?_, fun hfits => ?_⟩
    · -- `a` is stored in a session, `b` is asked in a new one.
      obtain ⟨turn, hshort, hne⟩ := exists_shortTurn b.messages a.messages
      have hkey : key (forward [] b).req ≠ key (forward [turn] a).req := by
        rw [forward_nil, forward_of_fits hfits hshort]
        exact fun heq => hne (congrArg CacheKey.messages heq)
      obtain ⟨st, env, stored, hreached, henv, hlookup, hstored⟩ :=
        exists_hit_forwarded ha hkey hcollide
      obtain ⟨hlen, _⟩ := h st hreached _ ⟨[], b, hb, rfl⟩ env henv stored hlookup
      rw [hstored, forward_nil, forward_of_fits hfits hshort] at hlen
      cases hlen
    · -- The other way round.
      obtain ⟨turn, hshort, hne⟩ := exists_shortTurn a.messages b.messages
      have hkey : key (forward [turn] b).req ≠ key (forward [] a).req := by
        rw [forward_nil, forward_of_fits hfits hshort]
        exact fun heq => hne (congrArg CacheKey.messages heq).symm
      obtain ⟨st, env, stored, hreached, henv, hlookup, hstored⟩ :=
        exists_hit_forwarded ha hkey hcollide
      obtain ⟨hlen, _⟩ := h st hreached _ ⟨[turn], b, hb, rfl⟩ env henv stored hlookup
      rw [hstored, forward_nil, forward_of_fits hfits hshort] at hlen
      cases hlen
  · rintro h st hreached _ ⟨turns, b, hb, rfl⟩ env henv stored hlookup
    obtain ⟨⟨turns', a, ha, hstored⟩, hcollide⟩ := hreached.tagged.of_lookup henv hlookup
    rw [hstored]
    simp only [hstored, forward_text] at hcollide
    obtain ⟨hfitsA, hfitsB⟩ := h a ha b hb hcollide
    rw [forward_of_not_fits hfitsA, forward_of_not_fits hfitsB]
    exact ⟨rfl, rfl⟩

end

/-! ## One follow-up in two sessions -/

def followUp : RequestEnvelope where
  model := "gpt-5.2"
  messages := [{ role := "user", content := "and in euros?" }]

def priceAsked (plan price : String) : Message × Message :=
  ({ role := "user", content := "price of plan " ++ plan ++ "?" },
    { role := "assistant", content := price })

theorem available_followUp :
    availableTokens followUp.messages followUp.model = 102393 := by
  have hwindow : Routing.contextWindowFor followUp.model = 128000 := by decide
  have htokens : estimateTokens followUp.messages = 7 := by decide
  rw [availableTokens, hwindow, htokens]
  norm_num [truncate, contextHeadroom]

/-- The follow-up in the second session is answered with the response of the first. -/
theorem other_session_answered :
    Reached id unbounded (Forwarded {followUp})
      (unbounded.oneStore (forward [priceAsked "A" "$10"] followUp) (some [1])) ∧
    ((unbounded.oneStore (forward [priceAsked "A" "$10"] followUp) (some [1])).lookup id
      (forward [priceAsked "B" "$99"] followUp) ⟨some [1], none, 0, 0, 0⟩).1 =
        some (⟨forward [priceAsked "A" "$10"] followUp, default⟩, .semantic) ∧
    (forward [priceAsked "A" "$10"] followUp).history ≠
      (forward [priceAsked "B" "$99"] followUp).history := by
  have htext : ∀ turns, (forward turns followUp).text ≠ "" := by
    intro turns
    rw [forward_text]
    decide
  have hA : forward [priceAsked "A" "$10"] followUp = _ :=
    forward_of_le (by rw [available_followUp]; decide)
  have hB : forward [priceAsked "B" "$99"] followUp = _ :=
    forward_of_le (by rw [available_followUp]; decide)
  have hscore : unbounded.threshold ≤ cosineSimilarity id [1] [1] ∧
      0 < cosineSimilarity id [1] [1] := by
    norm_num [cosineSimilarity, unbounded]
  have hfind := MemorySemanticBackend.find_store_new hscore unbounded.backendSize
    (⟨forward [priceAsked "A" "$10"] followUp, default⟩ : Stored) 0 0 0
  rw [← oneStore_backend (htext _), ← oneStore_threshold (htext _) (some [1])] at hfind
  have hkey : key (forward [priceAsked "B" "$99"] followUp).req ≠
      key (forward [priceAsked "A" "$10"] followUp).req := by
    rw [hA, hB]
    decide
  refine ⟨(reached_oneStore rfl).mono ?_, ?_, ?_⟩
  · exact Set.singleton_subset_iff.mpr ⟨_, followUp, rfl, rfl⟩
  · exact Running.lookup_of_findSimilar (oneStore_get hkey _ _)
      (SemanticCache.findSimilar_of_find (htext _) rfl hfind)
  · rw [hA, hB]
    decide

end Ixr.Cache
