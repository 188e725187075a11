import IxrGateway.Compressor.Compress
import IxrGateway.Retrieval.Store
import IxrGateway.Retrieval.Tool

/-!
# The compressor plugin

`Intercept` goes through the messages of a request and compresses those that it
may touch.  With a store, what is cut off can be retrieved: the content is put
into the store, a marker names its id, and the retrieval tool is offered once.

`Round` says what the loop can do with one message.  Everything about a run is
read off the rounds (`interceptLoop_rounds`).

A content is a Go string, so it is any bytes here.  When the request is encoded
again, bytes that are no characters are replaced (`RawMessage.written`).
-/

namespace Ixr.Compressor

open Interaction List Retrieval
open JsonText (Floats)
open Retrieval (StoreOp storeSig Holds)
open Utf8 (Bytes Valid Continues ofString encode decode)

/-! ## Requests -/

/-- `schema.Message`, with the bytes of its content. -/
structure RawMessage where
  role : String
  content : Bytes
  parts : List ContentPart := []
  toolCalls : List ToolCall := []
  toolCallID : String := ""
  name : String := ""
deriving DecidableEq

/-- What the plugin reads and writes of a `schema.RequestEnvelope`. -/
structure RawRequest where
  messages : List RawMessage
  tools : List Tool := []
  stream : Bool := false
deriving DecidableEq

/-- The message as it is sent on. -/
def RawMessage.written (m : RawMessage) : Message :=
  { m with content := String.ofList (decode m.content) }

/-! ## The plugin -/

/-- `defaultMaxChars`. -/
def defaultMaxChars : Nat := 4000

/-- `compressor.Plugin`. -/
structure Plugin where
  maxChars : Nat
  /-- The constructors set a limit. -/
  maxChars_pos : 0 < maxChars
  store : Bool
  ttl : Int

/-- `compressor.New`. -/
def new (maxChars : Int) : Plugin :=
  if h : maxChars ≤ 0 then ⟨defaultMaxChars, by decide, false, 0⟩
  else ⟨maxChars.toNat, by omega, false, 0⟩

/-- `compressor.NewReversible`. -/
def newReversible (maxChars ttl : Int) : Plugin := { new maxChars with store := true, ttl }

/-- `eligible`. -/
def eligible (m : RawMessage) : Bool :=
  if m.parts ≠ [] ∨ m.role = "system" then false else m.content ≠ []

/-- `lastUserMessageIndex`, without an index for -1. -/
def lastUserMessageIndex : List RawMessage → Option Nat
  | [] => none
  | m :: messages =>
    match lastUserMessageIndex messages with
    | some i => some (i + 1)
    | none => if m.role = "user" then some 0 else none

section

variable {F : Type} (floats : Floats F)

/-- One round of the loop of `Intercept`: the message, and whether its content was put into the
store. -/
def Plugin.round (p : Plugin) (reversible live : Bool) (m : RawMessage) :
    Prog storeSig (RawMessage × Bool) :=
  if live || !eligible m then return (m, false)
  else
    let out := compress floats m.content p.maxChars
    if reversible && 0 < out.2 then do
      let id ← put m.content p.ttl
      return ({ m with content := out.1 ++ ofString (marker id out.2) }, true)
    else return ({ m with content := out.1 }, false)

/-- The loop of `Intercept`: the messages and the tools afterwards. -/
def Plugin.interceptLoop (p : Plugin) (reversible : Bool) (liveTurn : Option Nat) :
    Nat → Bool → List Tool → List RawMessage → Prog storeSig (List RawMessage × List Tool)
  | _, _, tools, [] => return ([], tools)
  | i, injectedTool, tools, m :: messages => do
    let out ← p.round floats reversible (liveTurn = some i) m
    let tools := if out.2 && !injectedTool then tools ++ [tool] else tools
    let rest ← p.interceptLoop reversible liveTurn (i + 1) (injectedTool || out.2) tools messages
    return (out.1 :: rest.1, rest.2)

/-- `Plugin.Intercept`. -/
def Plugin.intercept (p : Plugin) (req : RawRequest) : Prog storeSig RawRequest := do
  let reversible := p.store && !req.stream
  let liveTurn := lastUserMessageIndex req.messages
  let out ← p.interceptLoop floats reversible liveTurn 0 false req.tools req.messages
  return { req with messages := out.1, tools := out.2 }

/-! ## Rounds -/

/-- The message is cut. -/
def Plugin.cuts (p : Plugin) (live : Bool) (m : RawMessage) : Bool :=
  !live && eligible m && p.maxChars < (collapse floats m.content).length

/-- The content of some message is cut.  The first message has the index `i`. -/
def Plugin.cutsAny (p : Plugin) (liveTurn : Option Nat) : Nat → List RawMessage → Bool
  | _, [] => false
  | i, m :: messages =>
    p.cuts floats (liveTurn = some i) m || p.cutsAny liveTurn (i + 1) messages

/-- What one round does with a message.  The operations of the run are `t`. -/
inductive Round (p : Plugin) (reversible : Bool) (t : Trace storeSig) :
    Bool → RawMessage → RawMessage → Bool → Prop where
  | skip {live : Bool} {m : RawMessage} (h : live = true ∨ eligible m = false) :
      Round p reversible t live m m false
  | compress {m : RawMessage} (heligible : eligible m = true)
      (h : reversible = false ∨ p.cuts floats false m = false) :
      Round p reversible t false m
        { m with content := (compress floats m.content p.maxChars).1 } false
  | store {m : RawMessage} {id : String} {err : Option GoError} (hreversible : reversible = true)
      (hcuts : p.cuts floats false m = true)
      (hput : ⟨.backendPut id m.content p.ttl, err⟩ ∈ t) :
      Round p reversible t false m
        { m with
          content := (compress floats m.content p.maxChars).1 ++
            ofString (marker id (compress floats m.content p.maxChars).2) } true

variable {floats}

variable {p : Plugin} {live reversible stored : Bool} {m m' : RawMessage} {t : Trace storeSig}
  {i : Nat} {messages : List RawMessage}

theorem eligible_of_cuts (h : p.cuts floats live m = true) : eligible m = true := by
  simp only [Plugin.cuts, Bool.and_eq_true] at h
  exact h.1.2

theorem cuts_iff (h : eligible m = true) :
    p.cuts floats false m = true ↔ 0 < (compress floats m.content p.maxChars).2 := by
  rw [Plugin.cuts, h, Bool.not_false, Bool.true_and, Bool.true_and, decide_eq_true_iff]
  rcases Nat.lt_or_ge p.maxChars (collapse floats m.content).length with hlt | hge
  · rw [compress_of_lt hlt]
    exact iff_of_true hlt (Nat.sub_pos_of_lt hlt)
  · rw [compress_of_le hge]
    exact iff_of_false (Nat.not_lt.mpr hge) (Nat.lt_irrefl 0)

theorem Round.mono {t' : Trace storeSig} (h : Round floats p reversible t live m m' stored)
    (hsub : t ⊆ t') : Round floats p reversible t' live m m' stored := by
  cases h with
  | skip h => exact .skip h
  | compress heligible h => exact .compress heligible h
  | store hreversible hcuts hput => exact .store hreversible hcuts (hsub hput)

theorem round_cases (h : Runs (p.round floats reversible live m) t (m', stored)) :
    Round floats p reversible t live m m' stored := by
  rw [Plugin.round] at h
  split at h
  · next hskip =>
    obtain ⟨-, heq⟩ := runs_ret_iff.mp h
    cases heq
    refine .skip ?_
    simpa using hskip
  · next hskip =>
    have hlive : live = false ∧ eligible m = true := by simpa using hskip
    obtain ⟨rfl, heligible⟩ := hlive
    dsimp only at h
    split at h
    · next hcut =>
      rw [Bool.and_eq_true, decide_eq_true_iff] at hcut
      obtain ⟨t₁, id, t₂, rfl, hput, hret⟩ := runs_bind_iff.mp h
      obtain ⟨-, heq⟩ := runs_ret_iff.mp hret
      cases heq
      obtain ⟨err, hmem⟩ := mem_of_runs_put hput
      exact .store hcut.1 ((cuts_iff heligible).mpr hcut.2) (mem_append_left _ hmem)
    · next hcut =>
      obtain ⟨-, heq⟩ := runs_ret_iff.mp h
      cases heq
      refine .compress heligible ?_
      rw [Bool.and_eq_true, decide_eq_true_iff, ← cuts_iff heligible] at hcut
      rcases Bool.eq_false_or_eq_true reversible with hrev | hrev
      · exact Or.inr (Bool.eq_false_iff.mpr fun hcuts => hcut ⟨hrev, hcuts⟩)
      · exact Or.inl hrev

theorem Round.stored_eq (h : Round floats p reversible t live m m' stored) :
    stored = (reversible && p.cuts floats live m) := by
  cases h with
  | skip h =>
    rcases h with rfl | h
    · simp [Plugin.cuts]
    · simp [Plugin.cuts, h]
  | compress heligible h =>
    rcases h with rfl | h
    · rfl
    · rw [h, Bool.and_false]
  | store hreversible hcuts hput => rw [hreversible, hcuts, Bool.and_self]

/-! ## Runs -/

theorem cutsAny_iff {liveTurn : Option Nat} :
    p.cutsAny floats liveTurn i messages = true ↔
      ∃ k m, messages[k]? = some m ∧ p.cuts floats (liveTurn = some (i + k)) m = true := by
  induction messages generalizing i with
  | nil => simp [Plugin.cutsAny]
  | cons m messages ih =>
    rw [Plugin.cutsAny, Bool.or_eq_true, ih]
    constructor
    · rintro (hfirst | ⟨k, m', hm', hcuts⟩)
      · exact ⟨0, m, rfl, hfirst⟩
      · refine ⟨k + 1, m', hm', ?_⟩
        rwa [Nat.add_right_comm] at hcuts
    · rintro ⟨k, m', hm', hcuts⟩
      cases k with
      | zero =>
        cases hm'
        exact Or.inl hcuts
      | succ k =>
        refine Or.inr ⟨k, m', hm', ?_⟩
        rwa [Nat.add_right_comm]

theorem interceptLoop_rounds {liveTurn : Option Nat} {injectedTool : Bool} {tools : List Tool}
    {out : List RawMessage × List Tool}
    (h : Runs (p.interceptLoop floats reversible liveTurn i injectedTool tools messages) t out) :
    out.1.length = messages.length ∧
    (∀ k m, messages[k]? = some m → ∃ m' stored, out.1[k]? = some m' ∧
      Round floats p reversible t (liveTurn = some (i + k)) m m' stored) ∧
    out.2 = if reversible && !injectedTool && p.cutsAny floats liveTurn i messages then
      tools ++ [tool] else tools := by
  induction messages generalizing i injectedTool tools t out with
  | nil =>
    obtain ⟨-, rfl⟩ := runs_ret_iff.mp h
    simp [Plugin.cutsAny]
  | cons m messages ih =>
    obtain ⟨t₁, ⟨m', stored⟩, t₂, rfl, hround, hrest⟩ := runs_bind_iff.mp h
    obtain ⟨t₃, rest, t₄, rfl, hloop, hret⟩ := runs_bind_iff.mp hrest
    obtain ⟨rfl, rfl⟩ := runs_ret_iff.mp hret
    obtain ⟨hlen, hrounds, htools⟩ := ih hloop
    have hround := round_cases hround
    have hstored := hround.stored_eq
    refine ⟨congrArg (· + 1) hlen, ?_, ?_⟩
    · intro k m₁ hm₁
      cases k with
      | zero =>
        cases hm₁
        exact ⟨m', stored, rfl, hround.mono (subset_append_left _ _)⟩
      | succ k =>
        obtain ⟨m₂, stored₂, hm₂, hround₂⟩ := hrounds k m₁ hm₁
        refine ⟨m₂, stored₂, hm₂, ?_⟩
        rw [Nat.add_right_comm] at hround₂
        refine hround₂.mono ?_
        simp
    · rw [htools, Plugin.cutsAny, hstored]
      cases reversible <;> cases injectedTool <;>
        cases p.cuts floats (liveTurn = some i) m <;> simp

/-- The last message of the user. -/
def IsLastUser (messages : List RawMessage) (i : Nat) : Prop :=
  (∃ m, messages[i]? = some m ∧ m.role = "user") ∧
    ∀ j m, i < j → messages[j]? = some m → m.role ≠ "user"

theorem lastUserMessageIndex_eq_none
    (h : ∀ (j : Nat) (m : RawMessage), messages[j]? = some m → m.role ≠ "user") :
    lastUserMessageIndex messages = none := by
  induction messages with
  | nil => rfl
  | cons m messages ih =>
    have hrest := ih fun j m' hm' => h (j + 1) m' hm'
    have hfirst : m.role ≠ "user" := h 0 m rfl
    simp [lastUserMessageIndex, hrest, hfirst]

theorem IsLastUser.lastUserMessageIndex_eq (h : IsLastUser messages i) :
    lastUserMessageIndex messages = some i := by
  obtain ⟨⟨m, hm, huser⟩, hlater⟩ := h
  induction messages generalizing i with
  | nil => cases hm
  | cons first messages ih =>
    cases i with
    | zero =>
      cases hm
      have hrest : lastUserMessageIndex messages = none :=
        lastUserMessageIndex_eq_none fun j m' hm' => hlater (j + 1) m' (Nat.succ_pos j) hm'
      simp [lastUserMessageIndex, hrest, huser]
    | succ i =>
      have hrest : lastUserMessageIndex messages = some i :=
        ih (fun j m' hj hm' => hlater (j + 1) m' (Nat.succ_lt_succ hj) hm') hm
      simp [lastUserMessageIndex, hrest]

theorem intercept_rounds {req out : RawRequest} (h : Runs (p.intercept floats req) t out) :
    out.messages.length = req.messages.length ∧
    (∀ i m, req.messages[i]? = some m → ∃ m' stored, out.messages[i]? = some m' ∧
      Round floats p (p.store && !req.stream) t (lastUserMessageIndex req.messages = some i) m m'
        stored) ∧
    out.tools = if (p.store && !req.stream) &&
        p.cutsAny floats (lastUserMessageIndex req.messages) 0 req.messages then
      req.tools ++ [tool] else req.tools := by
  obtain ⟨t₁, out₁, t₂, rfl, hloop, hret⟩ := runs_bind_iff.mp h
  obtain ⟨rfl, rfl⟩ := runs_ret_iff.mp hret
  rw [append_nil]
  have hrounds := interceptLoop_rounds hloop
  simpa only [Nat.zero_add, Bool.not_false, Bool.and_true] using hrounds

theorem Round.eq_with (h : Round floats p reversible t live m m' stored) :
    m' = { m with content := m'.content } := by
  cases h <;> rfl

theorem Round.eq_of_skip (h : Round floats p reversible t live m m' stored)
    (hskip : live = true ∨ eligible m = false) : m' = m := by
  cases h with
  | skip _ => rfl
  | compress heligible _ => simp [heligible] at hskip
  | store _ hcuts _ =>
    simp [eligible_of_cuts hcuts] at hskip

theorem Round.exists_marker (h : Round floats p reversible t live m m' stored)
    (hreversible : reversible = true) (hcuts : p.cuts floats live m = true) :
    ∃ id err, ⟨.backendPut id m.content p.ttl, err⟩ ∈ t ∧
      m'.content = (Compressor.compress floats m.content p.maxChars).1 ++
        ofString (marker id (Compressor.compress floats m.content p.maxChars).2) := by
  have hstored := h.stored_eq
  rw [hreversible, hcuts] at hstored
  cases h with
  | skip | compress => cases hstored
  | store _ _ hput => exact ⟨_, _, hput, rfl⟩

theorem eligible_eq_false (h : m.role = "system" ∨ m.parts ≠ []) :
    eligible m = false := if_pos h.symm

/-- `Intercept` changes nothing but contents that it may touch, and what it cuts off a content can
be retrieved. -/
theorem intercept_reversible (p : Plugin) {req out : RawRequest} {t : Trace storeSig}
    (h : Runs (p.intercept floats req) t out) {held : String → Option Bytes}
    (hheld : Holds held t) :
    (out.messages.length = req.messages.length ∧
      ∀ i m, req.messages[i]? = some m → ∃ content,
        out.messages[i]? = some { m with content := content } ∧
        (m.role = "system" ∨ m.parts ≠ [] ∨ IsLastUser req.messages i → content = m.content) ∧
        (p.store = true → req.stream = false →
          p.cuts floats (lastUserMessageIndex req.messages = some i) m = true →
          ∃ text id omitted, content = text ++ ofString (marker id omitted) ∧
            held id = some m.content)) ∧
    (p.store = true → req.stream = false →
      ((∃ i m, req.messages[i]? = some m ∧
          p.cuts floats (lastUserMessageIndex req.messages = some i) m = true) →
        out.tools = req.tools ++ [tool]) ∧
      ((¬ ∃ i m, req.messages[i]? = some m ∧
          p.cuts floats (lastUserMessageIndex req.messages = some i) m = true) →
        out.tools = req.tools)) ∧
    (p.store = false ∨ req.stream = true → out.tools = req.tools) := by
  obtain ⟨hlen, hrounds, htools⟩ := intercept_rounds h
  refine ⟨⟨hlen, ?_⟩, ?_, ?_⟩
  · intro i m hm
    obtain ⟨m', stored, hm', hround⟩ := hrounds i m hm
    refine ⟨m'.content, ?_, ?_, ?_⟩
    · rw [hm', ← hround.eq_with]
    · intro hskip
      have heq : m' = m := by
        rcases hskip with hsystem | hparts | hlast
        · exact hround.eq_of_skip (Or.inr (eligible_eq_false (Or.inl hsystem)))
        · exact hround.eq_of_skip (Or.inr (eligible_eq_false (Or.inr hparts)))
        · exact hround.eq_of_skip (Or.inl (decide_eq_true hlast.lastUserMessageIndex_eq))
      rw [heq]
    · intro hstore hstream hcuts
      obtain ⟨id, err, hput, hcontent⟩ :=
        hround.exists_marker (by rw [hstore, hstream]; rfl) hcuts
      exact ⟨_, id, _, hcontent, hheld id _ _ err hput⟩
  · intro hstore hstream
    have hany := @cutsAny_iff F floats p 0 req.messages (lastUserMessageIndex req.messages)
    simp only [Nat.zero_add] at hany
    rw [hstore, hstream, Bool.not_false, Bool.and_self, Bool.true_and] at htools
    constructor
    · intro hcut
      rw [htools, if_pos (hany.mpr hcut)]
    · intro hcut
      rw [htools, if_neg fun h => hcut (hany.mp h)]
  · intro hplain
    rw [htools, if_neg]
    rcases hplain with hstore | hstream
    · simp [hstore]
    · simp [hstream]

end

def toolRequest (content : Bytes) : RawRequest := { messages := [{ role := "tool", content }] }

theorem runs_toolRequest {content text : Bytes} {p : Plugin} {omitted : Nat} (hne : content ≠ [])
    (hstore : p.store = true)
    (hcompress : compress wholeFloats content p.maxChars = (text, omitted + 1))
    (b : Fin 16 → UInt8) :
    Runs (p.intercept wholeFloats (toolRequest content))
      [⟨.random, b⟩, ⟨.backendPut ("ret_" ++ randomID b) content p.ttl, none⟩]
      { messages := [{ role := "tool",
                       content := text ++ ofString
                         (marker ("ret_" ++ randomID b) (omitted + 1)) }],
        tools := [tool] } := by
  have heligible : eligible { role := "tool", content } = true := by simp [eligible, hne]
  have hround : p.round wholeFloats true false { role := "tool", content } =
      put content p.ttl >>= fun id =>
        .ret ({ role := "tool", content := text ++ ofString (marker id (omitted + 1)) },
          true) := by
    simp [Plugin.round, heligible, hcompress]
  have hintercept : p.intercept wholeFloats (toolRequest content) =
      put content p.ttl >>= fun id =>
        .ret { messages := [{ role := "tool",
                              content := text ++ ofString (marker id (omitted + 1)) }],
               tools := [tool] } := by
    simp [Plugin.intercept, Plugin.interceptLoop, toolRequest, lastUserMessageIndex, hstore, hround,
      Prog.bind_assoc]
  rw [hintercept]
  exact .ask (.ask .ret)

/-- Three bytes are cut after the first one. -/
theorem toolRequest_reversible :
    ∃ (t : Trace storeSig) (out : RawRequest) (held : String → Option Bytes),
      Runs ((newReversible 1 0).intercept wholeFloats (toolRequest (ofString "abc"))) t out ∧
      Holds held t ∧
      (newReversible 1 0).cuts wholeFloats false { role := "tool", content := ofString "abc" } =
        true ∧
      (∃ m text id omitted, out.messages[0]? = some m ∧
        m.content = text ++ ofString (marker id omitted) ∧
        held id = some (ofString "abc")) ∧
      out.tools = [tool] := by
  have hcompress : compress wholeFloats (ofString "abc") 1 =
      (ofString "a\n... [truncated 2 chars]", 1 + 1) := by decide +kernel
  have hrun := runs_toolRequest (p := newReversible 1 0) (by decide +kernel) rfl hcompress
    fun _ => 0
  have hheld : Holds (fun _ => some (ofString "abc"))
      [⟨.random, fun _ => 0⟩,
        ⟨.backendPut ("ret_" ++ randomID fun _ => 0) (ofString "abc") 0, none⟩] := by
    intro id content ttl err hmem
    rcases mem_cons.mp hmem with heq | hmem
    · cases heq
    · cases mem_singleton.mp hmem
      rfl
  have hcuts : (newReversible 1 0).cuts wholeFloats false
      { role := "tool", content := ofString "abc" } = true := by decide +kernel
  obtain ⟨⟨-, hmessages⟩, htools, -⟩ := intercept_reversible (newReversible 1 0) hrun hheld
  obtain ⟨content, hcontent, -, hmarker⟩ := hmessages 0 _ rfl
  obtain ⟨text, id, omitted, htext, hid⟩ := hmarker rfl rfl hcuts
  refine ⟨_, _, _, hrun, hheld, hcuts, ⟨_, text, id, omitted, hcontent, htext, hid⟩, ?_⟩
  exact (htools rfl rfl).1 ⟨0, _, rfl, hcuts⟩

/-! ## Encoding the request again -/

section

variable {F : Type} {floats : Floats F}

theorem valid_append_marker_iff {text : Bytes} (id : String) (omitted : Nat) :
    Valid (text ++ ofString (marker id omitted)) ↔ Valid text := by
  obtain ⟨rest, hrest⟩ : ∃ rest, ofString (marker id omitted) = newline :: rest := by
    simp only [marker, Utf8.ofString_append, append_assoc]
    exact ⟨_, rfl⟩
  have hvalid := Utf8.valid_ofString (marker id omitted)
  rw [hrest] at hvalid ⊢
  exact valid_append_newline_iff hvalid

theorem Round.valid_iff {p : Plugin} {reversible live stored : Bool} {t : Trace storeSig}
    {m m' : RawMessage} (h : Round floats p reversible t live m m' stored)
    (hvalid : Valid m.content) :
    Valid m'.content ↔ live = true ∨ eligible m = false ∨
      ∀ b, (collapse floats m.content)[p.maxChars]? = some b → ¬ Continues b := by
  have hcompress : Valid (Compressor.compress floats m.content p.maxChars).1 ↔ _ :=
    valid_compress_iff hvalid p.maxChars
  cases h with
  | skip hskip =>
    refine iff_of_true hvalid ?_
    rcases hskip with hlive | heligible
    · exact Or.inl hlive
    · exact Or.inr (Or.inl heligible)
  | compress heligible _ =>
    rw [hcompress]
    simp [heligible]
  | store _ hcuts _ =>
    rw [valid_append_marker_iff, hcompress]
    simp [eligible_of_cuts hcuts]

/-- A content that is valid stays so, and is encoded as it is, exactly if it is not touched or not
cut inside a character. -/
theorem compressed_text (p : Plugin) :
    (∀ (content : Bytes) (maxChars : Nat), Valid content →
      (Valid (compress floats content maxChars).1 ↔
        ∀ b, (collapse floats content)[maxChars]? = some b → ¬ Continues b)) ∧
    ∀ (req out : RawRequest) (t : Trace storeSig), Runs (p.intercept floats req) t out →
      ∀ (i : Nat) (m m' : RawMessage), req.messages[i]? = some m → out.messages[i]? = some m' →
        Valid m.content →
        (ofString m'.written.content = m'.content ↔
          lastUserMessageIndex req.messages = some i ∨ eligible m = false ∨
            ∀ b, (collapse floats m.content)[p.maxChars]? = some b → ¬ Continues b) := by
  constructor
  · intro content maxChars hvalid
    exact valid_compress_iff hvalid maxChars
  · intro req out t hrun i m m' hm hm' hvalid
    obtain ⟨m₁, stored, hm₁, hround⟩ := (intercept_rounds hrun).2.1 i m hm
    rw [hm'] at hm₁
    cases hm₁
    rw [RawMessage.written, Utf8.ofString_ofList, Utf8.encode_decode_iff, hround.valid_iff hvalid,
      decide_eq_true_iff]

end

/-- Three ASCII bytes are cut after the first one. -/
theorem ascii_text_compressed :
    Valid (compress wholeFloats (ofString "abc") 1).1 ∧
      ∃ (t : Trace storeSig) (out : RawRequest) (m : RawMessage),
        Runs ((newReversible 1 0).intercept wholeFloats (toolRequest (ofString "abc"))) t out ∧
        out.messages[0]? = some m ∧ ofString m.written.content = m.content := by
  have hwhole : ∀ b, (collapse wholeFloats (ofString "abc"))[1]? = some b → ¬ Continues b := by
    have hbyte : (collapse wholeFloats (ofString "abc"))[1]? = some 98 := by decide +kernel
    intro b hb
    rw [hbyte] at hb
    cases hb
    decide
  have hvalid : Valid (ofString "abc") := Utf8.valid_ofString _
  have hcompress : compress wholeFloats (ofString "abc") 1 =
      (ofString "a\n... [truncated 2 chars]", 1 + 1) := by decide +kernel
  have hrun := runs_toolRequest (p := newReversible 1 0) (by decide +kernel) rfl hcompress
    fun _ => 0
  obtain ⟨htext, hrequest⟩ := @compressed_text ℚ wholeFloats (newReversible 1 0)
  refine ⟨(htext _ 1 hvalid).mpr hwhole, _, _, _, hrun, rfl, ?_⟩
  exact (hrequest _ _ _ hrun 0 _ _ rfl rfl hvalid).mpr (Or.inr (Or.inr hwhole))

/-- A character of two bytes is cut after the first one. -/
theorem character_split :
    Valid (ofString "é") ∧ ¬ Valid (compress wholeFloats (ofString "é") 1).1 := by
  decide +kernel

end Ixr.Compressor
