import IxrGateway.Adapters.GoogleAI
import IxrGateway.SchemaCodec

/-!
# When a Gemini request is well formed

Every content needs a part, every part needs to be of one kind, and the response
of a tool needs to be an object.  Three things can go wrong:

* the result of a tool is the text `null`, which decodes to no object;
* a multimodal message has no part that is passed on, which leaves a content
  without parts;
* a text is merged into a content whose first part is a call or an image.

Each message is one of four entries (`entry`), and the third mistake shows in the
entries of two messages that follow each other.  `gemini_well_formed_iff` says
that nothing else goes wrong.  The loop is followed by the contents it has made
so far, with those of the responses that wait (`Build.sent`).  A broken content
stays broken (`step_broken`).
-/

namespace Ixr.Adapters.GoogleAI

open GoStrings List Build
open JsonText (Floats)

/-! ## Well-formed requests -/

/-- How many kinds of data are set. -/
def GenPart.kinds (p : GenPart) : Nat :=
  (decide (p.text ≠ "")).toNat + p.functionCall.isSome.toNat + p.functionResponse.isSome.toNat +
    p.inlineData.isSome.toNat + p.fileData.isSome.toNat

/-- A response that is null. -/
def GenPart.HasNull (p : GenPart) : Prop := ∃ r, p.functionResponse = some r ∧ r.response = none

/-- A part of one kind.  A response is an object. -/
structure GenPart.Valid (p : GenPart) : Prop where
  kinds : p.kinds = 1
  response : ¬ p.HasNull

/-- There are parts, all valid. -/
def ValidParts (parts : List GenPart) : Prop := parts ≠ [] ∧ ∀ p ∈ parts, p.Valid

/-- Gemini takes the request. -/
structure GenWireRequest.Valid (r : GenWireRequest) : Prop where
  contents : ∀ c ∈ r.contents, ValidParts c.parts
  system : ∀ s, r.systemInstruction = some s → ValidParts s.parts

/-- A part that is of two kinds or has a null response. -/
def GenPart.Broken (p : GenPart) : Prop := 2 ≤ p.kinds ∨ p.HasNull

/-- A content without parts, or with a broken one. -/
def GenContent.Broken (c : GenContent) : Prop := c.parts = [] ∨ ∃ p ∈ c.parts, p.Broken

theorem GenContent.Broken.not_valid {c : GenContent} (h : c.Broken) : ¬ ValidParts c.parts := by
  rintro ⟨hne, hparts⟩
  rcases h with hempty | ⟨p, hp, htwo | hnull⟩
  · exact hne hempty
  · have := (hparts p hp).kinds
    omega
  · exact (hparts p hp).response hnull

theorem validParts_text {text : String} (h : text ≠ "") : ValidParts [{ text := text }] := by
  refine ⟨by simp, forall_mem_singleton.mpr ⟨?_, ?_⟩⟩
  · simp [GenPart.kinds, h]
  · rintro ⟨r, hr, -⟩
    cases hr

/-! ## Entries -/

/-- What a message adds to the contents. -/
inductive Entry where
  /-- Nothing. -/
  | silent
  /-- The response of a tool. -/
  | result
  /-- Text that joins the content before it if that has the same role. -/
  | text (role : String)
  /-- A content of its own, which starts with text or not. -/
  | content (role : String) (textFirst : Bool)
deriving Repr, DecidableEq

/-- The first part is a text. -/
def startsWithText : List GenPart → Bool
  | [] => false
  | p :: _ => decide (p.text ≠ "")

/-- What the message becomes. -/
def entry (m : Message) : Entry :=
  if m.role = "tool" then .result
  else if m.role = "system" then .silent
  else if m.role = "assistant" ∧ m.toolCalls ≠ [] then
    .content "model" (decide (trimSpace m.content ≠ ""))
  else if m.role = "user" ∧ m.parts ≠ [] then .content "user" (startsWithText (toGenParts m))
  else if trimSpace m.content = "" then .silent
  else .text (if m.role = "assistant" then "model" else "user")

/-- The second entry is no text that would join a content that does not start with text. -/
def Entry.Allows (e e' : Entry) : Prop := ∀ role, e' = .text role → e ≠ .content role false

/-- A tool result is not `null`, and something is left of a multimodal message. -/
structure Sendable (m : Message) : Prop where
  result : m.role = "tool" → JsonText.parse m.content.toList ≠ some .null
  parts : m.role = "user" → m.parts ≠ [] → toGenParts m ≠ []

/-! ## One step of the loop -/

section

variable (unmarshal : UnmarshalObject)

/-- The contents if it ended here. -/
def Build.sent (b : Build) : List GenContent := b.flushResponses.contents

variable {b b' : Build} {c : GenContent} {m : Message} {role text : String} {p : GenPart}
  {ms : List Message}

theorem Build.sent_of_nil (h : b.pendingResponses = []) : b.sent = b.contents := by
  rw [sent, flushResponses, if_pos h]

theorem Build.flushResponses_pending (b : Build) : b.flushResponses.pendingResponses = [] := by
  unfold flushResponses
  split
  · assumption
  · rfl

@[simp] theorem Build.sent_flushResponses (b : Build) : b.flushResponses.sent = b.sent :=
  b.flushResponses.sent_of_nil b.flushResponses_pending

theorem Build.mem_sent :
    c ∈ b.sent ↔ c ∈ b.contents ∨
      (b.pendingResponses ≠ [] ∧ c = { role := "function", parts := b.pendingResponses }) := by
  unfold sent flushResponses
  split
  · next h => simp [h]
  · next h => simp [h]

/-- The part of a tool message. -/
def resultPart (unmarshal : UnmarshalObject) (b : Build) (m : Message) : GenPart :=
  { functionResponse := some
      { name := if m.name = "" then (b.callIDToName.lookup m.toolCallID).getD "" else m.name
        response := toResponseObject unmarshal m.content } }

theorem sent_addResponse (b : Build) (m : Message) :
    (b.addResponse unmarshal m).sent =
      b.contents ++
        [{ role := "function", parts := b.pendingResponses ++ [resultPart unmarshal b m] }] := by
  rw [Build.sent, Build.flushResponses, if_neg]
  · rfl
  · exact append_ne_nil_of_right_ne_nil _ (cons_ne_nil _ _)

/-- A message without a content of its own, unless its text makes one. -/
structure Plain (m : Message) : Prop where
  tool : m.role ≠ "tool"
  system : m.role ≠ "system"
  calls : ¬ (m.role = "assistant" ∧ m.toolCalls ≠ [])
  parts : ¬ (m.role = "user" ∧ m.parts ≠ [])

theorem Plain.sendable (h : Plain m) : Sendable m :=
  ⟨fun hrole => absurd hrole h.tool, fun hrole hne => absurd ⟨hrole, hne⟩ h.parts⟩

/-- What an entry says of its message. -/
def Entry.Of (m : Message) : Entry → Prop
  | .result => m.role = "tool"
  | .silent => m.role = "system" ∨ Plain m ∧ trimSpace m.content = ""
  | .content role textFirst =>
    (m.role = "assistant" ∧ m.toolCalls ≠ [] ∧ role = "model" ∧
      textFirst = decide (trimSpace m.content ≠ "")) ∨
    (m.role = "user" ∧ m.parts ≠ [] ∧ role = "user" ∧
      textFirst = startsWithText (toGenParts m))
  | .text role =>
    Plain m ∧ trimSpace m.content ≠ "" ∧ role = if m.role = "assistant" then "model" else "user"

theorem of_entry {e : Entry} (h : entry m = e) : e.Of m := by
  subst h
  unfold entry
  split
  · assumption
  · split
    · exact .inl ‹_›
    · split
      · next h => exact .inl ⟨h.1, h.2, rfl, rfl⟩
      · split
        · next h => exact .inr ⟨h.1, h.2, rfl, rfl⟩
        · split
          · exact .inr ⟨⟨‹_›, ‹_›, ‹_›, ‹_›⟩, ‹_›⟩
          · exact ⟨⟨‹_›, ‹_›, ‹_›, ‹_›⟩, ‹_›, rfl⟩

theorem step_result (h : entry m = .result) :
    b.step unmarshal m = some (b.addResponse unmarshal m) :=
  if_pos (of_entry h)

theorem step_plain (b : Build) (h : Plain m) :
    b.step unmarshal m =
      b.flushResponses.appendOrMerge (if m.role = "assistant" then "assistant" else "user")
        m.content := by
  unfold Build.step
  by_cases hassistant : m.role = "assistant"
  · have hnone : m.toolCalls = [] := by simpa [hassistant] using h.calls
    simp [hassistant, hnone]
  · simp [h.tool, h.system, hassistant, h.parts]

/-- The role that Gemini knows. -/
def genRole (role : String) : String := if role = "assistant" then "model" else role

theorem appendOrMerge_other (htext : trimSpace text ≠ "")
    (h : ∀ last, b.contents.getLast? = some last → last.role ≠ genRole role) :
    b.appendOrMerge role text =
      some { b with contents := b.contents ++
        [{ role := genRole role, parts := [{ text := trimSpace text }] }] } := by
  rw [Build.appendOrMerge, if_neg htext]
  cases hlast : b.contents.getLast? with
  | none =>
    rw [getLast?_eq_none_iff.mp hlast]
    rfl
  | some last => exact if_neg (h last hlast)

theorem appendOrMerge_same {before : List GenContent} {last : GenContent}
    (htext : trimSpace text ≠ "") (h : b.contents = before ++ [last])
    (hrole : last.role = genRole role) :
    b.appendOrMerge role text =
      match last.parts with
      | [] => none
      | p :: ps =>
        some { b with contents := before ++ [{ last with parts :=
          { p with text := trimSpace (p.text ++ "\n" ++ trimSpace text) } :: ps }] } := by
  have hlast : b.contents.getLast? = some last := by rw [h, getLast?_concat]
  have hfront : b.contents.dropLast = before := by rw [h, dropLast_concat]
  rw [Build.appendOrMerge, if_neg htext]
  simp only [hlast, hfront]
  exact if_pos hrole

theorem step_silent (b : Build) (h : entry m = .silent) :
    ∃ b', b.step unmarshal m = some b' ∧ b'.sent = b.sent := by
  rcases of_entry h with hsystem | ⟨hplain, hblank⟩
  · by_cases hblank : trimSpace m.content = ""
    · exact ⟨b.flushResponses, by simp [Build.step, hsystem, hblank], b.sent_flushResponses⟩
    · exact ⟨{ b.flushResponses with
          systemChunks := b.flushResponses.systemChunks ++ [trimSpace m.content] },
        by simp [Build.step, hsystem, hblank], Build.sent_of_nil b.flushResponses_pending⟩
  · refine ⟨b.flushResponses, ?_, b.sent_flushResponses⟩
    rw [step_plain unmarshal b hplain, Build.appendOrMerge, hblank]
    simp

/-- The text and calls of an assistant. -/
def callParts (unmarshal : UnmarshalObject) (m : Message) : List GenPart :=
  (if trimSpace m.content = "" then [] else [{ text := m.content }]) ++
    m.toolCalls.map fun tc =>
      { functionCall := some
          { name := tc.function.name, args := (unmarshal tc.function.arguments).1 } }

theorem ne_empty_of_trimSpace {s : String} (h : trimSpace s ≠ "") : s ≠ "" := by
  rintro rfl
  exact h (by decide)

theorem valid_of_text (h : trimSpace text ≠ "") : GenPart.Valid { text := text } :=
  (validParts_text (ne_empty_of_trimSpace h)).2 _ mem_cons_self

theorem callParts_valid (h : m.toolCalls ≠ []) : ValidParts (callParts unmarshal m) := by
  refine ⟨append_ne_nil_of_right_ne_nil _ (by simpa using h), fun p hp => ?_⟩
  rcases mem_append.mp hp with hp | hp
  · split at hp
    · cases hp
    · next hblank =>
      rw [mem_singleton.mp hp]
      exact valid_of_text hblank
  · obtain ⟨tc, -, rfl⟩ := mem_map.mp hp
    refine ⟨rfl, ?_⟩
    rintro ⟨r, hr, -⟩
    cases hr

theorem startsWithText_callParts (h : m.toolCalls ≠ []) :
    startsWithText (callParts unmarshal m) = decide (trimSpace m.content ≠ "") := by
  obtain ⟨tc, calls, hcalls⟩ := exists_cons_of_ne_nil h
  by_cases hblank : trimSpace m.content = ""
  · simp [callParts, hblank, hcalls, startsWithText]
  · simp [callParts, hblank, startsWithText, ne_empty_of_trimSpace hblank]

theorem toGenPart_valid {p : ContentPart} {part : GenPart} (h : toGenPart p = some part) :
    part.Valid := by
  unfold toGenPart at h
  split at h
  · split at h
    · cases h
    · next hblank =>
      cases h
      exact valid_of_text hblank
  · split at h
    · obtain ⟨image, -, rfl⟩ := Option.map_eq_some_iff.mp h
      unfold toImagePart
      split <;> exact ⟨rfl, by rintro ⟨r, hr, -⟩; cases hr⟩
    · cases h

theorem toGenParts_valid (m : Message) : ∀ p ∈ toGenParts m, p.Valid := by
  intro part hpart
  obtain ⟨p, -, hp⟩ := mem_filterMap.mp hpart
  exact toGenPart_valid hp

theorem step_content (b : Build) {textFirst : Bool} (h : entry m = .content role textFirst) :
    ∃ b' parts, b.step unmarshal m = some b' ∧
      b'.sent = b.sent ++ [{ role := role, parts := parts }] ∧
      startsWithText parts = textFirst ∧ (Sendable m → ValidParts parts) ∧
      (¬ Sendable m → parts = []) := by
  rcases of_entry h with ⟨hrole, hcalls, rfl, rfl⟩ | ⟨hrole, hparts, rfl, rfl⟩
  · refine ⟨b.flushResponses.addCalls unmarshal m, callParts unmarshal m,
      by simp [Build.step, hrole, hcalls], Build.sent_of_nil b.flushResponses_pending,
      startsWithText_callParts unmarshal hcalls, fun _ => callParts_valid unmarshal hcalls,
      fun hbad => ?_⟩
    exact absurd ⟨by simp [hrole], by simp [hrole]⟩ hbad
  · refine ⟨{ b.flushResponses with
        contents := b.flushResponses.contents ++ [{ role := "user", parts := toGenParts m }] },
      toGenParts m, by simp [Build.step, hrole, hparts],
      Build.sent_of_nil b.flushResponses_pending, rfl,
      fun hok => ⟨hok.parts hrole hparts, toGenParts_valid m⟩, fun hbad => ?_⟩
    by_contra hne
    exact hbad ⟨by simp [hrole], fun _ _ => hne⟩

theorem step_text (b : Build) (h : entry m = .text role) :
    ∃ text, (∃ c ∈ text.toList, isSpace c = false) ∧
      (((∀ last, b.sent.getLast? = some last → last.role ≠ role) ∧
          ∃ b', b.step unmarshal m = some b' ∧
            b'.sent = b.sent ++ [{ role := role, parts := [{ text := text }] }]) ∨
        ∃ before last, b.sent = before ++ [last] ∧ last.role = role ∧
          ((last.parts = [] ∧ b.step unmarshal m = none) ∨
            ∃ p ps b', last.parts = p :: ps ∧ b.step unmarshal m = some b' ∧
              b'.sent = before ++ [{ last with parts :=
                { p with text := trimSpace (p.text ++ "\n" ++ text) } :: ps }])) := by
  obtain ⟨hplain, hblank, he⟩ := of_entry h
  have hrole : role = genRole (if m.role = "assistant" then "assistant" else "user") := by
    by_cases hassistant : m.role = "assistant" <;> simp [he, genRole, hassistant]
  have hstep := step_plain unmarshal b hplain
  refine ⟨trimSpace m.content, exists_mem_trimSpace hblank, ?_⟩
  by_cases hother : ∀ last, b.sent.getLast? = some last → last.role ≠ role
  · rw [hrole] at hother ⊢
    exact .inl ⟨hother, _, hstep.trans (appendOrMerge_other hblank hother),
      Build.sent_of_nil b.flushResponses_pending⟩
  · obtain ⟨last, hlast, hlastRole⟩ : ∃ last, b.sent.getLast? = some last ∧ last.role = role := by
      simpa using hother
    obtain ⟨before, hbefore⟩ := getLast?_eq_some_iff.mp hlast
    have hmerge := appendOrMerge_same hblank hbefore (hlastRole.trans hrole)
    refine .inr ⟨before, last, hbefore, hlastRole, ?_⟩
    cases hlastParts : last.parts with
    | nil =>
      rw [hlastParts] at hmerge
      exact .inl ⟨rfl, hstep.trans hmerge⟩
    | cons p ps =>
      rw [hlastParts] at hmerge
      exact .inr ⟨p, ps, _, rfl, hstep.trans hmerge, Build.sent_of_nil b.flushResponses_pending⟩

/-! ## Good and broken contents -/

/-- Every content so far can be sent. -/
def Build.Good (b : Build) : Prop := ∀ c ∈ b.sent, ValidParts c.parts

/-- Some content cannot be sent, whatever follows. -/
def Build.Broken (b : Build) : Prop := ∃ c ∈ b.sent, c.Broken

theorem kinds_with_text (p : GenPart) (h : text ≠ "") :
    ({ p with text := text } : GenPart).kinds + (decide (p.text ≠ "")).toNat = p.kinds + 1 := by
  have htext : (decide (text ≠ "")).toNat = 1 := by rw [decide_eq_true h, Bool.toNat_true]
  dsimp only [GenPart.kinds]
  omega

theorem GenPart.Broken.with_text (h : p.Broken) (htext : text ≠ "") :
    ({ p with text := text } : GenPart).Broken := by
  rcases h with htwo | hnull
  · have hkinds := kinds_with_text p htext
    have hone : (decide (p.text ≠ "")).toNat ≤ 1 := Bool.toNat_le _
    exact .inl (by omega)
  · exact .inr hnull

theorem GenContent.Broken.with_text (h : c.Broken) {ps : List GenPart}
    (hparts : c.parts = p :: ps) (htext : text ≠ "") :
    ({ c with parts := { p with text := text } :: ps } : GenContent).Broken := by
  rcases h with hnil | ⟨q, hq, hbroken⟩
  · rw [hparts] at hnil
    cases hnil
  · rw [hparts] at hq
    rcases mem_cons.mp hq with rfl | hq
    · exact .inr ⟨_, mem_cons_self, hbroken.with_text htext⟩
    · exact .inr ⟨q, mem_cons_of_mem _ hq, hbroken⟩

theorem merged_ne_empty (front : String) (h : ∃ c ∈ text.toList, isSpace c = false) :
    trimSpace (front ++ "\n" ++ text) ≠ "" := by
  obtain ⟨c, hc, hspace⟩ := h
  exact trimSpace_ne_empty (by simp [hc]) hspace

theorem step_broken (h : b.Broken) (hstep : b.step unmarshal m = some b') :
    b'.Broken := by
  obtain ⟨c, hc, hbroken⟩ := h
  cases he : entry m with
  | silent =>
    obtain ⟨b'', hb'', hsent⟩ := step_silent unmarshal b he
    rw [hstep] at hb''
    cases hb''
    exact ⟨c, hsent ▸ hc, hbroken⟩
  | result =>
    rw [step_result unmarshal he] at hstep
    cases hstep
    rw [Build.Broken, sent_addResponse unmarshal]
    rcases mem_sent.mp hc with hc | ⟨hne, rfl⟩
    · exact ⟨c, mem_append_left _ hc, hbroken⟩
    · -- a broken response is still among those that wait
      rcases hbroken with hnil | ⟨p, hp, hp'⟩
      · exact absurd hnil hne
      · exact ⟨_, mem_append_right _ mem_cons_self,
          .inr ⟨p, mem_append_left _ hp, hp'⟩⟩
  | content role textFirst =>
    obtain ⟨b'', parts, hb'', hsent, -⟩ := step_content unmarshal b he
    rw [hstep] at hb''
    cases hb''
    exact ⟨c, hsent ▸ mem_append_left _ hc, hbroken⟩
  | text role =>
    obtain ⟨text, htext, ⟨-, b'', hb'', hsent⟩ | ⟨before, last, hbefore, -, hlast⟩⟩ :=
      step_text unmarshal b he
    · rw [hstep] at hb''
      cases hb''
      exact ⟨c, hsent ▸ mem_append_left _ hc, hbroken⟩
    · rcases hlast with ⟨-, hnone⟩ | ⟨p, ps, b'', hparts, hb'', hsent⟩
      · rw [hnone] at hstep
        cases hstep
      · rw [hstep] at hb''
        cases hb''
        rw [hbefore] at hc
        rw [Build.Broken, hsent]
        rcases mem_append.mp hc with hc | hc
        · exact ⟨c, mem_append_left _ hc, hbroken⟩
        · obtain rfl := mem_singleton.mp hc
          exact ⟨_, mem_append_right _ mem_cons_self,
            hbroken.with_text hparts (merged_ne_empty _ htext)⟩

/-! ## Reading out of range -/

/-- Whether the last content is one of the user without parts, once a message is added.  It is out
of range to add a text of the user to such a content. -/
def blankAfter (blank : Bool) (m : Message) : Option Bool :=
  match entry m with
  | .silent => some blank
  | .result => some false
  | .content role _ => some (decide (role = "user" ∧ toGenParts m = []))
  | .text role => if blank = true ∧ role = "user" then none else some false

/-- A text of the user comes right after a multimodal message of which nothing is left. -/
def OutOfRange (ms : List Message) : Prop := ms.foldlM blankAfter false = none

instance (ms : List Message) : Decidable (OutOfRange ms) :=
  inferInstanceAs (Decidable (_ = none))

/-- What is known of the last content. -/
def Build.Ends (b : Build) : Bool → Prop
  | true => ∃ c, b.sent.getLast? = some c ∧ c.role = "user" ∧ c.parts = []
  | false => ∀ c, b.sent.getLast? = some c → c.parts ≠ []

theorem Build.ends_concat {before : List GenContent} (h : b.sent = before ++ [c])
    (hparts : c.parts ≠ []) : b.Ends false := by
  rintro c' hc'
  rw [h, getLast?_concat] at hc'
  cases hc'
  exact hparts

theorem content_sendable_iff {textFirst : Bool} (h : entry m = .content role textFirst) :
    Sendable m ↔ ¬ (role = "user" ∧ toGenParts m = []) := by
  rcases of_entry h with ⟨hrole, -, rfl, -⟩ | ⟨hrole, hparts, rfl, -⟩
  · exact iff_of_true ⟨by simp [hrole], by simp [hrole]⟩ (by simp)
  · exact ⟨fun hsendable hnil => hsendable.parts hrole hparts hnil.2,
      fun hleft => ⟨by simp [hrole], fun _ _ hnil => hleft ⟨rfl, hnil⟩⟩⟩

/-- A step fails, or says what the last content is, as the scan has it. -/
theorem step_ends {blank : Bool} (h : b.Ends blank) :
    (blankAfter blank m = none ∧ b.step unmarshal m = none) ∨
      ∃ blank' b', blankAfter blank m = some blank' ∧ b.step unmarshal m = some b' ∧
        b'.Ends blank' := by
  rw [blankAfter]
  cases he : entry m with
  | silent =>
    obtain ⟨b', hb', hsent⟩ := step_silent unmarshal b he
    refine .inr ⟨blank, b', rfl, hb', ?_⟩
    cases blank with
    | false | true => rwa [Build.Ends, hsent]
  | result =>
    refine .inr ⟨false, _, rfl, step_result unmarshal he, ?_⟩
    exact Build.ends_concat (sent_addResponse unmarshal b m) (by simp)
  | content role textFirst =>
    obtain ⟨b', parts, hb', hsent, -, hvalid, hnil⟩ := step_content unmarshal b he
    refine .inr ⟨_, b', rfl, hb', ?_⟩
    by_cases hleft : role = "user" ∧ toGenParts m = []
    · rw [decide_eq_true hleft]
      refine ⟨_, by rw [hsent, getLast?_concat], hleft.1, hnil ?_⟩
      rwa [content_sendable_iff he, not_not]
    · rw [decide_eq_false hleft]
      exact Build.ends_concat hsent (hvalid ((content_sendable_iff he).mpr hleft)).1
  | text role =>
    obtain ⟨text, -, ⟨hother, b', hb', hsent⟩ | ⟨before, last, hbefore, hrole, hmerge⟩⟩ :=
      step_text unmarshal b he
    · refine .inr ⟨false, b', if_neg ?_, hb', Build.ends_concat hsent (cons_ne_nil _ _)⟩
      rintro ⟨rfl, rfl⟩
      obtain ⟨c, hc, huser, -⟩ := h
      exact hother c hc huser
    · have hlast : b.sent.getLast? = some last := by rw [hbefore, getLast?_concat]
      cases blank with
      | true =>
        obtain ⟨c, hc, huser, hnil⟩ := h
        obtain rfl : last = c := Option.some.inj (hlast.symm.trans hc)
        obtain ⟨-, hnone⟩ | ⟨p, ps, _, hparts, -⟩ := hmerge
        · exact .inl ⟨if_pos ⟨rfl, hrole.symm.trans huser⟩, hnone⟩
        · rw [hnil] at hparts
          cases hparts
      | false =>
        obtain ⟨hnil, -⟩ | ⟨p, ps, b', -, hb', hsent⟩ := hmerge
        · exact absurd hnil (h last hlast)
        · exact .inr ⟨false, b', if_neg (by simp), hb',
            Build.ends_concat hsent (cons_ne_nil _ _)⟩

theorem foldlM_eq_none_iff {blank : Bool} (h : b.Ends blank) :
    ms.foldlM (Build.step unmarshal) b = none ↔ ms.foldlM blankAfter blank = none := by
  induction ms generalizing b blank with
  | nil => simp
  | cons m ms ih =>
    rw [foldlM_cons, foldlM_cons]
    obtain ⟨hnone, hstep⟩ | ⟨blank', b', hsome, hstep, hends⟩ := step_ends (m := m) unmarshal h
    · rw [hnone, hstep]
      exact iff_of_true rfl rfl
    · rw [hsome, hstep]
      exact ih hends

/-- A request is not built exactly if its messages lead out of range. -/
theorem toGenWireRequest_eq_none_iff (req : RequestEnvelope) :
    toGenWireRequest unmarshal req = none ↔ OutOfRange req.messages := by
  rw [toGenWireRequest, Option.map_eq_none_iff]
  exact foldlM_eq_none_iff unmarshal fun c hc => by simp [Build.sent, Build.flushResponses] at hc

/-! ## The loop -/

variable (floats : Floats ℚ)

/-- The entry is that of the last content. -/
def Entry.Describes : Entry → GenContent → Prop
  | .silent, _ => False
  | .result, c => c.role = "function"
  | .text role, c => c.role = role ∧ startsWithText c.parts = true
  | .content role textFirst, c => c.role = role ∧ startsWithText c.parts = textFirst

/-- The last content is as described. -/
def Build.Last (b : Build) (e : Option Entry) : Prop := Option.Rel Entry.Describes e b.sent.getLast?

theorem parse_null_iff :
    toResponseObject (unmarshalMap floats) text = none ↔
      JsonText.parse text.toList = some .null := by
  unfold toResponseObject unmarshalMap
  cases hparse : JsonText.parse text.toList with
  | none => simp
  | some v =>
    cases v with
    | null => simp
    | object fields => cases h : (toAnyFields floats fields []).isSome <;> simp [h]
    | bool | number | string | array => simp

theorem resultPart_valid_iff :
    (resultPart (unmarshalMap floats) b m).Valid ↔
      JsonText.parse m.content.toList ≠ some .null := by
  rw [ne_eq, ← parse_null_iff floats]
  constructor
  · intro h hnull
    exact h.response ⟨_, rfl, hnull⟩
  · intro h
    refine ⟨rfl, ?_⟩
    rintro ⟨r, hr, hnull⟩
    cases hr
    exact h hnull

theorem good_addResponse (hgood : b.Good) (h : (resultPart (unmarshalMap floats) b m).Valid) :
    (b.addResponse (unmarshalMap floats) m).Good := by
  rw [Build.Good, sent_addResponse]
  have hcontents : ∀ c ∈ b.contents, ValidParts c.parts :=
    fun c hc => hgood c (mem_sent.mpr (.inl hc))
  have hpending : ∀ p ∈ b.pendingResponses, p.Valid := by
    intro p hp
    have hsent := hgood _ (mem_sent.mpr (.inr ⟨ne_nil_of_mem hp, rfl⟩))
    exact hsent.2 p hp
  refine forall_mem_append.mpr ⟨hcontents, forall_mem_singleton.mpr ⟨?_, ?_⟩⟩
  · exact append_ne_nil_of_right_ne_nil _ (cons_ne_nil _ _)
  · exact forall_mem_append.mpr ⟨hpending, forall_mem_singleton.mpr h⟩

theorem role_of_entry_text (h : entry m = .text role) : role ≠ "function" := by
  obtain ⟨-, -, rfl⟩ := of_entry h
  split <;> decide

theorem startsWithText_of_allows {e : Entry} (hdescribes : e.Describes c) (hrole : c.role = role)
    (hfunction : role ≠ "function") (hallows : e.Allows (.text role)) :
    startsWithText c.parts = true := by
  cases e with
  | silent => exact hdescribes.elim
  | result => exact absurd (hrole.symm.trans hdescribes) hfunction
  | text role' => exact hdescribes.2
  | content role' textFirst =>
    obtain ⟨hrole', hstarts⟩ := hdescribes
    rw [hstarts]
    by_contra hfalse
    refine hallows role rfl ?_
    rw [← hrole, hrole', Bool.eq_false_of_not_eq_true hfalse]

theorem valid_with_text (h : p.Valid) (hp : p.text ≠ "") (htext : text ≠ "") :
    GenPart.Valid { p with text := text } := by
  refine ⟨?_, h.response⟩
  have hkinds := kinds_with_text p htext
  rw [decide_eq_true hp, h.kinds, Bool.toNat_true] at hkinds
  omega

theorem validParts_with_text {ps : List GenPart} (h : ValidParts (p :: ps))
    (hstarts : startsWithText (p :: ps) = true) (htext : text ≠ "") :
    ValidParts ({ p with text := text } :: ps) := by
  obtain ⟨hp, hps⟩ := forall_mem_cons.mp h.2
  exact ⟨cons_ne_nil _ _, forall_mem_cons.mpr
    ⟨valid_with_text hp (of_decide_eq_true hstarts) htext, hps⟩⟩

/-- The last entry after a message. -/
def nextEntry (e : Option Entry) (m : Message) : Option Entry :=
  if entry m = .silent then e else some (entry m)

theorem sendable_of_silent (h : entry m = .silent) : Sendable m := by
  rcases of_entry h with hrole | ⟨hplain, -⟩
  · exact ⟨by simp [hrole], by simp [hrole]⟩
  · exact hplain.sendable

theorem step_good {e : Option Entry} (hgood : b.Good) (hlast : b.Last e) (hsendable : Sendable m)
    (hallows : ∀ e' ∈ e, e'.Allows (entry m)) :
    ∃ b', b.step (unmarshalMap floats) m = some b' ∧ b'.Good ∧ b'.Last (nextEntry e m) := by
  rw [nextEntry]
  cases he : entry m with
  | silent =>
    obtain ⟨b', hb', hsent⟩ := step_silent (unmarshalMap floats) b he
    rw [if_pos rfl]
    exact ⟨b', hb', by rwa [Build.Good, hsent], by rwa [Build.Last, hsent]⟩
  | result =>
    have htool : m.role = "tool" := of_entry he
    refine ⟨b.addResponse (unmarshalMap floats) m, step_result (unmarshalMap floats) he, ?_, ?_⟩
    · exact good_addResponse floats hgood
        ((resultPart_valid_iff floats).mpr (hsendable.result htool))
    · rw [if_neg (by simp), Build.Last, sent_addResponse (unmarshalMap floats), getLast?_concat]
      exact .some rfl
  | content role textFirst =>
    obtain ⟨b', parts, hb', hsent, hstarts, hvalid, -⟩ := step_content (unmarshalMap floats) b he
    refine ⟨b', hb', ?_, ?_⟩
    · rw [Build.Good, hsent]
      exact forall_mem_append.mpr ⟨hgood, forall_mem_singleton.mpr (hvalid hsendable)⟩
    · rw [if_neg (by simp), Build.Last, hsent, getLast?_concat]
      exact .some ⟨rfl, hstarts⟩
  | text role =>
    rw [if_neg (by simp)]
    obtain ⟨text, htext, ⟨-, b', hb', hsent⟩ | ⟨before, last, hbefore, hrole, hmerge⟩⟩ :=
      step_text (unmarshalMap floats) b he
    · have hne : text ≠ "" := by
        obtain ⟨c, hc, -⟩ := htext
        rintro rfl
        cases hc
      refine ⟨b', hb', ?_, ?_⟩
      · rw [Build.Good, hsent]
        exact forall_mem_append.mpr
          ⟨hgood, forall_mem_singleton.mpr (validParts_text hne)⟩
      · rw [Build.Last, hsent, getLast?_concat]
        exact .some ⟨rfl, decide_eq_true hne⟩
    · have hstarts : startsWithText last.parts = true := by
        rw [Build.Last, hbefore, getLast?_concat] at hlast
        cases hlast with
        | @some e' _ hdescribes =>
          rw [he] at hallows
          exact startsWithText_of_allows hdescribes hrole (role_of_entry_text he)
            (hallows e' rfl)
      rcases hmerge with ⟨hnil, -⟩ | ⟨p, ps, b', hparts, hb', hsent⟩
      · rw [hnil] at hstarts
        cases hstarts
      · have hmerged := merged_ne_empty p.text htext
        have hgoodLast : ValidParts last.parts :=
          hgood last (hbefore ▸ mem_append_right _ mem_cons_self)
        rw [hparts] at hstarts hgoodLast
        refine ⟨b', hb', ?_, ?_⟩
        · rw [Build.Good, hsent]
          refine forall_mem_append.mpr ⟨fun c hc => ?_, forall_mem_singleton.mpr ?_⟩
          · exact hgood c (hbefore ▸ mem_append_left _ hc)
          · exact validParts_with_text hgoodLast hstarts hmerged
        · rw [Build.Last, hsent, getLast?_concat]
          exact .some ⟨hrole, decide_eq_true hmerged⟩

theorem broken_of_not_sendable (h : ¬ Sendable m)
    (hstep : b.step (unmarshalMap floats) m = some b') : b'.Broken := by
  cases he : entry m with
  | silent => exact absurd (sendable_of_silent he) h
  | text role => exact absurd (of_entry he).1.sendable h
  | result =>
    have htool : m.role = "tool" := of_entry he
    have hnull : JsonText.parse m.content.toList = some .null := by
      by_contra hne
      exact h ⟨fun _ => hne, by simp [htool]⟩
    rw [step_result (unmarshalMap floats) he] at hstep
    cases hstep
    rw [Build.Broken, sent_addResponse (unmarshalMap floats)]
    refine ⟨_, mem_append_right _ mem_cons_self,
      .inr ⟨resultPart (unmarshalMap floats) b m, ?_, .inr ?_⟩⟩
    · exact mem_append_right _ mem_cons_self
    · exact ⟨_, rfl, (parse_null_iff floats).mpr hnull⟩
  | content role textFirst =>
    obtain ⟨b'', parts, hb'', hsent, -, -, hnil⟩ := step_content (unmarshalMap floats) b he
    rw [hstep] at hb''
    cases hb''
    rw [Build.Broken, hsent]
    exact ⟨_, mem_append_right _ mem_cons_self, .inl (hnil h)⟩

theorem broken_of_not_allows {e : Entry} (hgood : b.Good) (hlast : b.Last (some e))
    (h : ¬ e.Allows (entry m)) (hstep : b.step (unmarshalMap floats) m = some b') : b'.Broken := by
  obtain ⟨role, he, rfl⟩ : ∃ role, entry m = .text role ∧ e = .content role false := by
    simpa [Entry.Allows] using h
  obtain ⟨last, hmem, hrole, hstarts⟩ : ∃ last, b.sent.getLast? = some last ∧ last.role = role ∧
      startsWithText last.parts = false := by
    rw [Build.Last] at hlast
    generalize b.sent.getLast? = o at hlast
    cases hlast with
    | @some _ last hdescribes => exact ⟨last, rfl, hdescribes⟩
  obtain ⟨text, htext, ⟨hother, -⟩ | ⟨before, last', hbefore, -, hmerge⟩⟩ :=
    step_text (unmarshalMap floats) b he
  · exact absurd hrole (hother last hmem)
  · obtain rfl : last' = last := by
      rw [hbefore, getLast?_concat] at hmem
      exact Option.some.inj hmem
    rcases hmerge with ⟨-, hnone⟩ | ⟨p, ps, b'', hparts, hb'', hsent⟩
    · rw [hnone] at hstep
      cases hstep
    · rw [hstep] at hb''
      cases hb''
      have hgoodLast : ValidParts last'.parts :=
        hgood last' (hbefore ▸ mem_append_right _ mem_cons_self)
      rw [hparts] at hstarts hgoodLast
      have hkinds := kinds_with_text p (merged_ne_empty p.text htext)
      rw [show decide (p.text ≠ "") = false from hstarts, Bool.toNat_false,
        (hgoodLast.2 p mem_cons_self).kinds] at hkinds
      rw [Build.Broken, hsent]
      refine ⟨_, mem_append_right _ mem_cons_self, .inr ⟨_, mem_cons_self, .inl ?_⟩⟩
      omega

/-! ## The whole run -/

theorem foldlM_keeps {P : Build → Prop}
    (hkeeps : ∀ {b b' : Build} {m}, P b → b.step (unmarshalMap floats) m = some b' → P b') (h : P b)
    (hrun : ms.foldlM (Build.step (unmarshalMap floats)) b = some b') : P b' := by
  induction ms generalizing b with
  | nil =>
    cases hrun
    exact h
  | cons m ms ih =>
    rw [foldlM_cons] at hrun
    obtain ⟨b'', hstep, hrun⟩ := Option.bind_eq_some_iff.mp hrun
    exact ih (hkeeps h hstep) hrun

theorem Build.Broken.not_good (h : b.Broken) : ¬ b.Good := by
  intro hgood
  obtain ⟨c, hc, hbroken⟩ := h
  exact hbroken.not_valid (hgood c hc)

/-- The entries that are sent. -/
def entries (ms : List Message) : List Entry := (ms.map entry).filter (· ≠ .silent)

theorem isChain_entries_cons (e : Option Entry) (m : Message) (ms : List Message) :
    (e.toList ++ entries (m :: ms)).IsChain Entry.Allows ↔
      (∀ e' ∈ e, e'.Allows (entry m)) ∧
        ((nextEntry e m).toList ++ entries ms).IsChain Entry.Allows := by
  by_cases hsilent : entry m = .silent
  · have hallows : ∀ e' ∈ e, e'.Allows (entry m) := by simp [Entry.Allows, hsilent]
    simp [entries, nextEntry, hsilent, Entry.Allows]
  · cases e with
    | none | some => simp [entries, nextEntry, hsilent]

theorem foldlM_good_iff {e : Option Entry} (hgood : b.Good) (hlast : b.Last e) :
    (∃ b', ms.foldlM (Build.step (unmarshalMap floats)) b = some b' ∧ b'.Good) ↔
      (∀ m ∈ ms, Sendable m) ∧ (e.toList ++ entries ms).IsChain Entry.Allows := by
  induction ms generalizing b e with
  | nil =>
    have hchain : (e.toList ++ entries []).IsChain Entry.Allows := by
      cases e <;> simp [entries]
    simp [hgood, hchain]
  | cons m ms ih =>
    rw [foldlM_cons, forall_mem_cons, isChain_entries_cons]
    by_cases hm : Sendable m ∧ ∀ e' ∈ e, e'.Allows (entry m)
    · obtain ⟨b', hstep, hgood', hlast'⟩ := step_good floats hgood hlast hm.1 hm.2
      rw [hstep]
      refine (ih hgood' hlast').trans ?_
      tauto
    · -- the content that breaks here stays broken
      constructor
      · rintro ⟨b', hrun, hgood'⟩
        obtain ⟨b'', hstep, hrun⟩ := Option.bind_eq_some_iff.mp hrun
        have hbroken : b''.Broken := by
          by_cases hsendable : Sendable m
          · obtain ⟨e', he', hallows⟩ : ∃ e' ∈ e, ¬ e'.Allows (entry m) := by
              simpa [hsendable] using hm
            obtain rfl := Option.mem_def.mp he'
            exact broken_of_not_allows floats hgood hlast hallows hstep
          · exact broken_of_not_sendable floats hsendable hstep
        have hstays := foldlM_keeps floats (step_broken (unmarshalMap floats)) hbroken hrun
        exact absurd hgood' hstays.not_good
      · rintro ⟨⟨hsendable, -⟩, hallows, -⟩
        exact absurd ⟨hsendable, hallows⟩ hm

/-! ## The system instruction -/

@[simp] theorem Build.flushResponses_systemChunks (b : Build) :
    b.flushResponses.systemChunks = b.systemChunks := by
  unfold flushResponses
  split <;> rfl

theorem Build.appendOrMerge_systemChunks (h : b.appendOrMerge role text = some b') :
    b'.systemChunks = b.systemChunks := by
  by_cases htext : trimSpace text = ""
  · rw [appendOrMerge, if_pos htext] at h
    cases h
    rfl
  · by_cases hother : ∀ last, b.contents.getLast? = some last → last.role ≠ genRole role
    · rw [appendOrMerge_other htext hother] at h
      cases h
      rfl
    · obtain ⟨last, hlast, hrole⟩ :
          ∃ last, b.contents.getLast? = some last ∧ last.role = genRole role := by
        simpa using hother
      obtain ⟨before, hbefore⟩ := getLast?_eq_some_iff.mp hlast
      rw [appendOrMerge_same htext hbefore hrole] at h
      split at h
      · cases h
      · cases h
        rfl

theorem step_systemChunks (h : ∀ s ∈ b.systemChunks, s ≠ "")
    (hstep : b.step (unmarshalMap floats) m = some b') : ∀ s ∈ b'.systemChunks, s ≠ "" := by
  rw [← b.flushResponses_systemChunks] at h
  unfold Build.step at hstep
  split at hstep
  · cases hstep
    simpa [addResponse] using h
  · dsimp only at hstep
    split at hstep
    · split at hstep
      · cases hstep
        exact h
      · next hblank =>
        cases hstep
        exact forall_mem_append.mpr ⟨h, forall_mem_singleton.mpr hblank⟩
    · split at hstep
      · split at hstep
        · cases hstep
          exact h
        · rwa [appendOrMerge_systemChunks hstep]
      · split at hstep
        · cases hstep
          exact h
        · rwa [appendOrMerge_systemChunks hstep]

end

/-- A request is built without reading out of range and is well formed exactly if no tool result is
`null`, something is left of every multimodal message, and no text follows a content of its role
that starts with a call or an image. -/
theorem gemini_well_formed_iff (floats : Floats ℚ) (req : RequestEnvelope) :
    (∃ wire, toGenWireRequest (unmarshalMap floats) req = some wire ∧ wire.Valid) ↔
      (∀ m ∈ req.messages, Sendable m) ∧ (entries req.messages).IsChain Entry.Allows := by
  have hgood : Build.Good {} := by simp [Build.Good, Build.sent, Build.flushResponses]
  have hlast : Build.Last {} none := .none
  rw [← nil_append (entries req.messages)]
  refine Iff.trans ?_ (foldlM_good_iff floats hgood hlast)
  constructor
  · rintro ⟨wire, hwire, hvalid⟩
    obtain ⟨b, hrun, rfl⟩ := Option.map_eq_some_iff.mp hwire
    exact ⟨b, hrun, hvalid.contents⟩
  · rintro ⟨b, hrun, hb⟩
    refine ⟨_, Option.map_eq_some_iff.mpr ⟨b, hrun, rfl⟩, hb, fun s hs => ?_⟩
    have hchunks := foldlM_keeps floats (step_systemChunks floats) (by simp) hrun
    rw [← b.flushResponses_systemChunks] at hchunks
    dsimp only at hs
    split at hs
    · cases hs
    · next hne =>
      cases hs
      obtain ⟨chunk, rest, heq⟩ := exists_cons_of_ne_nil hne
      rw [heq] at hchunks ⊢
      exact validParts_text (join_ne_empty (hchunks chunk mem_cons_self))

def blankThenPlain : List Message :=
  [{ role := "user", content := " ", parts := [{ type := "text", text := " " }] },
   { role := "user", content := "hello" }]

/-- The text of the second message would go to the first part of the content before it, which has
none. -/
theorem blankThenPlain_out_of_range :
    toGenWireRequest (unmarshalMap wholeFloats) { messages := blankThenPlain } = none := by
  rfl

end Ixr.Adapters.GoogleAI
