import IxrGateway.SchemaRoundTrip

/-!
# The brevity plugin

The plugin appends an instruction to the first system message of a request.  It
writes the `Content` of the message.  A message that came as an array of parts is
written as that array again, so there the change does not reach the next handler
(`decode_encode_flatten`).
-/

namespace Ixr.Brevity

open GoStrings RequestEnvelope
open JsonText (Floats Value)

/-- The instruction by default. -/
def defaultInstruction : String :=
  "Be terse: drop filler and narrative explanation, prefer fragments over full sentences. " ++
  "Preserve code blocks, commands, error messages, paths, and URLs exactly — never compress or " ++
  "paraphrase those."

/-- `brevity.Plugin`. -/
structure Plugin where
  instruction : String

/-- `brevity.New`. -/
def new (instruction : String) : Plugin where
  instruction := if instruction = "" then defaultInstruction else instruction

/-- `strings.TrimRight(s, "\n")`. -/
def trimNewlines (s : String) : String :=
  String.ofList (s.toList.reverse.dropWhile (· = '\n')).reverse

/-- `appendInstruction`. -/
def appendInstruction (existing instruction : String) : String :=
  let existing := trimNewlines existing
  if existing = "" then instruction else existing ++ "\n\n" ++ instruction

/-- A system message. -/
def isSystem (m : Message) : Bool := m.role = "system"

/-- `systemMessageIndex`. -/
def systemMessageIndex (messages : List Message) : Option Nat := messages.findIdx? isSystem

/-- Adds the instruction. -/
def Plugin.instruct (p : Plugin) (m : Message) : Message :=
  { m with content := appendInstruction m.content p.instruction }

/-- `Plugin.Intercept`. -/
def Plugin.intercept (p : Plugin) (req : RequestEnvelope) : RequestEnvelope :=
  match systemMessageIndex req.messages with
  | none => { req with messages := { role := "system", content := p.instruction } :: req.messages }
  | some idx => { req with messages := req.messages.modify idx p.instruct }

variable (p : Plugin) (m : Message)

@[simp] theorem Plugin.instruct_parts : (p.instruct m).parts = m.parts := by
  rw [Plugin.instruct]

@[simp] theorem Plugin.instruct_role : (p.instruct m).role = m.role := by
  rw [Plugin.instruct]

@[simp] theorem Plugin.instruct_content :
    (p.instruct m).content = appendInstruction m.content p.instruction := by
  rw [Plugin.instruct]

theorem contains_self (s : String) : contains s s = true := by
  rw [contains, decide_eq_true_iff]

theorem contains_appendInstruction (existing instruction : String) :
    contains (appendInstruction existing instruction) instruction = true := by
  rw [contains, decide_eq_true_iff, appendInstruction]
  split
  · exact List.infix_refl _
  · rw [String.toList_append]
    exact (List.suffix_append _ _).isInfix

/-! ## The first system message -/

theorem split_of_systemMessageIndex {messages : List Message} {idx : Nat}
    (h : systemMessageIndex messages = some idx) :
    ∃ before m after, messages = before ++ m :: after ∧ before.length = idx ∧
      isSystem m = true ∧ ∀ b ∈ before, isSystem b = false := by
  induction messages generalizing idx with
  | nil => cases h
  | cons m messages ih =>
    rw [systemMessageIndex, List.findIdx?_cons] at h
    cases hm : isSystem m with
    | true =>
      rw [hm, if_pos rfl] at h
      cases h
      exact ⟨[], m, messages, rfl, rfl, hm, List.forall_mem_nil _⟩
    | false =>
      rw [hm, if_neg Bool.false_ne_true] at h
      obtain ⟨i, hi, rfl⟩ := Option.map_eq_some_iff.mp h
      obtain ⟨before, m', after, rfl, rfl, hm', hbefore⟩ := ih hi
      exact ⟨m :: before, m', after, rfl, rfl, hm', List.forall_mem_cons.mpr ⟨hm, hbefore⟩⟩

theorem find?_split {before after : List Message} {m : Message} (hm : isSystem m = true)
    (hbefore : ∀ b ∈ before, isSystem b = false) :
    (before ++ m :: after).find? isSystem = some m := by
  have hnone : before.find? isSystem = none := by
    rw [List.find?_eq_none]
    intro b hb
    rw [hbefore b hb]
    exact Bool.false_ne_true
  rw [List.find?_append, hnone, Option.none_or, List.find?_cons_of_pos hm]

theorem modify_split (f : Message → Message) (before after : List Message) (m : Message) :
    (before ++ m :: after).modify before.length f = before ++ f m :: after := by
  induction before with
  | nil => rfl
  | cons b before ih => rw [List.cons_append, List.length_cons, List.modify_succ_cons, ih,
      List.cons_append]

theorem Plugin.intercept_cases (req : RequestEnvelope) :
    req.messages.find? isSystem = none ∧
        p.intercept req =
          { req with messages := { role := "system", content := p.instruction } :: req.messages } ∨
      ∃ before m after, req.messages = before ++ m :: after ∧ isSystem m = true ∧
        (∀ b ∈ before, isSystem b = false) ∧
        p.intercept req = { req with messages := before ++ p.instruct m :: after } := by
  unfold Plugin.intercept
  cases hidx : systemMessageIndex req.messages with
  | none =>
    have hnone := List.findIdx?_eq_none_iff.mp hidx
    exact .inl ⟨List.find?_eq_none.mpr (by simpa using hnone), rfl⟩
  | some idx =>
    obtain ⟨before, m, after, hsplit, rfl, hm, hbefore⟩ := split_of_systemMessageIndex hidx
    refine .inr ⟨before, m, after, hsplit, hm, hbefore, ?_⟩
    dsimp only
    rw [hsplit, modify_split]

/-! ## Writing and reading -/

/-- The content of the parts. -/
def flatten (m : Message) : Message :=
  if m.parts = [] then m else { m with content := flattenText m.parts }

theorem flatten_flat : (flatten m).Flat := by
  unfold flatten
  split
  · next hparts => exact fun h => absurd hparts h
  · exact fun _ => rfl

theorem flatten_of_parts_eq_nil {m : Message} (h : m.parts = []) : flatten m = m := if_pos h

theorem flatten_content {m : Message} (h : m.parts ≠ []) :
    (flatten m).content = flattenText m.parts := by
  rw [flatten, if_neg h]

@[simp] theorem flatten_parts : (flatten m).parts = m.parts := by
  unfold flatten
  split
  · rfl
  · rfl

@[simp] theorem flatten_role : (flatten m).role = m.role := by
  unfold flatten
  split
  · rfl
  · rfl

theorem marshalJSON_flatten : (flatten m).marshalJSON = m.marshalJSON := by
  unfold flatten
  split
  · rfl
  · next hparts => rw [Message.marshalJSON, Message.marshalJSON, if_neg hparts, if_neg hparts]

/-- All messages with their parts' content. -/
def flattenAll (e : RequestEnvelope) : RequestEnvelope :=
  { e with messages := e.messages.map flatten }

theorem encode_flattenAll (floats : Floats ℚ) (e : RequestEnvelope) :
    (flattenAll e).encode floats = e.encode floats := by
  have hmessages : (e.messages.map flatten).map Message.marshalJSON =
      e.messages.map Message.marshalJSON := by
    rw [List.map_map]
    exact List.map_congr_left fun m _ => marshalJSON_flatten m
  have hfield : (if e.messages.map flatten = [] then Value.null
        else .array ((e.messages.map flatten).map Message.marshalJSON)) =
      if e.messages = [] then .null else .array (e.messages.map Message.marshalJSON) := by
    rw [hmessages]
    cases e.messages with
    | nil | cons => rfl
  have hfields : (flattenAll e).fields floats = e.fields floats := by
    rw [fields, fields, ← hfield]
    rfl
  rw [encode, encode, write, write, hfields]

theorem decode_encode_flatten {floats : Floats ℚ} {e e' : RequestEnvelope} (h : e.Sound floats)
    (hothers : e' = { e with messages := e'.messages }) :
    decode floats (e'.encode floats) = some (flattenAll e') := by
  rw [← encode_flattenAll]
  apply decode_encode
  rw [hothers]
  refine { h with messages := ?_ }
  intro m hm
  obtain ⟨m', -, rfl⟩ := List.mem_map.mp hm
  exact flatten_flat m'

theorem flatten_system {m : Message} (h : isSystem m = true) : isSystem (flatten m) = true := by
  rwa [isSystem, flatten_role]

theorem contains_flatten_instruct {m : Message} (h : m.Flat) :
    contains (flatten (p.instruct m)).content p.instruction = true ↔
      m.parts = [] ∨ contains m.content p.instruction = true := by
  rcases eq_or_ne m.parts [] with hparts | hparts
  · rw [flatten_of_parts_eq_nil ((p.instruct_parts m).trans hparts), p.instruct_content]
    exact iff_of_true (contains_appendInstruction m.content p.instruction) (.inl hparts)
  · rw [flatten_content (by rwa [p.instruct_parts]), p.instruct_parts, ← h hparts]
    exact (or_iff_right hparts).symm

/-- The instruction reaches the next handler exactly if the first system message did not come as
parts, or their text has the instruction already.  The parts are kept. -/
theorem instruction_reaches_iff (floats : Floats ℚ) (p : Plugin) (body : List Char)
    (req : RequestEnvelope) (hbody : decode floats body = some req) :
    ∃ out m, decode floats ((p.intercept req).encode floats) = some out ∧
      out.messages.find? isSystem = some m ∧
      (contains m.content p.instruction = true ↔
        ∀ m₀, req.messages.find? isSystem = some m₀ →
          m₀.parts = [] ∨ contains m₀.content p.instruction = true) ∧
      ∀ m₀, req.messages.find? isSystem = some m₀ → m.parts = m₀.parts := by
  have hsound := decode_sound hbody
  rcases p.intercept_cases req with ⟨hnone, hout⟩ | ⟨before, m, after, hsplit, hm, hbefore, hout⟩
  · refine ⟨_, { role := "system", content := p.instruction },
      decode_encode_flatten hsound (by rw [hout]), ?_, ?_, ?_⟩
    · rw [hout]
      rfl
    · rw [hnone]
      constructor
      · rintro - m₀ h
        cases h
      · intro _
        exact contains_self p.instruction
    · rw [hnone]
      intro m₀ h
      cases h
  · have hfind : req.messages.find? isSystem = some m := by
      rw [hsplit]
      exact find?_split hm hbefore
    have hflat : m.Flat := hsound.messages m (List.mem_of_find?_eq_some hfind)
    have hsystem : isSystem (p.instruct m) = true := by rwa [isSystem, p.instruct_role]
    refine ⟨_, flatten (p.instruct m), decode_encode_flatten hsound (by rw [hout]), ?_, ?_, ?_⟩
    · rw [hout]
      show ((before ++ p.instruct m :: after).map flatten).find? isSystem = _
      rw [List.map_append, List.map_cons]
      apply find?_split (flatten_system hsystem)
      intro b hb
      obtain ⟨b', hb', rfl⟩ := List.mem_map.mp hb
      rw [isSystem, flatten_role]
      exact hbefore b' hb'
    · rw [hfind]
      rw [contains_flatten_instruct p hflat]
      constructor
      · rintro h m₀ ⟨⟩
        exact h
      · intro h
        exact h m rfl
    · rw [hfind]
      rintro m₀ ⟨⟩
      rw [flatten_parts, p.instruct_parts]

/-! ## A plain request and one with parts -/

def requestBody (content : Value) : List Char :=
  JsonText.print (.object [("model", .string "m"), ("messages", .array
    [.object [("role", .string "system"), ("content", content)],
      .object [("role", .string "user"), ("content", .string "q")]])])

def plainSystem : RequestEnvelope where
  model := "m"
  messages := [{ role := "system", content := "s" }, { role := "user", content := "q" }]

def systemParts : RequestEnvelope where
  model := "m"
  messages := [{ role := "system", content := "s", parts := [{ type := "text", text := "s" }] },
    { role := "user", content := "q" }]

theorem plain_instruction_reaches :
    ∃ out m, decode wholeFloats (((new "t").intercept plainSystem).encode
        wholeFloats) = some out ∧
      out.messages.find? isSystem = some m ∧ contains m.content "t" = true := by
  have hbody : decode wholeFloats (requestBody (.string "s")) =
      some plainSystem := by
    decide +kernel
  obtain ⟨out, m, hout, hm, hiff, -⟩ :=
    instruction_reaches_iff wholeFloats (new "t") (requestBody (.string "s")) plainSystem hbody
  refine ⟨out, m, hout, hm, hiff.mpr ?_⟩
  intro m₀ hm₀
  cases hm₀
  exact .inl rfl

/-- A system message that came as parts reaches the next handler as it came, and nothing in it has
the instruction. -/
theorem parts_instruction_lost :
    decode wholeFloats (requestBody (.array
        [.object [("type", .string "text"), ("text", .string "s")]])) = some systemParts ∧
      decode wholeFloats (((new "t").intercept systemParts).encode wholeFloats) =
        some systemParts ∧
      ∀ m ∈ systemParts.messages, contains m.content "t" = false ∧
        ∀ part ∈ m.parts, contains part.text "t" = false := by
  refine ⟨?_, ?_, by decide⟩
  · decide +kernel
  · decide +kernel

end Ixr.Brevity
