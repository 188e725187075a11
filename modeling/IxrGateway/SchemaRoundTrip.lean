import IxrGateway.SchemaCodec

/-!
# Requests pass through unchanged

A middleware decodes the body of a request and passes on what it encodes again.
Decoding leaves a request in a shape that survives this (`RequestEnvelope.Sound`):
the keys of maps are sorted, numbers have a literal, and a message with parts has
their text as its content.  A request of that shape is read back as it was
written (`RequestEnvelope.read_write`).  So any number of passes leaves what the
chat handler decodes unchanged (`reencoding_transparent`).
-/

namespace Ixr

open List JsonText RequestEnvelope Message FunctionDef ContentPart

section

variable (floats : Floats ℚ)

/-! ## Values of any type -/

theorem toAnyFields_eq (fields : List (String × Value)) (entries : List (String × Json)) :
    toAnyFields floats fields entries = insertFields (toAny floats) entries fields := by
  induction fields generalizing entries with
  | nil => rw [toAnyFields, insertFields]
  | cons p fields ih =>
    obtain ⟨key, x⟩ := p
    rw [toAnyFields, insertFields]
    exact Option.bind_congr fun y _ => ih _

theorem ofAnyFields_eq (entries : List (String × Json)) :
    ofAnyFields floats entries = entries.map fun p => (p.1, ofAny floats p.2) := by
  induction entries with
  | nil => rw [ofAnyFields, map_nil]
  | cons p entries ih =>
    obtain ⟨key, x⟩ := p
    rw [ofAnyFields, ih, map_cons]

/-- A value that is read back as it was written. -/
def Json.Stable (j : Json) : Prop := toAny floats (ofAny floats j) = some j

variable {floats}

variable {xs : List Json} {f : FunctionDef} {t : Tool} {j : Json} {x : Option Json}

theorem toAnys_ofAnys (h : ∀ x ∈ xs, x.Stable floats) :
    toAnys floats (ofAnys floats xs) = some xs := by
  induction xs with
  | nil => rw [ofAnys, toAnys]
  | cons x xs ih =>
    obtain ⟨hx, hxs⟩ := forall_mem_cons.mp h
    rw [ofAnys, toAnys, hx, ih hxs]
    rfl

theorem Json.stable_arr (h : ∀ x ∈ xs, x.Stable floats) : (Json.arr xs).Stable floats := by
  rw [Json.Stable, ofAny, toAny, toAnys_ofAnys h]
  rfl

variable {entries : List (String × Json)} {m : Message} {e : RequestEnvelope} {v : Value}
  {vs : List Value} {body : List Char}

theorem Json.stable_obj (h : Tidy (fun j => j.Stable floats) entries) :
    (Json.obj entries).Stable floats := by
  have hfields : insertFields (toAny floats) [] (ofAnyFields floats entries) =
      some ([] ++ entries) := by
    rw [ofAnyFields_eq]
    exact insertFields_map h
  rw [Json.Stable, ofAny, toAny, toAnyFields_eq, hfields]
  rfl

mutual

theorem toAny_stable : (v : Value) → (j : Json) → toAny floats v = some j → j.Stable floats
  | .null, j, h => by
    rw [toAny] at h
    cases h
    rfl
  | .bool b, j, h => by
    rw [toAny] at h
    cases h
    rfl
  | .string s, j, h => by
    rw [toAny] at h
    cases h
    rfl
  | .number n, j, h => by
    rw [toAny] at h
    obtain ⟨q, hq, rfl⟩ := Option.map_eq_some_iff.mp h
    rw [Json.Stable, ofAny, toAny, floats.value_format hq]
    rfl
  | .array xs, j, h => by
    rw [toAny] at h
    obtain ⟨ys, hys, rfl⟩ := Option.map_eq_some_iff.mp h
    exact Json.stable_arr (toAnys_stable xs ys hys)
  | .object fields, j, h => by
    rw [toAny] at h
    obtain ⟨entries, hentries, rfl⟩ := Option.map_eq_some_iff.mp h
    exact Json.stable_obj (toAnyFields_stable fields [] entries (tidy_nil _) hentries)

theorem toAnys_stable : (xs : List Value) → (ys : List Json) → toAnys floats xs = some ys →
    ∀ y ∈ ys, y.Stable floats
  | [], ys, h => by
    rw [toAnys] at h
    cases h
    exact forall_mem_nil _
  | x :: xs, ys, h => by
    rw [toAnys] at h
    obtain ⟨y, hy, h⟩ := Option.bind_eq_some_iff.mp h
    obtain ⟨ys, hys, rfl⟩ := Option.map_eq_some_iff.mp h
    exact forall_mem_cons.mpr ⟨toAny_stable x y hy, toAnys_stable xs ys hys⟩

theorem toAnyFields_stable : (fields : List (String × Value)) →
    (entries entries' : List (String × Json)) → Tidy (fun j => j.Stable floats) entries →
    toAnyFields floats fields entries = some entries' →
    Tidy (fun j => j.Stable floats) entries'
  | [], entries, entries', htidy, h => by
    rw [toAnyFields] at h
    cases h
    exact htidy
  | (key, x) :: fields, entries, entries', htidy, h => by
    rw [toAnyFields] at h
    obtain ⟨y, hy, h⟩ := Option.bind_eq_some_iff.mp h
    exact toAnyFields_stable fields _ entries'
      (insertKey_tidy (toAny_stable x y hy) htidy) h

end

theorem unmarshalObject_marshalObject (h : Tidy (fun j => j.Stable floats) entries) :
    unmarshalObject floats (marshalObject floats (some entries)) = some (some entries) := by
  rw [unmarshalObject, marshalObject, String.toList_ofList]
  exact unmarshal_print (pointer_object (table_map h))

theorem unmarshalObject_tidy {text : String}
    (h : unmarshalObject floats text = some (some entries)) :
    Tidy (fun j => j.Stable floats) entries := by
  obtain ⟨v, -, hread⟩ := Option.bind_eq_some_iff.mp h
  obtain ⟨ws, htable⟩ := pointer_eq_some hread
  exact table_tidy toAny_stable htable

/-! ## Messages -/

theorem ImageURLPart.read_write (p : ImageURLPart) : ImageURLPart.read [p.write] = some p := by
  simp (disch := decide) [ImageURLPart.read, ImageURLPart.write]

theorem ContentPart.read_write (p : ContentPart) : read [p.write] = some p := by
  obtain ⟨type, text, imageURL⟩ := p
  cases imageURL with
  | none => simp (disch := decide) [read, write, pointer]
  | some image =>
    have himage : pointer ImageURLPart.read [image.write] = some (some image) :=
      pointer_object image.read_write
    simp (disch := decide) [read, write, himage]

theorem ToolFunction.read_write (f : ToolFunction) : ToolFunction.read [f.write] = some f := by
  simp (disch := decide) [ToolFunction.read, ToolFunction.write]

theorem ToolCall.read_write (c : ToolCall) : ToolCall.read [c.write] = some c := by
  simp (disch := decide) [ToolCall.read, ToolCall.write, ToolFunction.read_write]

/-- The content is that of the parts. -/
def Message.Flat (m : Message) : Prop := m.parts ≠ [] → m.content = flattenText m.parts

theorem Message.unmarshalJSON_marshalJSON (h : m.Flat) :
    unmarshalJSON m.marshalJSON = some m := by
  obtain ⟨role, content, parts, toolCalls, toolCallID, name⟩ := m
  have hcalls := slice_omit toolCalls fun c _ => c.read_write
  cases parts with
  | nil =>
    by_cases hcontent : content = ""
    · simp (disch := decide) [unmarshalJSON, marshalJSON, hcalls, hcontent]
    · simp (disch := decide) [unmarshalJSON, marshalJSON, hcalls, hcontent]
  | cons p parts =>
    have hparts := slice_map (p :: parts) fun p _ => p.read_write
    have hflat : content = flattenText (p :: parts) := h (cons_ne_nil p parts)
    rw [map_cons] at hparts
    simp (disch := decide) [unmarshalJSON, marshalJSON, hcalls, hparts, hflat]

theorem Message.read_marshalJSON (h : m.Flat) :
    latest { role := "" } unmarshalJSON [m.marshalJSON] = some m := by
  simp [latest, unmarshalJSON_marshalJSON h]

/-! ## Requests -/

theorem FunctionDef.read_write (h : Tidy (fun j => j.Stable floats) f.parameters) :
    read floats [f.write floats] = some f := by
  have hparameters := table_omit h
  simp (disch := decide) [read, write, hparameters]

theorem Tool.read_write (h : Tidy (fun j => j.Stable floats) t.function.parameters) :
    Tool.read floats [t.write floats] = some t := by
  simp (disch := decide) [Tool.read, Tool.write, FunctionDef.read_write h]

/-- A field of type `any` that is written unless it is nil. -/
def AnySound (floats : Floats ℚ) (x : Option Json) : Prop :=
  ∀ j, x = some j → j ≠ .null ∧ j.Stable floats

theorem anyOf_ofAny (hne : j ≠ .null) (h : j.Stable floats) :
    anyOf floats (ofAny floats j) = some (some j) := by
  have hvalue : ofAny floats j ≠ .null := by
    cases j with
    | null => exact absurd rfl hne
    | _ =>
      rw [ofAny]
      exact fun h => nomatch h
  rw [anyOf]
  · rw [h, Option.map_some]
  · exact hvalue

theorem any_read_write (h : AnySound floats x) :
    latest none (anyOf floats)
      (if x = none then [] else [ofAny floats (x.getD .null)]) = some x := by
  cases x with
  | none => rfl
  | some j =>
    obtain ⟨hne, hstable⟩ := h j rfl
    simp [latest, anyOf_ofAny hne hstable]

/-- What decoding a request makes sure of. -/
structure RequestEnvelope.Sound (floats : Floats ℚ) (e : RequestEnvelope) : Prop where
  messages : ∀ m ∈ e.messages, m.Flat
  tools : ∀ t ∈ e.tools, Tidy (fun j => j.Stable floats) t.function.parameters
  toolChoice : AnySound floats e.toolChoice
  temperature : floats.Survives e.temperature
  maxTokens : FitsInt64 e.maxTokens
  topP : floats.Survives e.topP
  n : FitsInt64 e.n
  stop : AnySound floats e.stop

theorem RequestEnvelope.read_write (h : e.Sound floats) :
    read floats [e.write floats] = some e := by
  have model : string (given "model" (e.fields floats)) = some e.model := by
    simp (disch := decide) [fields, anyField]
  have messages : slice (latest { role := "" } unmarshalJSON)
      (given "messages" (e.fields floats)) = some e.messages := by
    simp (disch := decide) [fields, anyField,
      slice_nullable e.messages fun m hm => read_marshalJSON (h.messages m hm)]
  have stream : bool (given "stream" (e.fields floats)) = some e.stream := by
    simp (disch := decide) [fields, anyField]
  have tools : slice (Tool.read floats) (given "tools" (e.fields floats)) =
      some e.tools := by
    simp (disch := decide) [fields, anyField,
      slice_omit e.tools fun t ht => Tool.read_write (h.tools t ht)]
  have toolChoice : latest none (anyOf floats) (given "tool_choice" (e.fields floats)) =
      some e.toolChoice := by
    simp (disch := decide) [fields, anyField, any_read_write h.toolChoice]
  have temperature : float floats (given "temperature" (e.fields floats)) =
      some e.temperature := by
    simp (disch := decide) [fields, anyField, float_omit h.temperature]
  have maxTokens : integer (given "max_tokens" (e.fields floats)) = some e.maxTokens := by
    simp (disch := decide) [fields, anyField, integer_omit h.maxTokens]
  have topP : float floats (given "top_p" (e.fields floats)) = some e.topP := by
    simp (disch := decide) [fields, anyField, float_omit h.topP]
  have n : integer (given "n" (e.fields floats)) = some e.n := by
    simp (disch := decide) [fields, anyField, integer_omit h.n]
  have stop : latest none (anyOf floats) (given "stop" (e.fields floats)) =
      some e.stop := by
    simp (disch := decide) [fields, anyField, any_read_write h.stop]
  have user : string (given "user" (e.fields floats)) = some e.user := by
    simp (disch := decide) [fields, anyField]
  simp only [read, write, objects_object, model, messages, stream, tools, toolChoice, temperature,
    maxTokens, topP, n, stop, user, Option.bind_eq_bind, Option.bind_some]
  rfl

/-! ## What decoding makes sure of -/

/-- The texts of the parts. -/
def textParts (parts : List ContentPart) : List String :=
  (parts.filter fun p => p.type = "text" ∧ p.text ≠ "").map text

theorem flattenText_eq_join (parts : List ContentPart) :
    flattenText parts = GoStrings.join "\n" (textParts parts) := by
  have hne : ∀ t ∈ textParts parts, t ≠ "" := by
    intro t ht
    obtain ⟨p, hp, rfl⟩ := mem_map.mp ht
    exact (of_decide_eq_true (mem_filter.mp hp).2).2
  have hlines := GoStrings.foldl_addLine hne ""
  rw [if_pos rfl, nil_append] at hlines
  rw [← hlines, textParts, foldl_map, foldl_filter, flattenText]
  simp only [decide_eq_true_eq]

theorem Message.unmarshalJSON_flat (h : unmarshalJSON v = some m) : m.Flat := by
  simp only [unmarshalJSON, Option.bind_eq_bind, Option.bind_eq_some_iff] at h
  obtain ⟨fields, -, role, -, toolCalls, -, toolCallID, -, name, -, h⟩ := h
  split at h
  · cases h
    exact fun hparts => absurd rfl hparts
  · cases h
    exact fun hparts => absurd rfl hparts
  · obtain ⟨parts, -, h⟩ := Option.bind_eq_some_iff.mp h
    cases h
    exact fun _ => rfl
  · cases h
    exact fun hparts => absurd rfl hparts
  · cases h

theorem toAny_ne_null (hv : v ≠ .null) (h : toAny floats v = some j) : j ≠ .null := by
  rintro rfl
  cases v with
  | null => exact hv rfl
  | bool | string =>
    rw [toAny] at h
    cases h
  | number n =>
    rw [toAny] at h
    obtain ⟨q, -, hq⟩ := Option.map_eq_some_iff.mp h
    cases hq
  | array xs =>
    rw [toAny] at h
    obtain ⟨ys, -, hys⟩ := Option.map_eq_some_iff.mp h
    cases hys
  | object fields =>
    rw [toAny] at h
    obtain ⟨entries, -, hentries⟩ := Option.map_eq_some_iff.mp h
    cases hentries

theorem anyOf_sound (h : anyOf floats v = some x) : AnySound floats x := by
  rintro j rfl
  unfold anyOf at h
  split at h
  · cases h
  · next hv =>
    obtain ⟨y, hy, heq⟩ := Option.map_eq_some_iff.mp h
    cases heq
    exact ⟨toAny_ne_null hv hy, toAny_stable _ _ hy⟩

theorem FunctionDef.read_tidy (h : read floats vs = some f) :
    Tidy (fun j => j.Stable floats) f.parameters := by
  simp only [read, Option.bind_eq_bind, Option.bind_eq_some_iff] at h
  obtain ⟨fields, -, name, -, description, -, parameters, hparameters, strict, -, h⟩ := h
  cases h
  exact table_tidy toAny_stable hparameters

theorem Tool.read_tidy (h : Tool.read floats vs = some t) :
    Tidy (fun j => j.Stable floats) t.function.parameters := by
  simp only [Tool.read, Option.bind_eq_bind, Option.bind_eq_some_iff] at h
  obtain ⟨fields, -, type, -, function, hfunction, h⟩ := h
  cases h
  exact read_tidy hfunction

theorem RequestEnvelope.read_sound (h : read floats vs = some e) :
    e.Sound floats := by
  simp only [read, Option.bind_eq_bind, Option.bind_eq_some_iff] at h
  obtain ⟨fields, -, model, -, messages, hmessages, stream, -, tools, htools, toolChoice,
    htoolChoice, temperature, htemperature, maxTokens, hmaxTokens, topP, htopP, n, hn, stop, hstop,
    user, -, h⟩ := h
  cases h
  have hflat : ∀ vs m, latest { role := "" } unmarshalJSON vs = some m → m.Flat :=
    fun vs m => latest_induction (fun hparts => absurd rfl hparts)
      fun _ _ => unmarshalJSON_flat
  have hany : ∀ {vs x}, latest none (anyOf floats) vs = some x → AnySound floats x :=
    latest_induction (fun j hj => nomatch hj) fun _ _ => anyOf_sound
  exact
    { messages := slice_induction hflat hmessages
      tools := slice_induction (fun _ _ => Tool.read_tidy) htools
      toolChoice := hany htoolChoice
      temperature := float_survives htemperature
      maxTokens := integer_fits hmaxTokens
      topP := float_survives htopP
      n := integer_fits hn
      stop := hany hstop }

/-! ## Passes -/

/-- What is decoded from a re-encoded request is the request. -/
theorem RequestEnvelope.decode_encode (h : e.Sound floats) :
    decode floats (e.encode floats) = some e := by
  have hparse : parseFirst (e.encode floats) = some (e.write floats) := by
    have := parseFirst_print (e.write floats) [] ends_nil
    rwa [append_nil] at this
  rw [decode, hparse, Option.bind_some, read_write h]

theorem RequestEnvelope.decode_sound (h : decode floats body = some e) :
    e.Sound floats := by
  obtain ⟨v, -, hread⟩ := Option.bind_eq_some_iff.mp h
  exact read_sound hread

/-- The body that a middleware hands on when it has nothing to change: re-encoded, or as it came if
it cannot be decoded. -/
def RequestEnvelope.pass (floats : Floats ℚ) (body : List Char) : List Char :=
  match decode floats body with
  | some e => e.encode floats
  | none => body

theorem RequestEnvelope.decode_passes (h : decode floats body = some e) (n : Nat) :
    decode floats ((pass floats)^[n] body) = some e := by
  induction n with
  | zero => exact h
  | succ n ih =>
    rw [Function.iterate_succ_apply', pass, ih]
    exact decode_encode (decode_sound ih)

/-- Re-encoding is transparent: a request that was decoded is decoded again from its own encoding,
and from what is left of the body after any number of passes.  A message with parts has their text
as its content. -/
theorem reencoding_transparent (body : List Char) (e : RequestEnvelope)
    (h : decode floats body = some e) :
    decode floats (e.encode floats) = some e ∧
      (∀ n, decode floats ((pass floats)^[n] body) = some e) ∧
      ∀ v m, unmarshalJSON v = some m → m.parts ≠ [] →
        m.content = GoStrings.join "\n" (textParts m.parts) := by
  refine ⟨decode_encode (decode_sound h),
    decode_passes h, fun v m hm hparts => ?_⟩
  rw [unmarshalJSON_flat hm hparts, flattenText_eq_join]

def partsBody : String :=
  "\x7b\"messages\": [\x7b\"role\":\"user\",\"content\":" ++
    "[\x7b\"type\":\"text\",\"text\":\"a\"\x7d,null]\x7d],\"n\":2\x7d"

def partsRequest : RequestEnvelope :=
  { messages :=
      [{ role := "user"
         content := "a"
         parts := [{ type := "text", text := "a" }, { type := "" }] }]
    n := 2 }

theorem parts_request_transparent :
    decode wholeFloats partsBody.toList = some partsRequest ∧
      decode wholeFloats ((pass wholeFloats)^[3] partsBody.toList) =
        some partsRequest := by
  have h : decode wholeFloats partsBody.toList = some partsRequest := by
    decide +kernel
  exact ⟨h, (reencoding_transparent partsBody.toList partsRequest h).2.1 3⟩

end

end Ixr
