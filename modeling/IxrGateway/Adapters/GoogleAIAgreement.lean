import IxrGateway.Adapters.GoogleAIStream

/-!
# When a Gemini stream agrees with the whole response

The chunks of a stream agree with the message of the whole response (`Agrees`) if
only the last one has a finish reason, their texts add up to its content and
their calls to its calls, and no two calls have the same id.

Every chunk has a finish reason (`finishOf_ne_empty`), so there can be at most one.
Text and calls of a part list tell how much of it was split (`splitParts_eq`), so
what the scanner did not see must carry neither.
-/

namespace Ixr.Adapters.GoogleAI

open GoStrings List
open JsonText (Floats)
open LineScanner (after dataPrefix doneMark maxScanTokenSize scanText)

/-! ## What the helpers give -/

theorem toLower_ne_empty {s : String} (h : s ≠ "") : toLower s ≠ "" := by
  intro hlower
  have hlist := congrArg String.toList hlower
  rw [toLower, String.toList_ofList] at hlist
  exact h (String.toList_eq_nil_iff.mp (map_eq_nil_iff.mp hlist))

theorem mapFinishReason_ne_empty (reason : String) : mapFinishReason reason ≠ "" := by
  unfold mapFinishReason
  simp only
  split_ifs with hstop hlength hfilter hempty
  · decide
  · decide
  · decide
  · decide
  · exact toLower_ne_empty hempty

theorem finishOf_ne_empty (c : GenCandidate) (calls : List ToolCall) : finishOf c calls ≠ "" := by
  rw [finishOf]
  split
  · decide
  · exact mapFinishReason_ne_empty c.finishReason

/-- The texts that are not empty. -/
def partTexts (parts : List GenPart) : List String := (parts.map GenPart.text).filter (· ≠ "")

/-- The functions that are called. -/
def partFunctions (floats : Floats ℚ) (parts : List GenPart) : List ToolFunction :=
  parts.filterMap fun p => p.functionCall.map fun fc =>
    { name := fc.name, arguments := marshalObject floats fc.args }

theorem partTexts_append (xs ys : List GenPart) :
    partTexts (xs ++ ys) = partTexts xs ++ partTexts ys := by
  rw [partTexts, map_append, filter_append, partTexts, partTexts]

theorem partTexts_ne_empty (parts : List GenPart) : ∀ t ∈ partTexts parts, t ≠ "" :=
  fun _ ht => of_decide_eq_true (mem_filter.mp ht).2

theorem partFunctions_append (floats : Floats ℚ) (xs ys : List GenPart) :
    partFunctions floats (xs ++ ys) = partFunctions floats xs ++ partFunctions floats ys :=
  filterMap_append

section

variable {floats : Floats ℚ}

theorem foldl_splitStep (ps : List (GenPart × Nat)) (acc : String × List ToolCall) :
    ps.foldl (splitStep floats) acc =
      ((partTexts (ps.map Prod.fst)).foldl addLine acc.1,
        acc.2 ++ ps.filterMap (partCall floats)) := by
  induction ps generalizing acc with
  | nil => simp [partTexts]
  | cons p ps ih =>
    rw [foldl_cons, ih]
    have hcalls : (splitStep floats acc p).2 ++ ps.filterMap (partCall floats) =
        acc.2 ++ (p :: ps).filterMap (partCall floats) := by
      cases hcall : partCall floats p with
      | none | some => simp [splitStep, hcall]
    rw [hcalls]
    by_cases htext : p.1.text = ""
    · simp [splitStep, partTexts, htext]
    · simp [splitStep, partTexts, htext]

theorem splitParts_eq (parts : List GenPart) :
    splitParts floats parts =
      (join "\n" (partTexts parts), parts.zipIdx.filterMap (partCall floats)) := by
  have hlines := foldl_addLine (partTexts_ne_empty parts) ""
  rw [if_pos rfl, nil_append] at hlines
  rw [splitParts, foldl_splitStep, zipIdx_map_fst, hlines, nil_append]

theorem splitParts_functions (parts : List GenPart) :
    (splitParts floats parts).2.map ToolCall.function = partFunctions floats parts := by
  have hparts : partFunctions floats parts =
      partFunctions floats (parts.zipIdx.map Prod.fst) := by rw [zipIdx_map_fst]
  rw [hparts, splitParts_eq, map_filterMap, partFunctions, filterMap_map]
  refine filterMap_congr fun p _ => ?_
  rw [partCall, Option.map_map]
  rfl

theorem synthCallID_digits (name : String) (i : Nat) :
    (synthCallID name i).toList.reverse.takeWhile Char.isDigit = (Nat.toDigits 10 i).reverse := by
  have hlist : (synthCallID name i).toList =
      ("fc_" ++ name).toList ++ '_' :: Nat.toDigits 10 i := by
    simp [synthCallID]
  have hdigits : ∀ c ∈ (Nat.toDigits 10 i).reverse, c.isDigit = true := fun c hc =>
    Nat.isDigit_of_mem_toDigits (by decide) (by decide) (mem_reverse.mp hc)
  rw [hlist, reverse_append, reverse_cons, append_assoc, takeWhile_append_of_pos hdigits,
    singleton_append, takeWhile_cons_of_neg (by decide), append_nil]

theorem synthCallID_inj {n m : String} {i j : Nat} (h : synthCallID n i = synthCallID m j) :
    i = j := by
  have hdigits := synthCallID_digits n i
  rw [h, synthCallID_digits, reverse_inj] at hdigits
  have hvalue (k : Nat) : Nat.ofDigitChars 10 (Nat.toDigits 10 k) 0 = k :=
    Nat.ofDigitChars_toDigits (by decide) (by decide)
  rw [← hvalue i, ← hvalue j, hdigits]

theorem splitParts_ids_nodup (parts : List GenPart) :
    ((splitParts floats parts).2.map ToolCall.id).Nodup := by
  have hplaces : parts.zipIdx.Pairwise fun p q => p.2 ≠ q.2 := by
    have hnodup : (parts.zipIdx.map Prod.snd).Nodup := by
      rw [zipIdx_map_snd]
      exact nodup_range'
    exact pairwise_map.mp hnodup
  rw [splitParts_eq, Nodup, pairwise_map]
  refine hplaces.filterMap _ fun p q hpq call hcall call' hcall' => ?_
  obtain ⟨fc, -, rfl⟩ := Option.map_eq_some_iff.mp hcall
  obtain ⟨fc', -, rfl⟩ := Option.map_eq_some_iff.mp hcall'
  exact fun hid => hpq (synthCallID_inj hid)

/-! ## What the scanner sees -/

/-- The candidate that a line brings, with its response. -/
def lineResponse (floats : Floats ℚ) (line : List Char) : Option (GenWireResponse × GenCandidate) :=
  (after dataPrefix line).bind fun data =>
    (JsonText.unmarshal (GenWireResponse.read floats) data).bind fun wr =>
      wr.candidates.head?.map fun c0 => (wr, c0)

/-- The first candidates of the lines. -/
def candidates (floats : Floats ℚ) (lines : List (List Char)) : List GenCandidate :=
  (lines.filterMap (lineResponse floats)).map Prod.snd

/-- The lines that `Stream` looks at: those before the first long one and before a `[DONE]`. -/
def seenLines (body : List Char) : List (List Char) :=
  (scanText maxScanTokenSize body).takeWhile fun line => after dataPrefix line ≠ some doneMark

/-- The lines that are not read. -/
def unseenLines (body : List Char) : List (List Char) :=
  (LineScanner.lines body).drop (seenLines body).length

theorem seenLines_append_unseenLines (body : List Char) :
    seenLines body ++ unseenLines body = LineScanner.lines body := by
  have hseen : seenLines body <+: LineScanner.lines body :=
    (List.takeWhile_prefix _).trans (LineScanner.scanText_prefix_lines _ _)
  obtain ⟨rest, hrest⟩ := hseen
  rw [unseenLines, ← hrest, drop_left]

theorem streamLoop_eq (model : String) (lines : List (List Char)) :
    streamLoop floats model lines =
      ((lines.takeWhile fun line => after dataPrefix line ≠ some doneMark).filterMap
        (lineResponse floats)).map fun p => streamChunk floats model p.1 p.2 := by
  induction lines with
  | nil => rfl
  | cons line lines ih =>
    cases hdata : after dataPrefix line with
    | none =>
      simp [streamLoop, hdata, lineResponse, ih]
    | some data =>
      by_cases hdone : data = doneMark
      · simp [streamLoop, hdata, hdone]
      · cases hwire : JsonText.unmarshal (GenWireResponse.read floats) data with
        | none => simp [streamLoop, hdata, hdone, hwire, lineResponse, ih]
        | some wr =>
          cases hcandidates : wr.candidates with
          | nil => simp [streamLoop, hdata, hdone, hwire, lineResponse, hcandidates, ih]
          | cons c0 cs =>
            simp [streamLoop, hdata, hdone, hwire, lineResponse, hcandidates, ih]

/-! ## Agreement -/

/-- The tool calls of the chunks. -/
def chunkCalls (chunks : List StreamChunk) : List ToolCall := chunks.flatMap (·.delta.toolCalls)

/-- The chunks of a stream agree with a message. -/
structure Agrees (chunks : List StreamChunk) (m : Message) : Prop where
  /-- Only the last chunk can have a finish reason. -/
  finish : ∀ chunk ∈ chunks.dropLast, chunk.finishReason = ""
  /-- The contents add up. -/
  content : join "" (chunks.map (·.delta.content)) = m.content
  /-- The calls are the same in name and arguments. -/
  calls : (chunkCalls chunks).map ToolCall.function = m.toolCalls.map ToolCall.function
  /-- No two calls share an id. -/
  ids : ((chunkCalls chunks).map ToolCall.id).Nodup

/-- A part that says nothing. -/
def Blank (p : GenPart) : Prop := p.text = "" ∧ p.functionCall = none

theorem forall_blank_iff (floats : Floats ℚ) {parts : List GenPart} :
    (∀ p ∈ parts, Blank p) ↔ partTexts parts = [] ∧ partFunctions floats parts = [] := by
  simp [Blank, partTexts, partFunctions, filterMap_eq_nil_iff, forall_and]

variable {read : List (GenWireResponse × GenCandidate)}

theorem agrees_of_length_le_one (model : String) (h : read.length ≤ 1) :
    let chunks := read.map fun p => streamChunk floats model p.1 p.2
    let parts := read.flatMap fun p => p.2.content.parts
    (∀ chunk ∈ chunks.dropLast, chunk.finishReason = "") ∧
      join "" (chunks.map (·.delta.content)) = join "\n" (partTexts parts) ∧
      (chunkCalls chunks).map ToolCall.function = partFunctions floats parts ∧
      ((chunkCalls chunks).map ToolCall.id).Nodup := by
  cases read with
  | nil => simp [chunkCalls, partTexts, partFunctions, join]
  | cons p read =>
    obtain rfl : read = [] := eq_nil_of_length_eq_zero (by simpa using h)
    have hcontent : (streamChunk floats model p.1 p.2).delta.content =
        (splitParts floats p.2.content.parts).1 := rfl
    have hcalls : (streamChunk floats model p.1 p.2).delta.toolCalls =
        (splitParts floats p.2.content.parts).2 := rfl
    refine ⟨by simp, ?_, ?_, ?_⟩
    · simp [join, hcontent, splitParts_eq]
    · simp [chunkCalls, hcalls, splitParts_functions]
    · simpa [chunkCalls, hcalls] using splitParts_ids_nodup p.2.content.parts

theorem length_le_one_of_finish {model : String}
    (h : ∀ chunk ∈ (read.map fun p => streamChunk floats model p.1 p.2).dropLast,
      chunk.finishReason = "") : read.length ≤ 1 := by
  match read with
  | [] => exact Nat.zero_le 1
  | [p] => exact Nat.le_refl 1
  | p :: q :: read =>
    have hfirst : (streamChunk floats model p.1 p.2).finishReason = "" :=
      h _ (by simp)
    exact absurd hfirst (finishOf_ne_empty _ _)

theorem agrees_iff (model : String)
    {rest : List GenPart} {m : Message}
    (hm : (m.content, m.toolCalls) =
      splitParts floats (read.flatMap (fun p => p.2.content.parts) ++ rest)) :
    Agrees (read.map fun p => streamChunk floats model p.1 p.2) m ↔
      read.length ≤ 1 ∧ ∀ p ∈ rest, Blank p := by
  have hcontent : m.content = join "\n" (partTexts (read.flatMap fun p => p.2.content.parts) ++
      partTexts rest) := by
    rw [← partTexts_append]
    exact (congrArg Prod.fst hm).trans (congrArg Prod.fst (splitParts_eq _))
  have hcalls : m.toolCalls.map ToolCall.function =
      partFunctions floats (read.flatMap fun p => p.2.content.parts) ++
        partFunctions floats rest := by
    rw [← partFunctions_append, ← splitParts_functions]
    exact congrArg (map ToolCall.function) (congrArg Prod.snd hm)
  rw [forall_blank_iff floats]
  constructor
  · intro h
    have hone := length_le_one_of_finish h.finish
    obtain ⟨-, htext, hfunctions, -⟩ := agrees_of_length_le_one model hone
    refine ⟨hone, ?_, ?_⟩
    · have heq := h.content
      rw [htext, hcontent] at heq
      exact eq_nil_of_join_append_eq (partTexts_ne_empty rest) heq.symm
    · have heq := h.calls
      rw [hfunctions, hcalls] at heq
      exact self_eq_append_right.mp heq
  · rintro ⟨hone, htexts, hrest⟩
    obtain ⟨hfinish, htext, hfunctions, hids⟩ := agrees_of_length_le_one model hone
    exact
      { finish := hfinish
        content := by rw [htext, hcontent, htexts, append_nil]
        calls := by rw [hfunctions, hcalls, hrest, append_nil]
        ids := hids }

theorem fromGenWireResponse_eq_ok {now : Int} {model : String} {wr : GenWireResponse}
    {resp : ResponseEnvelope} (h : fromGenWireResponse floats now model wr = .ok resp) :
    ∃ c0 choice, wr.candidates.head? = some c0 ∧ resp.choices = [choice] ∧
      (choice.message.content, choice.message.toolCalls) = splitParts floats c0.content.parts := by
  unfold fromGenWireResponse at h
  simp only at h
  split at h
  · cases h
  · cases hcandidates : wr.candidates with
    | nil =>
      rw [hcandidates] at h
      cases h
    | cons c0 cs =>
      rw [hcandidates] at h
      cases h
      exact ⟨c0, _, rfl, rfl, rfl⟩

/-- The stream of a response agrees with the whole response exactly if the scanner sees at most one
piece of it, and the pieces that it does not see are blank. -/
theorem stream_agrees_iff (now : Int) (model : String) (body : List Char)
    (whole : GenWireResponse) (resp : ResponseEnvelope)
    (hparts : whole.candidates.head?.map (·.content.parts) =
      some ((candidates floats (LineScanner.lines body)).flatMap (·.content.parts)))
    (hresp : fromGenWireResponse floats now model whole = .ok resp) :
    (∃ choice, resp.choices = [choice] ∧ Agrees (stream floats model body) choice.message) ↔
      (candidates floats (seenLines body)).length ≤ 1 ∧
        ∀ c ∈ candidates floats (unseenLines body), ∀ p ∈ c.content.parts, Blank p := by
  obtain ⟨c0, choice, hhead, hchoice, hmessage⟩ := fromGenWireResponse_eq_ok hresp
  have hsplit : c0.content.parts =
      ((seenLines body).filterMap (lineResponse floats)).flatMap (fun p => p.2.content.parts) ++
        (candidates floats (unseenLines body)).flatMap (·.content.parts) := by
    rw [hhead, Option.map_some, Option.some.injEq, ← seenLines_append_unseenLines, candidates,
      filterMap_append, map_append, flatMap_append, flatMap_map] at hparts
    exact hparts
  rw [hsplit] at hmessage
  have hstream : stream floats model body =
      ((seenLines body).filterMap (lineResponse floats)).map fun p =>
        streamChunk floats model p.1 p.2 := streamLoop_eq model _
  have hagrees := agrees_iff model hmessage
  rw [← hstream, forall_mem_flatMap] at hagrees
  rw [candidates, length_map, ← hagrees]
  constructor
  · rintro ⟨choice', hchoice', h⟩
    rw [hchoice, singleton_inj] at hchoice'
    rwa [hchoice']
  · exact fun h => ⟨choice, hchoice, h⟩

def textEvent (text reason : String) : String :=
  "data: \x7b\"candidates\":[\x7b\"content\":\x7b\"parts\":[\x7b\"text\":\"" ++ text ++
    "\"\x7d]\x7d,\"finishReason\":\"" ++ reason ++ "\"\x7d]\x7d\n\n"

def textCandidate (texts : List String) (reason : String) : GenCandidate :=
  { content := { role := "", parts := texts.map fun t => { text := t } }, finishReason := reason }

theorem one_event_agrees :
    ∃ choice,
      (fromGenWireResponse wholeFloats 0 "m" { candidates := [textCandidate ["a"] "STOP"] }).map
        (·.choices) = .ok [choice] ∧
      Agrees (stream wholeFloats "m" (textEvent "a" "STOP").toList) choice.message := by
  have hlines : candidates wholeFloats (LineScanner.lines (textEvent "a" "STOP").toList) =
      [textCandidate ["a"] "STOP"] := by decide +kernel
  have hunseen : unseenLines (textEvent "a" "STOP").toList = [] := by decide +kernel
  have hseen := seenLines_append_unseenLines (textEvent "a" "STOP").toList
  rw [hunseen, append_nil] at hseen
  obtain ⟨choice, hchoice, h⟩ :=
    (stream_agrees_iff 0 "m" (textEvent "a" "STOP").toList
      { candidates := [textCandidate ["a"] "STOP"] } _ (by rw [hlines]; rfl) rfl).mpr
      ⟨by rw [hseen, hlines]; exact Nat.le_refl 1, by rw [hunseen]; exact forall_mem_nil _⟩
  exact ⟨choice, congrArg Except.ok hchoice, h⟩

def twoEvents : List Char := (textEvent "a" "" ++ textEvent "b" "STOP").toList

/-- Both chunks have a finish reason, and the line end between the texts is lost. -/
theorem two_events_disagree :
    candidates wholeFloats (LineScanner.lines twoEvents) =
        [textCandidate ["a"] "", textCandidate ["b"] "STOP"] ∧
      (stream wholeFloats "m" twoEvents).map (·.finishReason) = ["stop", "stop"] ∧
      (stream wholeFloats "m" twoEvents).map (·.delta.content) = ["a", "b"] ∧
      ∃ choice,
        (fromGenWireResponse wholeFloats 0 "m"
          { candidates := [textCandidate ["a", "b"] "STOP"] }).map (·.choices) = .ok [choice] ∧
        choice.message.content = "a\nb" ∧
        ¬ Agrees (stream wholeFloats "m" twoEvents) choice.message := by
  have hstream : stream wholeFloats "m" twoEvents = ["a", "b"].map fun text =>
      { model := "m", finishReason := "stop"
        delta := { role := "assistant", content := text } } := by
    decide +kernel
  rw [hstream]
  refine ⟨by decide +kernel, rfl, rfl, _, rfl, by decide +kernel, fun h => ?_⟩
  exact absurd h.content (by decide +kernel)

end

end Ixr.Adapters.GoogleAI
