import IxrGateway.Adapters.AnthropicAgreement
import IxrGateway.Adapters.GoogleAIAgreement
import IxrGateway.Adapters.OpenAICompatStream
import IxrGateway.Ingress.Sse

/-!
# Which tool calls of a streamed turn are stored

Session capture keeps the tool calls of the last chunk that has any.  So an
adapter has to send all calls of a turn in one chunk, after everything else.

* `openaicompat` collects fragments by their index.  A chunk with a finish reason
  has the calls so far, so what is stored are the calls up to the last finish
  reason (`lastToolCalls_chunks`).
* `anthropic` collects the inputs of blocks.  The stored calls are those up to the
  last `message_delta` (`lastToolCalls_run`).
* `googleai` sends the calls of each event in a chunk of their own.  If two events
  have calls, those of the first are lost (`getLastD_eq_flatten_iff`).

`streamed_calls_stored_iff` puts this together for streams that end without an
error.
-/

open List

namespace Ixr.Ingress

theorem lastToolCalls_concat (chunks : List StreamChunk) (chunk : StreamChunk) :
    lastToolCalls (chunks ++ [chunk]) =
      if chunk.delta.toolCalls = [] then lastToolCalls chunks else chunk.delta.toolCalls := by
  rw [lastToolCalls, map_append, map_singleton, filter_append]
  split
  · next hnone => simp [lastToolCalls, hnone]
  · next hcalls =>
    rw [filter_cons_of_pos (by simpa using hcalls), filter_nil, getLastD_concat]

end Ixr.Ingress

/-! ## OpenAI-compatible providers -/

namespace Ixr.Adapters.OpenAICompat

open GoStrings (join)
open Ingress (lastToolCalls)
open LineScanner (after beforeDone dataPrefix doneMark maxScanTokenSize scanText)

/-- The last text that is not empty. -/
def lastNonempty (ss : List String) : String := (ss.filter (· ≠ "")).getLastD ""

/-- The call that some fragments make up. -/
def assemble (fs : List WireDeltaToolCall) : ToolCall where
  id := lastNonempty (fs.map (·.id))
  type := lastNonempty (fs.map (·.type))
  function :=
    { name := lastNonempty (fs.map (·.function.name))
      arguments := join "" (fs.map (·.function.arguments)) }

/-- The calls that fragments make up, in the order in which their indices first appear. -/
def assembleAll (fs : List WireDeltaToolCall) : List (Int × ToolCall) :=
  (fs.map (·.index)).eraseDups.map fun i => (i, assemble (fs.filter fun f => f.index = i))

/-- The calls of a turn. -/
def turnCalls (ds : List WireDeltaResponse) : List ToolCall :=
  (assembleAll (ds.flatMap (·.fragments))).map Prod.snd

theorem lastNonempty_concat (ss : List String) (s : String) :
    lastNonempty (ss ++ [s]) = if s ≠ "" then s else lastNonempty ss := by
  rw [lastNonempty, filter_append]
  by_cases hs : s = "" <;> simp [lastNonempty, hs]

variable (fs : List WireDeltaToolCall) (ds : List WireDeltaResponse)

theorem assemble_concat (f : WireDeltaToolCall) :
    assemble (fs ++ [f]) = addFragment (assemble fs) f := by
  have hone (s : String) : join "" [s] = s := by simp [join]
  simp only [assemble, addFragment, map_append, map_cons, map_nil,
    lastNonempty_concat, GoStrings.join_append, hone]

theorem eraseDups_concat (is : List Int) (i : Int) :
    (is ++ [i]).eraseDups = if i ∈ is then is.eraseDups else is.eraseDups ++ [i] := by
  rw [eraseDups_append]
  by_cases hi : i ∈ is <;> simp [removeAll, hi, eraseDups_cons]

theorem eraseDups_nodup (is : List Int) : is.eraseDups.Nodup := by
  induction is using reverseRecOn with
  | nil => exact nodup_nil
  | append_singleton is i ih =>
    rw [eraseDups_concat]
    split
    · exact ih
    · next hi =>
      refine ih.append (nodup_singleton i) (disjoint_singleton.mpr ?_)
      rwa [mem_eraseDups]

theorem keys_assembleAll : (assembleAll fs).map Prod.fst = (fs.map (·.index)).eraseDups := by
  rw [assembleAll, map_map]
  exact map_id _

theorem assembleAll_concat (f : WireDeltaToolCall) :
    assembleAll (fs ++ [f]) =
      (if f.index ∈ fs.map (·.index) then assembleAll fs
        else assembleAll fs ++ [(f.index, ({} : ToolCall))]).map fun p =>
          if p.1 = f.index then (p.1, addFragment p.2 f) else p := by
  have hentry (i : Int) : (i, assemble ((fs ++ [f]).filter fun f => f.index = i)) =
      if i = f.index then (i, addFragment (assemble (fs.filter fun f => f.index = i)) f)
      else (i, assemble (fs.filter fun f => f.index = i)) := by
    rw [filter_append]
    split
    · next hi => rw [filter_singleton, decide_eq_true hi.symm, cond_true, assemble_concat]
    · next hi =>
      rw [filter_singleton, decide_eq_false fun h => hi h.symm, cond_false, append_nil]
  have hold : (assembleAll fs).map (fun p =>
      if p.1 = f.index then (p.1, addFragment p.2 f) else p) =
      (fs.map (·.index)).eraseDups.map fun i =>
        (i, assemble ((fs ++ [f]).filter fun f => f.index = i)) := by
    rw [assembleAll, map_map]
    exact map_congr_left fun i _ => (hentry i).symm
  rw [assembleAll, map_append, map_singleton, eraseDups_concat]
  split
  · exact hold.symm
  · next hnew =>
    have hnone : fs.filter (fun f' => f'.index = f.index) = [] :=
      filter_eq_nil_iff.mpr fun f' hf' hindex =>
        hnew (of_decide_eq_true hindex ▸ mem_map_of_mem hf')
    have hfirst : (f.index, assemble ((fs ++ [f]).filter fun f' => f'.index = f.index)) =
        (f.index, addFragment {} f) := by
      rw [hentry, if_pos rfl, hnone]
      rfl
    rw [map_append, map_append, hold, map_singleton, map_singleton, hfirst, if_pos rfl]

theorem add_append (a : ToolCallAccumulator) (fs more : List WireDeltaToolCall) :
    a.add (fs ++ more) = (a.add fs).add more := foldl_append

theorem add_eq :
    ({} : ToolCallAccumulator).add fs =
      { byIndex := assembleAll fs, order := (fs.map (·.index)).eraseDups } := by
  induction fs using reverseRecOn with
  | nil => rfl
  | append_singleton fs f ih =>
    rw [add_append, ih, ToolCallAccumulator.add, foldl_cons, foldl_nil, ToolCallAccumulator.addOne,
      assembleAll_concat, map_append, map_singleton, eraseDups_concat, keys_assembleAll]
    simp only [mem_eraseDups]
    split <;> rfl

theorem finalize_eq :
    (({} : ToolCallAccumulator).add fs).finalize = (assembleAll fs).map Prod.snd := by
  rw [add_eq, ToolCallAccumulator.finalize, ← keys_assembleAll]
  apply Anthropic.filterMap_lookup_keys
  rw [keys_assembleAll]
  exact eraseDups_nodup _

theorem turnCalls_eq_nil_iff {ds : List WireDeltaResponse} :
    turnCalls ds = [] ↔ ds.flatMap (·.fragments) = [] := by
  rw [turnCalls, map_eq_nil_iff, assembleAll, map_eq_nil_iff]
  cases ds.flatMap (·.fragments) with
  | nil => simp
  | cons f fs => simp [eraseDups_cons]

theorem empty_add :
    (({} : ToolCallAccumulator).add (ds.flatMap (·.fragments))).empty = true ↔
      turnCalls ds = [] := by
  rw [turnCalls, map_eq_nil_iff, assembleAll, map_eq_nil_iff, add_eq,
    ToolCallAccumulator.empty, List.isEmpty_iff]

/-- The chunk in a line. -/
def lineDelta (line : List Char) : Option WireDeltaResponse :=
  (after dataPrefix line).bind fun data => JsonText.unmarshal WireDeltaResponse.read data

/-- The deltas that some lines bring, before `[DONE]`. -/
def deltas (lines : List (List Char)) : List WireDeltaResponse :=
  (beforeDone lines).filterMap lineDelta

/-- The chunks that are sent on. -/
def chunks (toolCalls : ToolCallAccumulator) : List WireDeltaResponse → List StreamChunk
  | [] => []
  | d :: ds =>
    chunkOf (toolCalls.add d.fragments) d :: chunks (toolCalls.add d.fragments) ds

theorem streamLoop_eq (toolCalls : ToolCallAccumulator) (lines : List (List Char)) :
    streamLoop toolCalls lines = chunks toolCalls (deltas lines) := by
  induction lines generalizing toolCalls with
  | nil => rfl
  | cons line lines ih =>
    cases hdata : after dataPrefix line with
    | none => simp [streamLoop, hdata, deltas, beforeDone, lineDelta, ih]
    | some data =>
      by_cases hdone : data = doneMark
      · simp [streamLoop, hdata, hdone, deltas, beforeDone, chunks]
      · cases hwire : JsonText.unmarshal WireDeltaResponse.read data with
        | none => simp [streamLoop, hdata, hdone, hwire, deltas, beforeDone, lineDelta, ih]
        | some d =>
          simp [streamLoop, hdata, hdone, hwire, deltas, beforeDone, lineDelta, ih, chunks]

theorem chunks_concat (toolCalls : ToolCallAccumulator) (ds : List WireDeltaResponse)
    (d : WireDeltaResponse) :
    chunks toolCalls (ds ++ [d]) =
      chunks toolCalls ds ++
        [chunkOf (toolCalls.add ((ds ++ [d]).flatMap (·.fragments))) d] := by
  induction ds generalizing toolCalls with
  | nil => simp [chunks]
  | cons d' ds ih =>
    rw [cons_append, chunks, ih, chunks, cons_append, flatMap_cons, add_append]

/-- The delta has no finish reason. -/
def Unfinished (d : WireDeltaResponse) : Prop := (deltaToChunk d).finishReason = ""

instance (d : WireDeltaResponse) : Decidable (Unfinished d) :=
  inferInstanceAs (Decidable (_ = _))

theorem deltaToChunk_toolCalls (d : WireDeltaResponse) : (deltaToChunk d).delta.toolCalls = [] := by
  unfold deltaToChunk
  cases d.choices <;> rfl

/-- The deltas up to the last one with a finish reason. -/
def upToFinish (ds : List WireDeltaResponse) : List WireDeltaResponse :=
  ds.rdropWhile fun d => Unfinished d

theorem turnCalls_upToFinish_eq_nil {ds : List WireDeltaResponse} (h : turnCalls ds = []) :
    turnCalls (upToFinish ds) = [] := by
  obtain ⟨rest, hrest⟩ := rdropWhile_prefix (fun d => decide (Unfinished d)) ds
  rw [turnCalls_eq_nil_iff, ← hrest, flatMap_append] at h
  exact turnCalls_eq_nil_iff.mpr (append_eq_nil_iff.mp h).1

theorem chunkOf_toolCalls (d : WireDeltaResponse) :
    (chunkOf
        (({} : ToolCallAccumulator).add ((ds ++ [d]).flatMap (·.fragments))) d).delta.toolCalls =
      if Unfinished d then [] else turnCalls (ds ++ [d]) := by
  have hempty := empty_add (ds ++ [d])
  have hfinalize : _ = turnCalls (ds ++ [d]) := finalize_eq _
  generalize ({} : ToolCallAccumulator).add ((ds ++ [d]).flatMap (·.fragments)) = acc at *
  unfold chunkOf
  dsimp only
  split
  · next h => rw [if_neg (show ¬ Unfinished d from h.1), ← hfinalize]
  · next h =>
    rw [deltaToChunk_toolCalls]
    split
    · rfl
    · next hfinish =>
      have hacc : acc.empty = true := by
        by_contra hne
        exact h ⟨hfinish, Bool.eq_false_of_not_eq_true hne⟩
      exact (hempty.mp hacc).symm

theorem lastToolCalls_chunks : lastToolCalls (chunks {} ds) = turnCalls (upToFinish ds) := by
  induction ds using reverseRecOn with
  | nil => rfl
  | append_singleton ds d ih =>
    rw [chunks_concat, Ingress.lastToolCalls_concat, chunkOf_toolCalls]
    by_cases hfinish : Unfinished d
    · rw [if_pos hfinish, if_pos rfl, ih, upToFinish, upToFinish,
        rdropWhile_concat_pos _ _ _ (by simpa using hfinish)]
    · rw [if_neg hfinish, ih, upToFinish, upToFinish,
        rdropWhile_concat_neg _ _ _ (by simpa using hfinish)]
      split
      · next hnone =>
        -- no call yet, in this delta or before it
        rw [hnone, ← upToFinish]
        rw [turnCalls_eq_nil_iff, flatMap_append] at hnone
        exact turnCalls_upToFinish_eq_nil
          (turnCalls_eq_nil_iff.mpr (append_eq_nil_iff.mp hnone).1)
      · rfl

theorem stream_of_normal {readFails : Bool} {body : List Char}
    (h : streamErr readFails body = none) :
    stream body = chunks {} (deltas (LineScanner.lines body)) := by
  rw [stream, streamLoop_eq, deltas, LineScanner.beforeDone_scanText h, deltas]

end Ixr.Adapters.OpenAICompat

/-! ## Anthropic -/

namespace Ixr.Adapters.Anthropic

open GoStrings (join)
open Ingress (lastToolCalls)
open LineScanner (ScanError after after_append dataPrefix maxScanTokenSize scanErr scanText)

/-- The index of a started call. -/
def toolIndex : Event → Option Int
  | .blockStart cbs => if cbs.type = "tool_use" then some cbs.index else none
  | _ => none

/-- A piece of the call's arguments. -/
def inputPiece (index : Int) : Event → Option String
  | .blockDelta cbd =>
    if cbd.type = "input_json_delta" ∧ cbd.index = index then some cbd.partialJSON else none
  | _ => none

/-- The calls of the tool blocks, each with the input that comes after its start. -/
def indexedCalls : List Event → List (Int × ToolCall)
  | [] => []
  | .blockStart cbs :: evs =>
    if cbs.type = "tool_use" then
      (cbs.index,
        { id := cbs.id, type := "function"
          function :=
            { name := cbs.name
              arguments := join "" (evs.filterMap (inputPiece cbs.index)) } }) ::
        indexedCalls evs
    else indexedCalls evs
  | _ :: evs => indexedCalls evs

/-- The calls of a turn. -/
def turnCalls (evs : List Event) : List ToolCall := (indexedCalls evs).map Prod.snd

theorem keys_addArguments (calls : List (Int × ToolCall)) (index : Int) (partialJSON : String) :
    (calls.map fun p =>
      if p.1 = index then (p.1, addArguments p.2 partialJSON) else p).map Prod.fst =
      calls.map Prod.fst := by
  rw [map_map]
  refine map_congr_left fun p _ => ?_
  by_cases hindex : p.1 = index <;> simp [hindex]

/-- The call with its pieces. -/
def addPieces (evs : List Event) (p : Int × ToolCall) : Int × ToolCall :=
  (p.1, addArguments p.2 (join "" (evs.filterMap (inputPiece p.1))))

theorem addPieces_cons_of_none {ev : Event} (h : ∀ index, inputPiece index ev = none)
    (evs : List Event) : addPieces (ev :: evs) = addPieces evs := by
  funext p
  rw [addPieces, filterMap_cons_none (h p.1), addPieces]

theorem addPieces_cons_input {cbd : StreamContentBlockDelta} (h : cbd.type = "input_json_delta")
    (evs : List Event) (p : Int × ToolCall) :
    addPieces (.blockDelta cbd :: evs) p =
      addPieces evs
        (if p.1 = cbd.index then (p.1, addArguments p.2 cbd.partialJSON) else p) := by
  by_cases hindex : p.1 = cbd.index
  · have hpiece : inputPiece p.1 (.blockDelta cbd) = some cbd.partialJSON :=
      if_pos ⟨h, hindex.symm⟩
    rw [addPieces, filterMap_cons_some hpiece, GoStrings.join_cons]
    simp [addPieces, hindex, addArguments, String.append_assoc]
  · have hpiece : inputPiece p.1 (.blockDelta cbd) = none :=
      if_neg fun h => hindex h.2.symm
    rw [addPieces, filterMap_cons_none hpiece, if_neg hindex, addPieces]

variable {evs : List Event}

theorem run_toolCalls {calls : List (Int × ToolCall)} {st : StreamState}
    (hst : st.toolCalls = .of calls)
    (hnodup : (calls.map Prod.fst ++ evs.filterMap toolIndex).Nodup) :
    (run st evs).1.toolCalls = .of (calls.map (addPieces evs) ++ indexedCalls evs) := by
  induction evs generalizing calls st with
  | nil =>
    have hsame (p : Int × ToolCall) : addPieces [] p = p := by
      simp [addPieces, addArguments, join]
    rw [run, map_congr_left fun p _ => hsame p, map_id', indexedCalls, append_nil, hst]
  | cons ev evs ih =>
    rw [run]
    cases ev with
    | messageStart | messageDelta | messageStop | other => exact ih hst hnodup
    | blockStart cbs =>
      rw [addPieces_cons_of_none fun _ => rfl, Event.apply, indexedCalls]
      by_cases htool : cbs.type = "tool_use"
      · rw [filterMap_cons_some (show toolIndex (.blockStart cbs) = some cbs.index from
          if_pos htool)] at hnodup
        have hnew : cbs.index ∉ calls.map Prod.fst :=
          fun hmem => (disjoint_of_nodup_append hnodup) hmem mem_cons_self
        have hlater : ({ st with toolCalls := st.toolCalls.start cbs.index cbs.id cbs.name } :
            StreamState).toolCalls = .of (calls ++ [(cbs.index,
              { id := cbs.id, type := "function", function := { name := cbs.name } })]) := by
          rw [hst]
          exact start_of_notMem hnew cbs.id cbs.name
        rw [if_pos htool, if_pos htool, ih hlater (by simpa using hnodup), map_append, append_assoc]
        simp [addPieces, addArguments]
      · rw [filterMap_cons_none (show toolIndex (.blockStart cbs) = none from
          if_neg htool)] at hnodup
        rw [if_neg htool, if_neg htool, ih hst hnodup]
    | blockDelta cbd =>
      have hsame : indexedCalls (.blockDelta cbd :: evs) = indexedCalls evs := rfl
      rw [Event.apply, hsame]
      by_cases hinput : cbd.type = "input_json_delta"
      · have hlater : ({ st with
            toolCalls := st.toolCalls.appendArgs cbd.index cbd.partialJSON } :
              StreamState).toolCalls = .of (calls.map fun p =>
                if p.1 = cbd.index then (p.1, addArguments p.2 cbd.partialJSON) else p) := by
          rw [hst, ToolCallAccumulator.appendArgs, ToolCallAccumulator.of, ToolCallAccumulator.of,
            keys_addArguments]
        rw [if_neg (by simp [hinput]), if_pos hinput,
          ih hlater (by rwa [keys_addArguments]), map_map]
        congr 2
        exact map_congr_left fun p _ => (addPieces_cons_input hinput evs p).symm
      · have hnone (index : Int) : inputPiece index (.blockDelta cbd) = none :=
          if_neg fun h => hinput h.1
        rw [addPieces_cons_of_none hnone]
        by_cases htext : cbd.type = "text_delta"
        · rw [if_pos htext, ih hst hnodup]
        · rw [if_neg htext, if_neg hinput, ih hst hnodup]

theorem keys_indexedCalls (evs : List Event) :
    (indexedCalls evs).map Prod.fst = evs.filterMap toolIndex := by
  induction evs with
  | nil => rfl
  | cons ev evs ih =>
    cases ev with
    | blockStart cbs =>
      by_cases htool : cbs.type = "tool_use" <;> simp [indexedCalls, toolIndex, htool, ih]
    | _ => exact ih

theorem finalize_run (h : (evs.filterMap toolIndex).Nodup) :
    (run {} evs).1.toolCalls.finalize = turnCalls evs := by
  have hrun := @run_toolCalls evs [] {} rfl h
  rw [map_nil, nil_append] at hrun
  rw [hrun, finalize_of (by rwa [keys_indexedCalls]), turnCalls]

/-- The event sends the calls on. -/
def Event.isFinal : Event → Bool
  | .messageDelta _ => true
  | _ => false

/-- The events up to the last `message_delta`. -/
def upToFinal (evs : List Event) : List Event := evs.rdropWhile fun ev => !ev.isFinal

theorem turnCalls_eq_nil_iff : turnCalls evs = [] ↔ evs.filterMap toolIndex = [] := by
  rw [turnCalls, map_eq_nil_iff, ← map_eq_nil_iff (f := Prod.fst), keys_indexedCalls]

theorem turnCalls_upToFinal_eq_nil (h : turnCalls evs = []) : turnCalls (upToFinal evs) = [] := by
  obtain ⟨rest, hrest⟩ := rdropWhile_prefix (fun ev : Event => !ev.isFinal) evs
  rw [turnCalls_eq_nil_iff, ← hrest, filterMap_append] at h
  exact turnCalls_eq_nil_iff.mpr (append_eq_nil_iff.mp h).1

theorem turnCalls_concat_final (evs : List Event) (md : StreamMessageDelta) :
    turnCalls (evs ++ [.messageDelta md]) = turnCalls evs := by
  have hcalls : indexedCalls (evs ++ [.messageDelta md]) = indexedCalls evs := by
    induction evs with
    | nil => rfl
    | cons ev evs ih =>
      cases ev with
      | blockStart cbs =>
        have hpieces : (evs ++ [Event.messageDelta md]).filterMap (inputPiece cbs.index) =
            evs.filterMap (inputPiece cbs.index) := by
          rw [filterMap_append, filterMap_cons_none rfl, filterMap_nil, append_nil]
        rw [cons_append, indexedCalls, indexedCalls, ih, hpieces]
      | _ => exact ih
  rw [turnCalls, hcalls, turnCalls]

theorem lastToolCalls_apply {ev : Event} (h : ev.isFinal = false) (st : StreamState)
    (chunks : List StreamChunk) :
    lastToolCalls (chunks ++ (ev.apply st).2) = lastToolCalls chunks := by
  have hnone (text : String) :
      lastToolCalls (chunks ++ [st.textChunk text]) = lastToolCalls chunks := by
    rw [Ingress.lastToolCalls_concat]
    exact if_pos rfl
  cases ev with
  | messageDelta md => cases h
  | blockStart cbs =>
    rw [Event.apply]
    split <;> rw [append_nil]
  | blockDelta cbd =>
    rw [Event.apply]
    split
    · exact hnone cbd.text
    · split <;> rw [append_nil]
  | _ => rw [Event.apply, append_nil]

theorem lastToolCalls_run (h : (evs.filterMap toolIndex).Nodup) :
    lastToolCalls (run {} evs).2 = turnCalls (upToFinal evs) := by
  induction evs using reverseRecOn with
  | nil => rfl
  | append_singleton evs ev ih =>
    have hbefore : (evs.filterMap toolIndex).Nodup := by
      rw [filterMap_append] at h
      exact h.of_append_left
    rw [run_append]
    show lastToolCalls ((run {} evs).2 ++ ((ev.apply (run {} evs).1).2 ++ [])) = _
    rw [append_nil, upToFinal]
    by_cases hfinal : ev.isFinal = true
    · obtain ⟨md, rfl⟩ : ∃ md, ev = .messageDelta md := by
        cases ev with
        | messageDelta md => exact ⟨md, rfl⟩
        | _ => cases hfinal
      rw [rdropWhile_concat_neg _ _ _ (by simp [Event.isFinal]), turnCalls_concat_final,
        Event.apply, Ingress.lastToolCalls_concat]
      have hcalls : ((run {} evs).1.finalChunk md).delta.toolCalls = turnCalls evs :=
        finalize_run hbefore
      rw [hcalls, ih hbefore]
      split
      · next hnone => rw [turnCalls_upToFinal_eq_nil hnone, hnone]
      · rfl
    · rw [lastToolCalls_apply (Bool.eq_false_of_not_eq_true hfinal), ih hbefore, upToFinal,
        rdropWhile_concat_pos _ _ _ (by simpa using hfinal)]

theorem streamLoop_append_of_stop {err : ScanError} {type : String} {lines : List (List Char)}
    (h : streamResult (some err) type lines = none) (st : StreamState)
    (rest : List (List Char)) : streamLoop type st (lines ++ rest) = streamLoop type st lines := by
  induction lines generalizing type st with
  | nil => cases h
  | cons line lines ih =>
    rw [streamResult] at h
    rw [cons_append, streamLoop, streamLoop]
    cases hevent : after eventPrefix line with
    | some name =>
      rw [hevent] at h
      exact ih h st
    | none =>
      rw [hevent] at h
      cases hdata : after dataPrefix line with
      | none =>
        rw [hdata] at h
        exact ih h st
      | some data =>
        rw [hdata] at h
        dsimp only at h ⊢
        split
        · rfl
        · next hstop =>
          rw [if_neg hstop] at h
          rw [ih h]

/-- A stream that ends without an error has been read up to its end, or to that of the message. -/
theorem stream_eq_streamLoop {readFails : Bool} {body : List Char}
    (h : streamErr readFails body = none) :
    stream body = streamLoop "" {} (LineScanner.lines body) := by
  cases hscan : scanErr maxScanTokenSize readFails body with
  | none => rw [stream, LineScanner.scanText_eq_lines hscan]
  | some err =>
    rw [streamErr, hscan] at h
    obtain ⟨rest, hrest⟩ := LineScanner.scanText_prefix_lines maxScanTokenSize body
    rw [stream, ← hrest, streamLoop_append_of_stop h]

/-- The events that are handled. -/
def beforeStop (evs : List Event) : List Event := evs.takeWhile (· ≠ .messageStop)

theorem streamLoop_beforeStop {lines : List (List Char)} (h : Sent evs lines) (type : String)
    (st : StreamState) : streamLoop type st lines = (run st (beforeStop evs)).2 := by
  induction h generalizing type st with
  | nil => rfl
  | filler hline h ih => rw [streamLoop_filler hline, ih]
  | @event ev evs evType mid lines data hmid hdata h ih =>
    rw [streamLoop_type, streamLoop_fillers hmid, beforeStop]
    by_cases hev : ev = .messageStop
    · subst hev
      cases hdata
      rw [takeWhile_cons_of_neg (by simp)]
      simp only [streamLoop, after_eventPrefix_data, after_append, if_true, run]
    · rw [streamLoop_data hdata hev, ih, takeWhile_cons_of_pos (by simpa using hev), run,
        beforeStop]

end Ixr.Adapters.Anthropic

/-! ## Gemini -/

namespace Ixr.Adapters.GoogleAI

open JsonText (Floats)
open Ingress (lastToolCalls)

theorem getLastD_eq_flatten_iff {α : Type} {ls : List (List α)} (h : ∀ l ∈ ls, l ≠ []) :
    ls.getLastD [] = ls.flatten ↔ ls.length ≤ 1 := by
  induction ls using reverseRecOn with
  | nil => simp
  | append_singleton front last _ =>
    have hfront : front.flatten = [] ↔ front = [] := by
      constructor
      · intro hflat
        refine eq_nil_iff_forall_not_mem.mpr fun l hl => ?_
        exact h l (mem_append_left _ hl) (flatten_eq_nil_iff.mp hflat l hl)
      · rintro rfl
        rfl
    rw [getLastD_concat, flatten_append, flatten_singleton, self_eq_append_left, hfront]
    simp

/-- The calls of an event. -/
def eventCalls (floats : Floats ℚ) (c : GenCandidate) : List ToolCall :=
  (splitParts floats c.content.parts).2

/-- The events that some lines bring, before `[DONE]`. -/
def events (floats : Floats ℚ) (lines : List (List Char)) : List GenCandidate :=
  candidates floats (LineScanner.beforeDone lines)

/-- The calls of a turn. -/
def turnCalls (floats : Floats ℚ) (cs : List GenCandidate) : List ToolCall :=
  cs.flatMap (eventCalls floats)

/-- At most one event has calls. -/
def AtMostOne (floats : Floats ℚ) (cs : List GenCandidate) : Prop :=
  (cs.filter fun c => eventCalls floats c ≠ []).length ≤ 1

instance (floats : Floats ℚ) (cs : List GenCandidate) : Decidable (AtMostOne floats cs) :=
  Nat.decLe _ _

theorem stream_calls_of_normal (floats : Floats ℚ) (model : String) {readFails : Bool}
    {body : List Char} (h : streamErr readFails body = none) :
    (stream floats model body).map (·.delta.toolCalls) =
      (events floats (LineScanner.lines body)).map (eventCalls floats) := by
  rw [stream, streamLoop_eq, events, candidates, ← LineScanner.beforeDone_scanText h, map_map,
    map_map]
  rfl

theorem lastToolCalls_stream_iff (floats : Floats ℚ) (model : String) {readFails : Bool}
    {body : List Char} (h : streamErr readFails body = none) :
    lastToolCalls (stream floats model body) =
        turnCalls floats (events floats (LineScanner.lines body)) ↔
      AtMostOne floats (events floats (LineScanner.lines body)) := by
  rw [lastToolCalls, stream_calls_of_normal floats model h]
  generalize events floats (LineScanner.lines body) = cs
  have hflat : turnCalls floats cs = ((cs.map (eventCalls floats)).filter (· ≠ [])).flatten := by
    rw [flatten_filter_ne_nil, turnCalls, flatMap_def]
  rw [hflat, getLastD_eq_flatten_iff, AtMostOne, filter_map, length_map]
  · rfl
  · exact fun l hl => of_decide_eq_true (mem_filter.mp hl).2

end Ixr.Adapters.GoogleAI

/-! ## What is stored -/

namespace Ixr.Ingress

open Adapters
open JsonText (Floats)

/-- The calls in the session. -/
def storedCalls (sent : List (Int64 × StreamChunk)) : List ToolCall :=
  (parseSSEAssistantTurn (sseText sent)).1.toolCalls

/-- For a stream that ends without an error and whose chunks are not too long for the capture, the
tool calls that are stored are those of the turn exactly if

* a provider like OpenAI has sent them all when the last finish reason comes,
* Anthropic has sent them all when the last `message_delta` comes,
* at most one event of Gemini has calls. -/
theorem streamed_calls_stored_iff (floats : Floats ℚ) (readFails : Bool) (body : List Char)
    (sent : List (Int64 × StreamChunk))
    (hshort : ∀ p ∈ sent, LineScanner.size Char.utf8Size (sseLine p.1 p.2) < captureLimit) :
    (OpenAICompat.streamErr readFails body = none →
      sent.map Prod.snd = OpenAICompat.stream body →
      let ds := OpenAICompat.deltas (LineScanner.lines body)
      (storedCalls sent = OpenAICompat.turnCalls ds ↔
        OpenAICompat.turnCalls (OpenAICompat.upToFinish ds) = OpenAICompat.turnCalls ds)) ∧
    (Anthropic.streamErr readFails body = none →
      sent.map Prod.snd = Anthropic.stream body →
      ∀ evs, Anthropic.Sent evs (LineScanner.lines body) →
      let evs := Anthropic.beforeStop evs
      (evs.filterMap Anthropic.toolIndex).Nodup →
      (storedCalls sent = Anthropic.turnCalls evs ↔
        Anthropic.turnCalls (Anthropic.upToFinal evs) = Anthropic.turnCalls evs)) ∧
    (GoogleAI.streamErr readFails body = none →
      ∀ model, sent.map Prod.snd = GoogleAI.stream floats model body →
      let cs := GoogleAI.events floats (LineScanner.lines body)
      (storedCalls sent = GoogleAI.turnCalls floats cs ↔ GoogleAI.AtMostOne floats cs)) := by
  have hstored : storedCalls sent = lastToolCalls (sent.map Prod.snd) := by
    rw [storedCalls, (capture_exact sent hshort).1]
  rw [hstored]
  refine ⟨fun hnormal hsent => ?_, fun hnormal hsent evs hevs hdistinct => ?_,
    fun hnormal model hsent => ?_⟩
  · rw [hsent, OpenAICompat.stream_of_normal hnormal, OpenAICompat.lastToolCalls_chunks]
  · rw [hsent, Anthropic.stream_eq_streamLoop hnormal, Anthropic.streamLoop_beforeStop hevs,
      Anthropic.lastToolCalls_run hdistinct]
  · rw [hsent]
    exact GoogleAI.lastToolCalls_stream_iff floats model hnormal

def sentAtOnce (chunks : List StreamChunk) : List (Int64 × StreamChunk) :=
  chunks.map fun chunk => (0, chunk)

theorem sentAtOnce_chunks (chunks : List StreamChunk) :
    (sentAtOnce chunks).map Prod.snd = chunks := by
  rw [sentAtOnce, map_map]
  exact map_id _

/-- A value on a data line of a body, and the empty line after it. -/
def dataLine (v : JsonText.Value) : List Char :=
  LineScanner.dataPrefix ++ JsonText.print v ++ ['\n', '\n']

def fragment (fields : List (String × JsonText.Value)) : String × JsonText.Value :=
  ("delta", .object [("tool_calls", .array [.object (("index", .number (.ofInt 0)) :: fields)])])

def clockBody : List Char :=
  dataLine (.object [("choices", .array [.object [fragment [("id", .string "a"),
    ("function", .object [("name", .string "clock"), ("arguments", .string "\x7b")])]]])]) ++
  dataLine (.object [("choices", .array [.object [fragment [
    ("function", .object [("arguments", .string "\x7d")])],
    ("finish_reason", .string "tool_calls")]])])

def blockBody : List Char :=
  LineScanner.join '\n'
    (Anthropic.eventLines "content_block_start" Anthropic.blockData ++
      Anthropic.eventLines "message_delta" Anthropic.endData)

def toolUseEvents : List Anthropic.Event :=
  [.blockStart { type := "tool_use", id := "t", name := "f" },
    .messageDelta { stopReason := "tool_use", outputTokens := 2 }]

theorem blockBody_sent : Anthropic.Sent toolUseEvents (LineScanner.lines blockBody) := by
  have hlines : LineScanner.lines blockBody =
      Anthropic.eventLines "content_block_start" Anthropic.blockData ++
        (Anthropic.eventLines "message_delta" Anthropic.endData ++ []) := by decide +kernel
  rw [hlines]
  exact Anthropic.sent_eventLines (.blockStart (by decide +kernel))
    (Anthropic.sent_eventLines (.messageDelta Anthropic.unmarshal_endData) .nil)

def callEvent (name : String) : List Char :=
  dataLine (.object [("candidates", .array [.object [("content", .object [("parts",
    .array [.object [("functionCall", .object [("name", .string name)])]])])]])])

/-- A call of each provider is stored whole. -/
theorem one_call_stored :
    (storedCalls (sentAtOnce (OpenAICompat.stream clockBody))).map
        (fun c => (c.id, c.function.name, c.function.arguments)) = [("a", "clock", "\x7b\x7d")] ∧
      storedCalls (sentAtOnce (Anthropic.stream blockBody)) = Anthropic.turnCalls toolUseEvents ∧
      storedCalls (sentAtOnce (GoogleAI.stream wholeFloats "gemini" (callEvent "sky"))) =
        GoogleAI.turnCalls wholeFloats
          (GoogleAI.events wholeFloats (LineScanner.lines (callEvent "sky"))) := by
  refine ⟨?_, ?_, ?_⟩
  · have hstored := (streamed_calls_stored_iff wholeFloats false clockBody _
      (by decide +kernel)).1 (by decide +kernel) (sentAtOnce_chunks _)
    rw [hstored.mpr (by decide +kernel)]
    decide +kernel
  · have hstored := (streamed_calls_stored_iff wholeFloats false blockBody _
      (by decide +kernel)).2.1 (by decide +kernel) (sentAtOnce_chunks _) toolUseEvents
      blockBody_sent (by decide)
    exact hstored.mpr (by decide)
  · have hstored := (streamed_calls_stored_iff wholeFloats false (callEvent "sky") _
      (by decide +kernel)).2.2 (by decide +kernel) "gemini" (sentAtOnce_chunks _)
    exact hstored.mpr (by decide +kernel)

/-- Of two events with a call each, only the second call is stored. -/
theorem twoCalls_first_lost :
    let body := callEvent "sky" ++ callEvent "sea"
    GoogleAI.streamErr false body = none ∧
    (GoogleAI.turnCalls wholeFloats
      (GoogleAI.events wholeFloats (LineScanner.lines body))).map (·.function.name) =
        ["sky", "sea"] ∧
    (storedCalls (sentAtOnce (GoogleAI.stream wholeFloats "gemini" body))).map
        (·.function.name) = ["sea"] :=
  ⟨by decide +kernel, by decide +kernel, by decide +kernel⟩

end Ixr.Ingress
