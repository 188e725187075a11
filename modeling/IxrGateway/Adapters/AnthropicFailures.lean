import IxrGateway.Adapters.AnthropicStream

/-!
# Which failures of an Anthropic stream are reported

`Adapter.Stream` returns an error only where the scanner has one: a line of its
body is too long, or reading the body fails.  An `error` event is skipped like
any event of an unknown type, and a body that ends without `message_stop` is a
success.

The loop over the lines of an event only looks at its type
(`streamResult_type`, `streamResult_data`).  So only the lines up to the end of the first
`message_stop` matter (`streamResult_events`).
-/

namespace Ixr.Adapters.Anthropic

open List LineScanner

open LineScanner (ScanError after after_append dataPrefix maxScanTokenSize scanErr scanText size)

/-- An event of a stream, as it stands in the text. -/
structure SseEvent where
  type : String
  data : List Char
  type_line : ∀ c ∈ type.toList, c ≠ '\n' ∧ c ≠ '\r'
  data_line : ∀ c ∈ data, c ≠ '\n' ∧ c ≠ '\r'

namespace SseEvent

/-- The `event:` line. -/
def typeLine (e : SseEvent) : List Char := eventPrefix ++ e.type.toList

/-- The `data:` line. -/
def dataLine (e : SseEvent) : List Char := dataPrefix ++ e.data

/-- The lines of an event. -/
def lines (e : SseEvent) : List (List Char) := [e.typeLine, e.dataLine, []]

/-- One of its lines is too long for the scanner. -/
def Long (e : SseEvent) : Prop :=
  maxScanTokenSize ≤ size Char.utf8Size e.typeLine ∨
    maxScanTokenSize ≤ size Char.utf8Size e.dataLine

/-- The event that ends a stream. -/
def IsStop (e : SseEvent) : Prop := e.type = "message_stop"

instance (e : SseEvent) : Decidable e.IsStop := inferInstanceAs (Decidable (_ = _))

end SseEvent

/-- The body with these events. -/
def sseBody (events : List SseEvent) : List Char :=
  join '\n' (events.flatMap SseEvent.lines)

/-- The events that are read. -/
def upToStop : List SseEvent → List SseEvent
  | [] => []
  | e :: events => if e.IsStop then [e] else e :: upToStop events

/-! ## The lines of an event -/

theorem SseEvent.lines_plain (e : SseEvent) :
    ∀ line ∈ e.lines, '\n' ∉ line ∧ '\r' ∉ line := by
  have htype : ∀ c ∈ e.typeLine, c ≠ '\n' ∧ c ≠ '\r' :=
    forall_mem_append.mpr ⟨by simp [eventPrefix], e.type_line⟩
  have hdata : ∀ c ∈ e.dataLine, c ≠ '\n' ∧ c ≠ '\r' :=
    forall_mem_append.mpr ⟨by simp [dataPrefix], e.data_line⟩
  intro line hline
  simp only [SseEvent.lines, mem_cons, not_mem_nil, or_false] at hline
  rcases hline with rfl | rfl | rfl
  · exact ⟨fun h => (htype _ h).1 rfl, fun h => (htype _ h).2 rfl⟩
  · exact ⟨fun h => (hdata _ h).1 rfl, fun h => (hdata _ h).2 rfl⟩
  · exact ⟨not_mem_nil, not_mem_nil⟩

variable {events : List SseEvent} {e : SseEvent}

theorem lines_plain : ∀ line ∈ events.flatMap SseEvent.lines, '\n' ∉ line ∧ '\r' ∉ line := by
  intro line hline
  obtain ⟨e, -, hline⟩ := mem_flatMap.mp hline
  exact e.lines_plain line hline

theorem scanText_sseBody (events : List SseEvent) :
    scanText maxScanTokenSize (sseBody events) =
      (events.flatMap SseEvent.lines).takeWhile fun line =>
        size Char.utf8Size line < maxScanTokenSize := by
  rw [scanText, sseBody, scan_join fun line hline => (lines_plain line hline).1]
  refine (map_congr_left fun line hline => ?_).trans (map_id _)
  exact dropCR_of_notMem (lines_plain line ((takeWhile_subset _) hline)).2

theorem SseEvent.not_long_iff :
    ¬ e.Long ↔ ∀ line ∈ e.lines, size Char.utf8Size line < maxScanTokenSize := by
  have hempty : size Char.utf8Size [] < maxScanTokenSize := by decide
  simp [SseEvent.Long, SseEvent.lines, hempty]

theorem scanErr_sseBody (events : List SseEvent) (readFails : Bool) :
    (scanErr maxScanTokenSize readFails (sseBody events)).isSome = true ↔
      (∃ e ∈ events, e.Long) ∨ readFails = true := by
  have htokens : LineJournal.tokens '\n' (sseBody events) = events.flatMap SseEvent.lines :=
    tokens_join fun line hline => (lines_plain line hline).1
  have hshort : (∀ line ∈ events.flatMap SseEvent.lines,
      size Char.utf8Size line < maxScanTokenSize) ↔ ¬ ∃ e ∈ events, e.Long := by
    simp only [not_exists, not_and, SseEvent.not_long_iff, mem_flatMap]
    exact ⟨fun h e he line hline => h line ⟨e, he, hline⟩,
      fun h line ⟨e, he, hline⟩ => h e he line hline⟩
  rw [scanErr, htokens]
  split
  · next h =>
    rw [or_iff_right (hshort.mp h)]
    cases readFails <;> simp
  · next h =>
    have hlong : ∃ e ∈ events, e.Long := not_not.mp fun hnone => h (hshort.mpr hnone)
    simp [hlong]

/-! ## The loop -/

variable (err : Option ScanError) (type : String)

theorem streamResult_type (e : SseEvent) (lines : List (List Char)) :
    streamResult err type (e.typeLine :: lines) = streamResult err e.type lines := by
  simp only [streamResult, SseEvent.typeLine, after_append, String.ofList_toList]

theorem streamResult_data (e : SseEvent) (lines : List (List Char)) :
    streamResult err type (e.dataLine :: lines) =
      if type = "message_stop" then none else streamResult err type lines := by
  have hevent : after eventPrefix (dataPrefix ++ e.data) = none := by
    simp [LineScanner.after, eventPrefix, dataPrefix]
  simp only [streamResult, SseEvent.dataLine, hevent, after_append]

theorem streamResult_empty (lines : List (List Char)) :
    streamResult err type ([] :: lines) = streamResult err type lines := by
  simp [streamResult, LineScanner.after, eventPrefix, dataPrefix]

/-- The end of the stream is not reached. -/
def Unended (events : List SseEvent) : Prop :=
  (∃ e ∈ upToStop events, e.Long) ∨ ∀ e ∈ events, ¬ e.IsStop

theorem mem_upToStop_cons (e : SseEvent) (events : List SseEvent) : e ∈ upToStop (e :: events) := by
  rw [upToStop]
  split <;> exact mem_cons_self

theorem unended_cons (hlong : ¬ e.Long) (hstop : ¬ e.IsStop) (events : List SseEvent) :
    Unended (e :: events) ↔ Unended events := by
  simp [Unended, upToStop, hlong, hstop]

theorem streamResult_events (events : List SseEvent) :
    let result := streamResult err type ((events.flatMap SseEvent.lines).takeWhile fun line =>
      size Char.utf8Size line < maxScanTokenSize)
    (Unended events ∧ result = err) ∨ (¬ Unended events ∧ result = none) := by
  induction events generalizing type with
  | nil => exact .inl ⟨.inr (forall_mem_nil _), rfl⟩
  | cons e events ih =>
    rw [flatMap_cons, SseEvent.lines, cons_append, cons_append, singleton_append]
    by_cases hlong : e.Long
    · refine .inl ⟨.inl ⟨e, mem_upToStop_cons e events, hlong⟩, ?_⟩
      by_cases htype : size Char.utf8Size e.typeLine < maxScanTokenSize
      · have hdata : ¬ size Char.utf8Size e.dataLine < maxScanTokenSize :=
          not_lt.mpr (hlong.resolve_left (not_le.mpr htype))
        rw [takeWhile_cons_of_pos (by simpa using htype),
          takeWhile_cons_of_neg (by simpa using hdata), streamResult_type]
        rfl
      · rw [takeWhile_cons_of_neg (by simpa using htype)]
        rfl
    · have hshort := SseEvent.not_long_iff.mp hlong
      simp only [SseEvent.lines, forall_mem_cons] at hshort
      obtain ⟨htype, hdata, hempty, -⟩ := hshort
      rw [takeWhile_cons_of_pos (by simpa using htype),
        takeWhile_cons_of_pos (by simpa using hdata), takeWhile_cons_of_pos (by simpa using hempty),
        streamResult_type, streamResult_data, streamResult_empty]
      by_cases hstop : e.IsStop
      · exact .inr ⟨by simp [Unended, upToStop, hlong, hstop], if_pos hstop⟩
      · rw [unended_cons hlong hstop, if_neg (show ¬ e.type = "message_stop" from hstop)]
        exact ih e.type

theorem upToStop_eq_self (h : ∀ e ∈ events, ¬ e.IsStop) : upToStop events = events := by
  induction events with
  | nil => rfl
  | cons e events ih =>
    obtain ⟨he, hevents⟩ := forall_mem_cons.mp h
    rw [upToStop, if_neg he, ih hevents]

theorem upToStop_subset (events : List SseEvent) : upToStop events ⊆ events := by
  induction events with
  | nil => exact List.Subset.refl _
  | cons e events ih =>
    rw [upToStop]
    split
    · exact cons_subset_cons _ (nil_subset _)
    · exact cons_subset_cons _ ih

/-- `Stream` returns an error exactly if a line of the events up to the first `message_stop` is too
long, or there is no `message_stop` and reading the body fails. -/
theorem stream_error_iff (events : List SseEvent) (readFails : Bool) :
    (streamErr readFails (sseBody events)).isSome = true ↔
      (∃ e ∈ upToStop events, e.Long) ∨ (readFails = true ∧ ∀ e ∈ events, ¬ e.IsStop) := by
  rw [streamErr, scanText_sseBody]
  rcases streamResult_events (scanErr maxScanTokenSize readFails (sseBody events)) "" events with
    ⟨hunended, hresult⟩ | ⟨hended, hresult⟩
  · rw [hresult, scanErr_sseBody]
    rcases hunended with hlong | hstops
    · obtain ⟨e, he, hlong'⟩ := hlong
      exact iff_of_true (.inl ⟨e, upToStop_subset events he, hlong'⟩) (.inl ⟨e, he, hlong'⟩)
    · rw [upToStop_eq_self hstops]
      exact or_congr_right ⟨fun h => ⟨h, hstops⟩, And.left⟩
  · rw [hresult]
    refine iff_of_false (by simp) ?_
    rintro (hlong | ⟨-, hstops⟩)
    · exact hended (.inl hlong)
    · exact hended (.inr hstops)

def overloaded : SseEvent where
  type := "error"
  data := "\x7b\"type\":\"error\",\"error\":\x7b\"type\":\"overloaded_error\"\x7d\x7d".toList
  type_line := by simp
  data_line := by simp

/-- `Stream` returns no error for it. -/
theorem overloaded_not_reported : streamErr false (sseBody [overloaded]) = none := by
  decide

end Ixr.Adapters.Anthropic
