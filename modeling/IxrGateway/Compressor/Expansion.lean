import IxrGateway.Compressor.Text

/-!
# Expanding repeated lines

A reader of a collapsed text takes each marker line for further copies of the
line before it.  This gives back the text, if none of its own lines looks like
a marker (`expandLines_writeRun` for one run).  Such a line would be expanded
too, and the text that has it could not be told from a collapsed one.
-/

namespace Ixr.Compressor

open List

open Utf8 (Bytes ofString)

/-! ## Marker lines -/

/-- The number of a decimal text. -/
def readDecimal (digits : Bytes) : Option Nat :=
  let cs := Utf8.decode digits
  if cs ≠ [] ∧ cs.all Char.isDigit then some (Nat.ofDigitChars 10 cs 0) else none

/-- The number `N` of a line `... (repeated N times)`. -/
def markerCount (line : Bytes) : Option Nat := do
  let rest ← line.dropPrefix? (ofString "... (repeated ")
  let digits ← rest.dropSuffix? (ofString " times)")
  readDecimal digits

theorem decimal_eq (n : Nat) : decimal n = Utf8.encode (Nat.toDigits 10 n) := by
  rw [decimal, Utf8.ofString_eq]
  exact congrArg Utf8.encode Nat.toList_repr

theorem isDigit_of_mem {n : Nat} {c : Char} (h : c ∈ Nat.toDigits 10 n) : c.isDigit = true :=
  Nat.isDigit_of_mem_toDigits (by decide) (by decide) h

theorem readDecimal_decimal (n : Nat) : readDecimal (decimal n) = some n := by
  have hne : Nat.toDigits 10 n ≠ [] := Nat.toDigits_ne_nil
  have hall : (Nat.toDigits 10 n).all Char.isDigit = true :=
    all_eq_true.mpr fun _ => isDigit_of_mem
  have hvalue : Nat.ofDigitChars 10 (Nat.toDigits 10 n) 0 = n :=
    Nat.ofDigitChars_toDigits (by decide) (by decide)
  rw [readDecimal, decimal_eq, Utf8.decode_encode, if_pos ⟨hne, hall⟩, hvalue]

theorem markerCount_repeatMarker (n : Nat) : markerCount (repeatMarker n) = some n := by
  have hstart : (repeatMarker n).dropPrefix? (ofString "... (repeated ") =
      some (decimal n ++ ofString " times)") :=
    dropPrefix?_eq_some_iff.mpr ⟨_, append_assoc _ _ _, beq_self_eq_true _⟩
  have hend : (decimal n ++ ofString " times)").dropSuffix? (ofString " times)") =
      some (decimal n) :=
    dropSuffix?_eq_some_iff.mpr ⟨_, rfl, beq_self_eq_true _⟩
  rw [markerCount, hstart]
  show ((decimal n ++ ofString " times)").dropSuffix? (ofString " times)")).bind readDecimal = _
  rw [hend]
  exact readDecimal_decimal n

theorem newline_notMem_repeatMarker (n : Nat) : newline ∉ repeatMarker n := by
  have hdigits : Utf8.Blank Char.isDigit (decimal n) := ⟨_, fun _ => isDigit_of_mem, decimal_eq n⟩
  rw [repeatMarker, mem_append, mem_append, not_or, not_or]
  exact ⟨⟨by decide, hdigits.notMem (by decide) (by decide)⟩, by decide⟩

/-! ## Expansion -/

/-- Writes repeated lines out again. -/
def expandLines : Bytes → List Bytes → List Bytes
  | _, [] => []
  | before, line :: lines =>
    match markerCount line with
    | some n => replicate (n - 1) before ++ expandLines before lines
    | none => line :: expandLines line lines

/-- Undoes `collapseRepeatedLines`. -/
def expandRepeatedLines (content : Bytes) : Bytes :=
  joinLines (expandLines [] (splitLines content))

theorem expandLines_replicate {line : Bytes} (hplain : markerCount line = none)
    (rest : List Bytes) : ∀ {n : Nat}, 0 < n → ∀ before,
    expandLines before (replicate n line ++ rest) =
      replicate n line ++ expandLines line rest
  | 1, _, before => by simp [expandLines, hplain]
  | n + 2, _, before => by
    rw [replicate_succ, cons_append, expandLines, hplain]
    dsimp only
    rw [expandLines_replicate hplain rest n.succ_pos, cons_append]

theorem expandLines_writeRun {run : Bytes × Nat} (hplain : markerCount run.1 = none)
    (hpos : 0 < run.2) (before : Bytes) (rest : List Bytes) :
    expandLines before (writeRun run ++ rest) =
      replicate run.2 run.1 ++ expandLines run.1 rest := by
  unfold writeRun
  split
  · show expandLines before (run.1 :: repeatMarker run.2 :: rest) = _
    have hcopies : replicate run.2 run.1 = run.1 :: replicate (run.2 - 1) run.1 := by
      rw [← replicate_succ, Nat.sub_add_cancel hpos]
    rw [expandLines, hplain]
    dsimp only
    rw [expandLines, markerCount_repeatMarker, hcopies]
    rfl
  · exact expandLines_replicate hplain rest hpos before

theorem expandLines_flatMap {runs : List (Bytes × Nat)}
    (hplain : ∀ run ∈ runs, markerCount run.1 = none) (hpos : ∀ run ∈ runs, 0 < run.2) :
    ∀ before, expandLines before (runs.flatMap writeRun) =
      runs.flatMap fun run => replicate run.2 run.1 := by
  induction runs with
  | nil => exact fun _ => rfl
  | cons run runs ih =>
    intro before
    obtain ⟨hrun, hruns⟩ := forall_mem_cons.mp hplain
    obtain ⟨hone, hmore⟩ := forall_mem_cons.mp hpos
    rw [flatMap_cons, expandLines_writeRun hrun hone, ih hruns hmore, flatMap_cons]

theorem newline_notMem_written {content line : Bytes}
    (hline : line ∈ (textRuns content).flatMap writeRun) : newline ∉ line := by
  obtain ⟨run, hrun, hmem⟩ := mem_flatMap.mp hline
  have hfirst : newline ∉ run.1 := Lines.notMem_of_mem_splitOn (Lines.mem_of_mem_runs hrun)
  unfold writeRun at hmem
  split at hmem
  · rcases mem_cons.mp hmem with rfl | hmarker
    · exact hfirst
    · rw [mem_singleton.mp hmarker]
      exact newline_notMem_repeatMarker run.2
  · rw [eq_of_mem_replicate hmem]
    exact hfirst

theorem splitLines_collapseRepeatedLines (content : Bytes) :
    splitLines (collapseRepeatedLines content) = (textRuns content).flatMap writeRun :=
  splitOn_intercalate newline (fun _ => newline_notMem_written)
    (flatMap_writeRun_ne_nil content)

/-- Collapsing repeated lines is undone by expanding the markers, if no line of the text is
one. -/
theorem expandRepeatedLines_collapseRepeatedLines (content : Bytes)
    (hplain : ∀ line ∈ splitLines content, markerCount line = none) :
    expandRepeatedLines (collapseRepeatedLines content) = content := by
  have hruns : ∀ run ∈ textRuns content, markerCount run.1 = none :=
    fun run hrun => hplain run.1 (Lines.mem_of_mem_runs hrun)
  have hexpand := expandLines_flatMap hruns (fun _ => Lines.runsLoop_pos) []
  rw [expandRepeatedLines, splitLines_collapseRepeatedLines, hexpand, textRuns, Lines.runs_flatMap,
    joinLines_splitLines]

/-- Three equal lines between others, of a log. -/
theorem expandRepeatedLines_log :
    (∀ line ∈ splitLines (ofString "a\n\n\n\nb\nb\nb\nc"), markerCount line = none) ∧
      expandRepeatedLines (collapseRepeatedLines (ofString "a\n\n\n\nb\nb\nb\nc")) =
        ofString "a\n\n\n\nb\nb\nb\nc" := by
  have hplain : ∀ line ∈ splitLines (ofString "a\n\n\n\nb\nb\nb\nc"), markerCount line = none := by
    decide +kernel
  exact ⟨hplain, expandRepeatedLines_collapseRepeatedLines _ hplain⟩

end Ixr.Compressor
