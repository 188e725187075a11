import IxrGateway.Lines
import IxrGateway.Utf8

/-!
# Collapsing lines

The line-oriented stages of the compressor.  `collapseBlankLines` trims lines at
the end and keeps one of several blank lines.  `collapseRepeatedLines` writes a
line once where it stands three times or more in a row, with a marker that says
how often.

The first stage never makes a text longer.  The second one may, since its marker
takes bytes too.  `collapseRepeatedLines_length` is the account of both.
-/

namespace Ixr.Compressor

open List Lines

open Utf8 (Bytes Valid ofString)

/-! ## Lines -/

/-- The byte of `'\n'`. -/
def newline : UInt8 := 10

/-- `strings.Split(content, "\n")`. -/
def splitLines (content : Bytes) : List Bytes := content.splitOn newline

/-- `strings.Join(lines, "\n")`. -/
def joinLines (lines : List Bytes) : Bytes := join newline lines

/-- `%d` of `fmt.Sprintf`. -/
def decimal (n : Nat) : Bytes := ofString (toString n)

theorem joinLines_splitLines (content : Bytes) : joinLines (splitLines content) = content :=
  intercalate_splitOn newline

theorem splitLines_ne_nil (content : Bytes) : splitLines content ≠ [] :=
  splitOnP_ne_nil _ content

variable {lines : List Bytes} {content line : Bytes}

theorem valid_joinLines_iff : Valid (joinLines lines) ↔ ∀ line ∈ lines, Valid line := by
  induction lines with
  | nil => exact iff_of_true Utf8.valid_nil (forall_mem_nil _)
  | cons line lines ih =>
    cases lines with
    | nil => rw [joinLines, join_singleton, forall_mem_singleton]
    | cons next lines =>
      rw [joinLines, join_cons line (cons_ne_nil _ _),
        Utf8.valid_append_cons_iff (by decide), forall_mem_cons]
      exact and_congr_right fun _ => ih

theorem valid_of_mem_splitLines (h : Valid content) (hline : line ∈ splitLines content) :
    Valid line := by
  rw [← joinLines_splitLines content] at h
  exact valid_joinLines_iff.mp h line hline

theorem valid_append_newline_iff {text rest : Bytes} (h : Valid (newline :: rest)) :
    Valid (text ++ newline :: rest) ↔ Valid text := by
  constructor
  · intro hvalid
    exact ((Utf8.valid_append_cons_iff (by decide)).mp hvalid).1
  · intro htext
    exact htext.append h

/-! ## Blank lines -/

/-- `strings.TrimRight(line, " \t\r")`. -/
def trimRight (line : Bytes) : Bytes := line.rdropWhile fun b => b ∈ [32, 9, 13]

/-- The loop of `collapseBlankLines`. -/
def blankLoop : Bool → List Bytes → List Bytes
  | _, [] => []
  | blankRun, line :: lines =>
    let trimmed := trimRight line
    if trimmed = [] then
      if blankRun then blankLoop blankRun lines else trimmed :: blankLoop true lines
    else trimmed :: blankLoop false lines

/-- `collapseBlankLines`. -/
def collapseBlankLines (content : Bytes) : Bytes :=
  joinLines (blankLoop false (splitLines content))

theorem length_trimRight_le (line : Bytes) : (trimRight line).length ≤ line.length :=
  (List.rdropWhile_prefix _ line).length_le

theorem valid_trimRight (h : Valid line) : Valid (trimRight line) := by
  rw [← rdropWhile_append_rtakeWhile (p := fun b => b ∈ [32, 9, 13]) (l := line)] at h
  refine h.of_append fun b hb => ?_
  have hmem := mem_rtakeWhile_imp hb
  simp only [decide_eq_true_eq, mem_cons, not_mem_nil, or_false] at hmem
  rcases hmem with rfl | rfl | rfl <;> decide

theorem mem_blankLoop {blankRun : Bool} (h : line ∈ blankLoop blankRun lines) :
    ∃ l ∈ lines, line = trimRight l := by
  induction lines generalizing blankRun with
  | nil => cases h
  | cons l lines ih =>
    have hrest : ∀ b, line ∈ blankLoop b lines → ∃ l' ∈ l :: lines, line = trimRight l' := by
      intro b hmem
      obtain ⟨l', hl', heq⟩ := ih hmem
      exact ⟨l', mem_cons_of_mem _ hl', heq⟩
    simp only [blankLoop] at h
    split at h
    · split at h
      · exact hrest _ h
      · rcases mem_cons.mp h with rfl | hmem
        · exact ⟨l, mem_cons_self, rfl⟩
        · exact hrest _ hmem
    · rcases mem_cons.mp h with rfl | hmem
      · exact ⟨l, mem_cons_self, rfl⟩
      · exact hrest _ hmem

theorem weight_blankLoop_le (blankRun : Bool) (lines : List Bytes) :
    weight (blankLoop blankRun lines) ≤ weight lines := by
  induction lines generalizing blankRun with
  | nil => exact Nat.le_refl _
  | cons line lines ih =>
    have htrim := length_trimRight_le line
    have hrest := ih blankRun
    have htrue := ih true
    have hfalse := ih false
    simp only [blankLoop]
    split
    · split
      · rw [weight_cons]
        omega
      · rw [weight_cons, weight_cons]
        omega
    · rw [weight_cons, weight_cons]
      omega

theorem length_collapseBlankLines_le (content : Bytes) :
    (collapseBlankLines content).length ≤ content.length := by
  have hle := length_join_le newline (splitLines_ne_nil content)
    (weight_blankLoop_le false (splitLines content))
  have hjoin := joinLines_splitLines content
  rw [joinLines] at hjoin
  rwa [hjoin] at hle

theorem valid_collapseBlankLines (h : Valid content) : Valid (collapseBlankLines content) := by
  refine valid_joinLines_iff.mpr fun line hline => ?_
  obtain ⟨l, hl, rfl⟩ := mem_blankLoop hline
  exact valid_trimRight (valid_of_mem_splitLines h hl)

/-! ## Repeated lines -/

/-- `fmt.Sprintf("... (repeated %d times)", runLen)`. -/
def repeatMarker (runLen : Nat) : Bytes :=
  ofString "... (repeated " ++ decimal runLen ++ ofString " times)"

/-- The run is long enough. -/
def collapses (run : Bytes × Nat) : Bool := run.1 ≠ [] && 3 ≤ run.2

/-- What a run is written as. -/
def writeRun (run : Bytes × Nat) : List Bytes :=
  if collapses run then [run.1, repeatMarker run.2] else replicate run.2 run.1

/-- `collapseRepeatedLines`. -/
def collapseRepeatedLines (content : Bytes) : Bytes :=
  joinLines ((runs (splitLines content)).flatMap writeRun)

theorem valid_repeatMarker (runLen : Nat) : Valid (repeatMarker runLen) :=
  ((Utf8.valid_ofString _).append (Utf8.valid_ofString _)).append (Utf8.valid_ofString _)

/-- The bytes that collapsing saves. -/
def saved (runs : List (Bytes × Nat)) : Nat :=
  (runs.map fun run => if collapses run then (run.2 - 1) * (run.1.length + 1) else 0).sum

/-- The bytes of the markers, with their line feeds. -/
def markers (runs : List (Bytes × Nat)) : Nat :=
  (runs.map fun run => if collapses run then (repeatMarker run.2).length + 1 else 0).sum

theorem weight_writeRun (run : Bytes × Nat) :
    weight (writeRun run) + saved [run] =
      weight (replicate run.2 run.1) + markers [run] := by
  simp only [writeRun, saved, markers, map_cons, map_nil, sum_cons, sum_nil]
  split
  · next h =>
    obtain ⟨line, n⟩ := run
    have hn : 3 ≤ n := by
      simp only [collapses, Bool.and_eq_true, decide_eq_true_eq] at h
      exact h.2
    obtain ⟨m, rfl⟩ := Nat.exists_eq_add_of_le hn
    simp only [weight_cons, weight_nil, weight_replicate]
    have hsub : 3 + m - 1 = m + 2 := by omega
    rw [hsub]
    ring
  · rfl

theorem weight_flatMap_writeRun (runs : List (Bytes × Nat)) :
    weight (runs.flatMap writeRun) + saved runs =
      weight (runs.flatMap fun r => replicate r.2 r.1) + markers runs := by
  induction runs with
  | nil => rfl
  | cons run runs ih =>
    have hrun := weight_writeRun run
    have hsaved : saved (run :: runs) = saved [run] + saved runs := by simp [saved]
    have hmarkers : markers (run :: runs) = markers [run] + markers runs := by simp [markers]
    rw [flatMap_cons, flatMap_cons, weight_append, weight_append, hsaved, hmarkers]
    omega

/-- The runs of equal lines. -/
def textRuns (content : Bytes) : List (Bytes × Nat) := runs (splitLines content)

theorem flatMap_writeRun_ne_nil (content : Bytes) : (textRuns content).flatMap writeRun ≠ [] := by
  obtain ⟨run, hrun⟩ := exists_mem_of_ne_nil _ (runs_ne_nil (splitLines_ne_nil content))
  have hpos : 0 < run.2 := runsLoop_pos hrun
  intro hnil
  have hwrite : writeRun run = [] := flatMap_eq_nil_iff.mp hnil run hrun
  rw [writeRun] at hwrite
  split at hwrite
  · cases hwrite
  · exact hpos.ne' ((replicate_eq_nil_iff _).mp hwrite)

theorem collapseRepeatedLines_length (content : Bytes) :
    (collapseRepeatedLines content).length + saved (textRuns content) =
      content.length + markers (textRuns content) := by
  have hweight := weight_flatMap_writeRun (textRuns content)
  have hout := length_join newline (flatMap_writeRun_ne_nil content)
  have hin := length_join newline (splitLines_ne_nil content)
  have hjoin := joinLines_splitLines content
  rw [joinLines] at hjoin
  rw [hjoin] at hin
  rw [textRuns, runs_flatMap, ← textRuns, ← hin, ← hout] at hweight
  have hdef : collapseRepeatedLines content =
      join newline ((textRuns content).flatMap writeRun) := rfl
  rw [hdef]
  omega

theorem valid_collapseRepeatedLines (h : Valid content) :
    Valid (collapseRepeatedLines content) := by
  refine valid_joinLines_iff.mpr fun line hline => ?_
  obtain ⟨run, hrun, hmem⟩ := mem_flatMap.mp hline
  have hvalid : Valid run.1 := valid_of_mem_splitLines h (mem_of_mem_runs hrun)
  rw [writeRun] at hmem
  split at hmem
  · rcases mem_cons.mp hmem with rfl | hmarker
    · exact hvalid
    · rw [mem_singleton.mp hmarker]
      exact valid_repeatMarker run.2
  · rw [eq_of_mem_replicate hmem]
    exact hvalid

end Ixr.Compressor
