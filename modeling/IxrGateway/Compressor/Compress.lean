import IxrGateway.Compressor.Code
import IxrGateway.Compressor.JsonForm

/-!
# Compressing a content

`compress` shortens a content by its structure, and cuts what is still longer
than a limit.

The stages before the cut keep a text valid.  The cut counts bytes, so it keeps
the text valid exactly if it falls between two characters
(`valid_compress_iff`).  Two stages write markers, so the result can be longer than
the content.  `compress_length_le_iff` says exactly when it is not.
-/

namespace Ixr.Compressor

open List

open JsonText (Floats)
open Utf8 (Bytes Valid Continues ofString encode decode)

section

variable {F : Type} (floats : Floats F)

/-- What a text that is no JSON becomes. -/
def plainText (content : Bytes) : Bytes :=
  collapseBlankLines ((stripComments content).getD content)

/-- The stages of `compress` before the cut. -/
def collapse (content : Bytes) : Bytes :=
  match compressJSON floats content with
  | some collapsed => collapsed
  | none => collapseRepeatedLines (plainText content)

/-- `fmt.Sprintf("\n... [truncated %d chars]", omitted)`. -/
def truncationMarker (omitted : Nat) : Bytes :=
  ofString "\n... [truncated " ++ decimal omitted ++ ofString " chars]"

/-- `compress`: the result, and how much was cut. -/
def compress (content : Bytes) (maxChars : Nat) : Bytes × Nat :=
  let collapsed := collapse floats content
  if collapsed.length ≤ maxChars then (collapsed, 0)
  else
    let omitted := collapsed.length - maxChars
    (collapsed.take maxChars ++ truncationMarker omitted, omitted)

variable {floats}

variable {content : Bytes}

theorem compress_of_le {maxChars : Nat} (h : (collapse floats content).length ≤ maxChars) :
    compress floats content maxChars = (collapse floats content, 0) := if_pos h

theorem compress_of_lt {maxChars : Nat} (h : maxChars < (collapse floats content).length) :
    compress floats content maxChars =
      ((collapse floats content).take maxChars ++
          truncationMarker ((collapse floats content).length - maxChars),
        (collapse floats content).length - maxChars) := if_neg (Nat.not_le.mpr h)

/-! ## Length -/

theorem length_plainText_le (content : Bytes) : (plainText content).length ≤ content.length := by
  refine (length_collapseBlankLines_le _).trans ?_
  cases h : stripComments content with
  | none => exact Nat.le_refl _
  | some result =>
    obtain rfl := eq_joinLines_of_stripComments h
    have hle := Lines.length_join_le newline (splitLines_ne_nil content)
      (Lines.weight_le_of_sublist (stripLoop_sublist false (splitLines content)))
    exact hle.trans (Nat.le_of_eq (congrArg List.length (joinLines_splitLines content)))

/-- The stages before repeated lines are collapsed make a text no longer.  The result is no longer
than the content exactly if the markers of repeated lines take no more than what was dropped, and,
where the text is cut, there is room for the marker of the cut. -/
theorem compress_length_le_iff (content : Bytes) (maxChars : Nat) :
    (plainText content).length ≤ content.length ∧
    ((compress floats content maxChars).1.length ≤ content.length ↔
      if (collapse floats content).length ≤ maxChars then
        (compressJSON floats content).isSome = true ∨
          (plainText content).length + markers (textRuns (plainText content)) ≤
            content.length + saved (textRuns (plainText content))
      else
        maxChars + (truncationMarker ((collapse floats content).length - maxChars)).length ≤
          content.length) := by
  refine ⟨length_plainText_le content, ?_⟩
  split
  · next h =>
    rw [compress_of_le h]
    show (collapse floats content).length ≤ content.length ↔ _
    cases hjson : compressJSON floats content with
    | some result =>
      obtain ⟨-, -, -, hlt⟩ := exists_of_compressJSON hjson
      have hcollapse : collapse floats content = result := by rw [collapse, hjson]
      rw [hcollapse]
      exact iff_of_true hlt.le (Or.inl rfl)
    | none =>
      have hlength := collapseRepeatedLines_length (plainText content)
      have hcollapse : collapse floats content = collapseRepeatedLines (plainText content) := by
        rw [collapse, hjson]
      rw [hcollapse]
      simp only [Option.isSome_none, Bool.false_eq_true, false_or]
      omega
  · next h =>
    have hlt := Nat.lt_of_not_le h
    rw [compress_of_lt hlt]
    show ((collapse floats content).take maxChars ++ _).length ≤ content.length ↔ _
    rw [length_append, length_take, Nat.min_eq_left hlt.le]

/-- Three short lines and two bytes above a limit of one. -/
theorem short_content_grows :
    (ofString "a\na\na").length < (compress wholeFloats (ofString "a\na\na") 4000).1.length ∧
      (ofString "ab").length < (compress wholeFloats (ofString "ab") 1).1.length := by
  decide +kernel

/-! ## Characters -/

theorem valid_truncationMarker (omitted : Nat) : Valid (truncationMarker omitted) :=
  ((Utf8.valid_ofString _).append (Utf8.valid_ofString _)).append (Utf8.valid_ofString _)

theorem valid_plainText (h : Valid content) : Valid (plainText content) := by
  apply valid_collapseBlankLines
  cases hstrip : stripComments content with
  | none => exact h
  | some result =>
    obtain rfl := eq_joinLines_of_stripComments hstrip
    refine valid_joinLines_iff.mpr fun line hline => ?_
    exact valid_of_mem_splitLines h ((stripLoop_sublist false _).subset hline)

theorem valid_collapse (h : Valid content) : Valid (collapse floats content) := by
  rw [collapse]
  split
  · next result hjson =>
    obtain ⟨data, -, rfl, -⟩ := exists_of_compressJSON hjson
    exact Utf8.valid_encode _
  · exact valid_collapseRepeatedLines (valid_plainText h)

theorem valid_append_truncationMarker_iff {text : Bytes} (omitted : Nat) :
    Valid (text ++ truncationMarker omitted) ↔ Valid text := by
  obtain ⟨rest, hrest⟩ : ∃ rest, truncationMarker omitted = newline :: rest := ⟨_, rfl⟩
  have hvalid := valid_truncationMarker omitted
  rw [hrest] at hvalid ⊢
  exact valid_append_newline_iff hvalid

theorem valid_compress_iff (h : Valid content) (maxChars : Nat) :
    Valid (compress floats content maxChars).1 ↔
      ∀ b, (collapse floats content)[maxChars]? = some b → ¬ Continues b := by
  have hvalid : Valid (collapse floats content) := valid_collapse h
  rcases Nat.lt_or_ge maxChars (collapse floats content).length with hlt | hge
  · rw [compress_of_lt hlt, getElem?_eq_getElem hlt]
    show Valid ((collapse floats content).take maxChars ++ _) ↔ _
    rw [valid_append_truncationMarker_iff, Utf8.valid_take_iff hvalid hlt]
    simp
  · rw [compress_of_le hge, getElem?_eq_none hge]
    exact iff_of_true hvalid fun b hb => by cases hb

end

end Ixr.Compressor
