import IxrGateway.Compressor.Text
import IxrGateway.GoStrings

/-!
# Stripping comments

`stripComments` deletes the lines of code that it takes for comments.  It keeps
one bit of state, whether it is inside a block comment, and looks only at how a
trimmed line starts and ends.

The reference is a scan of the text from left to right: `/*` opens a block
comment and the first `*/` after it closes it.  A line that starts with a line
comment marker outside a block comment is a comment as a whole.  `Deletes` says
that a list of lines is left of another one if only comments are deleted.

A line is deleted exactly if it stands in a block, from a line that starts with
`/*` through the next one that ends with `*/`, or starts with a marker itself
(`deletions_eq`).  So only comments are deleted exactly if all these lines are
comments (`SparesCode`).  The stripper is in step with the scan, and this holds, as
long as the block comments that start a line end it as well, and a comment behind
code ends on its line (`tame`).
-/

namespace Ixr.Compressor

open List GoStrings

open Utf8 (Bytes Blank ofString)

/-! ## The stripper -/

/-- `codeSignals`. -/
def codeSignals : List Bytes :=
  ["func ", "def ", "class ", "import ", "package ", "public ", "private ", "function ", "const ",
    "let ", "var ", "#include", "using "].map ofString

/-- `looksLikeCode`. -/
def looksLikeCode (content : Bytes) : Bool :=
  if codeSignals.any fun sig => sig <:+: content then true
  else
    let braces := content.count 123 + content.count 125
    if braces = 0 then false
    else
      let lines := content.count newline + 1
      lines ≤ braces * 4

/-- `strings.TrimSpace`. -/
def trimSpace (line : Bytes) : Bytes := Utf8.trim isSpace line

/-- `/*`. -/
def opener : Bytes := [47, 42]

/-- `*/`. -/
def closer : Bytes := [42, 47]

/-- `isLineComment`. -/
def isLineComment (trimmed : Bytes) : Bool :=
  [ofString "//", ofString "#", ofString "--"].any fun marker => marker <+: trimmed

/-- One round of the loop of `stripComments`: whether the line is deleted, and `inBlock`
afterwards. -/
def stripLine (inBlock : Bool) (line : Bytes) : Bool × Bool :=
  let trimmed := trimSpace line
  if inBlock then (true, !(closer <:+ trimmed))
  else if isLineComment trimmed then (true, false)
  else if opener <+: trimmed then (true, !(closer <:+ trimmed) || trimmed.length < 4)
  else (false, false)

/-- The loop of `stripComments`: the lines that are kept, and whether one was deleted. -/
def stripLoop : Bool → List Bytes → List Bytes × Bool
  | _, [] => ([], false)
  | inBlock, line :: lines =>
    let step := stripLine inBlock line
    let rest := stripLoop step.2 lines
    (if step.1 then rest.1 else line :: rest.1, step.1 || rest.2)

/-- `stripComments`. -/
def stripComments (content : Bytes) : Option Bytes :=
  if !looksLikeCode content then none
  else
    let out := stripLoop false (splitLines content)
    if !out.2 then none else some (joinLines out.1)

/-! ## The reference -/

/-- What follows the first `*/`. -/
def afterCloser : Bytes → Option Bytes
  | a :: b :: rest => if a = 42 ∧ b = 47 then some rest else afterCloser (b :: rest)
  | _ => none

/-- The text of a line outside of block comments, with a space for each comment that is opened, and
whether the line ends inside one. -/
def scan : Bool → Bytes → Bytes × Bool
  | inside, [] => ([], inside)
  | true, [_] => ([], true)
  | false, [a] => ([a], false)
  | true, a :: b :: rest => if a = 42 ∧ b = 47 then scan false rest else scan true (b :: rest)
  | false, a :: b :: rest =>
    if a = 47 ∧ b = 42 then (32 :: (scan true rest).1, (scan true rest).2)
    else (a :: (scan false (b :: rest)).1, (scan false (b :: rest)).2)

/-- Whether the scan is inside a block comment after the line. -/
def next (inside : Bool) (line : Bytes) : Bool :=
  if !inside && isLineComment (trimSpace line) then false else (scan inside line).2

/-- A preprocessor include or import. -/
def isDirective : Bytes → Bool
  | 35 :: rest =>
    let word := Utf8.trimStart isSpace rest
    ofString "include" <+: word || ofString "import" <+: word
  | _ => false

/-- The line is a line comment, or all that stands on it is inside block comments. -/
def IsComment (inside : Bool) (line : Bytes) : Prop :=
  (isLineComment (trimSpace line) = true ∧ isDirective (trimSpace line) = false) ∨
    Blank isSpace (scan inside line).1

instance (inside : Bool) (line : Bytes) : Decidable (IsComment inside line) :=
  inferInstanceAs (Decidable (_ ∨ _))

/-- `Deletes inside lines out`: what is left of the lines is `out`, and only comments are
missing. -/
inductive Deletes : Bool → List Bytes → List Bytes → Prop where
  | nil {inside : Bool} : Deletes inside [] []
  | keep {inside : Bool} {line : Bytes} {lines out : List Bytes} :
      Deletes (next inside line) lines out → Deletes inside (line :: lines) (line :: out)
  | delete {inside : Bool} {line : Bytes} {lines out : List Bytes} :
      IsComment inside line → Deletes (next inside line) lines out →
      Deletes inside (line :: lines) out

/-- The first `*/`, if there is one, ends the text. -/
def closesAtEnd (text : Bytes) : Bool := afterCloser text = none || afterCloser text = some []

/-- Block comments that start a line end it as well, those that are opened behind code end on the
line, and no line includes a file by a preprocessor directive. -/
def tame : Bool → List Bytes → Bool
  | _, [] => true
  | true, line :: lines => closesAtEnd (trimSpace line) && tame (next true line) lines
  | false, line :: lines =>
    let trimmed := trimSpace line
    (if isLineComment trimmed then !isDirective trimmed
      else if opener <+: trimmed then closesAtEnd (trimmed.drop 2)
      else !(scan false line).2) && tame (next false line) lines

/-- A line, and the states in front of it. -/
structure Place where
  /-- A line above starts with `/*`, and no line since ends with `*/`. -/
  inBlock : Bool
  /-- The scan is inside a block comment. -/
  inside : Bool
  /-- The line. -/
  line : Bytes

/-- Whether the lines below a line stand in a block. -/
def blockAfter (inBlock : Bool) (line : Bytes) : Bool :=
  let trimmed := trimSpace line
  if inBlock then !(closer <:+ trimmed)
  else opener <+: trimmed && (!(closer <:+ trimmed) || trimmed.length < 4)

/-- The lines with the states in front of them. -/
def places : Bool → Bool → List Bytes → List Place
  | _, _, [] => []
  | inBlock, inside, line :: lines =>
    ⟨inBlock, inside, line⟩ :: places (blockAfter inBlock line) (next inside line) lines

/-- The line is in a block, or starts with the marker of a comment. -/
def Place.marked (p : Place) : Bool :=
  p.inBlock || isLineComment (trimSpace p.line) || opener <+: trimSpace p.line

/-- Nothing but a comment is in a block or behind a marker. -/
def SparesCode (lines : List Bytes) : Prop :=
  ∀ p ∈ places false false lines, p.marked = true → IsComment p.inside p.line

instance (lines : List Bytes) : Decidable (SparesCode lines) :=
  inferInstanceAs (Decidable (∀ p ∈ places false false lines, _ → _))

/-- The lines that the loop of `stripComments` deletes. -/
def deletions : Bool → Bool → List Bytes → List Place
  | _, _, [] => []
  | inBlock, inside, line :: lines =>
    let step := stripLine inBlock line
    let rest := deletions step.2 (next inside line) lines
    if step.1 then ⟨inBlock, inside, line⟩ :: rest else rest

/-! ## Markers in a text -/

variable {text rest line : Bytes}

theorem eq_append_of_afterCloser (h : afterCloser text = some rest) :
    ∃ before, text = before ++ (closer ++ rest) := by
  fun_induction afterCloser text with
  | case1 a b tail hab =>
    obtain ⟨rfl, rfl⟩ := hab
    cases h
    exact ⟨[], rfl⟩
  | case2 a b tail hab ih =>
    obtain ⟨before, hbefore⟩ := ih h
    exact ⟨a :: before, by rw [hbefore, cons_append]⟩
  | case3 => cases h

theorem afterCloser_ne_none (before rest : Bytes) :
    afterCloser (before ++ (closer ++ rest)) ≠ none := by
  induction before with
  | nil => simp [closer, afterCloser]
  | cons a before ih =>
    cases hbefore : before ++ (closer ++ rest) with
    | nil =>
      rw [hbefore] at ih
      exact absurd rfl ih
    | cons b tail =>
      rw [hbefore] at ih
      rw [cons_append, hbefore, afterCloser]
      split
      · exact Option.some_ne_none _
      · exact ih

theorem scan_true_eq (text : Bytes) :
    scan true text = match afterCloser text with
      | none => ([], true)
      | some rest => scan false rest := by
  fun_induction afterCloser text with
  | case1 a b tail hab => rw [scan, if_pos hab]
  | case2 a b tail hab ih => rw [scan, if_neg hab, ih]
  | case3 text h =>
    cases text with
    | nil => rw [scan]
    | cons a tail =>
      cases tail with
      | nil => rw [scan]
      | cons b tail => exact absurd rfl (h a b tail)

variable {a : UInt8} {start : Bytes} {inside : Bool} {lines : List Bytes}

theorem scan_false_cons (h : a ≠ 47) (text : Bytes) :
    scan false (a :: text) = (a :: (scan false text).1, (scan false text).2) := by
  cases text with
  | nil => rw [scan, scan]
  | cons b tail => rw [scan, if_neg fun hab => h hab.1]

theorem scan_false_append (h : 47 ∉ start) (text : Bytes) :
    scan false (start ++ text) = (start ++ (scan false text).1, (scan false text).2) := by
  induction start with
  | nil => rfl
  | cons a start ih =>
    have ha : a ≠ 47 := (ne_of_not_mem_cons h).symm
    rw [cons_append, scan_false_cons ha, ih (not_mem_of_not_mem_cons h), cons_append]

theorem scan_false_opener (text : Bytes) :
    scan false (opener ++ text) = (32 :: (scan true text).1, (scan true text).2) := by
  simp [opener, scan]

theorem afterCloser_cons (h : a ≠ 42) (text : Bytes) :
    afterCloser (a :: text) = afterCloser text := by
  cases text with
  | nil => rfl
  | cons b tail => rw [afterCloser, if_neg fun hab => h hab.1]

theorem afterCloser_append_left (h : 42 ∉ start) (text : Bytes) :
    afterCloser (start ++ text) = afterCloser text := by
  induction start with
  | nil => rfl
  | cons a start ih =>
    rw [cons_append, afterCloser_cons (ne_of_not_mem_cons h).symm, ih (not_mem_of_not_mem_cons h)]

theorem afterCloser_eq_none (h : 42 ∉ text) : afterCloser text = none := by
  have happend := afterCloser_append_left h []
  rwa [append_nil] at happend

theorem afterCloser_append_right (hstar : 42 ∉ rest) (hslash : 47 ∉ rest) (text : Bytes) :
    afterCloser (text ++ rest) = (afterCloser text).map (· ++ rest) := by
  fun_induction afterCloser text with
  | case1 a b tail hab =>
    rw [cons_append, cons_append, afterCloser, if_pos hab]
    rfl
  | case2 a b tail hab ih =>
    rw [cons_append, cons_append, afterCloser, if_neg hab]
    exact ih
  | case3 text htext =>
    cases text with
    | nil => exact afterCloser_eq_none hstar
    | cons a tail =>
      cases tail with
      | cons b tail => exact absurd rfl (htext a b tail)
      | nil =>
        cases rest with
        | nil => rfl
        | cons b rest =>
          have hb : b ≠ 47 := (ne_of_not_mem_cons hslash).symm
          rw [singleton_append, afterCloser, if_neg fun hab => hb hab.2]
          exact afterCloser_eq_none hstar

theorem closesAtEnd_iff :
    closesAtEnd text = true ↔ afterCloser text = none ∨ afterCloser text = some [] := by
  simp [closesAtEnd]

theorem marker_notMem (h : Blank isSpace text) : 42 ∉ text ∧ 47 ∉ text :=
  ⟨h.notMem (by decide) (by decide), h.notMem (by decide) (by decide)⟩

theorem scan_false_blank (h : Blank isSpace text) : scan false text = (text, false) := by
  have hscan := scan_false_append (marker_notMem h).2 []
  rw [append_nil] at hscan
  rw [hscan, scan, append_nil]

theorem scan_true_trimmed (hrest : Blank isSpace rest) (h : closesAtEnd text = true) :
    scan true (text ++ rest) = if afterCloser text = none then ([], true) else (rest, false) := by
  obtain ⟨hstar, hslash⟩ := marker_notMem hrest
  rw [scan_true_eq, afterCloser_append_right hstar hslash]
  rcases closesAtEnd_iff.mp h with hnone | hsome
  · rw [hnone]
    rfl
  · rw [hsome]
    exact scan_false_blank hrest

theorem not_suffix_of_afterCloser (h : afterCloser text = none) : ¬ closer <:+ text := by
  rintro ⟨before, rfl⟩
  have hne := afterCloser_ne_none before []
  rw [append_nil] at hne
  exact hne h

theorem suffix_of_afterCloser (h : afterCloser text = some []) : closer <:+ text := by
  obtain ⟨before, hbefore⟩ := eq_append_of_afterCloser h
  rw [append_nil] at hbefore
  exact ⟨before, hbefore.symm⟩

/-! ## In step -/

/-- Inside a block comment that ends at the end of a line, if at all. -/
theorem stripLine_inside (h : closesAtEnd (trimSpace line) = true) :
    stripLine true line = (true, next true line) ∧ IsComment true line := by
  obtain ⟨start, rest, hstart, hrest, hline⟩ := Utf8.exists_trim (p := isSpace) line
  have hscan : scan true line =
      if afterCloser (trimSpace line) = none then ([], true) else (rest, false) := by
    have hafter : afterCloser line = afterCloser (trimSpace line ++ rest) :=
      (congrArg afterCloser hline).trans (afterCloser_append_left (marker_notMem hstart).1 _)
    rw [scan_true_eq, hafter, ← scan_true_eq, scan_true_trimmed hrest h]
  have hnext : next true line = (scan true line).2 := rfl
  have hstrip : stripLine true line = (true, !decide (closer <:+ trimSpace line)) := rfl
  rcases closesAtEnd_iff.mp h with hnone | hsome
  · rw [if_pos hnone] at hscan
    refine ⟨?_, Or.inr ?_⟩
    · rw [hstrip, hnext, hscan, decide_eq_false (not_suffix_of_afterCloser hnone)]
      rfl
    · rw [hscan]
      exact Utf8.blank_nil
  · rw [if_neg (by rw [hsome]; exact Option.some_ne_none _)] at hscan
    refine ⟨?_, Or.inr ?_⟩
    · rw [hstrip, hnext, hscan, decide_eq_true (suffix_of_afterCloser hsome)]
      rfl
    · rw [hscan]
      exact hrest

/-- Without a closer after the opener, a closer at the end of the line is the opener's own star. -/
theorem length_lt_of_closer_suffix (hnone : afterCloser text = none)
    (h : closer <:+ opener ++ text) : (opener ++ text).length < 4 := by
  obtain ⟨before, hbefore⟩ := h
  by_contra hlong
  have hlen := congrArg List.length hbefore
  rw [length_append] at hlen
  have hprefix : opener <+: before := by
    refine prefix_of_prefix_length_le (prefix_append opener text) ⟨closer, hbefore⟩ ?_
    simp only [opener, closer, length_cons, length_nil] at hlen hlong ⊢
    omega
  obtain ⟨between, rfl⟩ := hprefix
  rw [append_assoc, append_cancel_left_eq] at hbefore
  exact not_suffix_of_afterCloser hnone ⟨between, hbefore⟩

theorem closer_suffix_of_afterCloser (hsome : afterCloser text = some []) :
    closer <:+ opener ++ text ∧ ¬ (opener ++ text).length < 4 := by
  obtain ⟨before, rfl⟩ := suffix_of_afterCloser hsome
  refine ⟨⟨opener ++ before, append_assoc ..⟩, ?_⟩
  simp only [opener, closer, length_append, length_cons, length_nil]
  omega

theorem blank_space : Blank isSpace [32] :=
  ⟨[' '], forall_mem_singleton.mpr (by decide), rfl⟩

/-- A block comment that starts a line and ends at the end of a line, if at all. -/
theorem stripLine_opener (hcomment : isLineComment (trimSpace line) = false)
    (hopener : opener <+: trimSpace line) (h : closesAtEnd ((trimSpace line).drop 2) = true) :
    stripLine false line = (true, next false line) ∧ IsComment false line := by
  obtain ⟨start, rest, hstart, hrest, hline⟩ := Utf8.exists_trim (p := isSpace) line
  have hstrip : stripLine false line = (true,
      !decide (closer <:+ trimSpace line) || decide ((trimSpace line).length < 4)) := by
    simp [stripLine, hcomment, hopener]
  have hnext : next false line = (scan false line).2 := by simp [next, hcomment]
  obtain ⟨text, htext⟩ := hopener
  have hdrop : (trimSpace line).drop 2 = text := by
    rw [← htext]
    rfl
  have hscan : scan false line =
      (start ++ 32 :: (scan true (text ++ rest)).1, (scan true (text ++ rest)).2) := by
    have hsplit : line = start ++ (opener ++ (text ++ rest)) := by
      rw [← append_assoc opener, htext]
      exact hline
    rw [hsplit, scan_false_append (marker_notMem hstart).2, scan_false_opener]
  rw [hdrop] at h
  rw [scan_true_trimmed hrest h] at hscan
  rw [← htext] at hstrip
  rcases closesAtEnd_iff.mp h with hnone | hsome
  · rw [if_pos hnone] at hscan
    refine ⟨?_, Or.inr ?_⟩
    · rw [hstrip, hnext, hscan]
      simpa [Decidable.imp_iff_not_or] using length_lt_of_closer_suffix hnone
    · rw [hscan]
      exact hstart.append blank_space
  · rw [if_neg (by rw [hsome]; exact Option.some_ne_none _)] at hscan
    obtain ⟨hsuffix, hlong⟩ := closer_suffix_of_afterCloser hsome
    refine ⟨?_, Or.inr ?_⟩
    · rw [hstrip, hnext, hscan, decide_eq_true hsuffix, decide_eq_false hlong]
      rfl
    · rw [hscan]
      exact hstart.append (blank_space.append hrest)

/-- The stripper is in step with the scan. -/
theorem deletions_tame (h : tame inside lines = true) :
    ∀ p ∈ deletions inside inside lines, IsComment p.inside p.line := by
  induction lines generalizing inside with
  | nil => exact forall_mem_nil _
  | cons line lines ih =>
    have hdelete : IsComment inside line → stripLine inside line = (true, next inside line) →
        tame (next inside line) lines = true →
        ∀ p ∈ deletions inside inside (line :: lines), IsComment p.inside p.line := by
      intro hcomment hstrip hrest
      simp only [deletions, hstrip, if_true]
      exact forall_mem_cons.mpr ⟨hcomment, ih hrest⟩
    cases inside with
    | true =>
      rw [tame, Bool.and_eq_true] at h
      obtain ⟨hstrip, hcomment⟩ := stripLine_inside h.1
      exact hdelete hcomment hstrip h.2
    | false =>
      rw [tame, Bool.and_eq_true] at h
      obtain ⟨hline, hrest⟩ := h
      split at hline
      · next hmarker =>
        have hdirective : isDirective (trimSpace line) = false := by simpa using hline
        refine hdelete (Or.inl ⟨hmarker, hdirective⟩) ?_ hrest
        simp [stripLine, next, hmarker]
      · next hmarker =>
        have hmarker : isLineComment (trimSpace line) = false := by simpa using hmarker
        split at hline
        · next hopener =>
          obtain ⟨hstrip, hcomment⟩ := stripLine_opener hmarker hopener hline
          exact hdelete hcomment hstrip hrest
        · next hopener =>
          have hscan : (scan false line).2 = false := by simpa using hline
          have hnext : next false line = false := by simp [next, hmarker, hscan]
          have hstrip : stripLine false line = (false, false) := by
            simp [stripLine, hmarker, hopener]
          simp only [deletions, hstrip, hnext, Bool.false_eq_true, if_false]
          rw [hnext] at hrest
          exact ih hrest

/-! ## What is deleted -/

variable {inBlock : Bool} {out : List Bytes}

theorem not_isLineComment_of_opener (h : opener <+: text) : isLineComment text = false := by
  obtain ⟨rest, rfl⟩ := h
  have hmarkers : [ofString "//", ofString "#", ofString "--"] = [[47, 47], [35], [45, 45]] := by
    decide +kernel
  rw [isLineComment, hmarkers]
  simp [opener]

/-- A line is deleted exactly if it is in a block or starts with a marker. -/
theorem stripLine_eq (p : Place) :
    stripLine p.inBlock p.line = (p.marked, blockAfter p.inBlock p.line) := by
  obtain ⟨inBlock, inside, line⟩ := p
  cases inBlock with
  | true => simp [stripLine, Place.marked, blockAfter]
  | false =>
    by_cases hopener : opener <+: trimSpace line
    · simp [stripLine, Place.marked, blockAfter, hopener, not_isLineComment_of_opener hopener]
    · by_cases hmarker : isLineComment (trimSpace line) = true
      · simp [stripLine, Place.marked, blockAfter, hopener, hmarker]
      · simp [stripLine, Place.marked, blockAfter, hopener, hmarker]

theorem deletions_eq (inBlock inside : Bool) (lines : List Bytes) :
    deletions inBlock inside lines = (places inBlock inside lines).filter Place.marked := by
  induction lines generalizing inBlock inside with
  | nil => rfl
  | cons line lines ih =>
    have hstrip := stripLine_eq ⟨inBlock, inside, line⟩
    simp only at hstrip
    rw [deletions, places, filter_cons, hstrip, ih]

theorem deletions_comments_iff :
    (∀ p ∈ deletions false false lines, IsComment p.inside p.line) ↔ SparesCode lines := by
  simp only [deletions_eq, mem_filter, and_imp, SparesCode]

theorem deletes_stripLoop (h : ∀ p ∈ deletions inBlock inside lines, IsComment p.inside p.line) :
    Deletes inside lines (stripLoop inBlock lines).1 := by
  induction lines generalizing inBlock inside with
  | nil => exact .nil
  | cons line lines ih =>
    rw [deletions] at h
    rw [stripLoop]
    dsimp only at h ⊢
    split
    · next hdeleted =>
      rw [if_pos hdeleted, forall_mem_cons] at h
      exact .delete h.1 (ih h.2)
    · next hkept =>
      rw [if_neg hkept] at h
      exact .keep (ih h)

theorem Deletes.sublist (h : Deletes inside lines out) : out.Sublist lines := by
  induction h with
  | nil => exact Sublist.slnil
  | keep _ ih => exact ih.cons_cons _
  | delete _ _ ih => exact ih.cons _

/-- Whichever lines are taken for the deleted ones, a line that is no comment is left. -/
theorem Deletes.comment_or_mem (h : Deletes inside lines out) :
    ∀ p ∈ places inBlock inside lines, IsComment p.inside p.line ∨ p.line ∈ out := by
  induction h generalizing inBlock with
  | nil => exact forall_mem_nil _
  | keep _ ih =>
    refine forall_mem_cons.mpr ⟨Or.inr mem_cons_self, fun p hp => ?_⟩
    exact (ih p hp).imp_right (mem_cons_of_mem _)
  | delete hcomment _ ih => exact forall_mem_cons.mpr ⟨Or.inl hcomment, ih⟩

theorem stripLoop_sublist (inBlock : Bool) (lines : List Bytes) :
    (stripLoop inBlock lines).1.Sublist lines := by
  induction lines generalizing inBlock with
  | nil => exact Sublist.refl _
  | cons line lines ih =>
    rw [stripLoop]
    dsimp only
    split
    · exact (ih _).cons line
    · exact (ih _).cons_cons line

theorem eq_joinLines_of_stripComments {content result : Bytes}
    (h : stripComments content = some result) :
    result = joinLines (stripLoop false (splitLines content)).1 := by
  rw [stripComments] at h
  split at h
  · cases h
  · dsimp only at h
    split at h
    · cases h
    · cases h
      rfl

theorem Deletes.prefix_joinLines {out : List Bytes} (h : Deletes inside (line :: lines) out)
    (hline : ¬ IsComment inside line) : line <+: joinLines out := by
  cases h with
  | delete hcomment _ => exact absurd hcomment hline
  | @keep _ _ _ out _ =>
    cases out with
    | nil => rw [joinLines, Lines.join_singleton]
    | cons first out =>
      rw [joinLines, Lines.join_cons line (cons_ne_nil _ _)]
      exact prefix_append _ _

end Ixr.Compressor
