import Mathlib

/-!
# Line journals

A journal is a file of lines, one encoded entry to a line.  Entries are added
by appending a line and read back by a line scanner with a size limit.

The scanner splits at newlines and drops a carriage return at the end of a line.
Text after the last newline counts as a line too.  A line of `limit` bytes or
more ends the scan: that line and all lines after it are not seen.  A line that
does not decode is skipped.

An appended entry is read back after the old ones if the file was *intact*
before, which means that it ends at a newline and every line is below the limit,
and the entry *fits*: its line decodes to it and is below the limit as well
(`Codec.entries_append`).
-/

namespace LineJournal

open List

/-! ## Lines of a file -/

section

variable {β : Type} [DecidableEq β]

/-- The lines that end in a newline, and the text after the last newline. -/
def splitLines (newline : β) : List β → List (List β) × List β
  | [] => ([], [])
  | b :: bs =>
    match splitLines newline bs with
    | (lines, rest) =>
      if b = newline then ([] :: lines, rest)
      else
        match lines with
        | [] => ([], b :: rest)
        | line :: lines => ((b :: line) :: lines, rest)

/-- The lines a scanner sees, before any limit. -/
def tokens (newline : β) (file : List β) : List (List β) :=
  match splitLines newline file with
  | (lines, []) => lines
  | (lines, rest) => lines ++ [rest]

theorem splitLines_cons_newline (newline : β) (bs : List β) :
    splitLines newline (newline :: bs) =
      ([] :: (splitLines newline bs).1, (splitLines newline bs).2) := by
  simp [splitLines]

theorem splitLines_line {newline : β} : ∀ {line : List β} (bs : List β), newline ∉ line →
    splitLines newline (line ++ newline :: bs) =
      (line :: (splitLines newline bs).1, (splitLines newline bs).2)
  | [], bs, _ => splitLines_cons_newline newline bs
  | b :: line, bs, h => by
    have hb : b ≠ newline := (ne_of_not_mem_cons h).symm
    have hline := not_mem_of_not_mem_cons h
    simp only [cons_append, splitLines, splitLines_line bs hline, if_neg hb]

theorem splitLines_append {newline : β} : ∀ {file : List β} (bs : List β),
    (splitLines newline file).2 = [] →
    splitLines newline (file ++ bs) =
      ((splitLines newline file).1 ++ (splitLines newline bs).1, (splitLines newline bs).2)
  | [], bs, _ => rfl
  | b :: file, bs, h => by
    simp only [splitLines] at h
    by_cases hb : b = newline
    · subst hb
      rw [if_pos rfl] at h
      rw [cons_append, splitLines_cons_newline, splitLines_append bs h,
        splitLines_cons_newline, cons_append]
    · rw [if_neg hb] at h
      cases hlines : (splitLines newline file).1 with
      | nil =>
        rw [hlines] at h
        cases h
      | cons line lines =>
        rw [hlines] at h
        simp only [cons_append, splitLines, splitLines_append bs h, hlines, if_neg hb]

/-- `bufio`'s `dropCR`: a carriage return at the end of a line is dropped. -/
def dropCR (cr : β) (line : List β) : List β :=
  if line.getLast? = some cr then line.dropLast else line

/-- What the scanner hands out: the lines before the first one that reaches the limit. -/
def scan (newline cr : β) (limit : Nat) (file : List β) : List (List β) :=
  ((tokens newline file).takeWhile fun line => line.length < limit).map (dropCR cr)

/-- The file ends at a newline and every line is below the limit. -/
structure Intact (newline : β) (limit : Nat) (file : List β) : Prop where
  /-- Nothing follows the last newline. -/
  closed : (splitLines newline file).2 = []
  /-- The scanner sees every line. -/
  short : ∀ line ∈ (splitLines newline file).1, line.length < limit

theorem intact_nil (newline : β) (limit : Nat) : Intact newline limit ([] : List β) :=
  ⟨rfl, by simp [splitLines]⟩

theorem Intact.scan_eq {newline : β} {limit : Nat} {file : List β}
    (h : Intact newline limit file) (cr : β) :
    scan newline cr limit file = (splitLines newline file).1.map (dropCR cr) := by
  have htokens : tokens newline file = (splitLines newline file).1 := by
    rw [tokens]
    split
    · next heq => rw [heq]
    · next hne heq =>
      have hclosed := h.closed
      rw [heq] at hclosed
      exact absurd hclosed hne
  rw [scan, htokens, takeWhile_eq_self_iff.mpr]
  intro line hline
  exact decide_eq_true (h.short line hline)

theorem Intact.append_line {newline : β} {limit : Nat} {file line : List β}
    (h : Intact newline limit file) (hnl : newline ∉ line) (hshort : line.length < limit) :
    Intact newline limit (file ++ (line ++ [newline])) := by
  have hsplit := splitLines_append (line ++ [newline]) h.closed
  rw [splitLines_line [] hnl] at hsplit
  refine ⟨by rw [hsplit]; rfl, ?_⟩
  rw [hsplit]
  intro l hl
  cases mem_append.mp hl with
  | inl hold => exact h.short l hold
  | inr hnew =>
    rw [mem_singleton.mp hnew]
    exact hshort

end

/-! ## Entries -/

/-- How entries are written to lines and read back. -/
structure Codec (β ε : Type) where
  newline : β
  cr : β
  encode : ε → List β
  decode : List β → Option ε
  /-- An entry takes one line. -/
  newline_notMem : ∀ e, newline ∉ encode e
  /-- An entry's line ends in its own last byte. -/
  last_ne_cr : ∀ e, (encode e).getLast? ≠ some cr

namespace Codec

variable {β ε : Type} [DecidableEq β] (c : Codec β ε) (limit : Nat)

/-- The entries a scanner reads from a file. -/
def entries (file : List β) : List ε := (scan c.newline c.cr limit file).filterMap c.decode

/-- The file with a line for the entry at its end. -/
def append (file : List β) (e : ε) : List β := file ++ (c.encode e ++ [c.newline])

/-- The entry is read off its line, and the line is below the limit. -/
structure Fits (e : ε) : Prop where
  survives : c.decode (c.encode e) = some e
  short : (c.encode e).length < limit

variable {c limit}

theorem intact_append {file : List β} {e : ε} (h : Intact c.newline limit file)
    (he : c.Fits limit e) : Intact c.newline limit (c.append file e) :=
  h.append_line (c.newline_notMem e) he.short

theorem entries_append {file : List β} {e : ε} (h : Intact c.newline limit file)
    (he : c.Fits limit e) : c.entries limit (c.append file e) = c.entries limit file ++ [e] := by
  have hsplit := splitLines_append (c.encode e ++ [c.newline]) h.closed
  rw [splitLines_line [] (c.newline_notMem e)] at hsplit
  have hcr : dropCR c.cr (c.encode e) = c.encode e := if_neg (c.last_ne_cr e)
  rw [entries, (intact_append h he).scan_eq, append, hsplit, entries, h.scan_eq]
  simp only [splitLines, map_append, map_cons, map_nil, filterMap_append,
    hcr, filterMap_cons, he.survives, filterMap_nil]

@[simp] theorem entries_nil : c.entries limit [] = [] := rfl

/-- A file with a line for each entry. -/
def file (c : Codec β ε) (es : List ε) : List β := es.foldl c.append []

theorem intact_foldl_append : ∀ {es : List ε} {file : List β}, Intact c.newline limit file →
    (∀ e ∈ es, c.Fits limit e) →
    Intact c.newline limit (es.foldl c.append file) ∧
      c.entries limit (es.foldl c.append file) = c.entries limit file ++ es
  | [], file, h, _ => ⟨h, (append_nil _).symm⟩
  | e :: es, file, h, hfits => by
    obtain ⟨he, hes⟩ := forall_mem_cons.mp hfits
    obtain ⟨hintact, hentries⟩ := intact_foldl_append (intact_append h he) hes
    refine ⟨hintact, ?_⟩
    rw [foldl_cons, hentries, entries_append h he, append_assoc, singleton_append]

/-- Entries written as single symbols. -/
def symbols (ε : Type) : Codec (Bool ⊕ ε) ε where
  newline := .inl false
  cr := .inl true
  encode e := [.inr e]
  decode
    | [.inr e] => some e
    | _ => none
  newline_notMem _ := by simp
  last_ne_cr _ := by simp

theorem symbols_fits (h : 1 < limit) (e : ε) : (symbols ε).Fits limit e := ⟨rfl, h⟩

end Codec

end LineJournal
