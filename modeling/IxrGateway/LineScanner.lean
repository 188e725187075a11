import IxrGateway.LineJournal

/-!
# Line scanners over texts

`bufio.Scanner` over a text whose symbols take one or more bytes each.  Lines are
split as in a line journal.  The limit counts bytes, and a line that reaches it
ends the scan.

A text is often built from lines, each with its newline.  `scan_join` says what
the scanner hands out for it: the lines before the first long one.

Server-sent events are such texts.  The payload of an event stands on a line that
starts with `data: `, and some servers end with the payload `[DONE]`.
-/

namespace LineScanner

open List

open LineJournal (splitLines tokens dropCR)

section

variable {β : Type} [DecidableEq β]

/-- How long a line is. -/
def size (weight : β → Nat) (line : List β) : Nat := (line.map weight).sum

/-- What the scanner hands out: the lines before the first one that reaches the limit. -/
def scan (weight : β → Nat) (newline cr : β) (limit : Nat) (text : List β) : List (List β) :=
  ((tokens newline text).takeWhile fun line => size weight line < limit).map (dropCR cr)

/-- The text of the lines. -/
def join (newline : β) (lines : List (List β)) : List β :=
  lines.flatMap fun line => line ++ [newline]

omit [DecidableEq β] in
theorem join_append (newline : β) (xs ys : List (List β)) :
    join newline (xs ++ ys) = join newline xs ++ join newline ys := flatMap_append

variable {newline : β} {lines : List (List β)}

theorem splitLines_join (h : ∀ line ∈ lines, newline ∉ line) :
    splitLines newline (join newline lines) = (lines, []) := by
  induction lines with
  | nil => rfl
  | cons line lines ih =>
    obtain ⟨hline, hlines⟩ := forall_mem_cons.mp h
    have hcons : join newline (line :: lines) = line ++ newline :: join newline lines := by
      rw [join, flatMap_cons, append_assoc, singleton_append, join]
    rw [hcons, LineJournal.splitLines_line _ hline, ih hlines]

theorem tokens_join (h : ∀ line ∈ lines, newline ∉ line) :
    tokens newline (join newline lines) = lines := by
  rw [tokens, splitLines_join h]

theorem scan_join {weight : β → Nat} {cr : β} {limit : Nat} (h : ∀ line ∈ lines, newline ∉ line) :
    scan weight newline cr limit (join newline lines) =
      (lines.takeWhile fun line => size weight line < limit).map (dropCR cr) := by
  rw [scan, tokens_join h]

theorem dropCR_of_notMem {cr : β} {line : List β} (h : cr ∉ line) : dropCR cr line = line :=
  if_neg fun hlast => h (mem_of_getLast? hlast)

end

/-! ## UTF-8 text -/

/-- `bufio.MaxScanTokenSize`, the limit of a scanner that is given no buffer. -/
def maxScanTokenSize : Nat := 64 * 1024

/-- The scanner over UTF-8 text. -/
def scanText (limit : Nat) (text : List Char) : List (List Char) :=
  scan Char.utf8Size '\n' '\r' limit text

/-- Why the scanner stops. -/
inductive ScanError where
  | tooLong
  /-- An error of the reader below. -/
  | read
deriving Repr, DecidableEq

/-- `Scanner.Err` after the last line, for a text after which the reader ends or fails. -/
def scanErr (limit : Nat) (readFails : Bool) (text : List Char) : Option ScanError :=
  if ∀ line ∈ tokens '\n' text, size Char.utf8Size line < limit then
    if readFails then some .read else none
  else some .tooLong

/-- The lines of a text. -/
def lines (text : List Char) : List (List Char) := (tokens '\n' text).map (dropCR '\r')

theorem scanText_prefix_lines (limit : Nat) (text : List Char) :
    scanText limit text <+: lines text := (List.takeWhile_prefix _).map _

/-- The first `k` lines, as they stand in the text, are below the limit. -/
def Short (limit k : Nat) (text : List Char) : Prop :=
  ∀ line ∈ (tokens '\n' text).take k, size Char.utf8Size line < limit

instance (limit k : Nat) (text : List Char) : Decidable (Short limit k text) :=
  inferInstanceAs (Decidable (∀ line ∈ (tokens '\n' text).take k, size Char.utf8Size line < limit))

variable {limit : Nat} {text : List Char}

/-- The scanner gets as far as the lines are short. -/
theorem Short.lines_seen {k : Nat} (h : Short limit k text) :
    (lines text).take k <+: scanText limit text := by
  have hshort : (tokens '\n' text).take k <+:
      (tokens '\n' text).takeWhile fun line => size Char.utf8Size line < limit := by
    nth_rewrite 2 [← take_append_drop k (tokens '\n' text)]
    rw [takeWhile_append_of_pos fun line hline => decide_eq_true (h line hline)]
    exact prefix_append _ _
  rw [lines, ← map_take]
  exact hshort.map _

theorem scanText_prefix_of_not_short {k : Nat} (h : ¬ Short limit (k + 1) text) :
    scanText limit text <+: (lines text).take k := by
  have hlong : (tokens '\n' text).takeWhile (fun line => size Char.utf8Size line < limit) <+:
      (tokens '\n' text).take k := by
    refine prefix_take_iff.mpr ⟨List.takeWhile_prefix _, ?_⟩
    by_contra hlen
    -- the scanner would have passed all of the first lines
    refine h fun line hline => ?_
    have htake : (tokens '\n' text).take (k + 1) <+:
        (tokens '\n' text).takeWhile fun line => size Char.utf8Size line < limit :=
      prefix_of_prefix_length_le (List.take_prefix _ _) (List.takeWhile_prefix _) (by
        rw [length_take]
        omega)
    have hseen := mem_takeWhile_imp (htake.subset hline)
    exact of_decide_eq_true hseen
  rw [lines, ← map_take]
  exact hlong.map _

/-! ## Server-sent events -/

/-- What follows a given start of a line. -/
def after (start line : List Char) : Option (List Char) :=
  if start <+: line then some (line.drop start.length) else none

theorem after_append (start text : List Char) : after start (start ++ text) = some text := by
  rw [after, if_pos (prefix_append _ _), drop_left]

/-- What the data of an event follows. -/
def dataPrefix : List Char := ['d', 'a', 't', 'a', ':', ' ']

/-- The payload of the last event. -/
def doneMark : List Char := ['[', 'D', 'O', 'N', 'E', ']']

/-- What a loop over the lines of a stream returns, which ends at `[DONE]` and where the scanner
reports `err` after its last line. -/
def doneResult (err : Option ScanError) : List (List Char) → Option ScanError
  | [] => err
  | line :: lines => if after dataPrefix line = some doneMark then none else doneResult err lines

/-- What such a loop returns for a text. -/
def doneErr (limit : Nat) (readFails : Bool) (text : List Char) : Option ScanError :=
  doneResult (scanErr limit readFails text) (scanText limit text)

/-- The lines before `[DONE]`. -/
def beforeDone (lines : List (List Char)) : List (List Char) :=
  lines.takeWhile fun line => after dataPrefix line ≠ some doneMark

theorem doneResult_cases (err : Option ScanError) (lines : List (List Char)) :
    (∃ line ∈ lines, after dataPrefix line = some doneMark) ∨ doneResult err lines = err := by
  induction lines with
  | nil => exact .inr rfl
  | cons line lines ih =>
    rw [doneResult]
    split
    · next hdone => exact .inl ⟨line, mem_cons_self, hdone⟩
    · rcases ih with ⟨line', hline', hdone⟩ | heq
      · exact .inl ⟨line', mem_cons_of_mem _ hline', hdone⟩
      · exact .inr heq

theorem scanText_eq_lines {readFails : Bool} (h : scanErr limit readFails text = none) :
    scanText limit text = lines text := by
  unfold scanErr at h
  split at h
  · next hshort =>
    rw [scanText, scan, lines, takeWhile_eq_self_iff.mpr]
    exact fun line hline => decide_eq_true (hshort line hline)
  · cases h

theorem beforeDone_scanText {readFails : Bool} (h : doneErr limit readFails text = none) :
    beforeDone (scanText limit text) = beforeDone (lines text) := by
  rcases doneResult_cases (scanErr limit readFails text) (scanText limit text) with
    ⟨line, hline, hdone⟩ | heq
  · obtain ⟨rest, hrest⟩ := scanText_prefix_lines limit text
    rw [← hrest, beforeDone, beforeDone, takeWhile_append, if_neg]
    intro hlength
    -- the scanner would have passed the `[DONE]`
    have hall := takeWhile_eq_self_iff.mp
      ((List.takeWhile_prefix _).eq_of_length hlength) line hline
    exact absurd hdone (of_decide_eq_true hall)
  · rw [scanText_eq_lines (heq.symm.trans h)]

end LineScanner
