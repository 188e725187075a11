import Mathlib

/-!
# Functions of package `strings`

The few functions of Go's `strings` and `unicode` packages the gateway calls.
They act on code points.  Text that reaches them comes from JSON or from
provider errors and is compared with ASCII patterns only.
-/

namespace Ixr.GoStrings

open List

/-- `strings.Contains`. -/
def contains (s substr : String) : Bool := decide (substr.toList <:+: s.toList)

/-- `strings.HasPrefix`. -/
def hasPrefix (s start : String) : Bool := decide (start.toList <+: s.toList)

/-- `unicode.ToLower`, up to code points whose lower case is not ASCII either.
Two code points beyond ASCII have an ASCII lower case: `İ` and the Kelvin
sign. -/
def runeToLower (c : Char) : Char :=
  if c = Char.ofNat 0x130 then 'i'
  else if c = Char.ofNat 0x212A then 'k'
  else c.toLower

/-- `strings.ToLower`, as far as comparison with ASCII text goes.  Other letters are kept as they
are. -/
def toLower (s : String) : String := String.ofList (s.toList.map runeToLower)

/-- `strings.EqualFold` with ASCII text.  The long s and the Kelvin sign fold to ASCII letters. -/
def equalFold (s t : String) : Bool :=
  let fold (c : Char) : Char :=
    if c = Char.ofNat 0x17F then 's' else if c = Char.ofNat 0x212A then 'k' else c.toLower
  s.toList.map fold == t.toList.map fold

/-- `unicode.IsSpace`. -/
def isSpace (c : Char) : Bool :=
  c.toNat ∈ [0x09, 0x0A, 0x0B, 0x0C, 0x0D, 0x20, 0x85, 0xA0, 0x1680, 0x2028, 0x2029, 0x202F,
    0x205F, 0x3000] || (0x2000 ≤ c.toNat && c.toNat ≤ 0x200A)

/-- `strings.TrimSpace`. -/
def trimSpace (s : String) : String :=
  String.ofList (((s.toList.dropWhile isSpace).reverse.dropWhile isSpace).reverse)

theorem eq_false_of_dropWhile_eq_cons {p : Char → Bool} {c : Char} {cs rest : List Char}
    (h : cs.dropWhile p = c :: rest) : p c = false := by
  have hhead := head?_dropWhile_not p cs
  rw [h, head?_cons] at hhead
  exact hhead

theorem exists_mem_trimSpace {s : String} (h : trimSpace s ≠ "") :
    ∃ c ∈ (trimSpace s).toList, isSpace c = false := by
  rw [trimSpace, String.toList_ofList]
  cases hdrop : (s.toList.dropWhile isSpace).reverse.dropWhile isSpace with
  | nil =>
    rw [trimSpace, hdrop] at h
    exact absurd rfl h
  | cons c rest => exact ⟨c, by simp, eq_false_of_dropWhile_eq_cons hdrop⟩

theorem trimSpace_ne_empty {s : String} {c : Char} (hc : c ∈ s.toList) (h : isSpace c = false) :
    trimSpace s ≠ "" := by
  intro hblank
  rw [trimSpace, String.ofList_eq_empty_iff, reverse_eq_nil_iff, dropWhile_eq_nil_iff] at hblank
  cases hdrop : s.toList.dropWhile isSpace with
  | nil =>
    have hspace := dropWhile_eq_nil_iff.mp hdrop c hc
    rw [h] at hspace
    cases hspace
  | cons c' rest =>
    have hspace := hblank c' (by rw [hdrop]; simp)
    rw [eq_false_of_dropWhile_eq_cons hdrop] at hspace
    cases hspace

/-- `len(s)`: the number of bytes. -/
def len (s : String) : Int := s.utf8ByteSize

theorem len_nonneg (s : String) : 0 ≤ len s := Int.natCast_nonneg _

/-- The text around the first occurrence of `sep`, in code points. -/
def cutList (sep : List Char) : List Char → Option (List Char × List Char)
  | [] => if sep = [] then some ([], []) else none
  | c :: cs =>
    if sep <+: c :: cs then some ([], (c :: cs).drop sep.length)
    else (cutList sep cs).map fun parts => (c :: parts.1, parts.2)

/-- `strings.Index` with the slices before and after the match. -/
def cut (s sep : String) : Option (String × String) :=
  (cutList sep.toList s.toList).map fun parts => (String.ofList parts.1, String.ofList parts.2)

/-- The rest of `s` after the text it starts with, if it does. -/
def afterPrefix (s start : String) : Option String :=
  if hasPrefix s start then some (String.ofList (s.toList.drop start.toList.length)) else none

/-- `strings.Join`. -/
def join (sep : String) (xs : List String) : String := sep.intercalate xs

theorem join_cons (x : String) (xs : List String) : join "" (x :: xs) = x ++ join "" xs := by
  cases xs with
  | nil => simp [join]
  | cons y ys => rw [join, String.intercalate_cons_cons, String.append_empty, join]

theorem join_append (xs ys : List String) : join "" (xs ++ ys) = join "" xs ++ join "" ys := by
  induction xs with
  | nil => simp [join]
  | cons x xs ih => rw [cons_append, join_cons, ih, join_cons, String.append_assoc]

theorem join_merge (sep x y : String) (ys : List String) :
    join sep ((x ++ sep ++ y) :: ys) = join sep (x :: y :: ys) := by
  cases ys with
  | nil => simp [join, String.intercalate_cons_cons]
  | cons z zs => simp [join, String.intercalate_cons_cons, String.append_assoc]

/-- Adds a line to a text. -/
def addLine (text t : String) : String := (if text ≠ "" then text ++ "\n" else text) ++ t

theorem foldl_addLine {ts : List String} (h : ∀ t ∈ ts, t ≠ "") (text : String) :
    ts.foldl addLine text = join "\n" ((if text = "" then [] else [text]) ++ ts) := by
  induction ts generalizing text with
  | nil =>
    by_cases htext : text = ""
    · simp [htext, join]
    · simp [htext, join]
  | cons t ts ih =>
    obtain ⟨ht, hts⟩ := forall_mem_cons.mp h
    rw [foldl_cons, ih hts]
    by_cases htext : text = ""
    · simp [addLine, htext, ht]
    · have hline : addLine text t = text ++ "\n" ++ t := by rw [addLine, if_pos htext]
      have hne : ¬ text ++ "\n" ++ t = "" := by simp [htext]
      rw [hline, if_neg hne, if_neg htext, singleton_append, singleton_append, join_merge]

theorem join_ne_empty {sep x : String} {xs : List String} (h : x ≠ "") :
    join sep (x :: xs) ≠ "" := by
  cases xs with
  | nil => simpa [join] using h
  | cons y ys => simp [join, String.intercalate_cons_cons, h]

theorem eq_nil_of_join_append_eq {sep : String} {xs ys : List String} (hys : ∀ y ∈ ys, y ≠ "")
    (h : join sep (xs ++ ys) = join sep xs) : ys = [] := by
  cases ys with
  | nil => rfl
  | cons y ys =>
    exfalso
    have hy : y ≠ "" := hys y mem_cons_self
    induction xs with
    | nil => exact join_ne_empty hy h
    | cons x xs ih =>
      cases xs with
      | nil =>
        have hcons : join sep ([x] ++ y :: ys) = x ++ sep ++ join sep (y :: ys) :=
          String.intercalate_cons_cons
        have hone : join sep [x] = x := by simp [join]
        rw [hcons, hone, String.append_assoc, String.append_eq_left_iff,
          String.append_eq_empty_iff] at h
        exact join_ne_empty hy h.2
      | cons x' xs =>
        have hleft : join sep (x :: x' :: xs ++ y :: ys) =
            x ++ sep ++ join sep (x' :: xs ++ y :: ys) := String.intercalate_cons_cons
        have hright : join sep (x :: x' :: xs) = x ++ sep ++ join sep (x' :: xs) :=
          String.intercalate_cons_cons
        rw [hleft, hright, String.append_right_inj] at h
        exact ih h

/-- The nearest integer, and the even one of two. -/
def roundHalfEven (q : ℚ) : Int :=
  let r := q - ⌊q⌋
  if r < 1 / 2 ∨ (r = 1 / 2 ∧ ⌊q⌋ % 2 = 0) then ⌊q⌋ else ⌊q⌋ + 1

/-- `%.nf` of `fmt.Sprintf`. -/
def formatFixed (n : Nat) (q : ℚ) : String :=
  let scaled := (roundHalfEven (|q| * 10 ^ n)).toNat
  let whole := toString (scaled / 10 ^ n)
  let frac := toString (scaled % 10 ^ n)
  let sign := if q < 0 then "-" else ""
  if n = 0 then sign ++ whole
  else sign ++ whole ++ "." ++ String.ofList (replicate (n - frac.length) '0') ++ frac

example : contains "openai: status 404: gone" "status 404" = true := by decide
example : toLower "GPT-4o" = "gpt-4o" := by decide
example : cut "image/png;base64,AA" ";base64," = some ("image/png", "AA") := by decide
example : trimSpace " hi there \n" = "hi there" := by decide

end Ixr.GoStrings
