import Mathlib

/-!
# JSON texts

A JSON value and its text.  `print` writes a value the way Go's `encoding/json`
does: without space, with escapes for quotes, backslashes, control characters
and what is unsafe in HTML.  `parse` reads any JSON text.

A number is kept as its literal, so that nothing is said here about its value.
An object is a list of fields in the order of the text, also with a key twice.
A text is a list of characters.  Bytes that are not UTF-8 are read as the
replacement character before that.  There is no limit on how deep a value is nested.
-/

namespace JsonText

open List

/-! ## Numbers -/

/-- A number can have the character. -/
def isNumberChar (c : Char) : Bool := c.isDigit || c ∈ ['-', '+', '.', 'e', 'E']

/-- The rest after the digits. -/
def isExponent : List Char → Bool
  | [] => true
  | e :: cs =>
    (e = 'e' || e = 'E') &&
      match cs with
      | [] => false
      | c :: rest =>
        if c = '+' ∨ c = '-' then !rest.isEmpty && rest.all Char.isDigit
        else c.isDigit && rest.all Char.isDigit

/-- The rest after the whole part. -/
def isFraction : List Char → Bool
  | '.' :: d :: cs => d.isDigit && isExponent (cs.dropWhile Char.isDigit)
  | cs => isExponent cs

/-- A number without a sign. -/
def isUnsigned : List Char → Bool
  | [] => false
  | c :: cs =>
    if c = '0' then isFraction cs
    else c.isDigit && isFraction (cs.dropWhile Char.isDigit)

/-- The grammar of numbers. -/
def isNumber : List Char → Bool
  | '-' :: cs => isUnsigned cs
  | cs => isUnsigned cs

variable {cs : List Char}

theorem all_of_all_dropWhile {p q : Char → Bool} (hpq : ∀ c, p c = true → q c = true)
    (h : (cs.dropWhile p).all q = true) : cs.all q = true := by
  rw [← takeWhile_append_dropWhile (p := p) (l := cs), all_append, h, Bool.and_true, all_eq_true]
  exact fun c hc => hpq c (mem_takeWhile_imp hc)

theorem isNumberChar_of_isDigit (c : Char) (h : c.isDigit = true) : isNumberChar c = true := by
  rw [isNumberChar, h, Bool.true_or]

theorem all_isNumberChar_of_all_isDigit (h : cs.all Char.isDigit = true) :
    cs.all isNumberChar = true :=
  all_eq_true.mpr fun c hc => isNumberChar_of_isDigit c (all_eq_true.mp h c hc)

theorem isExponent_all (h : isExponent cs = true) : cs.all isNumberChar = true := by
  cases cs with
  | nil => rfl
  | cons e cs =>
    simp only [isExponent, Bool.and_eq_true, Bool.or_eq_true, decide_eq_true_eq] at h
    obtain ⟨he, h⟩ := h
    have he' : isNumberChar e = true := by
      rcases he with rfl | rfl <;> decide
    rw [all_cons, he', Bool.true_and]
    cases cs with
    | nil => rfl
    | cons c rest =>
      simp only at h
      split at h
      · next hsign =>
        simp only [Bool.and_eq_true] at h
        have hc : isNumberChar c = true := by
          rcases hsign with rfl | rfl <;> decide
        rw [all_cons, hc, all_isNumberChar_of_all_isDigit h.2, Bool.and_self]
      · simp only [Bool.and_eq_true] at h
        rw [all_cons, isNumberChar_of_isDigit c h.1, all_isNumberChar_of_all_isDigit h.2,
          Bool.and_self]

theorem isFraction_all (h : isFraction cs = true) : cs.all isNumberChar = true := by
  unfold isFraction at h
  split at h
  · next d cs =>
    simp only [Bool.and_eq_true] at h
    have hdot : isNumberChar '.' = true := by decide
    rw [all_cons, all_cons, hdot, isNumberChar_of_isDigit d h.1,
      all_of_all_dropWhile isNumberChar_of_isDigit (isExponent_all h.2), Bool.and_self,
      Bool.and_self]
  · exact isExponent_all h

theorem isUnsigned_all (h : isUnsigned cs = true) : cs.all isNumberChar = true := by
  cases cs with
  | nil => rfl
  | cons c cs =>
    rw [isUnsigned] at h
    split at h
    · next hc =>
      have hzero : isNumberChar c = true := by
        rw [hc]
        decide
      rw [all_cons, hzero, isFraction_all h, Bool.and_self]
    · simp only [Bool.and_eq_true] at h
      rw [all_cons, isNumberChar_of_isDigit c h.1,
        all_of_all_dropWhile isNumberChar_of_isDigit (isFraction_all h.2), Bool.and_self]

theorem isNumber_all (h : isNumber cs = true) : cs.all isNumberChar = true := by
  unfold isNumber at h
  split at h
  · have hminus : isNumberChar '-' = true := by decide
    rw [all_cons, hminus, isUnsigned_all h, Bool.and_self]
  · exact isUnsigned_all h

/-- A number as it is written. -/
structure Number where
  text : List Char
  valid : isNumber text = true
deriving DecidableEq

/-! ## Values -/

/-- A JSON value. -/
inductive Value where
  | null
  | bool (b : Bool)
  | number (n : Number)
  | string (s : String)
  | array (xs : List Value)
  | object (fields : List (String × Value))

/-! ## Printing -/

/-- Four hexadecimal digits. -/
def hex4 (n : Nat) : List Char :=
  [n / 4096 % 16, n / 256 % 16, n / 16 % 16, n % 16].map Nat.digitChar

/-- The character is written as `\uXXXX`. -/
def isEscaped (c : Char) : Bool :=
  c.toNat < 0x20 || c.toNat ∈ [0x3C, 0x3E, 0x26, 0x2028, 0x2029]

/-- The escapes of one letter. -/
def letters : List (Char × Char) :=
  [('"', '"'), ('\\', '\\'), ('b', Char.ofNat 8), ('f', Char.ofNat 12), ('n', '\n'), ('r', '\r'),
    ('t', '\t')]

/-- A character in a string. -/
def escape (c : Char) : List Char :=
  match letters.find? fun p => p.2 = c with
  | some p => ['\\', p.1]
  | none => if isEscaped c then '\\' :: 'u' :: hex4 c.toNat else [c]

/-- A string in its quotes. -/
def printString (s : String) : List Char := '"' :: (s.toList.flatMap escape ++ ['"'])

mutual

/-- The text of a value. -/
def print : Value → List Char
  | .null => ['n', 'u', 'l', 'l']
  | .bool true => ['t', 'r', 'u', 'e']
  | .bool false => ['f', 'a', 'l', 's', 'e']
  | .number n => n.text
  | .string s => printString s
  | .array [] => ['[', ']']
  | .array (x :: xs) => '[' :: (print x ++ printElements xs)
  | .object [] => ['{', '}']
  | .object ((key, x) :: fields) =>
    '{' :: (printString key ++ ':' :: (print x ++ printFields fields))

/-- The rest of an array. -/
def printElements : List Value → List Char
  | [] => [']']
  | x :: xs => ',' :: (print x ++ printElements xs)

/-- The rest of an object. -/
def printFields : List (String × Value) → List Char
  | [] => ['}']
  | (key, x) :: fields =>
    ',' :: (printString key ++ ':' :: (print x ++ printFields fields))

end

/-! ## Parsing -/

/-- White space. -/
def isWhite (c : Char) : Bool := c ∈ [' ', '\t', '\n', '\r']

/-- Skips white space. -/
def skip (cs : List Char) : List Char := cs.dropWhile isWhite

/-- The value of a digit. -/
def hexDigit (c : Char) : Option Nat :=
  if c.isDigit then some (c.toNat - 48)
  else if 'a' ≤ c ∧ c ≤ 'f' then some (c.toNat - 87)
  else if 'A' ≤ c ∧ c ≤ 'F' then some (c.toNat - 55)
  else none

/-- Reads four digits. -/
def readHex4 : List Char → Option (Nat × List Char)
  | a :: b :: c :: d :: rest => do
    let a ← hexDigit a
    let b ← hexDigit b
    let c ← hexDigit c
    let d ← hexDigit d
    return (a * 4096 + b * 256 + c * 16 + d, rest)
  | _ => none

/-- The second half of a surrogate pair whose first half is given: the character and what
follows. -/
def readLow (high : Nat) : List Char → Option (Char × List Char)
  | '\\' :: 'u' :: rest =>
    (readHex4 rest).bind fun (low, rest) =>
      if 0xDC00 ≤ low ∧ low < 0xE000 then
        some (Char.ofNat (0x10000 + (high - 0xD800) * 1024 + (low - 0xDC00)), rest)
      else none
  | _ => none

/-- Reads what follows a backslash. -/
def readEscape : List Char → Option (Char × List Char)
  | [] => none
  | e :: cs =>
    if e = 'u' then
      (readHex4 cs).map fun (n, cs) =>
        if n < 0xD800 ∨ 0xE000 ≤ n then (Char.ofNat n, cs)
        -- half of a pair, or a replacement character
        else (if n < 0xDC00 then readLow n cs else none).getD (Char.ofNat 0xFFFD, cs)
    else
      ((('/', '/') :: letters).find? fun p => p.1 = e).map fun p => (p.2, cs)

/-- The next character of a string, or none for the closing quote, and what follows. -/
def readChar : List Char → Option (Option Char × List Char)
  | [] => none
  | c :: cs =>
    if c = '"' then some (none, cs)
    else if c = '\\' then (readEscape cs).map fun p => (some p.1, p.2)
    else if c.toNat < 0x20 then none
    else some (some c, cs)

/-- The rest of a string. -/
def parseString : Nat → List Char → Option (List Char × List Char)
  | 0, _ => none
  | fuel + 1, cs =>
    match readChar cs with
    | none => none
    | some (none, rest) => some ([], rest)
    | some (some c, rest) => (parseString fuel rest).map fun p => (c :: p.1, p.2)

/-- A literal word. -/
def parseWord (word : List Char) (v : Value) (cs : List Char) : Option (Value × List Char) :=
  if word <+: cs then some (v, cs.drop word.length) else none

/-- A number. -/
def parseNumber (cs : List Char) : Option (Value × List Char) :=
  let text := cs.takeWhile isNumberChar
  if h : isNumber text = true then some (.number ⟨text, h⟩, cs.dropWhile isNumberChar) else none

mutual

/-- A value and what follows it.  The number bounds the length of the text. -/
def parseValue : Nat → List Char → Option (Value × List Char)
  | 0, _ => none
  | fuel + 1, cs =>
    match skip cs with
    | [] => none
    | c :: cs =>
      if c = 'n' then parseWord ['u', 'l', 'l'] .null cs
      else if c = 't' then parseWord ['r', 'u', 'e'] (.bool true) cs
      else if c = 'f' then parseWord ['a', 'l', 's', 'e'] (.bool false) cs
      else if c = '"' then
        (parseString fuel cs).map fun p => (.string (String.ofList p.1), p.2)
      else if c = '[' then
        match skip cs with
        | ']' :: rest => some (.array [], rest)
        | cs =>
          (parseValue fuel cs).bind fun (x, cs) =>
            (parseElements fuel cs).map fun p => (.array (x :: p.1), p.2)
      else if c = '{' then
        match skip cs with
        | '}' :: rest => some (.object [], rest)
        | cs =>
          (parseField fuel cs).bind fun (field, cs) =>
            (parseFields fuel cs).map fun p => (.object (field :: p.1), p.2)
      else parseNumber (c :: cs)

/-- The elements after the first, up to the closing bracket. -/
def parseElements : Nat → List Char → Option (List Value × List Char)
  | 0, _ => none
  | fuel + 1, cs =>
    match skip cs with
    | ']' :: rest => some ([], rest)
    | ',' :: cs =>
      (parseValue fuel cs).bind fun (x, cs) =>
        (parseElements fuel cs).map fun p => (x :: p.1, p.2)
    | _ => none

/-- A key and its value. -/
def parseField : Nat → List Char → Option ((String × Value) × List Char)
  | 0, _ => none
  | fuel + 1, cs =>
    match skip cs with
    | '"' :: cs =>
      (parseString fuel cs).bind fun (key, cs) =>
        match skip cs with
        | ':' :: cs =>
          (parseValue fuel cs).map fun p => ((String.ofList key, p.1), p.2)
        | _ => none
    | _ => none

/-- The rest of an object. -/
def parseFields : Nat → List Char → Option (List (String × Value) × List Char)
  | 0, _ => none
  | fuel + 1, cs =>
    match skip cs with
    | '}' :: rest => some ([], rest)
    | ',' :: cs =>
      (parseField fuel cs).bind fun (field, cs) =>
        (parseFields fuel cs).map fun p => (field :: p.1, p.2)
    | _ => none

end

/-- The first value of a text, as a `json.Decoder` reads it. -/
def parseFirst (cs : List Char) : Option Value := (parseValue (cs.length + 1) cs).map Prod.fst

/-- The value of a whole text, as `json.Unmarshal` reads it. -/
def parse (cs : List Char) : Option Value :=
  match parseValue (cs.length + 1) cs with
  | some (v, rest) => if skip rest = [] then some v else none
  | none => none

end JsonText
