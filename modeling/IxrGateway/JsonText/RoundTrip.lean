import IxrGateway.JsonText.Syntax

/-!
# Reading printed JSON

Reading a printed value gives it back, whatever follows that is not part of a
number (`parseValue_print`).  A printed text has no control character in it
(`print_printable`), so it takes one line.
-/

namespace JsonText

open List

/-! ## Strings -/

theorem hexDigit_digitChar {d : Nat} (h : d < 16) : hexDigit (Nat.digitChar d) = some d := by
  interval_cases d <;> rfl

theorem readHex4_hex4 {n : Nat} (h : n < 65536) (rest : List Char) :
    readHex4 (hex4 n ++ rest) = some (n, rest) := by
  have hdigit (k : Nat) : hexDigit (Nat.digitChar (k % 16)) = some (k % 16) :=
    hexDigit_digitChar (Nat.mod_lt k (by decide))
  simp only [hex4, map_cons, map_nil, cons_append, nil_append, readHex4,
    hdigit, Option.bind_eq_bind, Option.bind_some, Option.pure_def, Option.some.injEq,
    Prod.mk.injEq, and_true]
  omega

variable {c : Char} {text rest more : List Char} {x : Value} {fuel : Nat}

theorem find_letter {p : Char × Char} (h : (letters.find? fun p => p.2 = c) = some p) :
    p ∈ letters ∧ p.2 = c :=
  ⟨mem_of_find?_eq_some h, by simpa using find?_some h⟩

theorem isEscaped_lt (h : isEscaped c = true) :
    c.toNat < 0x20 ∨ c.toNat = 0x3C ∨ c.toNat = 0x3E ∨ c.toNat = 0x26 ∨ c.toNat = 0x2028 ∨
      c.toNat = 0x2029 := by
  simpa [isEscaped] using h

theorem readChar_escape (c : Char) (cs : List Char) :
    readChar (escape c ++ cs) = some (some c, cs) := by
  rw [escape]
  cases hfind : letters.find? fun p => p.2 = c with
  | some p =>
    obtain ⟨hmem, rfl⟩ := find_letter hfind
    simp only [letters, mem_cons, not_mem_nil, or_false] at hmem
    rcases hmem with rfl | rfl | rfl | rfl | rfl | rfl | rfl <;> rfl
  | none =>
    have hnot (p : Char × Char) (hp : p ∈ letters) : ¬ p.2 = c := by
      simpa using find?_eq_none.mp hfind p hp
    have hquote : ¬ c = '"' := fun h => hnot ('"', '"') (by decide) h.symm
    have hslash : ¬ c = '\\' := fun h => hnot ('\\', '\\') (by decide) h.symm
    cases hesc : isEscaped c with
    | true =>
      have hlt := isEscaped_lt hesc
      have hhex := readHex4_hex4 (show c.toNat < 65536 by omega) cs
      have hplain : c.toNat < 0xD800 ∨ 0xE000 ≤ c.toNat := by omega
      have hchar : readEscape ('u' :: (hex4 c.toNat ++ cs)) = some (c, cs) := by
        simp only [readEscape, if_true, hhex, Option.map_some, hplain, Char.ofNat_toNat]
      simp only [if_true, cons_append, readChar, hchar, Option.map_some]
      rfl
    | false =>
      have hge : ¬ c.toNat < 0x20 := by
        intro h
        simp [isEscaped, h] at hesc
      simp only [Bool.false_eq_true, if_false, cons_append, nil_append, readChar,
        hquote, hslash, hge]

theorem length_escape_pos (c : Char) : 0 < (escape c).length := by
  rw [escape]
  split
  · exact Nat.succ_pos _
  · split <;> exact Nat.succ_pos _

theorem parseString_escaped (s : List Char) (rest : List Char) :
    ∀ fuel, (s.flatMap escape).length < fuel →
      parseString fuel (s.flatMap escape ++ '"' :: rest) = some (s, rest) := by
  induction s with
  | nil =>
    intro fuel hfuel
    obtain ⟨fuel, rfl⟩ := Nat.exists_eq_succ_of_ne_zero (Nat.ne_of_gt hfuel)
    rfl
  | cons c s ih =>
    intro fuel hfuel
    rw [flatMap_cons, length_append] at hfuel
    have hpos := length_escape_pos c
    obtain ⟨fuel, rfl⟩ : ∃ k, fuel = k + 1 := ⟨fuel - 1, by omega⟩
    rw [flatMap_cons, append_assoc, parseString, readChar_escape]
    simp only [ih fuel (by omega), Option.map_some]

/-! ## Where a value ends -/

/-- What follows a value does not carry on a number. -/
def Ends (rest : List Char) : Prop := ∀ c ∈ rest.head?, isNumberChar c = false

theorem ends_nil : Ends [] := by
  intro c hc
  simp at hc

theorem ends_printElements (xs : List Value) (rest : List Char) :
    Ends (printElements xs ++ rest) := by
  intro c hc
  cases xs with
  | nil =>
    obtain rfl : ']' = c := by simpa [printElements] using hc
    decide
  | cons x xs =>
    obtain rfl : ',' = c := by simpa [printElements] using hc
    decide

theorem ends_printFields (fields : List (String × Value)) (rest : List Char) :
    Ends (printFields fields ++ rest) := by
  intro c hc
  cases fields with
  | nil =>
    obtain rfl : '}' = c := by simpa [printFields] using hc
    decide
  | cons x xs =>
    obtain rfl : ',' = c := by simpa [printFields] using hc
    decide

theorem takeWhile_append_of_ends (htext : text.all isNumberChar = true) (hrest : Ends rest) :
    (text ++ rest).takeWhile isNumberChar = text ∧
      (text ++ rest).dropWhile isNumberChar = rest := by
  rw [all_eq_true] at htext
  have hstop : rest.takeWhile isNumberChar = [] ∧ rest.dropWhile isNumberChar = rest := by
    cases rest with
    | nil => exact ⟨rfl, rfl⟩
    | cons c rest =>
      have hc := hrest c rfl
      rw [takeWhile_cons_of_neg (by simp [hc]), dropWhile_cons_of_neg (by simp [hc])]
      exact ⟨rfl, rfl⟩
  rw [takeWhile_append_of_pos htext, dropWhile_append_of_pos htext, hstop.1, hstop.2, append_nil]
  exact ⟨rfl, rfl⟩

/-! ## How a printed value starts -/

theorem Number.text_eq_cons (n : Number) :
    ∃ c cs, n.text = c :: cs ∧ isNumberChar c = true := by
  have hall := isNumber_all n.valid
  cases htext : n.text with
  | nil =>
    have hvalid := n.valid
    rw [htext] at hvalid
    exact absurd hvalid (by decide)
  | cons c cs =>
    rw [htext, all_cons, Bool.and_eq_true] at hall
    exact ⟨c, cs, rfl, hall.1⟩

/-- A value can start with the character. -/
def starts (c : Char) : Bool := c ∈ ['n', 't', 'f', '"', '[', '{'] || isNumberChar c

theorem print_eq_cons (v : Value) : ∃ c cs, print v = c :: cs ∧ starts c = true := by
  cases v with
  | null => exact ⟨_, _, rfl, by decide⟩
  | bool b =>
    cases b with
    | true | false => exact ⟨_, _, rfl, by decide⟩
  | number n =>
    obtain ⟨c, cs, htext, hc⟩ := n.text_eq_cons
    exact ⟨c, cs, htext, by rw [starts, hc, Bool.or_true]⟩
  | string s => exact ⟨_, _, rfl, by decide⟩
  | array xs =>
    cases xs with
    | nil | cons => exact ⟨_, _, rfl, by decide⟩
  | object fields =>
    cases fields with
    | nil | cons => exact ⟨_, _, rfl, by decide⟩

theorem head_print_object (fields : List (String × Value)) :
    (print (.object fields)).head? = some '{' := by
  cases fields with
  | nil | cons => rfl

theorem isWhite_of_starts (h : starts c = true) : isWhite c = false := by
  cases hw : isWhite c with
  | false => rfl
  | true =>
    simp only [isWhite, mem_cons, not_mem_nil, or_false, decide_eq_true_eq] at hw
    rcases hw with rfl | rfl | rfl | rfl <;> exact absurd h (by decide)

theorem skip_cons (h : isWhite c = false) (cs : List Char) : skip (c :: cs) = c :: cs := by
  rw [skip, dropWhile_cons_of_neg (by simp [h])]

theorem skip_print (v : Value) (rest : List Char) : skip (print v ++ rest) = print v ++ rest := by
  obtain ⟨c, cs, hprint, hc⟩ := print_eq_cons v
  rw [hprint, cons_append, skip_cons (isWhite_of_starts hc)]

theorem skip_printString (s : String) (rest : List Char) :
    skip (printString s ++ rest) = printString s ++ rest := by
  rw [printString, cons_append, skip_cons (by decide)]

/-! ## Values -/

theorem parseValue_number (n : Number) (fuel : Nat) (rest : List Char) (hrest : Ends rest) :
    parseValue (fuel + 1) (n.text ++ rest) = some (.number n, rest) := by
  obtain ⟨c, cs, htext, hc⟩ := n.text_eq_cons
  have hne (d : Char) (hd : isNumberChar d = false) : ¬ c = d := by
    rintro rfl
    rw [hd] at hc
    cases hc
  have hwhite : isWhite c = false :=
    isWhite_of_starts (by rw [starts, hc, Bool.or_true])
  have hsplit := takeWhile_append_of_ends (isNumber_all n.valid) hrest
  have hnumber : parseNumber (n.text ++ rest) = some (.number n, rest) := by
    simp only [parseNumber, hsplit.1, hsplit.2, n.valid, dite_true]
  rw [htext, cons_append] at hnumber ⊢
  rw [parseValue, skip_cons hwhite]
  simp only [hne 'n' (by decide), hne 't' (by decide), hne 'f' (by decide), hne '"' (by decide),
    hne '[' (by decide), hne '{' (by decide), if_false]
  exact hnumber

theorem parseField_key (key : String) (text : List Char) (hfuel : (printString key).length < fuel) :
    parseField (fuel + 1) (printString key ++ ':' :: text) =
      (parseValue fuel text).map fun p => ((key, p.1), p.2) := by
  have hkey : parseString fuel (key.toList.flatMap escape ++ '"' :: ':' :: text) =
      some (key.toList, ':' :: text) := by
    apply parseString_escaped
    rw [printString, length_cons, length_append] at hfuel
    omega
  rw [parseField, skip_printString]
  simp only [printString, cons_append, append_assoc, nil_append, hkey,
    Option.bind_some, skip_cons (show isWhite ':' = false by decide), String.ofList_toList]

/-- The first element of an array is not mistaken for its end. -/
theorem parseValue_array {xs : List Value}
    (hfirst : parseValue fuel (print x ++ more) = some (x, more))
    (hmore : parseElements fuel more = some (xs, rest)) :
    parseValue (fuel + 1) ('[' :: (print x ++ more)) = some (.array (x :: xs), rest) := by
  obtain ⟨c, cs, hprint, hc⟩ := print_eq_cons x
  have hne : ¬ c = ']' := by
    rintro rfl
    exact absurd hc (by decide)
  rw [parseValue, skip_cons (by decide)]
  simp only [show ¬ '[' = 'n' by decide, show ¬ '[' = 't' by decide, show ¬ '[' = 'f' by decide,
    show ¬ '[' = '"' by decide, if_false, if_true, skip_print]
  split
  · next heq =>
    rw [hprint, cons_append, List.cons.injEq] at heq
    exact absurd heq.1 hne
  · rw [hfirst, Option.bind_some, hmore]
    rfl

theorem parseValue_object (key : String) (text : List Char) :
    parseValue (fuel + 1) ('{' :: (printString key ++ text)) =
      (parseField fuel (printString key ++ text)).bind fun p =>
        (parseFields fuel p.2).map fun q => (.object (p.1 :: q.1), q.2) := by
  rw [parseValue, skip_cons (by decide)]
  simp only [show ¬ '{' = 'n' by decide, show ¬ '{' = 't' by decide, show ¬ '{' = 'f' by decide,
    show ¬ '{' = '"' by decide, show ¬ '{' = '[' by decide, if_false, if_true, skip_printString]
  split
  · next heq =>
    rw [printString, cons_append, List.cons.injEq] at heq
    exact absurd heq.1 (by decide)
  · rfl

theorem parseFields_cons (text : List Char) :
    parseFields (fuel + 1) (',' :: text) =
      (parseField fuel text).bind fun p =>
        (parseFields fuel p.2).map fun q => (p.1 :: q.1, q.2) := by
  rw [parseFields, skip_cons (by decide)]
  rfl

mutual

theorem parseValue_print : (v : Value) → (fuel : Nat) → (rest : List Char) →
    (print v).length < fuel → Ends rest → parseValue fuel (print v ++ rest) = some (v, rest)
  | v, 0, _, hfuel, _ => absurd hfuel (Nat.not_lt_zero _)
  | .null, fuel + 1, rest, _, _ => by simp [print, parseValue, skip_cons, isWhite, parseWord]
  | .bool true, fuel + 1, rest, _, _ => by
    simp [print, parseValue, skip_cons, isWhite, parseWord]
  | .bool false, fuel + 1, rest, _, _ => by
    simp [print, parseValue, skip_cons, isWhite, parseWord]
  | .number n, fuel + 1, rest, _, hrest => parseValue_number n fuel rest hrest
  | .string s, fuel + 1, rest, hfuel, _ => by
    have hchars : parseString fuel (s.toList.flatMap escape ++ '"' :: rest) =
        some (s.toList, rest) := by
      apply parseString_escaped
      rw [print, printString, length_cons, length_append] at hfuel
      omega
    simp [print, printString, parseValue, skip_cons, isWhite, hchars]
  | .array [], fuel + 1, rest, _, _ => by simp [print, parseValue, skip_cons, isWhite]
  | .array (x :: xs), fuel + 1, rest, hfuel, hrest => by
    rw [print, length_cons, length_append] at hfuel
    rw [print, cons_append, append_assoc]
    exact parseValue_array
      (parseValue_print x fuel _ (by omega) (ends_printElements xs rest))
      (parseElements_print xs fuel rest (by omega))
  | .object [], fuel + 1, rest, _, _ => by simp [print, parseValue, skip_cons, isWhite]
  | .object ((key, x) :: fields), fuel + 1, rest, hfuel, hrest => by
    rw [print, length_cons, length_append, length_cons, length_append]
      at hfuel
    obtain ⟨fuel, rfl⟩ : ∃ k, fuel = k + 1 := ⟨fuel - 1, by omega⟩
    have hvalue := parseValue_print x fuel _ (by omega) (ends_printFields fields rest)
    have hmore := parseFields_print fields (fuel + 1) rest (by omega)
    simp only [print, cons_append, append_assoc]
    rw [parseValue_object, parseField_key key _ (by omega), hvalue, Option.map_some,
      Option.bind_some, hmore, Option.map_some]

theorem parseElements_print : (xs : List Value) → (fuel : Nat) → (rest : List Char) →
    (printElements xs).length < fuel →
    parseElements fuel (printElements xs ++ rest) = some (xs, rest)
  | _, 0, _, hfuel => absurd hfuel (Nat.not_lt_zero _)
  | [], fuel + 1, rest, _ => by simp [printElements, parseElements, skip_cons, isWhite]
  | x :: xs, fuel + 1, rest, hfuel => by
    rw [printElements, length_cons, length_append] at hfuel
    have hfirst := parseValue_print x fuel _ (by omega) (ends_printElements xs rest)
    have hmore := parseElements_print xs fuel rest (by omega)
    simp [printElements, parseElements, skip_cons, isWhite, hfirst, hmore]

theorem parseFields_print : (fields : List (String × Value)) → (fuel : Nat) →
    (rest : List Char) → (printFields fields).length < fuel →
    parseFields fuel (printFields fields ++ rest) = some (fields, rest)
  | _, 0, _, hfuel => absurd hfuel (Nat.not_lt_zero _)
  | [], fuel + 1, rest, _ => by simp [printFields, parseFields, skip_cons, isWhite]
  | (key, x) :: fields, fuel + 1, rest, hfuel => by
    rw [printFields, length_cons, length_append, length_cons, length_append] at hfuel
    obtain ⟨fuel, rfl⟩ : ∃ k, fuel = k + 1 := ⟨fuel - 1, by omega⟩
    have hvalue := parseValue_print x fuel _ (by omega) (ends_printFields fields rest)
    have hmore := parseFields_print fields (fuel + 1) rest (by omega)
    simp only [printFields, cons_append, append_assoc]
    rw [parseFields_cons, parseField_key key _ (by omega), hvalue, Option.map_some,
      Option.bind_some, hmore, Option.map_some]

end

theorem parseFirst_print (v : Value) (rest : List Char) (hrest : Ends rest) :
    parseFirst (print v ++ rest) = some v := by
  have hlen : (print v).length < (print v ++ rest).length + 1 := by
    rw [length_append]
    omega
  rw [parseFirst, parseValue_print v _ rest hlen hrest]
  rfl

theorem parse_print (v : Value) : parse (print v) = some v := by
  have hread := parseValue_print v ((print v).length + 1) [] (Nat.lt_succ_self _) ends_nil
  rw [append_nil] at hread
  rw [parse, hread]
  rfl

theorem print_append_inj {v w : Value} (hrest : Ends rest) (hmore : Ends more)
    (h : print v ++ rest = print w ++ more) : v = w ∧ rest = more := by
  have hv := parseValue_print v ((print v ++ rest).length + 1) rest
    (by rw [length_append]; omega) hrest
  have hw := parseValue_print w ((print w ++ more).length + 1) more
    (by rw [length_append]; omega) hmore
  rw [h, hw] at hv
  simpa [eq_comm] using hv

/-! ## One line -/

/-- No control characters. -/
def Printable (cs : List Char) : Prop := ∀ c ∈ cs, 0x20 ≤ c.toNat

theorem Printable.notMem {cs : List Char} (h : Printable cs) (hc : c.toNat < 0x20) :
    c ∉ cs := fun hmem => absurd (h c hmem) (Nat.not_le.mpr hc)

theorem printable_append {xs ys : List Char} :
    Printable (xs ++ ys) ↔ Printable xs ∧ Printable ys := forall_mem_append

theorem printable_cons {cs : List Char} :
    Printable (c :: cs) ↔ 0x20 ≤ c.toNat ∧ Printable cs := forall_mem_cons

theorem printable_nil : Printable [] := forall_mem_nil _

theorem digitChar_ge {d : Nat} (h : d < 16) : 0x20 ≤ (Nat.digitChar d).toNat := by
  interval_cases d <;> decide

theorem printable_hex4 (n : Nat) : Printable (hex4 n) := by
  intro c hc
  rw [hex4, mem_map] at hc
  obtain ⟨d, hd, rfl⟩ := hc
  apply digitChar_ge
  simp only [mem_cons, not_mem_nil, or_false] at hd
  omega

theorem printable_escape (c : Char) : Printable (escape c) := by
  rw [escape]
  cases hfind : letters.find? fun p => p.2 = c with
  | some p =>
    have hmem := (find_letter hfind).1
    have hletter : ∀ p ∈ letters, 0x20 ≤ p.1.toNat := by decide
    exact printable_cons.mpr ⟨by decide, printable_cons.mpr ⟨hletter p hmem, printable_nil⟩⟩
  | none =>
    cases hesc : isEscaped c with
    | true =>
      exact printable_cons.mpr
        ⟨by decide, printable_cons.mpr ⟨by decide, printable_hex4 c.toNat⟩⟩
    | false =>
      refine printable_cons.mpr ⟨?_, printable_nil⟩
      by_contra hlt
      simp [isEscaped, Nat.not_le.mp hlt] at hesc

theorem printable_printString (s : String) : Printable (printString s) := by
  rw [printString, printable_cons, printable_append]
  refine ⟨by decide, ?_, printable_cons.mpr ⟨by decide, printable_nil⟩⟩
  intro c hc
  obtain ⟨d, -, hc⟩ := mem_flatMap.mp hc
  exact printable_escape d c hc

theorem isNumberChar_ge (h : isNumberChar c = true) : 0x20 ≤ c.toNat := by
  simp only [isNumberChar, Bool.or_eq_true, mem_cons, not_mem_nil, or_false, decide_eq_true_eq] at h
  rcases h with hdigit | rfl | rfl | rfl | rfl | rfl
  · rw [Char.isDigit, Bool.and_eq_true, decide_eq_true_eq] at hdigit
    exact le_trans (by decide) hdigit.1
  all_goals decide

theorem printable_number (n : Number) : Printable n.text :=
  fun c hc => isNumberChar_ge (all_eq_true.mp (isNumber_all n.valid) c hc)

mutual

/-- There is no control character in a printed value, so no end of line either. -/
theorem print_printable : (v : Value) → Printable (print v)
  | .null => by simp [print, printable_cons, printable_nil]
  | .bool true => by simp [print, printable_cons, printable_nil]
  | .bool false => by simp [print, printable_cons, printable_nil]
  | .number n => printable_number n
  | .string s => printable_printString s
  | .array [] => by simp [print, printable_cons, printable_nil]
  | .array (x :: xs) => by
    rw [print, printable_cons, printable_append]
    exact ⟨by decide, print_printable x, printElements_printable xs⟩
  | .object [] => by simp [print, printable_cons, printable_nil]
  | .object ((key, x) :: fields) => by
    rw [print, printable_cons, printable_append, printable_cons, printable_append]
    exact ⟨by decide, printable_printString key, by decide, print_printable x,
      printFields_printable fields⟩

theorem printElements_printable : (xs : List Value) → Printable (printElements xs)
  | [] => by simp [printElements, printable_cons, printable_nil]
  | x :: xs => by
    rw [printElements, printable_cons, printable_append]
    exact ⟨by decide, print_printable x, printElements_printable xs⟩

theorem printFields_printable : (fields : List (String × Value)) →
    Printable (printFields fields)
  | [] => by simp [printFields, printable_cons, printable_nil]
  | (key, x) :: fields => by
    rw [printFields, printable_cons, printable_append, printable_cons, printable_append]
    exact ⟨by decide, printable_printString key, by decide, print_printable x,
      printFields_printable fields⟩

end

end JsonText
