import IxrGateway.JsonText.RoundTrip

/-!
# Go values in JSON

How `encoding/json` fills Go values from JSON and writes them.

Go decodes into a variable, and a text can name one field several times, so one
variable can be decoded into again and again.  A `Reader` takes all the values
given for one place, in the order of the text, and gives what stands there in
the end.  The place starts out as the zero value.

* A scalar is overwritten by every value but `null`.
* The fields of a structure are places of their own, so the objects given for a
  structure add up to one list of fields (`objects`).
* The elements of a slice are places too.  A shorter array hides the elements
  past its end, and a longer one later finds them again.  `null` and the empty
  array drop the elements for good (`slice`).
* A pointer is dropped by `null` (`pointer`), a map by `null` as well, and other
  objects add their keys to it (`table`).
* A type with its own `UnmarshalJSON`, or an interface, only keeps the last
  value (`latest`).

A mistake in any of the values is an error, also where a later one hides it.

A key names a field if the two agree up to case.  The names of the fields of one
structure differ by more than that.
-/

namespace JsonText

open List

/-! ## Integers -/

/-- The integer, if it is written as one. -/
def Number.toInt (n : Number) : Option Int :=
  match n.text with
  | '-' :: ds => if ds.all Char.isDigit then some (-(Nat.ofDigitChars 10 ds 0 : Int)) else none
  | ds => if ds.all Char.isDigit then some (Nat.ofDigitChars 10 ds 0 : Int) else none

/-- The integer fits into an `int64`. -/
def FitsInt64 (i : Int) : Prop := -2 ^ 63 ≤ i ∧ i < 2 ^ 63

instance (i : Int) : Decidable (FitsInt64 i) := inferInstanceAs (Decidable (_ ∧ _))

/-- The decimal digits. -/
def digits (n : Nat) : List Char := Nat.toDigits 10 n

theorem digits_all (n : Nat) : (digits n).all Char.isDigit = true :=
  all_eq_true.mpr fun _ hc => Nat.isDigit_of_mem_toDigits (by decide) (by decide) hc

theorem digits_eq_cons (n : Nat) : ∃ c cs, digits n = c :: cs ∧ (c = '0' → cs = []) := by
  induction n using Nat.strong_induction_on with
  | _ n ih =>
    by_cases hlt : n < 10
    · exact ⟨_, [], Nat.toDigits_of_lt_base hlt, fun _ => rfl⟩
    · have hstep : digits n = digits (n / 10) ++ [(n % 10).digitChar] := by
        rw [digits, Nat.toDigits_eq_if (by decide), if_neg hlt, digits]
      obtain ⟨c, cs, heq, hzero⟩ := ih (n / 10) (by omega)
      refine ⟨c, cs ++ [(n % 10).digitChar], by rw [hstep, heq, cons_append], ?_⟩
      -- a leading zero would make the front a single zero, but the front is positive
      intro hc
      exfalso
      have hval := Nat.ofDigitChars_toDigits (b := 10) (n := n / 10) (by decide) (by decide)
      have hfront : Nat.toDigits 10 (n / 10) = ['0'] := by
        rw [← digits, heq, hc, hzero hc]
      rw [hfront] at hval
      have : Nat.ofDigitChars 10 ['0'] 0 = 0 := by decide
      omega

theorem isUnsigned_digits (n : Nat) : isUnsigned (digits n) = true := by
  obtain ⟨c, cs, heq, hzero⟩ := digits_eq_cons n
  have hall := digits_all n
  rw [heq, all_cons, Bool.and_eq_true] at hall
  rw [heq, isUnsigned]
  split
  · next hc =>
    rw [hzero hc]
    rfl
  · have hdrop : cs.dropWhile Char.isDigit = [] :=
      dropWhile_eq_nil_iff.mpr (all_eq_true.mp hall.2)
    rw [hall.1, hdrop]
    rfl

theorem digits_ne_minus (n : Nat) (cs : List Char) : ¬ digits n = '-' :: cs := by
  intro h
  have hall := digits_all n
  rw [h] at hall
  exact absurd hall (by simp [Char.isDigit])

/-- The integer in decimals. -/
def intText : Int → List Char
  | .ofNat n => digits n
  | .negSucc n => '-' :: digits (n + 1)

theorem isNumber_intText (i : Int) : isNumber (intText i) = true := by
  cases i with
  | ofNat n =>
    rw [intText, isNumber]
    · exact isUnsigned_digits n
    · exact digits_ne_minus n
  | negSucc n => exact isUnsigned_digits (n + 1)

/-- The integer as a number. -/
def Number.ofInt (i : Int) : Number := ⟨intText i, isNumber_intText i⟩

theorem ofDigitChars_digits (n : Nat) : Nat.ofDigitChars 10 (digits n) 0 = n :=
  Nat.ofDigitChars_toDigits (by decide) (by decide)

theorem Number.toInt_ofInt (i : Int) : (Number.ofInt i).toInt = some i := by
  cases i with
  | ofNat n =>
    simp only [Number.toInt, Number.ofInt, intText]
    split
    · next h => exact absurd h (digits_ne_minus n _)
    · rw [if_pos (digits_all n), ofDigitChars_digits]
      rfl
  | negSucc n =>
    simp only [Number.toInt, Number.ofInt, intText, digits_all, if_true, ofDigitChars_digits]
    rfl

/-! ## Exact values -/

/-- The exponent of a literal, from its `e` on. -/
def exponent : List Char → Int
  | _ :: '-' :: ds => -(Nat.ofDigitChars 10 ds 0 : Int)
  | _ :: '+' :: ds => Nat.ofDigitChars 10 ds 0
  | _ :: ds => Nat.ofDigitChars 10 ds 0
  | [] => 0

/-- The digits times a power of ten. -/
def scaled (digits : List Char) (e : Int) : ℚ :=
  Nat.ofDigitChars 10 digits 0 * 10 ^ e.toNat / 10 ^ (-e).toNat

/-- The value without its sign. -/
def unsignedRat (cs : List Char) : ℚ :=
  let whole := cs.takeWhile Char.isDigit
  match cs.dropWhile Char.isDigit with
  | '.' :: ds =>
    let fraction := ds.takeWhile Char.isDigit
    scaled (whole ++ fraction) (exponent (ds.dropWhile Char.isDigit) - fraction.length)
  | rest => scaled whole (exponent rest)

/-- The value of a number. -/
def Number.rat (n : Number) : ℚ :=
  match n.text with
  | '-' :: cs => -unsignedRat cs
  | cs => unsignedRat cs

example : Number.rat ⟨"-12.5e1".toList, by decide⟩ = -125 := by decide +kernel

/-! ## Floats -/

/-- How the floats of type `F` are read and written.  What was read is written so that it is
read back. -/
structure Floats (F : Type) where
  /-- `strconv.ParseFloat`.  A literal out of range is an error. -/
  value : Number → Option F
  /-- The shortest literal. -/
  format : F → Number
  /-- A float that was read survives. -/
  value_format : ∀ {n x}, value n = some x → value (format x) = some x

/-! ## Readers -/

/-- Decodes the values given for one place, in order. -/
abbrev Reader (α : Type) := List Value → Option α

/-- Reads a value, and null as no change. -/
def scalar {α : Type} (zero : α) (read : Value → Option α) : Reader α :=
  foldlM (fun x v => match v with | .null => some x | v => read v) zero

/-- Reads a string. -/
def string : Reader String :=
  scalar "" fun
    | .string s => some s
    | _ => none

/-- Reads a Boolean. -/
def bool : Reader Bool :=
  scalar false fun
    | .bool b => some b
    | _ => none

/-- An `int` or `int64`. -/
def integer : Reader Int :=
  scalar 0 fun
    | .number n => n.toInt.bind fun i => if FitsInt64 i then some i else none
    | _ => none

/-- A `float64`. -/
def float {F : Type} [Zero F] (floats : Floats F) : Reader F :=
  scalar 0 fun
    | .number n => floats.value n
    | _ => none

/-- A type that is decoded as a whole. -/
def latest {α : Type} (zero : α) (read : Value → Option α) : Reader α :=
  foldlM (fun _ v => read v) zero

/-- The fields of a structure. -/
def objects : Reader (List (String × Value)) :=
  foldlM (fun fields v =>
    match v with
    | .object more => some (fields ++ more)
    | .null => some fields
    | _ => none) []

/-- The values given for each element of a slice, after one more array. -/
def lay : List (List Value) → List Value → List (List Value)
  | cells, [] => cells
  | [], x :: xs => [x] :: lay [] xs
  | cell :: cells, x :: xs => (cell ++ [x]) :: lay cells xs

/-- Reads a slice. -/
def slice {α : Type} (read : Reader α) : Reader (List α) := fun vs => do
  let (cells, length) ← vs.foldlM (fun (s : List (List Value) × Nat) v =>
    match v with
    | .null | .array [] => (s.1.mapM read).map fun _ => ([], 0)
    | .array xs => some (lay s.1 xs, xs.length)
    | _ => none) ([], 0)
  let elements ← cells.mapM read
  return elements.take length

/-- Reads a pointer. -/
def pointer {α : Type} (read : Reader α) : Reader (Option α) := fun vs => do
  let target ← vs.foldlM (fun (target : Option (List Value)) v =>
    match v with
    | .null => (read (target.getD [])).map fun _ => none
    | v => some (some (target.getD [] ++ [v]))) none
  match target with
  | none => return none
  | some vs => (read vs).map some

/-- Sets a key of a map.  The keys stay sorted. -/
def insertKey {β : Type} (key : String) (y : β) : List (String × β) → List (String × β)
  | [] => [(key, y)]
  | p :: ps =>
    if key < p.1 then (key, y) :: p :: ps
    else if p.1 < key then p :: insertKey key y ps
    else (key, y) :: ps

/-- The keys of one object. -/
def insertFields {β : Type} (read : Value → Option β) :
    List (String × β) → List (String × Value) → Option (List (String × β))
  | entries, [] => some entries
  | entries, (key, v) :: fields =>
    (read v).bind fun y => insertFields read (insertKey key y entries) fields

/-- Reads a map. -/
def table {β : Type} (read : Value → Option β) : Reader (List (String × β)) :=
  foldlM (fun entries v =>
    match v with
    | .null => some []
    | .object fields => insertFields read entries fields
    | _ => none) []

/-- `json.Unmarshal` of a text into a new variable. -/
def unmarshal {α : Type} (read : Reader α) (text : List Char) : Option α :=
  (parse text).bind fun v => read [v]

/-! ## Fields -/

/-- The representative of a character up to case, as far as it is the case of an ASCII letter. -/
def foldChar (c : Char) : Char :=
  if 'a' ≤ c ∧ c ≤ 'z' then Char.ofNat (c.toNat - 32)
  else if c.toNat = 0x17F then 'S'
  else if c.toNat = 0x212A then 'K'
  else c

/-- The name without its case. -/
def foldName (name : String) : List Char := name.toList.map foldChar

/-- The values given for a field. -/
def given (name : String) (fields : List (String × Value)) : List Value :=
  (fields.filter fun p => foldName p.1 = foldName name).map Prod.snd

/-- A field as it is written. -/
def field (name : String) (v : Value) : List (String × Value) := [(name, v)]

/-- A field with `omitempty`. -/
def omitField (name : String) (empty : Bool) (v : Value) : List (String × Value) :=
  if empty then [] else field name v

@[simp] theorem given_append (name : String) (xs ys : List (String × Value)) :
    given name (xs ++ ys) = given name xs ++ given name ys := by
  rw [given, filter_append, map_append, given, given]

@[simp] theorem given_field_self (name : String) (v : Value) : given name (field name v) = [v] := by
  simp [given, field]

@[simp] theorem given_field_of_ne {name other : String} (h : foldName other ≠ foldName name)
    (v : Value) : given name (field other v) = [] := by
  simp [given, field, h]

@[simp] theorem given_omitField_self (name : String) (empty : Bool) (v : Value) :
    given name (omitField name empty v) = if empty then [] else [v] := by
  cases empty with
  | true => rfl
  | false => exact given_field_self name v

@[simp] theorem given_omitField_of_ne {name other : String} (h : foldName other ≠ foldName name)
    (empty : Bool) (v : Value) : given name (omitField other empty v) = [] := by
  cases empty with
  | true => rfl
  | false => exact given_field_of_ne h v

/-! ## Reading what was written -/

variable {α β : Type} {read : Reader α} {x : α} {i : Int} {write : α → Value} {key : String} {y : β}
  {entries : List (String × β)} {P : β → Prop} {vs : List Value}

theorem unmarshal_print {v : Value} (h : read [v] = some x) :
    unmarshal read (print v) = some x := by
  rw [unmarshal, parse_print, Option.bind_some, h]

@[simp] theorem string_string (s : String) : string [.string s] = some s := rfl

@[simp] theorem string_omit (s : String) :
    string (if s = "" then [] else [.string s]) = some s := by
  split
  · next h =>
    rw [h]
    rfl
  · rfl

@[simp] theorem bool_omit (b : Bool) : bool (if b = false then [] else [.bool b]) = some b := by
  cases b <;> rfl

theorem integer_ofInt (h : FitsInt64 i) : integer [.number (Number.ofInt i)] = some i := by
  simp [integer, scalar, Number.toInt_ofInt, h]

theorem integer_omit (h : FitsInt64 i) :
    integer (if i = 0 then [] else [.number (Number.ofInt i)]) = some i := by
  split
  · next h =>
    rw [h]
    rfl
  · exact integer_ofInt h

/-- A float that a literal can stand for, or zero. -/
def Floats.Survives {F : Type} [Zero F] (floats : Floats F) (x : F) : Prop :=
  x = 0 ∨ floats.value (floats.format x) = some x

theorem float_omit {F : Type} [Zero F] [DecidableEq F] {floats : Floats F} {x : F}
    (h : floats.Survives x) :
    float floats (if x = 0 then [] else [.number (floats.format x)]) = some x := by
  split
  · next h =>
    rw [h]
    rfl
  · next hne => simp [float, scalar, h.resolve_left hne]

@[simp] theorem objects_object (fields : List (String × Value)) :
    objects [.object fields] = some fields := rfl

theorem lay_nil (xs : List Value) : lay [] xs = xs.map fun x => [x] := by
  induction xs with
  | nil => rfl
  | cons x xs ih => rw [lay, ih, map_cons]

theorem mapM_map_of_forall {read : β → Option α} {write : α → β} {xs : List α}
    (h : ∀ x ∈ xs, read (write x) = some x) : (xs.map write).mapM read = some xs := by
  induction xs with
  | nil => rfl
  | cons x xs ih =>
    obtain ⟨hx, hxs⟩ := forall_mem_cons.mp h
    rw [map_cons, mapM_cons, hx, ih hxs]
    rfl

theorem slice_map (xs : List α) (h : ∀ x ∈ xs, read [write x] = some x) :
    slice read [.array (xs.map write)] = some xs := by
  cases xs with
  | nil => rfl
  | cons x xs =>
    have hcells : (lay [] ((x :: xs).map write)).mapM read = some (x :: xs) := by
      rw [lay_nil, map_map]
      exact mapM_map_of_forall h
    rw [map_cons] at hcells ⊢
    simp [slice, hcells]

theorem slice_nullable (xs : List α) [Decidable (xs = [])] (h : ∀ x ∈ xs, read [write x] = some x) :
    slice read [if xs = [] then .null else .array (xs.map write)] = some xs := by
  split
  · next hempty =>
    rw [hempty]
    rfl
  · exact slice_map xs h

theorem slice_omit (xs : List α) [Decidable (xs = [])] (h : ∀ x ∈ xs, read [write x] = some x) :
    slice read (if xs = [] then [] else [.array (xs.map write)]) = some xs := by
  split
  · next hempty =>
    rw [hempty]
    rfl
  · exact slice_map xs h

theorem pointer_object {fields : List (String × Value)} (h : read [.object fields] = some x) :
    pointer read [.object fields] = some (some x) := by
  simp [pointer, h]

/-- The keys of a map are sorted, and its values are of the given kind. -/
def Tidy {β : Type} (P : β → Prop) (entries : List (String × β)) : Prop :=
  entries.Pairwise (fun p q => p.1 < q.1) ∧ ∀ p ∈ entries, P p.2

theorem insertKey_of_lt (h : ∀ p ∈ entries, p.1 < key) :
    insertKey key y entries = entries ++ [(key, y)] := by
  induction entries with
  | nil => rfl
  | cons p ps ih =>
    obtain ⟨hp, hps⟩ := forall_mem_cons.mp h
    rw [insertKey, if_neg (lt_asymm hp), if_pos hp, ih hps, cons_append]

theorem insertKey_map {γ : Type} (h : β → γ) (key : String) (y : β) (entries : List (String × β)) :
    insertKey key (h y) (entries.map fun p => (p.1, h p.2)) =
      (insertKey key y entries).map fun p => (p.1, h p.2) := by
  induction entries with
  | nil => rfl
  | cons p ps ih =>
    rw [map_cons, insertKey, insertKey]
    split
    · rfl
    · split
      · rw [ih, map_cons]
      · rfl

theorem insertFields_map {read : Value → Option β} {write : β → Value} {rest : List (String × β)}
    (h : Tidy (fun y => read (write y) = some y) (entries ++ rest)) :
    insertFields read entries (rest.map fun p => (p.1, write p.2)) = some (entries ++ rest) := by
  induction rest generalizing entries with
  | nil =>
    rw [append_nil]
    rfl
  | cons p rest ih =>
    obtain ⟨key, y⟩ := p
    have hread : read (write y) = some y :=
      h.2 (key, y) (mem_append_right _ mem_cons_self)
    have hlast : ∀ p ∈ entries, p.1 < key := by
      intro p hp
      exact (pairwise_append.mp h.1).2.2 p hp (key, y) mem_cons_self
    have hmove : entries ++ (key, y) :: rest = entries ++ [(key, y)] ++ rest := by
      rw [append_assoc, singleton_append]
    rw [hmove] at h ⊢
    rw [map_cons, insertFields, hread, Option.bind_some, insertKey_of_lt hlast, ih h]

theorem table_map {read : Value → Option β} {write : β → Value}
    (h : Tidy (fun y => read (write y) = some y) entries) :
    table read [.object (entries.map fun p => (p.1, write p.2))] = some entries := by
  have hall : insertFields read [] (entries.map fun p => (p.1, write p.2)) = some ([] ++ entries) :=
    insertFields_map h
  simpa [table] using hall

theorem table_omit {read : Value → Option β} {write : β → Value} [Decidable (entries = [])]
    (h : Tidy (fun y => read (write y) = some y) entries) :
    table read (if entries = [] then [] else [.object (entries.map fun p => (p.1, write p.2))]) =
      some entries := by
  split
  · next hempty =>
    rw [hempty]
    rfl
  · exact table_map h

/-! ## What can be read -/

theorem foldlM_induction {step : β → α → Option β} (hstep : ∀ x v y, P x → step x v = some y → P y)
    {vs : List α} {x : β} (hx : P x) (h : vs.foldlM step x = some y) : P y := by
  induction vs generalizing x with
  | nil =>
    obtain rfl : x = y := by simpa using h
    exact hx
  | cons v vs ih =>
    rw [foldlM_cons] at h
    obtain ⟨z, hz, h⟩ := Option.bind_eq_some_iff.mp h
    exact ih (hstep x v z hx hz) h

theorem scalar_induction {zero : α} {read : Value → Option α} {P : α → Prop} (hzero : P zero)
    (hread : ∀ v x, read v = some x → P x) (h : scalar zero read vs = some x) : P x := by
  refine foldlM_induction (fun x v y hx hy => ?_) hzero h
  split at hy
  · cases hy
    exact hx
  · exact hread _ _ hy

theorem latest_induction {zero : α} {read : Value → Option α} {P : α → Prop} (hzero : P zero)
    (hread : ∀ v x, read v = some x → P x) (h : latest zero read vs = some x) : P x :=
  foldlM_induction (fun _ v y _ hy => hread v y hy) hzero h

theorem integer_fits (h : integer vs = some i) : FitsInt64 i := by
  refine scalar_induction (by decide) (fun v x hx => ?_) h
  cases v with
  | number n =>
    obtain ⟨i, -, hi⟩ := Option.bind_eq_some_iff.mp hx
    split at hi
    · next hfits =>
      cases hi
      exact hfits
    · cases hi
  | _ => cases hx

theorem float_survives {F : Type} [Zero F] {floats : Floats F} {x : F}
    (h : float floats vs = some x) : floats.Survives x := by
  refine scalar_induction (P := floats.Survives) (Or.inl rfl) (fun v x hx => ?_) h
  cases v with
  | number n => exact Or.inr (floats.value_format hx)
  | _ => cases hx

theorem forall_of_mapM {read : α → Option β} (hread : ∀ v x, read v = some x → P x) {vs : List α}
    {xs : List β} (h : vs.mapM read = some xs) : ∀ x ∈ xs, P x := by
  induction vs generalizing xs with
  | nil =>
    cases h
    exact forall_mem_nil _
  | cons v vs ih =>
    rw [mapM_cons] at h
    obtain ⟨x, hx, h⟩ := Option.bind_eq_some_iff.mp h
    obtain ⟨rest, hrest, h⟩ := Option.bind_eq_some_iff.mp h
    cases h
    exact forall_mem_cons.mpr ⟨hread v x hx, ih hrest⟩

theorem slice_induction {P : α → Prop} (hread : ∀ vs x, read vs = some x → P x) {xs : List α}
    (h : slice read vs = some xs) : ∀ x ∈ xs, P x := by
  obtain ⟨⟨cells, length⟩, -, h⟩ := Option.bind_eq_some_iff.mp h
  obtain ⟨elements, helements, h⟩ := Option.bind_eq_some_iff.mp h
  cases h
  exact fun x hx => forall_of_mapM hread helements x (mem_of_mem_take hx)

theorem pointer_eq_some (h : pointer read vs = some (some x)) : ∃ ws, read ws = some x := by
  obtain ⟨target, -, h⟩ := Option.bind_eq_some_iff.mp h
  cases target with
  | none => cases h
  | some ws =>
    obtain ⟨y, hy, heq⟩ := Option.map_eq_some_iff.mp h
    cases heq
    exact ⟨ws, hy⟩

theorem insertKey_forall {Q : String × β → Prop} (hy : Q (key, y)) (h : ∀ p ∈ entries, Q p) :
    ∀ p ∈ insertKey key y entries, Q p := by
  induction entries with
  | nil => exact forall_mem_singleton.mpr hy
  | cons p ps ih =>
    obtain ⟨hp, hps⟩ := forall_mem_cons.mp h
    rw [insertKey]
    split
    · exact forall_mem_cons.mpr ⟨hy, h⟩
    · split
      · exact forall_mem_cons.mpr ⟨hp, ih hps⟩
      · exact forall_mem_cons.mpr ⟨hy, hps⟩

theorem insertKey_tidy (hy : P y) (h : Tidy P entries) : Tidy P (insertKey key y entries) := by
  refine ⟨?_, insertKey_forall (Q := fun p => P p.2) hy h.2⟩
  obtain ⟨hsorted, -⟩ := h
  induction entries with
  | nil => exact pairwise_singleton _ _
  | cons p ps ih =>
    obtain ⟨hp, hps⟩ := pairwise_cons.mp hsorted
    rw [insertKey]
    split
    · next hlt =>
      refine pairwise_cons.mpr ⟨forall_mem_cons.mpr ⟨hlt, fun q hq => ?_⟩, hsorted⟩
      exact lt_trans hlt (hp q hq)
    · next hnlt =>
      split
      · next hlt =>
        refine pairwise_cons.mpr ⟨?_, ih hps⟩
        exact insertKey_forall (Q := fun q => p.1 < q.1) hlt hp
      · next hngt =>
        have heq : key = p.1 := le_antisymm (not_lt.mp hngt) (not_lt.mp hnlt)
        exact pairwise_cons.mpr ⟨fun q hq => heq ▸ hp q hq, hps⟩

theorem insertFields_tidy {read : Value → Option β} (hread : ∀ v y, read v = some y → P y)
    {fields : List (String × Value)} {entries' : List (String × β)} (h : Tidy P entries)
    (hinsert : insertFields read entries fields = some entries') : Tidy P entries' := by
  induction fields generalizing entries with
  | nil =>
    cases hinsert
    exact h
  | cons p fields ih =>
    obtain ⟨key, v⟩ := p
    rw [insertFields] at hinsert
    obtain ⟨y, hy, hinsert⟩ := Option.bind_eq_some_iff.mp hinsert
    exact ih (insertKey_tidy (hread v y hy) h) hinsert

theorem tidy_nil (P : β → Prop) : Tidy P [] :=
  ⟨List.Pairwise.nil, forall_mem_nil _⟩

theorem table_tidy {read : Value → Option β} (hread : ∀ v y, read v = some y → P y)
    (h : table read vs = some entries) : Tidy P entries := by
  refine foldlM_induction (fun x v y hx hy => ?_) (tidy_nil P) h
  cases v with
  | null =>
    cases hy
    exact tidy_nil P
  | object fields => exact insertFields_tidy hread hx hy
  | _ => cases hy

end JsonText
