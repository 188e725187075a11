import IxrGateway.SchemaRoundTrip

/-!
# What passing through an `any` keeps

A JSON text stands for a tree of exact numbers (`denote`).  Of a key that is
given twice, the last value counts.  Decoding into an `any` turns each number
into a float, or into nil if it is out of range, and encoding writes the shortest
literal of the float.  The text stands for the same afterwards exactly if every
number that counts does (`denote_ofAny_fillAny_iff`).  What was decoded once is
read back unchanged from then on (`fillAny_stable`).
-/

namespace Ixr

open List

open JsonText (Value Number Floats Tidy insertKey)

/-- What a value stands for. -/
def denote (v : Value) : Json := readAny (fun n => .num n.rat) v

/-! ## The numbers that count -/

mutual

/-- The value with the keys of its objects sorted, and only the last value of each key. -/
def tidy : Value → Value
  | .null => .null
  | .bool b => .bool b
  | .number n => .number n
  | .string s => .string s
  | .array xs => .array (tidyAll xs)
  | .object fields => .object (tidyFields fields [])

def tidyAll : List Value → List Value
  | [] => []
  | x :: xs => tidy x :: tidyAll xs

def tidyFields : List (String × Value) → List (String × Value) → List (String × Value)
  | [], entries => entries
  | (key, x) :: fields, entries => tidyFields fields (insertKey key (tidy x) entries)

end

mutual

/-- The numbers of a value. -/
def leaves : Value → List Number
  | .null => []
  | .bool _ => []
  | .number n => [n]
  | .string _ => []
  | .array xs => leavesAll xs
  | .object fields => leavesFields fields

def leavesAll : List Value → List Number
  | [] => []
  | x :: xs => leaves x ++ leavesAll xs

def leavesFields : List (String × Value) → List Number
  | [] => []
  | (_, x) :: fields => leaves x ++ leavesFields fields

end

/-- The numbers of a value that count. -/
def numbers (v : Value) : List Number := leaves (tidy v)

mutual

/-- The tree of a value whose keys are sorted, with a given reading of its numbers. -/
def tree (num : Number → Json) : Value → Json
  | .null => .null
  | .bool b => .bool b
  | .number n => num n
  | .string s => .str s
  | .array xs => .arr (treeAll num xs)
  | .object fields => .obj (treeFields num fields)

def treeAll (num : Number → Json) : List Value → List Json
  | [] => []
  | x :: xs => tree num x :: treeAll num xs

def treeFields (num : Number → Json) : List (String × Value) → List (String × Json)
  | [] => []
  | (key, x) :: fields => (key, tree num x) :: treeFields num fields

end

theorem treeFields_eq (num : Number → Json) (fields : List (String × Value)) :
    treeFields num fields = fields.map fun p => (p.1, tree num p.2) := by
  induction fields with
  | nil => rw [treeFields, map_nil]
  | cons p fields ih =>
    obtain ⟨key, x⟩ := p
    rw [treeFields, ih, map_cons]

mutual

/-- Reading a value is reading its tidy form. -/
theorem readAny_eq_tree (num : Number → Json) : (v : Value) → readAny num v = tree num (tidy v)
  | .null => by rw [readAny, tidy, tree]
  | .bool b => by rw [readAny, tidy, tree]
  | .number n => by rw [readAny, tidy, tree]
  | .string s => by rw [readAny, tidy, tree]
  | .array xs => by rw [readAny, tidy, tree, readAnys_eq_treeAll num xs]
  | .object fields => by
    have hfields := readAnyFields_eq_tree num fields []
    rw [map_nil] at hfields
    rw [readAny, tidy, tree, treeFields_eq, hfields]

theorem readAnys_eq_treeAll (num : Number → Json) :
    (xs : List Value) → readAnys num xs = treeAll num (tidyAll xs)
  | [] => by rw [readAnys, tidyAll, treeAll]
  | x :: xs => by
    rw [readAnys, tidyAll, treeAll, readAny_eq_tree num x, readAnys_eq_treeAll num xs]

theorem readAnyFields_eq_tree (num : Number → Json) :
    (fields entries : List (String × Value)) →
    readAnyFields num fields (entries.map fun p => (p.1, tree num p.2)) =
      (tidyFields fields entries).map fun p => (p.1, tree num p.2)
  | [], entries => by rw [readAnyFields, tidyFields]
  | (key, x) :: fields, entries => by
    rw [readAnyFields, tidyFields, readAny_eq_tree num x, JsonText.insertKey_map,
      readAnyFields_eq_tree num fields]

end

mutual

theorem tree_eq_tree_iff (f g : Number → Json) :
    (v : Value) → (tree f v = tree g v ↔ ∀ n ∈ leaves v, f n = g n)
  | .null => by simp [tree, leaves]
  | .bool b => by simp [tree, leaves]
  | .number n => by simp [tree, leaves]
  | .string s => by simp [tree, leaves]
  | .array xs => by
    rw [tree, tree, leaves, ← treeAll_eq_treeAll_iff f g xs]
    exact ⟨Json.arr.inj, congrArg Json.arr⟩
  | .object fields => by
    rw [tree, tree, leaves, ← treeFields_eq_treeFields_iff f g fields]
    exact ⟨Json.obj.inj, congrArg Json.obj⟩

theorem treeAll_eq_treeAll_iff (f g : Number → Json) :
    (xs : List Value) → (treeAll f xs = treeAll g xs ↔ ∀ n ∈ leavesAll xs, f n = g n)
  | [] => by simp [treeAll, leavesAll]
  | x :: xs => by
    rw [treeAll, treeAll, leavesAll, List.cons.injEq, tree_eq_tree_iff f g x,
      treeAll_eq_treeAll_iff f g xs, forall_mem_append]

theorem treeFields_eq_treeFields_iff (f g : Number → Json) :
    (fields : List (String × Value)) →
    (treeFields f fields = treeFields g fields ↔ ∀ n ∈ leavesFields fields, f n = g n)
  | [] => by simp [treeFields, leavesFields]
  | (key, x) :: fields => by
    rw [treeFields, treeFields, leavesFields, List.cons.injEq, Prod.mk.injEq,
      tree_eq_tree_iff f g x, treeFields_eq_treeFields_iff f g fields, forall_mem_append]
    exact and_congr_left fun _ => and_iff_right rfl

end

theorem readAny_eq_readAny_iff (f g : Number → Json) (v : Value) :
    readAny f v = readAny g v ↔ ∀ n ∈ numbers v, f n = g n := by
  rw [readAny_eq_tree, readAny_eq_tree, tree_eq_tree_iff, numbers]

/-! ## Decoding and encoding -/

section

variable (floats : Floats ℚ)

theorem readAnyFields_sorted (num : Number → Json) (fields : List (String × Value))
    {entries : List (String × Json)} (h : Tidy (fun _ => True) entries) :
    Tidy (fun _ => True) (readAnyFields num fields entries) := by
  induction fields generalizing entries with
  | nil => rwa [readAnyFields]
  | cons p fields ih =>
    obtain ⟨key, x⟩ := p
    rw [readAnyFields]
    exact ih (JsonText.insertKey_tidy trivial h)

theorem readAnyFields_eq_nil_iff (num : Number → Json) (fields : List (String × Value))
    (entries : List (String × Json)) :
    readAnyFields num fields entries = [] ↔ fields = [] ∧ entries = [] := by
  induction fields generalizing entries with
  | nil => simp [readAnyFields]
  | cons p fields ih =>
    obtain ⟨key, x⟩ := p
    have hne : insertKey key (readAny num x) entries ≠ [] := by
      cases entries with
      | nil => exact cons_ne_nil _ _
      | cons p entries =>
        rw [insertKey]
        split
        · exact cons_ne_nil _ _
        · split <;> exact cons_ne_nil _ _
    rw [readAnyFields, ih]
    exact ⟨fun h => absurd h.2 hne, fun h => absurd h.1 (cons_ne_nil _ _)⟩

theorem readAnyFields_of_tidy (num : Number → Json) {before rest : List (String × Value)}
    (h : Tidy (fun _ => True) (before ++ rest)) :
    readAnyFields num rest (before.map fun p => (p.1, readAny num p.2)) =
      (before ++ rest).map fun p => (p.1, readAny num p.2) := by
  induction rest generalizing before with
  | nil => rw [readAnyFields, append_nil]
  | cons p rest ih =>
    obtain ⟨key, x⟩ := p
    have hlast : ∀ p ∈ before, p.1 < key := by
      intro p hp
      exact (pairwise_append.mp h.1).2.2 p hp (key, x) mem_cons_self
    have hmove : before ++ (key, x) :: rest = before ++ [(key, x)] ++ rest := by
      rw [append_assoc, singleton_append]
    rw [hmove] at h ⊢
    rw [readAnyFields, JsonText.insertKey_map (readAny num), JsonText.insertKey_of_lt hlast, ih h]

theorem readAnyFields_ofAnyFields (num : Number → Json) {entries : List (String × Json)}
    (h : Tidy (fun _ => True) entries) :
    readAnyFields num (ofAnyFields floats entries) [] =
      entries.map fun p => (p.1, readAny num (ofAny floats p.2)) := by
  have htidy : Tidy (fun _ => True) ([] ++ entries.map fun p => (p.1, ofAny floats p.2)) :=
    ⟨pairwise_map.mpr h.1, fun _ _ => trivial⟩
  rw [ofAnyFields_eq]
  exact (readAnyFields_of_tidy num htidy).trans map_map

mutual

theorem readAny_ofAny_readAny (num f : Number → Json) : (v : Value) →
    readAny num (ofAny floats (readAny f v)) =
      readAny (fun n => readAny num (ofAny floats (f n))) v
  | .null => by simp only [readAny, ofAny]
  | .bool b => by simp only [readAny, ofAny]
  | .number n => by simp only [readAny]
  | .string s => by simp only [readAny, ofAny]
  | .array xs => by
    rw [readAny, ofAny, readAny, readAnys_ofAnys_readAnys num f xs, readAny]
  | .object fields => by
    have hfields := readAnyFields_ofAny num f fields []
    have hsorted := readAnyFields_sorted f fields (JsonText.tidy_nil _)
    rw [map_nil] at hfields
    rw [readAny, ofAny, readAny, readAnyFields_ofAnyFields floats num hsorted, readAny, hfields]

theorem readAnys_ofAnys_readAnys (num f : Number → Json) : (xs : List Value) →
    readAnys num (ofAnys floats (readAnys f xs)) =
      readAnys (fun n => readAny num (ofAny floats (f n))) xs
  | [] => by rw [readAnys, ofAnys, readAnys, readAnys]
  | x :: xs => by
    rw [readAnys, ofAnys, readAnys, readAnys, readAny_ofAny_readAny num f x,
      readAnys_ofAnys_readAnys num f xs]

theorem readAnyFields_ofAny (num f : Number → Json) :
    (fields : List (String × Value)) → (entries : List (String × Json)) →
    readAnyFields (fun n => readAny num (ofAny floats (f n))) fields
        (entries.map fun p => (p.1, readAny num (ofAny floats p.2))) =
      (readAnyFields f fields entries).map fun p => (p.1, readAny num (ofAny floats p.2))
  | [], entries => by rw [readAnyFields, readAnyFields]
  | (key, x) :: fields, entries => by
    rw [readAnyFields, readAnyFields, ← readAny_ofAny_readAny num f x,
      JsonText.insertKey_map fun y => readAny num (ofAny floats y),
      readAnyFields_ofAny num f fields]

end

/-- A number that stands for the same after it was decoded and encoded. -/
def Kept (n : Number) : Prop := ∃ x, floats.value n = some x ∧ (floats.format x).rat = n.rat

theorem denote_ofAny_fillNumber_iff (n : Number) :
    denote (ofAny floats (fillNumber floats n)) = .num n.rat ↔ Kept floats n := by
  unfold fillNumber Kept
  cases floats.value n with
  | none | some => simp [denote, ofAny, readAny]

/-- A value stands for the same after it was decoded and encoded exactly if the numbers in it that
count do. -/
theorem denote_ofAny_fillAny_iff (v : Value) :
    denote (ofAny floats (fillAny floats v)) = denote v ↔ ∀ n ∈ numbers v, Kept floats n := by
  rw [denote, fillAny, readAny_ofAny_readAny, denote, readAny_eq_readAny_iff]
  exact forall₂_congr fun n _ => denote_ofAny_fillNumber_iff floats n

variable {floats}

theorem fillNumber_stable (n : Number) : (fillNumber floats n).Stable floats := by
  unfold fillNumber
  cases h : floats.value n with
  | none => rfl
  | some x =>
    show Json.Stable floats (.num x)
    rw [Json.Stable, ofAny, toAny, floats.value_format h]
    rfl

mutual

theorem fillAny_stable : (v : Value) → (readAny (fillNumber floats) v).Stable floats
  | .null => by
    rw [readAny]
    rfl
  | .bool b => by
    rw [readAny]
    rfl
  | .number n => by
    rw [readAny]
    exact fillNumber_stable n
  | .string s => by
    rw [readAny]
    rfl
  | .array xs => by
    rw [readAny]
    exact Json.stable_arr (fillAnys_stable xs)
  | .object fields => by
    rw [readAny]
    exact Json.stable_obj (fillAnyFields_stable fields (JsonText.tidy_nil _))

theorem fillAnys_stable : (xs : List Value) →
    ∀ y ∈ readAnys (fillNumber floats) xs, y.Stable floats
  | [] => by
    rw [readAnys]
    exact forall_mem_nil _
  | x :: xs => by
    rw [readAnys]
    exact forall_mem_cons.mpr ⟨fillAny_stable x, fillAnys_stable xs⟩

theorem fillAnyFields_stable : (fields : List (String × Value)) →
    {entries : List (String × Json)} → Tidy (fun j => j.Stable floats) entries →
    Tidy (fun j => j.Stable floats) (readAnyFields (fillNumber floats) fields entries)
  | [], entries, h => by rwa [readAnyFields]
  | (key, x) :: fields, entries, h => by
    rw [readAnyFields]
    exact fillAnyFields_stable fields (JsonText.insertKey_tidy (fillAny_stable x) h)

end

end

end Ixr
