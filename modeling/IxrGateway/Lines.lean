import Mathlib

/-!
# Lines of a text

A text over any symbols is split at a separator into lines and joined again.
The *weight* of lines counts one separator for each line, so the text of
nonempty lines is one shorter than their weight (`length_join`).

Pieces between separators of two symbols are read off the text, if their number is
known (`intercalate_pair_inj`).  Lines below a head are read off from the end, and
what is left is a head with some lines below it (`under_eq_under_iff`).

`runs` is the run-length form of a list: each element with the number of its
neighbours that are equal to it.
-/

namespace Lines

open List

section

variable {β : Type}

/-- The lines with a separator between. -/
def join (sep : β) (lines : List (List β)) : List β := [sep].intercalate lines

/-- The length of lines with their ends. -/
def weight (lines : List (List β)) : Nat := (lines.map fun line => line.length + 1).sum

@[simp] theorem join_singleton (sep : β) (line : List β) : join sep [line] = line := by
  simp [join]

variable {sep : β} {lines xs ys : List (List β)}

theorem join_cons (line : List β) (h : lines ≠ []) :
    join sep (line :: lines) = line ++ sep :: join sep lines := by
  cases lines with
  | nil => exact absurd rfl h
  | cons next lines => simp [join, intercalate_cons_cons]

@[simp] theorem weight_nil : weight ([] : List (List β)) = 0 := rfl

@[simp] theorem weight_cons (line : List β) (lines : List (List β)) :
    weight (line :: lines) = line.length + 1 + weight lines := by
  simp [weight]

@[simp] theorem weight_append (xs ys : List (List β)) :
    weight (xs ++ ys) = weight xs + weight ys := by
  simp [weight]

@[simp] theorem weight_replicate (n : Nat) (line : List β) :
    weight (replicate n line) = n * (line.length + 1) := by
  simp [weight]

theorem length_join (sep : β) (h : lines ≠ []) : (join sep lines).length + 1 = weight lines := by
  induction lines with
  | nil => exact absurd rfl h
  | cons line lines ih =>
    cases lines with
    | nil => simp
    | cons next lines =>
      have hrest := ih (cons_ne_nil _ _)
      rw [join_cons line (cons_ne_nil _ _), weight_cons, ← hrest, length_append, length_cons]
      omega

theorem length_join_le (sep : β) (hys : ys ≠ []) (h : weight xs ≤ weight ys) :
    (join sep xs).length ≤ (join sep ys).length := by
  cases xs with
  | nil => exact Nat.zero_le _
  | cons line lines =>
    have hxs := length_join sep (cons_ne_nil line lines)
    have hjoin := length_join sep hys
    omega

theorem weight_le_of_sublist (h : xs.Sublist ys) : weight xs ≤ weight ys := by
  induction h with
  | slnil => exact Nat.le_refl _
  | cons line _ ih =>
    rw [weight_cons]
    omega
  | cons_cons line _ ih =>
    rw [weight_cons, weight_cons]
    omega

theorem notMem_of_mem_splitOn [DecidableEq β] {text line : List β} (h : line ∈ text.splitOn sep) :
    sep ∉ line := by
  induction text generalizing line with
  | nil =>
    rw [splitOn_nil, mem_singleton] at h
    rw [h]
    exact not_mem_nil
  | cons c text ih =>
    rw [splitOn_cons_eq_if_modifyHead] at h
    split at h
    · rcases mem_cons.mp h with rfl | h
      · exact not_mem_nil
      · exact ih h
    · next hc =>
      cases hsplit : text.splitOn sep with
      | nil => exact absurd hsplit (splitOn_ne_nil _ _)
      | cons first lines =>
        rw [hsplit, forall_mem_cons] at ih
        rw [hsplit, modifyHead_cons] at h
        rcases mem_cons.mp h with rfl | h
        · exact not_mem_cons_of_ne_of_not_mem (fun heq => hc (by simp [heq])) ih.1
        · exact ih.2 line h

end

theorem intercalate_eq_append {β : Type} (sep x : List β) (xs : List (List β)) :
    sep.intercalate (x :: xs) = x ++ xs.flatMap fun y => sep ++ y := by
  induction xs generalizing x with
  | nil => rw [intercalate_singleton, flatMap_nil, append_nil]
  | cons y xs ih =>
    rw [intercalate_cons_cons, ih, flatMap_cons, append_assoc, append_assoc]

theorem mem_intercalate {β : Type} {sep : List β} {xs : List (List β)} {c : β}
    (h : c ∈ sep.intercalate xs) : c ∈ sep ∨ ∃ x ∈ xs, c ∈ x := by
  cases xs with
  | nil => cases h
  | cons x xs =>
    rw [intercalate_eq_append, mem_append, mem_flatMap] at h
    rcases h with hx | ⟨y, hy, hc⟩
    · exact Or.inr ⟨x, mem_cons_self, hx⟩
    · rcases mem_append.mp hc with hsep | hc
      · exact Or.inl hsep
      · exact Or.inr ⟨y, mem_cons_of_mem _ hy, hc⟩

section

variable {β : Type} {sep : β} {head head' : List β} {xs ys : List (List β)}

/-- A head with lines below it. -/
def under (sep : β) (head : List β) (lines : List (List β)) : List β :=
  head ++ lines.flatMap fun line => sep :: line

/-- The one head is the other one with lines below it, and below it are the lines that are left. -/
def Absorbs (sep : β) (head : List β) (xs : List (List β)) (head' : List β)
    (ys : List (List β)) : Prop :=
  ∃ extra, ys = extra ++ xs ∧ head = under sep head' extra

theorem under_append (sep : β) (head : List β) (xs ys : List (List β)) :
    under sep head (xs ++ ys) = under sep (under sep head xs) ys := by
  simp [under]

theorem under_singleton (sep : β) (head line : List β) :
    under sep head [line] = head ++ sep :: line := by
  simp [under]

theorem append_sep_inj {r s : List β} (hr : sep ∉ r) (hs : sep ∉ s)
    (h : head ++ sep :: r = head' ++ sep :: s) : head = head' ∧ r = s := by
  have hshort : ∀ {x y r s : List β}, sep ∉ r →
      (∃ z, y = x ++ z ∧ sep :: r = z ++ sep :: s) → x = y ∧ r = s := by
    rintro x y r s hr ⟨z, rfl, hz⟩
    cases z with
    | nil => exact ⟨(append_nil x).symm, (List.cons.inj hz).2⟩
    | cons c z =>
      rw [(List.cons.inj hz).2] at hr
      exact absurd (mem_append_right z mem_cons_self) hr
  rcases append_eq_append_iff.mp h with hxy | hyx
  · exact hshort hr hxy
  · exact (hshort hs hyx).imp Eq.symm Eq.symm

/-- Lines without the separator are read off from the end, until one of the heads is left. -/
theorem under_eq_under_iff (hx : ∀ line ∈ xs, sep ∉ line) (hy : ∀ line ∈ ys, sep ∉ line) :
    under sep head xs = under sep head' ys ↔
      Absorbs sep head xs head' ys ∨ Absorbs sep head' ys head xs := by
  constructor
  · intro h
    induction xs using reverseRecOn generalizing ys with
    | nil => exact Or.inl ⟨ys, (append_nil ys).symm, by simpa [under] using h⟩
    | append_singleton xs x ih =>
      cases ys using reverseRecOn with
      | nil => exact Or.inr ⟨xs ++ [x], (append_nil _).symm, by simpa [under] using h.symm⟩
      | append_singleton ys y =>
        rw [forall_mem_append, forall_mem_singleton] at hx hy
        rw [under_append, under_append, under_singleton, under_singleton] at h
        obtain ⟨hrest, rfl⟩ := append_sep_inj hx.2 hy.2 h
        rcases ih hx.1 hy.1 hrest with ⟨extra, rfl, heq⟩ | ⟨extra, rfl, heq⟩
        · exact Or.inl ⟨extra, append_assoc .., heq⟩
        · exact Or.inr ⟨extra, append_assoc .., heq⟩
  · rintro (⟨extra, rfl, rfl⟩ | ⟨extra, rfl, rfl⟩)
    · exact (under_append ..).symm
    · exact under_append ..

end

section

variable {β : Type} {a b : β}

/-- A separator of two symbols ends the first piece that does not contain it. -/
theorem append_pair_inj (hab : a ≠ b) {x y r s : List β} (hx : ¬ [a, b] <:+: x)
    (hy : ¬ [a, b] <:+: y) (h : x ++ ([a, b] ++ r) = y ++ ([a, b] ++ s)) : x = y ∧ r = s := by
  have hshort : ∀ {x y r s : List β}, ¬ [a, b] <:+: y → (∃ z, y = x ++ z ∧
      [a, b] ++ r = z ++ ([a, b] ++ s)) → x = y ∧ r = s := by
    rintro x y r s hy ⟨z, rfl, hz⟩
    cases z with
    | nil => exact ⟨(append_nil x).symm, by simpa using hz⟩
    | cons c z =>
      obtain ⟨rfl, htail⟩ := List.cons.inj hz
      cases z with
      | nil => exact absurd (List.cons.inj htail).1.symm hab
      | cons d z =>
        obtain ⟨rfl, -⟩ := List.cons.inj htail
        exact absurd ⟨x, z, by simp⟩ hy
  rcases append_eq_append_iff.mp h with hxy | hyx
  · exact hshort hy hxy
  · obtain ⟨hyx, hsr⟩ := hshort hx hyx
    exact ⟨hyx.symm, hsr.symm⟩

/-- As many pieces without the separator can be read off the text. -/
theorem intercalate_pair_inj (hab : a ≠ b) {xs ys : List (List β)} (hlen : xs.length = ys.length)
    (hx : ∀ x ∈ xs, ¬ [a, b] <:+: x) (hy : ∀ y ∈ ys, ¬ [a, b] <:+: y)
    (h : [a, b].intercalate xs = [a, b].intercalate ys) : xs = ys := by
  induction xs generalizing ys with
  | nil => exact (eq_nil_of_length_eq_zero hlen.symm).symm
  | cons x xs ih =>
    cases ys with
    | nil => cases hlen
    | cons y ys =>
      obtain ⟨hfirst, hxs⟩ := forall_mem_cons.mp hx
      obtain ⟨hfirst', hys⟩ := forall_mem_cons.mp hy
      have hrest : xs.length = ys.length := Nat.succ.inj hlen
      cases xs with
      | nil =>
        obtain rfl := eq_nil_of_length_eq_zero hrest.symm
        simpa using h
      | cons x' xs =>
        cases ys with
        | nil => cases hrest
        | cons y' ys =>
          rw [intercalate_cons_cons, intercalate_cons_cons, append_assoc, append_assoc] at h
          obtain ⟨rfl, hjoin⟩ := append_pair_inj hab hfirst hfirst' h
          rw [ih hrest hxs hys hjoin]

end

section

variable {α : Type} [DecidableEq α]

/-- The runs of equal neighbours.  The number bounds the length of the list. -/
def runsLoop : Nat → List α → List (α × Nat)
  | 0, _ => []
  | _ + 1, [] => []
  | n + 1, x :: xs =>
    (x, (xs.takeWhile (· = x)).length + 1) :: runsLoop n (xs.dropWhile (· = x))

/-- The runs of equal elements. -/
def runs (xs : List α) : List (α × Nat) := runsLoop xs.length xs

theorem takeWhile_eq_replicate (x : α) (xs : List α) :
    xs.takeWhile (· = x) = replicate (xs.takeWhile (· = x)).length x := by
  refine eq_replicate_of_mem fun y hy => ?_
  have heq := mem_takeWhile_imp hy
  exact of_decide_eq_true heq

variable {n : Nat} {xs : List α} {r : α × Nat}

theorem runsLoop_flatMap (h : xs.length ≤ n) :
    (runsLoop n xs).flatMap (fun r => replicate r.2 r.1) = xs := by
  induction n generalizing xs with
  | zero => exact (eq_nil_of_length_eq_zero (Nat.le_zero.mp h)).symm
  | succ n ih =>
    cases xs with
    | nil => rfl
    | cons x xs =>
      have hrest : (xs.dropWhile (· = x)).length ≤ n := by
        have hdrop := (dropWhile_suffix (p := (· = x)) (l := xs)).length_le
        rw [length_cons] at h
        omega
      rw [runsLoop, flatMap_cons, ih hrest, replicate_succ, ← takeWhile_eq_replicate,
        cons_append, takeWhile_append_dropWhile]

theorem runs_flatMap (xs : List α) : (runs xs).flatMap (fun r => replicate r.2 r.1) = xs :=
  runsLoop_flatMap (Nat.le_refl _)

theorem runsLoop_pos (h : r ∈ runsLoop n xs) : 0 < r.2 := by
  induction n generalizing xs with
  | zero => cases h
  | succ n ih =>
    cases xs with
    | nil => cases h
    | cons x xs =>
      rcases mem_cons.mp h with rfl | hrest
      · exact Nat.succ_pos _
      · exact ih hrest

theorem mem_of_mem_runs (h : r ∈ runs xs) : r.1 ∈ xs := by
  have hmem : r.1 ∈ (runs xs).flatMap fun r => replicate r.2 r.1 :=
    mem_flatMap.mpr ⟨r, h, mem_replicate.mpr ⟨(runsLoop_pos h).ne', rfl⟩⟩
  rwa [runs_flatMap] at hmem

theorem runs_ne_nil (h : xs ≠ []) : runs xs ≠ [] := by
  intro hnil
  have hxs := runs_flatMap xs
  rw [hnil] at hxs
  exact h hxs.symm

end

end Lines
