import Mathlib

/-!
# Texts and separators

A text is a list of symbols.  A pattern without a separator lies on one side of
it.  A pattern that starts with the separator, and does not have it again,
either lies on one side of it or starts there.
-/

namespace Segments

open List

section

variable {α : Type} {x : α} {p q a b : List α}

/-- A pattern without the separator starts a text with one if it starts the part before it. -/
theorem prefix_append_cons_iff (hx : x ∉ p) : p <+: a ++ x :: b ↔ p <+: a := by
  induction a generalizing p with
  | nil =>
    cases p with
    | nil => simp
    | cons y p =>
      rw [nil_append, cons_prefix_cons, prefix_nil]
      constructor
      · rintro ⟨rfl, -⟩
        exact absurd mem_cons_self hx
      · intro h
        cases h
  | cons z a ih =>
    cases p with
    | nil => simp
    | cons y p =>
      rw [cons_append, cons_prefix_cons, cons_prefix_cons, ih fun h => hx (mem_cons_of_mem _ h)]

/-- A pattern without the separator lies on one side of it. -/
theorem infix_append_cons_iff (hx : x ∉ p) : p <:+: a ++ x :: b ↔ p <:+: a ∨ p <:+: b := by
  induction a with
  | nil =>
    have hstart : p <+: x :: b ↔ p = [] := by
      rw [← nil_append (x :: b), prefix_append_cons_iff hx, prefix_nil]
    rw [nil_append, infix_cons_iff, infix_nil, hstart]
  | cons z a ih =>
    rw [cons_append, infix_cons_iff, ih, ← cons_append,
      prefix_append_cons_iff hx, infix_cons_iff, or_assoc]

/-- A pattern that starts with the separator, and does not have it again. -/
theorem cons_infix_append_cons_iff (hx : x ∉ q) :
    x :: q <:+: a ++ x :: b ↔ x :: q <:+: a ∨ q <+: b ∨ x :: q <:+: b := by
  induction a with
  | nil =>
    rw [nil_append, infix_cons_iff, cons_prefix_cons, infix_nil]
    simp
  | cons z a ih =>
    rw [cons_append, infix_cons_iff, ih, cons_prefix_cons,
      prefix_append_cons_iff hx, infix_cons_iff, cons_prefix_cons, or_assoc]

end

end Segments
