import Mathlib

/-!
# Rings

A ring has a fixed number of slots.  The n-th value that is written goes to the
slot n modulo the number of slots, and overwrites what is there.  So a ring has
the last values of its history, and its slots in order are a rotation of them
(`Holds.rtake_eq_rotate`).
-/

namespace Ring

variable {α : Type} {size : Nat}

/-- The last values of a history are in their slots. -/
def Holds (ring : Vector α size) (history : List α) : Prop :=
  ∀ p x, history[p]? = some x → history.length ≤ p + size → ring[p % size]? = some x

theorem holds_nil (ring : Vector α size) : Holds ring [] := by
  intro p x hp
  cases hp

variable {ring : Vector α size} {history : List α}

theorem Holds.set (h : Holds ring history) (hlt : history.length % size < size) (x : α) :
    Holds (ring.set (history.length % size) x hlt) (history ++ [x]) := by
  intro p y hp hrecent
  rw [List.length_append, List.length_singleton] at hrecent
  rw [Vector.getElem?_set]
  rcases Nat.lt_or_ge p history.length with hlt' | hge
  · rw [List.getElem?_append_left hlt'] at hp
    have hslot : history.length % size ≠ p % size := by
      intro heq
      have hdvd : size ∣ history.length - p :=
        Nat.dvd_of_mod_eq_zero (Nat.sub_mod_eq_zero_of_mod_eq heq)
      have hle := Nat.le_of_dvd (by omega) hdvd
      omega
    rw [if_neg hslot]
    exact h p y hp (by omega)
  · rw [List.getElem?_append_right hge] at hp
    have hp' : p = history.length := by
      have hbound := (List.getElem?_eq_some_iff.mp hp).1
      rw [List.length_singleton] at hbound
      omega
    rw [hp', Nat.sub_self] at hp
    rw [hp', if_pos rfl]
    exact hp

/-- The slots that were written, from the oldest value on, are the end of the history. -/
theorem Holds.rtake_eq_rotate (h : Holds ring history) :
    history.rtake size =
      (ring.toList.take (min history.length size)).rotate (history.length - size) := by
  rcases Nat.le_total history.length size with hle | hle
  · rw [List.rtake, Nat.sub_eq_zero_of_le hle, List.drop_zero, List.rotate_zero,
      Nat.min_eq_left hle]
    apply List.ext_getElem?
    intro p
    rw [List.getElem?_take]
    split
    · next hp =>
      have hslot := h p history[p] (List.getElem?_eq_getElem hp) (by omega)
      rw [Nat.mod_eq_of_lt (by omega)] at hslot
      rw [List.getElem?_eq_getElem hp, Vector.getElem?_toList, hslot]
    · next hp => exact List.getElem?_eq_none (by omega)
  · have hlength : ring.toList.length = size := Vector.length_toList
    rw [Nat.min_eq_right hle, List.take_of_length_le hlength.le]
    apply List.ext_getElem?
    intro i
    rw [List.rtake, List.getElem?_drop]
    rcases Nat.lt_or_ge i size with hi | hi
    · have hp : history.length - size + i < history.length := by omega
      have hslot := h _ history[history.length - size + i] (List.getElem?_eq_getElem hp) (by omega)
      rw [List.getElem?_rotate (by omega), List.getElem?_eq_getElem hp, hlength, Nat.add_comm i,
        Vector.getElem?_toList, hslot]
    · rw [List.getElem?_eq_none (by omega), List.getElem?_eq_none]
      rw [List.length_rotate]
      omega

theorem Holds.count_take [BEq α] [LawfulBEq α] (h : Holds ring history) (a : α) :
    (ring.toList.take (min history.length size)).count a = (history.rtake size).count a := by
  rw [h.rtake_eq_rotate]
  exact ((List.rotate_perm _ _).count a).symm

end Ring
