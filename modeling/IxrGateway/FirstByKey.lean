import Mathlib.Data.Finset.Card
import Mathlib.Data.List.Sort

/-!
# The first element of each key

`firsts` drops an element of a list if an earlier one has the same key.  If the list
is in descending order, what stays of a key is a greatest element of it, and the
first few are the greatest elements of the keys that come first
(`rel_of_not_mem_take`).
-/

namespace FirstByKey

open List

variable {α κ : Type} [DecidableEq κ] (key : α → κ)

/-- The elements whose key is not in `seen` and that no earlier element has. -/
def firsts : List κ → List α → List α
  | _, [] => []
  | seen, x :: xs =>
    if key x ∈ seen then firsts seen xs else x :: firsts (key x :: seen) xs

variable {key}

theorem firsts_cons_of_mem {seen : List κ} {x : α} (h : key x ∈ seen) (xs : List α) :
    firsts key seen (x :: xs) = firsts key seen xs := if_pos h

theorem firsts_cons_of_not_mem {seen : List κ} {x : α} (h : key x ∉ seen) (xs : List α) :
    firsts key seen (x :: xs) = x :: firsts key (key x :: seen) xs := if_neg h

theorem firsts_sublist (key : α → κ) (seen : List κ) (xs : List α) :
    (firsts key seen xs).Sublist xs := by
  induction xs generalizing seen with
  | nil => exact Sublist.slnil
  | cons x xs ih =>
    by_cases h : key x ∈ seen
    · rw [firsts_cons_of_mem h]
      exact (ih seen).cons x
    · rw [firsts_cons_of_not_mem h]
      exact (ih _).cons_cons x

theorem mem_keys_firsts {seen : List κ} {xs : List α} {k : κ} :
    k ∈ (firsts key seen xs).map key ↔ k ∈ xs.map key ∧ k ∉ seen := by
  induction xs generalizing seen with
  | nil => exact ⟨nofun, nofun⟩
  | cons x xs ih =>
    by_cases h : key x ∈ seen
    · rw [firsts_cons_of_mem h, ih, map_cons, mem_cons]
      constructor
      · rintro ⟨hk, hseen⟩
        exact ⟨.inr hk, hseen⟩
      · rintro ⟨rfl | hk, hseen⟩
        · exact absurd h hseen
        · exact ⟨hk, hseen⟩
    · rw [firsts_cons_of_not_mem h, map_cons, mem_cons, ih, map_cons, mem_cons, mem_cons, not_or]
      rcases eq_or_ne k (key x) with rfl | hne
      · simp [h]
      · simp [hne]

theorem nodup_keys_firsts (seen : List κ) (xs : List α) :
    ((firsts key seen xs).map key).Nodup := by
  induction xs generalizing seen with
  | nil => exact nodup_nil
  | cons x xs ih =>
    by_cases h : key x ∈ seen
    · rw [firsts_cons_of_mem h]
      exact ih seen
    · rw [firsts_cons_of_not_mem h, map_cons, nodup_cons, mem_keys_firsts]
      exact ⟨fun hx => hx.2 mem_cons_self, ih _⟩

theorem length_firsts (xs : List α) : (firsts key [] xs).length = (xs.map key).toFinset.card := by
  rw [← length_map key, ← toFinset_card_of_nodup (nodup_keys_firsts [] xs)]
  congr 1
  ext k
  rw [mem_toFinset, mem_toFinset, mem_keys_firsts]
  exact and_iff_left not_mem_nil

section

variable {r : α → α → Prop} [Std.Refl r]

/-- What stays of a key comes before all others of the key. -/
theorem rel_of_mem_firsts {seen : List κ} {xs : List α} (hxs : xs.Pairwise r) {x y : α}
    (hx : x ∈ firsts key seen xs) (hy : y ∈ xs) (hkey : key y = key x) : r x y := by
  induction xs generalizing seen with
  | nil => cases hy
  | cons z xs ih =>
    obtain ⟨hz, hxs⟩ := pairwise_cons.mp hxs
    by_cases h : key z ∈ seen
    · rw [firsts_cons_of_mem h] at hx
      have hseen := (mem_keys_firsts.mp (mem_map_of_mem hx)).2
      rcases mem_cons.mp hy with rfl | hy
      · exact absurd (hkey ▸ h) hseen
      · exact ih hxs hx hy
    · rw [firsts_cons_of_not_mem h] at hx
      rcases mem_cons.mp hx with rfl | hx
      · rcases mem_cons.mp hy with rfl | hy
        · exact refl y
        · exact hz y hy
      · have hseen := (mem_keys_firsts.mp (mem_map_of_mem hx)).2
        rcases mem_cons.mp hy with rfl | hy
        · exact absurd (hkey ▸ mem_cons_self) hseen
        · exact ih hxs hx hy

/-- An element whose key is not among the first few comes after all of them. -/
theorem rel_of_not_mem_take [IsTrans α r] {xs : List α} (hxs : xs.Pairwise r) {n : Nat} {x y : α}
    (hx : x ∈ (firsts key [] xs).take n) (hy : y ∈ xs)
    (hkey : key y ∉ ((firsts key [] xs).take n).map key) : r x y := by
  obtain ⟨z, hz, hzy⟩ := mem_map.mp
    (mem_keys_firsts.mpr ⟨mem_map_of_mem (f := key) hy, not_mem_nil⟩)
  have hdrop : z ∈ (firsts key [] xs).drop n := by
    rw [← take_append_drop n (firsts key [] xs)] at hz
    rcases mem_append.mp hz with htake | hdrop
    · exact absurd (hzy ▸ mem_map_of_mem htake) hkey
    · exact hdrop
  have hpair := hxs.sublist (firsts_sublist key [] xs)
  rw [← take_append_drop n (firsts key [] xs)] at hpair
  exact IsTrans.trans x z y ((pairwise_append.mp hpair).2.2 x hx z hdrop)
    (rel_of_mem_firsts hxs (mem_of_mem_drop hdrop) hy hzy.symm)

end

end FirstByKey
