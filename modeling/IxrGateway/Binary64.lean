import Mathlib

/-!
# Rounded arithmetic

Binary floating point with 53 digits, as far as error bounds go.  An operation
rounds its exact result, and away from the ends of the range the error is at
most `unit` times the result.  Which value is taken is left open, so the facts
here hold for every rounding mode.  Errors are followed as absolute bounds.
-/

namespace Binary64

/-- The relative error of one rounding. -/
def unit : ℚ := 1 / 2 ^ 53

/-- How exact results are rounded, and how a float is converted to a 64-bit integer.  Beyond the
range of the integers the conversion gives any number. -/
structure Arith where
  round : ℚ → ℚ
  round_zero : round 0 = 0
  round_near : ∀ x, 1 / 2 ^ 1022 ≤ |x| → |x| ≤ 2 ^ 1023 → |round x - x| ≤ unit * |x|
  toInt : ℚ → Int
  toInt_floor : ∀ x, 0 ≤ x → x < 2 ^ 63 → toInt x = ⌊x⌋
  toInt_ceil : ∀ x, -2 ^ 63 ≤ x → x ≤ 0 → toInt x = ⌈x⌉

/-- Arithmetic that does not round. -/
def exact : Arith where
  round x := x
  round_zero := rfl
  round_near := by
    intro x _ _
    rw [sub_self, abs_zero]
    exact mul_nonneg (by norm_num [unit]) (abs_nonneg x)
  toInt x := if 0 ≤ x then ⌊x⌋ else ⌈x⌉
  toInt_floor := by
    intro x hx _
    rw [if_pos hx]
  toInt_ceil := by
    intro x _ hx
    split
    · next hpos =>
      rw [le_antisymm hx hpos, Int.floor_zero, Int.ceil_zero]
    · rfl

/-- The error of a rounded result `x` that stands for `y`, up to an error already.  The result
lies well inside the range. -/
theorem Arith.round_within (f : Arith) {x y error : ℚ} (high : ℚ) (hx : 1 / 2 ^ 10 ≤ x)
    (hx' : x ≤ high) (hhigh : high ≤ 2 ^ 64) (h : |x - y| ≤ error) :
    |f.round x - y| ≤ unit * high + error := by
  have hsmall : (1 : ℚ) / 2 ^ 1022 ≤ 1 / 2 ^ 10 :=
    one_div_le_one_div_of_le (by positivity) (pow_le_pow_right₀ (by norm_num) (by norm_num))
  have hlarge : (2 : ℚ) ^ 64 ≤ 2 ^ 1023 := pow_le_pow_right₀ (by norm_num) (by norm_num)
  have habs : |x| = x := abs_of_nonneg (le_trans (by positivity) hx)
  have hnear := f.round_near x (by rw [habs]; exact hsmall.trans hx)
    (by rw [habs]; exact hx'.trans (hhigh.trans hlarge))
  have hunit : unit * |x| ≤ unit * high := by
    rw [habs]
    exact mul_le_mul_of_nonneg_left hx' (by norm_num [unit])
  calc |f.round x - y| ≤ |f.round x - x| + |x - y| := abs_sub_le _ _ _
    _ ≤ unit * high + error := add_le_add (hnear.trans hunit) h

theorem Arith.round_self (f : Arith) {x : ℚ} (high : ℚ) (hx : 1 / 2 ^ 10 ≤ x) (hx' : x ≤ high)
    (hhigh : high ≤ 2 ^ 64) : |f.round x - x| ≤ unit * high := by
  have hzero : |x - x| ≤ 0 := by rw [sub_self, abs_zero]
  have hnear := f.round_within high hx hx' hhigh hzero
  rwa [add_zero] at hnear

theorem abs_add_sub_add_le {a a' b b' ea eb : ℚ} (ha : |a - a'| ≤ ea) (hb : |b - b'| ≤ eb) :
    |(a + b) - (a' + b')| ≤ ea + eb := by
  rw [add_sub_add_comm]
  exact (abs_add_le _ _).trans (add_le_add ha hb)

theorem abs_div_sub_div_le {a a' c c' ea ec : ℚ} (low : ℚ) (hlow : 0 < low) (hc : low ≤ c)
    (hc' : low ≤ c') (ha : |a - a'| ≤ ea) (hcc : |c - c'| ≤ ec) :
    |a / c - a' / c'| ≤ (ea + |a' / c'| * ec) / low := by
  have hcpos : 0 < c := hlow.trans_le hc
  have hcpos' : 0 < c' := hlow.trans_le hc'
  have hsplit : a / c - a' / c' = ((a - a') - a' / c' * (c - c')) / c := by
    field_simp
    ring
  have hnum : |(a - a') - a' / c' * (c - c')| ≤ ea + |a' / c'| * ec := by
    calc |(a - a') - a' / c' * (c - c')| ≤ |a - a'| + |a' / c' * (c - c')| := abs_sub _ _
      _ ≤ ea + |a' / c'| * ec := by
          rw [abs_mul]
          exact add_le_add ha (mul_le_mul_of_nonneg_left hcc (abs_nonneg _))
  have hnonneg : 0 ≤ ea + |a' / c'| * ec := (abs_nonneg _).trans hnum
  rw [hsplit, abs_div, abs_of_pos hcpos]
  exact div_le_div₀ hnonneg hnum hlow hc

end Binary64
