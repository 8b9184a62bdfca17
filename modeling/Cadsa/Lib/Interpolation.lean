import Mathlib.Algebra.Order.Floor.Semiring
import Mathlib.Algebra.Order.Floor.Ring
import Mathlib.Tactic.Linarith
import Mathlib.Tactic.Ring

/-! The values of a sequence joined by straight lines. Where the sequence ascends, so does what joins it, and it stays
between the values that it joins. -/
namespace Interpolation
set_option autoImplicit false

variable {K : Type} [Field K] [LinearOrder K] [IsStrictOrderedRing K] [FloorRing K]

/-- What joins the values, at `x`. -/
def joined (f : ℕ → K) (x : K) : K := f ⌊x⌋₊ + (x - ⌊x⌋₊) * (f ⌈x⌉₊ - f ⌊x⌋₊)

section
variable {f : ℕ → K} {x y : K}

/-- The value above is that of the next index, unless nothing is added of it. -/
theorem joined_eq (hx : 0 ≤ x) : joined f x = f ⌊x⌋₊ + (x - ⌊x⌋₊) * (f (⌊x⌋₊ + 1) - f ⌊x⌋₊) := by
  rcases (Nat.floor_le hx).eq_or_lt with heq | hlt
  · rw [joined, ← heq, Nat.floor_natCast, sub_self, zero_mul, zero_mul]
  · have hceil : ⌈x⌉₊ = ⌊x⌋₊ + 1 := le_antisymm (Nat.ceil_le_floor_add_one x) (Nat.lt_ceil.mpr hlt)
    rw [joined, hceil]

variable (hf : Monotone f)
include hf

theorem le_joined (hx : 0 ≤ x) : f ⌊x⌋₊ ≤ joined f x := by
  have hrest : 0 ≤ x - ⌊x⌋₊ := sub_nonneg.mpr (Nat.floor_le hx)
  have hstep : 0 ≤ f (⌊x⌋₊ + 1) - f ⌊x⌋₊ := sub_nonneg.mpr (hf (Nat.le_succ _))
  rw [joined_eq hx]
  exact le_add_of_nonneg_right (mul_nonneg hrest hstep)

theorem joined_le (hx : 0 ≤ x) : joined f x ≤ f (⌊x⌋₊ + 1) := by
  have hrest : x - ⌊x⌋₊ ≤ 1 := by
    have hlt := Nat.lt_floor_add_one x
    linarith
  have hstep : 0 ≤ f (⌊x⌋₊ + 1) - f ⌊x⌋₊ := sub_nonneg.mpr (hf (Nat.le_succ _))
  have hpart := mul_le_of_le_one_left hstep hrest
  rw [joined_eq hx]
  linarith

/-- The cases are whether the two are between the same two values. -/
theorem joined_mono (hx : 0 ≤ x) (hxy : x ≤ y) : joined f x ≤ joined f y := by
  have hy : 0 ≤ y := hx.trans hxy
  rcases (Nat.floor_mono hxy).eq_or_lt with heq | hlt
  · have hstep : 0 ≤ f (⌊x⌋₊ + 1) - f ⌊x⌋₊ := sub_nonneg.mpr (hf (Nat.le_succ _))
    have hrest : x - ⌊x⌋₊ ≤ y - ⌊x⌋₊ := sub_le_sub_right hxy _
    rw [joined_eq hx, joined_eq hy, ← heq]
    exact add_le_add_right (mul_le_mul_of_nonneg_right hrest hstep) _
  · calc joined f x ≤ f (⌊x⌋₊ + 1) := joined_le hf hx
      _ ≤ f ⌊y⌋₊ := hf hlt
      _ ≤ joined f y := le_joined hf hy

end

end Interpolation
