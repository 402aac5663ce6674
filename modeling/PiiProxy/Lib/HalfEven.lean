import Mathlib

/-!
# Rounding half to even

The rounding of Python's `round(x, ndigits)`, on exact numbers: to the nearest multiple of a power
of ten, and to the even one of two that are equally near.

## Main definitions

* `HalfEven.roundInt`: the nearest integer.
* `HalfEven.round`: the nearest multiple of `10 ^ (-ndigits)`.

## Main results

* `HalfEven.round_mono`: rounding keeps the order.
* `HalfEven.round_eq_self`: a multiple is rounded to itself.
-/

namespace HalfEven

variable {α : Type*} [Field α] [LinearOrder α] [IsStrictOrderedRing α] [FloorRing α]

/-- The nearest integer, the even one of two that are equally near. -/
def roundInt (x : α) : ℤ :=
  if Int.fract x < 1 / 2 then ⌊x⌋
  else if 1 / 2 < Int.fract x then ⌊x⌋ + 1
  else if Even ⌊x⌋ then ⌊x⌋ else ⌊x⌋ + 1

/-- `round(x, ndigits)`. -/
def round (ndigits : ℕ) (x : α) : α := roundInt (x * 10 ^ ndigits) / 10 ^ ndigits

@[simp] theorem roundInt_intCast (n : ℤ) : roundInt (n : α) = n := by
  rw [roundInt, Int.fract_intCast, if_pos (by norm_num), Int.floor_intCast]

omit [IsStrictOrderedRing α] in
theorem floor_le_roundInt (x : α) : ⌊x⌋ ≤ roundInt x := by
  rw [roundInt]
  split_ifs <;> omega

omit [IsStrictOrderedRing α] in
theorem roundInt_le_floor_add_one (x : α) : roundInt x ≤ ⌊x⌋ + 1 := by
  rw [roundInt]
  split_ifs <;> omega

theorem roundInt_mono : Monotone (roundInt : α → ℤ) := by
  intro x y hxy
  rcases (Int.floor_le_floor hxy).lt_or_eq with hlt | heq
  · calc roundInt x ≤ ⌊x⌋ + 1 := roundInt_le_floor_add_one x
      _ ≤ ⌊y⌋ := hlt
      _ ≤ roundInt y := floor_le_roundInt y
  · have hfract : Int.fract x ≤ Int.fract y := by
      rw [Int.fract, Int.fract, heq]
      exact sub_le_sub_right hxy _
    rw [roundInt, roundInt, heq]
    split_ifs with h₁ h₂ h₃ h₄ h₅ h₆ h₇ <;> first | omega | exact absurd hfract (by linarith)

/-- **Rounding keeps the order.** -/
theorem round_mono (ndigits : ℕ) : Monotone (round ndigits : α → α) := by
  intro x y hxy
  have hpos : (0 : α) < 10 ^ ndigits := by positivity
  have hle := roundInt_mono (mul_le_mul_of_nonneg_right hxy hpos.le)
  rw [round, round]
  gcongr

/-- A multiple of the unit is rounded to itself. -/
theorem round_eq_self {ndigits : ℕ} {x : α} {n : ℤ} (hx : x * 10 ^ ndigits = n) :
    round ndigits x = x := by
  have hne : (10 : α) ^ ndigits ≠ 0 := by positivity
  rw [round, hx, roundInt_intCast, ← hx, mul_div_cancel_right₀ x hne]

end HalfEven
