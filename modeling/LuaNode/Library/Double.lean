import Mathlib.Data.Nat.Log
import Mathlib.Tactic.Ring

/-!
# Whole numbers as doubles

A number of Lua 5.1 is a double. A whole number of at most 53 binary digits is one itself; a larger one is
rounded to the nearest of those with 53 significant digits, to the even one between two, and from
`2 ^ 1024` on to infinity.
-/

namespace LuaNode

/-- How far apart the doubles around `n` are. -/
def doubleUnit (n : ℕ) : ℕ := 2 ^ (n.log2 + 1 - 53)

/-- The double of a whole number, or `none` for infinity. -/
def toDouble (n : ℕ) : Option ℕ :=
  let quotient := n / doubleUnit n
  let rest := 2 * (n % doubleUnit n)
  let up := decide (doubleUnit n < rest) || (rest == doubleUnit n && quotient % 2 == 1)
  let rounded := (if up then quotient + 1 else quotient) * doubleUnit n
  if rounded.log2 < 1024 then some rounded else none

theorem doubleUnit_of_lt {n : ℕ} (h : n < 2 ^ 53) : doubleUnit n = 1 := by
  rcases n.eq_zero_or_pos with rfl | hpos
  · rfl
  · have hlog : n.log2 < 53 := (Nat.log2_lt hpos.ne').mpr h
    rw [doubleUnit, Nat.sub_eq_zero_of_le hlog, pow_zero]

theorem doubleUnit_le {n : ℕ} (h : 0 < n) : doubleUnit n ≤ n := by
  have hlog : 2 ^ n.log2 ≤ n := Nat.log2_self_le h.ne'
  have hunit : doubleUnit n ≤ 2 ^ n.log2 := Nat.pow_le_pow_right two_pos (by omega)
  exact hunit.trans hlog

/-- No positive number is rounded to zero. -/
theorem toDouble_pos {n rounded : ℕ} (h : 0 < n) (hround : toDouble n = some rounded) :
    0 < rounded := by
  have hquotient : 0 < n / doubleUnit n :=
    Nat.div_pos (doubleUnit_le h) (Nat.pow_pos two_pos)
  simp only [toDouble] at hround
  split_ifs at hround
  · cases hround
    exact Nat.mul_pos (by omega) (Nat.pow_pos two_pos)
  · cases hround
    exact Nat.mul_pos hquotient (Nat.pow_pos two_pos)

/-- Up to `2 ^ 53` every whole number is a double. -/
theorem toDouble_of_le {n : ℕ} (h : n ≤ 2 ^ 53) : toDouble n = some n := by
  rcases h.lt_or_eq with hlt | rfl
  · have hlog : n.log2 < 1024 := by
      rcases n.eq_zero_or_pos with rfl | hpos
      · simp
      · have hle : n.log2 < 53 := (Nat.log2_lt hpos.ne').mpr hlt
        omega
    simp [toDouble, doubleUnit_of_lt hlt, Nat.mod_one, hlog]
  · decide +kernel

end LuaNode
