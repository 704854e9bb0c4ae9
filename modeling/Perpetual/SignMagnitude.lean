import Mathlib.Tactic.Linarith
import Mathlib.Data.Int.Order.Basic

/-! Integers kept as a sign and a magnitude, and quotients rounded to either
side. Both zeros are allowed: the sign of a zero magnitude means nothing. -/
namespace Perpetual

def signed (isPositive : Bool) (value : Nat) : Int := if isPositive then value else -value

namespace Signed

@[simp] theorem positive (n : Nat) : signed true n = n := rfl

@[simp] theorem negative (n : Nat) : signed false n = -(n : Int) := rfl

@[simp] theorem zero (s : Bool) : signed s 0 = 0 := by cases s <;> rfl

@[simp] theorem natAbs (s : Bool) (n : Nat) : (signed s n).natAbs = n := by
  cases s <;> simp

theorem credit {s : Bool} {n : Nat} (h : s = false → n = 0) : signed s n = n := by
  cases s with
  | true => rfl
  | false => rw [h rfl]; rfl

theorem mul (s t : Bool) (m n : Nat) : signed s m * signed t n = signed (s == t) (m * n) := by
  cases s <;> cases t <;> simp

end Signed

namespace Rounding

theorem down (n : Nat) {d : Nat} (positive : 0 < d) :
    n / d * d ≤ n ∧ n < n / d * d + d := by
  have exact := Nat.div_add_mod n d
  have small := Nat.mod_lt n positive
  rw [Nat.mul_comm d] at exact
  omega

theorem up {n : Nat} (nonzero : 0 < n) {d : Nat} (positive : 0 < d) :
    n ≤ ((n - 1) / d + 1) * d ∧ ((n - 1) / d + 1) * d < n + d := by
  have below := down (n - 1) positive
  rw [Nat.add_mul, Nat.one_mul]
  omega

end Rounding
end Perpetual
