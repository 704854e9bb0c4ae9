import Mathlib.Algebra.Order.Group.Unbundled.Int
import Mathlib.Tactic.Linarith

/-! A difference paid in parts, each part rounded down on its own. -/
namespace Perpetual

/-- What is paid for the way from `x` along a list of values, in units of `d`. -/
def floors (d : Int) : Int → List Int → Int
  | _,[] => 0
  | x,y::ys => (y - x) / d + floors d y ys

namespace Floors
variable {d : Int}

theorem snoc (x : Int) (ys : List Int) (y : Int) :
    floors d x (ys ++ [y]) = floors d x ys + (y - ys.getLastD x) / d := by
  induction ys generalizing x with
  | nil => simp [floors]
  | cons z zs ih => rw [List.cons_append, floors, ih, floors, List.getLastD_cons, Int.add_assoc]

theorem atMost (positive : 0 < d) (x : Int) (ys : List Int) : d * floors d x ys ≤ ys.getLastD x - x := by
  induction ys generalizing x with
  | nil => simp [floors]
  | cons y ys ih =>
    have part := Int.mul_ediv_self_le (x := y - x) positive.ne'
    have rest := ih y
    rw [floors, Int.mul_add, List.getLastD_cons]
    omega

theorem atLeast (positive : 0 < d) (x : Int) {ys : List Int} (some' : ys ≠ []) :
    ys.getLastD x - x < d * (floors d x ys + ys.length) := by
  induction ys generalizing x with
  | nil => exact absurd rfl some'
  | cons y ys ih =>
    have part := Int.lt_mul_ediv_self_add (x := y - x) positive
    rw [floors, List.getLastD_cons, List.length_cons, Nat.cast_add, Int.mul_add, Int.mul_add,
      Nat.cast_one, Int.mul_add, Int.mul_one]
    cases ys with
    | nil =>
      simp only [floors, List.getLastD_nil, List.length_nil, Nat.cast_zero]
      omega
    | cons z zs =>
      have rest := ih y (List.cons_ne_nil z zs)
      rw [Int.mul_add] at rest
      omega

theorem sublist (positive : 0 < d) {xs ys : List Int} (sub : xs.Sublist ys) (x : Int)
    (last : ys.getLastD x = xs.getLastD x) : floors d x ys ≤ floors d x xs := by
  induction sub generalizing x with
  | slnil => exact le_rfl
  | @cons xs ys y sub ih =>
    rw [List.getLastD_cons] at last
    cases xs with
    | nil =>
      have whole := atMost positive x (y::ys)
      rw [List.getLastD_cons, last, List.getLastD_nil, Int.sub_self] at whole
      exact nonpos_of_mul_nonpos_right whole positive
    | cons z zs =>
      have rest := ih y (by rw [last, List.getLastD_cons, List.getLastD_cons])
      have parts := Int.ediv_add_ediv_le_add_ediv (x := y - x) (y := z - y) positive
      rw [show y - x + (z - y) = z - x by omega] at parts
      rw [floors] at rest ⊢
      rw [floors]
      omega
  | @cons_cons xs ys y sub ih =>
    rw [List.getLastD_cons, List.getLastD_cons] at last
    exact Int.add_le_add_left (ih y last) _

end Floors
end Perpetual
