import Mathlib.Algebra.Order.BigOperators.Group.List
import Mathlib.Algebra.Order.Group.Abs
import Mathlib.Algebra.Order.Group.MinMax
import Mathlib.Order.Interval.Set.UnorderedInterval

set_option autoImplicit false

/-! # Moving toward a target by bounded steps

`approach t x a` is the point that `x` reaches when it moves toward `t` by the distance `a` and
stops at `t`. Steps of this kind add up: `approach_add` makes `approach t` an action of the
nonnegative distances, so a sequence of steps ends where the one step of their sum ends
(`foldl_approach`). What is left to go is the old distance less the step, truncated at zero
(`dist_approach`), and no step leaves the interval between the point and the target
(`approach_mem_uIcc`).
-/

namespace Approach

variable {G : Type*} [AddCommGroup G] [LinearOrder G]

/-- The point `x`, moved toward `t` by the distance `a` but not beyond `t`. -/
def approach (t x a : G) : G :=
  if |t - x| ≤ a then t else if x < t then x + a else x - a

variable [IsOrderedAddMonoid G] {t x a b : G}

/-- Below the target the motion is upward, up to the target. -/
theorem approach_of_le (ha : 0 ≤ a) (h : x ≤ t) : approach t x a = min t (x + a) := by
  rw [approach, abs_of_nonneg (sub_nonneg.mpr h)]
  by_cases hstep : t - x ≤ a
  · rw [if_pos hstep, min_eq_left (sub_le_iff_le_add'.mp hstep)]
  · have hlt : a < t - x := not_le.mp hstep
    have hx : x < t := sub_pos.mp (lt_of_le_of_lt ha hlt)
    rw [if_neg hstep, if_pos hx, min_eq_right (lt_sub_iff_add_lt'.mp hlt).le]

/-- Above the target it is downward. -/
theorem approach_of_ge (h : t ≤ x) : approach t x a = max t (x - a) := by
  rw [approach, abs_of_nonpos (sub_nonpos.mpr h), neg_sub, if_neg h.not_gt]
  by_cases hstep : x - t ≤ a
  · rw [if_pos hstep, max_eq_left (sub_le_comm.mp hstep)]
  · rw [if_neg hstep, max_eq_right (lt_sub_comm.mp (not_le.mp hstep)).le]

/-- At the target nothing moves. -/
theorem approach_self (ha : 0 ≤ a) : approach t t a = t := by
  rw [approach_of_le ha le_rfl, min_eq_left (le_add_of_nonneg_right ha)]

theorem approach_zero : approach t x 0 = x := by
  cases le_total x t with
  | inl h => rw [approach_of_le le_rfl h, add_zero, min_eq_right h]
  | inr h => rw [approach_of_ge h, sub_zero, max_eq_right h]

/-- **Two steps are one step of their sum.** -/
theorem approach_add (ha : 0 ≤ a) (hb : 0 ≤ b) :
    approach t (approach t x a) b = approach t x (a + b) := by
  cases le_total x t with
  | inl h =>
      rw [approach_of_le ha h, approach_of_le hb (min_le_left _ _),
        approach_of_le (add_nonneg ha hb) h, ← min_add_add_right, ← min_assoc,
        min_eq_left (le_add_of_nonneg_right hb), add_assoc]
  | inr h =>
      rw [approach_of_ge h, approach_of_ge (le_max_left _ _),
        approach_of_ge h, ← max_sub_sub_right, ← max_assoc,
        max_eq_left (sub_le_self t hb), sub_sub]

/-- **A sequence of steps is one step of their sum.** -/
theorem foldl_approach (as : List G) (h : ∀ a ∈ as, 0 ≤ a) :
    as.foldl (approach t) x = approach t x as.sum := by
  induction as generalizing x with
  | nil => exact approach_zero.symm
  | cons a as ih =>
      have has : ∀ b ∈ as, 0 ≤ b := fun b hb => h b (List.mem_cons_of_mem a hb)
      rw [List.foldl_cons, ih has, List.sum_cons,
        approach_add (h a List.mem_cons_self) (List.sum_nonneg has)]

/-- What is left to go after a step. -/
theorem dist_approach (ha : 0 ≤ a) : |t - approach t x a| = max 0 (|t - x| - a) := by
  cases le_total x t with
  | inl h =>
      rw [approach_of_le ha h, abs_of_nonneg (sub_nonneg.mpr (min_le_left _ _)),
        abs_of_nonneg (sub_nonneg.mpr h), ← max_sub_sub_left, sub_self, sub_add_eq_sub_sub]
  | inr h =>
      rw [approach_of_ge h, abs_of_nonpos (sub_nonpos.mpr (le_max_left _ _)),
        abs_of_nonpos (sub_nonpos.mpr h), neg_sub, neg_sub, ← max_sub_sub_right, sub_self,
        sub_right_comm]

/-- A step does not leave the interval between the point and the target. -/
theorem approach_mem_uIcc (ha : 0 ≤ a) : approach t x a ∈ Set.uIcc x t := by
  cases le_total x t with
  | inl h =>
      rw [approach_of_le ha h, Set.uIcc_of_le h]
      exact ⟨le_min h (le_add_of_nonneg_right ha), min_le_left _ _⟩
  | inr h =>
      rw [approach_of_ge h, Set.uIcc_of_ge h]
      exact ⟨le_max_left _ _, max_le h (sub_le_self x ha)⟩

end Approach
