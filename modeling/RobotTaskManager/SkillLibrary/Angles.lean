import Mathlib.Data.EReal.Basic
import Mathlib.Tactic.Linarith
import RobotTaskManager.SkillLibrary.DriveToPose

set_option autoImplicit false

/-! # The loops of `normalizeAngle`

Both loops take a full turn off the angle in every round. Rounding makes a difference: where the
numbers that a `double` can hold are further apart than a turn, the angle stays as it is and the
loop never ends (`turnDown_stuck`). Below that the loops return (`normalizeAngle_returns`), and so
does the control law as long as the target yaw is not that large (`control_returns`): all other
angles come from `atan2`.

`Floats.Doubles` is what the proofs need to know of `double` and `<cmath>`.
-/

namespace RobotTaskManager.DriveToPose

variable {F : Type} {φ : Floats F} {val : F → Option EReal}

/-- **The arithmetic of `double`**, as far as angles are concerned. `val` is the number that a
`double` stands for, infinities included; a NaN stands for none. A sum or a difference up to `2^52`
is off by at most one half, and a turn is rounded to a number between 6 and 8. -/
structure Floats.Doubles (φ : Floats F) (val : F → Option EReal) : Prop where
  lt : ∀ a b, φ.lt a b = true ↔ ∃ x y, val a = some x ∧ val b = some y ∧ x < y
  sub_nan : ∀ a b, val a = none ∨ val b = none → val (φ.sub a b) = none
  sub : ∀ (a b : F) (x y : ℝ), val a = some (x : EReal) → val b = some (y : EReal) →
    |x - y| ≤ 2 ^ 52 → ∃ z : ℝ, val (φ.sub a b) = some (z : EReal) ∧ |z - (x - y)| ≤ 1 / 2
  add : ∀ (a b : F) (x y : ℝ), val a = some (x : EReal) → val b = some (y : EReal) →
    |x + y| ≤ 2 ^ 52 → ∃ z : ℝ, val (φ.add a b) = some (z : EReal) ∧ |z - (x + y)| ≤ 1 / 2
  pi : ∃ p : ℝ, 3 ≤ p ∧ p ≤ 4 ∧ val φ.pi = some (p : EReal) ∧
    val (φ.neg φ.pi) = some ((-p : ℝ) : EReal) ∧
    val (φ.mul (φ.lit 2) φ.pi) = some ((2 * p : ℝ) : EReal)
  atan2 : ∀ (a b : F) (x : EReal), val (φ.atan2 a b) = some x →
    ∃ r : ℝ, x = (r : EReal) ∧ |r| ≤ 4

/-- The `double` is a NaN or a number of at most this size. -/
def AtMost (val : F → Option EReal) (bound : ℝ) (a : F) : Prop :=
  ∀ x, val a = some x → ∃ r : ℝ, x = (r : EReal) ∧ |r| ≤ bound

/-! ## Fuel -/

theorem turnDown_mono {fuel fuel' : Nat} {a b : F} (h : φ.turnDown fuel a = some b)
    (hle : fuel ≤ fuel') : φ.turnDown fuel' a = some b := by
  induction fuel generalizing fuel' a with
  | zero => cases h
  | succ fuel ih =>
      obtain ⟨k, rfl⟩ := Nat.exists_eq_add_of_le' hle
      rw [Floats.turnDown] at h
      rw [← Nat.add_assoc, Floats.turnDown]
      split at h
      · rename_i hlt
        rw [if_pos hlt]
        exact ih h (Nat.le_add_left fuel k)
      · rename_i hlt
        rw [if_neg hlt]
        exact h

theorem turnUp_mono {fuel fuel' : Nat} {a b : F} (h : φ.turnUp fuel a = some b)
    (hle : fuel ≤ fuel') : φ.turnUp fuel' a = some b := by
  induction fuel generalizing fuel' a with
  | zero => cases h
  | succ fuel ih =>
      obtain ⟨k, rfl⟩ := Nat.exists_eq_add_of_le' hle
      rw [Floats.turnUp] at h
      rw [← Nat.add_assoc, Floats.turnUp]
      split at h
      · rename_i hlt
        rw [if_pos hlt]
        exact ih h (Nat.le_add_left fuel k)
      · rename_i hlt
        rw [if_neg hlt]
        exact h

/-- Where a turn less is the same number, the loop never ends. -/
theorem turnDown_stuck {a : F} (hlt : φ.lt φ.pi a = true)
    (hsame : φ.sub a (φ.mul (φ.lit 2) φ.pi) = a) (fuel : Nat) : φ.turnDown fuel a = none := by
  induction fuel with
  | zero => rfl
  | succ fuel ih => rw [Floats.turnDown, if_pos hlt, hsame, ih]

/-! ## The loops return -/

section Returns

variable (hφ : φ.Doubles val)

include hφ

theorem lt_of_val {a b : F} {x y : ℝ} (ha : val a = some (x : EReal))
    (hb : val b = some (y : EReal)) : φ.lt a b = true ↔ x < y := by
  rw [hφ.lt]
  constructor
  · rintro ⟨x', y', hx, hy, hlt⟩
    obtain rfl := Option.some.inj (ha.symm.trans hx)
    obtain rfl := Option.some.inj (hb.symm.trans hy)
    exact EReal.coe_lt_coe_iff.mp hlt
  · exact fun hlt => ⟨x, y, ha, hb, EReal.coe_lt_coe_iff.mpr hlt⟩

/-- The first loop, by the number of turns that are too many. -/
theorem turnDown_returns (n : Nat) {a : F} {x : ℝ} (ha : val a = some (x : EReal))
    (hlow : -(2 ^ 51) ≤ x) (hhigh : x ≤ 2 ^ 51) (hn : x ≤ 3 + n) :
    ∃ fuel b, ∃ y : ℝ, φ.turnDown fuel a = some b ∧ val b = some (y : EReal) ∧
      -(2 ^ 51) ≤ y ∧ y ≤ 2 ^ 51 := by
  obtain ⟨p, hp3, hp4, hpi, -, hturn⟩ := hφ.pi
  induction n generalizing a x with
  | zero =>
      refine ⟨1, a, x, if_neg ?_, ha, hlow, hhigh⟩
      rw [lt_of_val hφ hpi ha]
      push_cast at hn
      linarith
  | succ n ih =>
      by_cases hlt : p < x
      · obtain ⟨z, hz, herr⟩ :=
          hφ.sub a _ x (2 * p) ha hturn (abs_le.mpr ⟨by linarith, by linarith⟩)
        obtain ⟨hge, hle⟩ := abs_le.mp herr
        push_cast at hn
        obtain ⟨fuel, b, y, hb, hy⟩ := ih hz (by linarith) (by linarith) (by linarith)
        refine ⟨fuel + 1, b, y, ?_, hy⟩
        rw [Floats.turnDown, if_pos ((lt_of_val hφ hpi ha).mpr hlt)]
        exact hb
      · refine ⟨1, a, x, if_neg ?_, ha, hlow, hhigh⟩
        rwa [lt_of_val hφ hpi ha]

/-- The second loop, by the number of turns that are missing. -/
theorem turnUp_returns (n : Nat) {a : F} {x : ℝ} (ha : val a = some (x : EReal))
    (hlow : -(2 ^ 51) ≤ x) (hn : -(3 + n) ≤ x) : ∃ fuel b, φ.turnUp fuel a = some b := by
  obtain ⟨p, hp3, hp4, -, hneg, hturn⟩ := hφ.pi
  induction n generalizing a x with
  | zero =>
      refine ⟨1, a, if_neg ?_⟩
      rw [lt_of_val hφ ha hneg]
      push_cast at hn
      linarith
  | succ n ih =>
      by_cases hlt : x < -p
      · obtain ⟨z, hz, herr⟩ :=
          hφ.add a _ x (2 * p) ha hturn (abs_le.mpr ⟨by linarith, by linarith⟩)
        obtain ⟨hge, hle⟩ := abs_le.mp herr
        push_cast at hn
        obtain ⟨fuel, b, hb⟩ := ih hz (by linarith) (by linarith)
        refine ⟨fuel + 1, b, ?_⟩
        rw [Floats.turnUp, if_pos ((lt_of_val hφ ha hneg).mpr hlt)]
        exact hb
      · refine ⟨1, a, if_neg ?_⟩
        rwa [lt_of_val hφ ha hneg]

/-- **`normalizeAngle` returns** for a NaN and for every angle of a size up to `2^51`. -/
theorem normalizeAngle_returns {a : F} (ha : AtMost val (2 ^ 51) a) :
    ∃ fuel b, φ.normalizeAngle fuel a = some b := by
  cases hval : val a with
  | none =>
      have hcompare (b : F) : φ.lt a b = false ∧ φ.lt b a = false := by
        constructor
        · rw [Bool.eq_false_iff, ne_eq, hφ.lt, hval]
          simp
        · rw [Bool.eq_false_iff, ne_eq, hφ.lt, hval]
          simp
      refine ⟨1, a, ?_⟩
      simp [Floats.normalizeAngle, Floats.turnDown, Floats.turnUp, hcompare]
  | some x =>
      obtain ⟨r, rfl, hr⟩ := ha x hval
      obtain ⟨hlow, hhigh⟩ := abs_le.mp hr
      obtain ⟨n, hn⟩ := exists_nat_ge r
      obtain ⟨fuel₁, b, y, hb, hy, hlow', hhigh'⟩ :=
        turnDown_returns hφ n hval hlow hhigh (by linarith)
      obtain ⟨m, hm⟩ := exists_nat_ge (-y)
      obtain ⟨fuel₂, c, hc⟩ := turnUp_returns hφ m hy hlow' (by linarith)
      refine ⟨max fuel₁ fuel₂, c, ?_⟩
      rw [Floats.normalizeAngle, turnDown_mono hb (le_max_left fuel₁ fuel₂)]
      exact turnUp_mono hc (le_max_right fuel₁ fuel₂)

/-- The difference of two angles that are not too large. -/
theorem atMost_sub {a b : F} (ha : AtMost val (2 ^ 50) a) (hb : AtMost val 4 b) :
    AtMost val (2 ^ 51) (φ.sub a b) := by
  intro z hz
  cases hva : val a with
  | none =>
      rw [hφ.sub_nan a b (Or.inl hva)] at hz
      cases hz
  | some x =>
      cases hvb : val b with
      | none =>
          rw [hφ.sub_nan a b (Or.inr hvb)] at hz
          cases hz
      | some y =>
          obtain ⟨x, rfl, hx⟩ := ha x hva
          obtain ⟨y, rfl, hy⟩ := hb y hvb
          obtain ⟨hx₁, hx₂⟩ := abs_le.mp hx
          obtain ⟨hy₁, hy₂⟩ := abs_le.mp hy
          obtain ⟨w, hw, herr⟩ := hφ.sub a b x y hva hvb (abs_le.mpr ⟨by linarith, by linarith⟩)
          obtain ⟨he₁, he₂⟩ := abs_le.mp herr
          obtain rfl := Option.some.inj (hz.symm.trans hw)
          exact ⟨w, rfl, abs_le.mpr ⟨by linarith, by linarith⟩⟩

/-- **The control law returns**, whatever the position is, if the yaw of the robot is one that
`onOdom` stores and the target yaw is not too large. -/
theorem control_returns {goal : Request F} {pose : Pose F} (phase : Phase)
    (hyaw : AtMost val 4 pose.yaw) (htarget : AtMost val (2 ^ 50) goal.targetYaw) :
    ∃ fuel out, φ.control fuel goal phase pose = some out := by
  have hheading (y x : F) : AtMost val (2 ^ 50) (φ.atan2 y x) := by
    intro v hv
    obtain ⟨r, hr, hle⟩ := hφ.atan2 y x v hv
    exact ⟨r, hr, hle.trans (by norm_num)⟩
  have hdrive := normalizeAngle_returns hφ (atMost_sub hφ
    (hheading (φ.sub goal.targetY pose.y) (φ.sub goal.targetX pose.x)) hyaw)
  cases phase with
  | rotateToHeading =>
      obtain ⟨fuel, err, herr⟩ := hdrive
      refine ⟨fuel, ?_⟩
      simp only [Floats.control, herr, Option.map_some]
      split <;> exact ⟨_, rfl⟩
  | driveToPoint =>
      obtain ⟨fuel, err, herr⟩ := hdrive
      refine ⟨fuel, ?_⟩
      simp only [Floats.control, herr, Option.map_some]
      split <;> exact ⟨_, rfl⟩
  | rotateToYaw =>
      obtain ⟨fuel, err, herr⟩ := normalizeAngle_returns hφ (atMost_sub hφ htarget hyaw)
      refine ⟨fuel, ?_⟩
      simp only [Floats.control, herr, Option.map_some]
      exact ⟨_, rfl⟩

end Returns

end RobotTaskManager.DriveToPose
