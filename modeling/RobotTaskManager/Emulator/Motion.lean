import Mathlib.Algebra.BigOperators.Ring.List
import Mathlib.Tactic.NormNum
import RobotTaskManager.Emulator.VirtualRobot
import RobotTaskManager.Lib.Approach

set_option autoImplicit false

/-! # Motor motion in exact arithmetic

Over an ordered field a positive tick moves a motor with status OK toward its target by its speed
times the elapsed time (`advance_position`), so the general rules for such steps apply: how the time
is cut into ticks does not matter. Requests may come in between, as long as they leave the motor
alone: what a history does to a motor is what its ticks do to it (`after_motor`).
-/

namespace RobotTaskManager.Emulator

open Approach VirtualRobot

/-! ## What a history does to one motor -/

section Frame

variable {F : Type*} [Zero F] [One F] [Sub F] [Mul F] [IntCast F] [LT F] [LE F] [PyFloat F]
  {s : RobotState F} {id : String}

/-- The request does not command the motor, gives it no status and is no reset. -/
def Act.Leaves (id : String) : Act F → Prop
  | .setMotorTarget motorId _ _ => motorId ≠ id
  | .captureImage _ _ => True
  | .injectFault target _ _ => startsWith target "motor:" = true → afterColon target ≠ id
  | .reset => False
  | .tick _ => True

instance (id : String) : (a : Act F) → Decidable (a.Leaves id)
  | .setMotorTarget motorId _ _ => inferInstanceAs (Decidable (motorId ≠ id))
  | .captureImage _ _ => isTrue trivial
  | .injectFault _ _ _ => inferInstanceAs (Decidable (_ → _))
  | .reset => isFalse not_false
  | .tick _ => isTrue trivial

/-- The elapsed times of the ticks of a history. -/
def ticks : List (Act F) → List F
  | [] => []
  | .tick elapsed :: as => seconds elapsed :: ticks as
  | _ :: as => ticks as

theorem ticks_append (as bs : List (Act F)) : ticks (as ++ bs) = ticks as ++ ticks bs := by
  induction as with
  | nil => rfl
  | cons a as ih => cases a <;> simp [ticks, ih]

theorem ensureMotor_other {motorId : String} (h : motorId ≠ id) :
    (s.ensureMotor motorId).2.motors id = s.motors id := by
  unfold RobotState.ensureMotor
  cases s.motors motorId with
  | some m => rfl
  | none => exact Function.update_of_ne h.symm _ _

theorem ensureCamera_motors (cameraId : String) :
    (s.ensureCamera cameraId).2.motors = s.motors := by
  unfold RobotState.ensureCamera
  cases s.cameras cameraId <;> rfl

theorem captureCb_motors (cameraId savePath : String) :
    (captureCb s cameraId savePath).1.motors = s.motors := by
  unfold captureCb
  cases h : (s.ensureCamera cameraId).1.available <;> simp [h, ensureCamera_motors]

variable [DecidableLT F]

theorem setTargetCb_other {motorId : String} (t v : F) (h : motorId ≠ id) :
    (setTargetCb s motorId t v).1.motors id = s.motors id := by
  unfold setTargetCb
  by_cases hempty : motorId = ""
  · rw [if_pos hempty]
  · rw [if_neg hempty]
    by_cases hdead : (s.ensureMotor motorId).1.status = .dead
    · simp only [if_pos hdead]
      exact ensureMotor_other h
    · simp only [if_neg hdead]
      exact (Function.update_of_ne h.symm _ _).trans (ensureMotor_other h)

theorem injectFaultCb_other (env : Env F) {target : String} (kind : String) (p : F)
    (h : startsWith target "motor:" = true → afterColon target ≠ id) :
    (injectFaultCb env s target kind p).1.motors id = s.motors id := by
  unfold injectFaultCb
  by_cases hmotor : startsWith target "motor:" = true
  · simp only [if_pos hmotor]
    cases motorKindToStatus env kind with
    | ok status =>
        exact (Function.update_of_ne (h hmotor).symm _ _).trans (ensureMotor_other (h hmotor))
    | error e => exact ensureMotor_other (h hmotor)
  · rw [if_neg hmotor]
    by_cases hcamera : startsWith target "camera:" = true
    · rw [if_pos hcamera]
      exact congrFun (ensureCamera_motors _) id
    · rw [if_neg hcamera]
      by_cases hbattery : target = "battery" <;> simp [hbattery]

variable [Add F] [DecidableLE F]

theorem act_tick_motors (env : Env F) (r : VirtualRobot F) (elapsed : ℤ) (id : String) :
    (r.act env (.tick elapsed)).1.state.motors id =
      (r.state.motors id).map (·.tick (seconds elapsed)) := by
  show (r.updatePhysics (r.lastUpdate + elapsed)).state.motors id = _
  rw [updatePhysics_elapsed, RobotState.advance_motors]

/-- **The motor after a history that leaves it alone** is the motor after the ticks of the
history. -/
theorem after_motor (env : Env F) {r : VirtualRobot F} {m : Motor F} {as : List (Act F)}
    (hm : r.state.motors id = some m) (has : ∀ a ∈ as, a.Leaves id) :
    (r.after env as).1.state.motors id = some ((ticks as).foldl Motor.tick m) := by
  induction as generalizing r m with
  | nil => exact hm
  | cons a as ih =>
      have hrest : ∀ b ∈ as, b.Leaves id := fun b hb => has b (List.mem_cons_of_mem a hb)
      have ha : a.Leaves id := has a List.mem_cons_self
      cases a with
      | setMotorTarget motorId t v => exact ih ((setTargetCb_other t v ha).trans hm) hrest
      | captureImage cameraId savePath =>
          exact ih ((congrFun (captureCb_motors cameraId savePath) id).trans hm) hrest
      | injectFault target kind p => exact ih ((injectFaultCb_other env kind p ha).trans hm) hrest
      | reset => exact ha.elim
      | tick elapsed =>
          have hmap := act_tick_motors env r elapsed id
          rw [hm] at hmap
          exact ih hmap hrest

end Frame

/-! ## The motion of one motor -/

section Exact

variable {F : Type*} [Field F] [LinearOrder F] [IsStrictOrderedRing F] {m : Motor F} {dt : F}

theorem copysign_one_of_pos {x : F} (h : 0 < x) : copysign 1 x = 1 := by
  show (if x < 0 then -|1| else |1| : F) = 1
  rw [if_neg h.not_gt, abs_one]

theorem copysign_one_of_neg {x : F} (h : x < 0) : copysign 1 x = -1 := by
  show (if x < 0 then -|1| else |1| : F) = -1
  rw [if_pos h, abs_one]

theorem abs_copysign_one (x : F) : |copysign 1 x| = 1 := by
  show |(if x < 0 then -|1| else |1| : F)| = 1
  by_cases h : x < 0 <;> simp [h]

/-- A tick that cannot reach the target moves the motor at full speed. -/
theorem advance_move (hok : m.status = .ok)
    (h : ¬ |m.targetPosition - m.position| ≤ m.maxVelocity * dt) :
    (m.advance dt).position =
      m.position + copysign 1 (m.targetPosition - m.position) * (m.maxVelocity * dt) := by
  rw [Motor.advance, if_neg (not_not.mpr hok)]
  show (if |m.targetPosition - m.position| ≤ m.maxVelocity * dt then _ else _ : Motor F).position =
    _
  rw [if_neg h]

/-- **A positive tick is a step toward the target.** -/
theorem advance_position (hok : m.status = .ok) (hdt : 0 < dt) :
    (m.advance dt).position = approach m.targetPosition m.position (m.maxVelocity * dt) := by
  have hstep : 0 < m.maxVelocity * dt := mul_pos m.maxVelocity_pos hdt
  by_cases hnear : |m.targetPosition - m.position| ≤ m.maxVelocity * dt
  · rw [Motor.advance_reach hok hnear, approach, if_pos hnear]
  · rw [advance_move hok hnear, approach, if_neg hnear]
    cases lt_trichotomy m.position m.targetPosition with
    | inl hlt => rw [if_pos hlt, copysign_one_of_pos (sub_pos.mpr hlt), one_mul]
    | inr h =>
        cases h with
        | inl heq =>
            rw [heq, sub_self, abs_zero] at hnear
            exact absurd hstep.le hnear
        | inr hgt =>
            rw [if_neg hgt.not_gt, copysign_one_of_neg (sub_neg.mpr hgt), neg_one_mul,
              sub_eq_add_neg]

/-- A positive tick that ends at the target ends at rest. -/
theorem advance_velocity (hok : m.status = .ok) (hdt : 0 < dt)
    (h : (m.advance dt).position = m.targetPosition) : (m.advance dt).velocity = 0 := by
  by_cases hnear : |m.targetPosition - m.position| ≤ m.maxVelocity * dt
  · rw [Motor.advance_reach hok hnear]
  -- a motor that moves at full speed does not get there
  · have hstep : 0 < m.maxVelocity * dt := mul_pos m.maxVelocity_pos hdt
    rw [advance_move hok hnear, ← eq_sub_iff_add_eq'] at h
    refine absurd (le_of_eq ?_) hnear
    rw [← h, abs_mul, abs_copysign_one, one_mul, abs_of_pos hstep]

/-- What every tick keeps of a motor. -/
theorem tick_keeps (m : Motor F) (dt : F) :
    (m.tick dt).targetPosition = m.targetPosition ∧ (m.tick dt).maxVelocity = m.maxVelocity ∧
      (m.tick dt).status = m.status := by
  unfold Motor.tick Motor.advance
  by_cases hdt : dt ≤ 0
  · simp [hdt]
  · by_cases hok : m.status = .ok
    · by_cases hnear : |m.targetPosition - m.position| ≤ m.maxVelocity * dt
      · simp [hdt, hok, fabs, hnear]
      · simp [hdt, hok, fabs, hnear]
    · simp [hdt, hok]

/-! ## Its motion through a sequence of ticks -/

/-- The positive ones of the elapsed times: `_update_physics` ignores the others. -/
def positive (dts : List F) : List F := dts.filter (0 < ·)

/-- The time in which a motor can move. -/
def moving (dts : List F) : F := (positive dts).sum

theorem foldl_keeps (m : Motor F) (dts : List F) :
    (dts.foldl Motor.tick m).targetPosition = m.targetPosition ∧
      (dts.foldl Motor.tick m).maxVelocity = m.maxVelocity ∧
      (dts.foldl Motor.tick m).status = m.status := by
  induction dts generalizing m with
  | nil => exact ⟨rfl, rfl, rfl⟩
  | cons dt dts ih =>
      obtain ⟨ht, hv, hs⟩ := tick_keeps m dt
      rw [List.foldl_cons, ← ht, ← hv, ← hs]
      exact ih (m.tick dt)

/-- The positive ticks are the steps of the motion. -/
theorem foldl_position (hok : m.status = .ok) (dts : List F) :
    (dts.foldl Motor.tick m).position =
      ((positive dts).map (m.maxVelocity * ·)).foldl (approach m.targetPosition) m.position := by
  induction dts generalizing m with
  | nil => rfl
  | cons dt dts ih =>
      obtain ⟨ht, hv, hs⟩ := tick_keeps m dt
      rw [List.foldl_cons, ih (hs.trans hok), ht, hv]
      by_cases hdt : 0 < dt
      · rw [Motor.tick, if_neg hdt.not_ge, advance_position hok hdt]
        simp [positive, hdt]
      · rw [Motor.tick, if_pos (not_lt.mp hdt)]
        simp [positive, hdt]

/-- **The position after any sequence of ticks** depends only on the time in which the motor could
move. -/
theorem foldl_position_moving (hok : m.status = .ok) (dts : List F) :
    (dts.foldl Motor.tick m).position =
      approach m.targetPosition m.position (m.maxVelocity * moving dts) := by
  have hsteps : ∀ a ∈ (positive dts).map (m.maxVelocity * ·), 0 ≤ a := by
    intro a ha
    obtain ⟨dt, hdt, rfl⟩ := List.mem_map.mp ha
    exact (mul_pos m.maxVelocity_pos (of_decide_eq_true (List.mem_filter.mp hdt).2)).le
  rw [foldl_position hok, foldl_approach _ hsteps, List.sum_map_mul_left, List.map_id', moving]

theorem moving_nonneg (dts : List F) : 0 ≤ moving dts :=
  List.sum_nonneg fun _ h => (of_decide_eq_true (List.mem_filter.mp h).2).le

/-- A motor that has been moved and is at its target is at rest. -/
theorem foldl_velocity (hok : m.status = .ok) (dts : List F) (hdt : ∃ dt ∈ dts, 0 < dt)
    (hreach : (dts.foldl Motor.tick m).position = m.targetPosition) :
    (dts.foldl Motor.tick m).velocity = 0 := by
  induction dts using List.reverseRecOn with
  | nil => simp at hdt
  | append_singleton dts dt ih =>
      obtain ⟨ht, -, hs⟩ := foldl_keeps m dts
      rw [List.foldl_concat, Motor.tick] at hreach ⊢
      by_cases hpos : dt ≤ 0
      · rw [if_pos hpos] at hreach ⊢
        obtain ⟨dt', hmem, hdt'⟩ := hdt
        cases List.mem_append.mp hmem with
        | inl hmem => exact ih ⟨dt', hmem, hdt'⟩ hreach
        | inr hmem => exact absurd hpos (List.mem_singleton.mp hmem ▸ hdt').not_ge
      · rw [if_neg hpos] at hreach ⊢
        exact advance_velocity (hs.trans hok) (not_le.mp hpos) (hreach.trans ht.symm)

/-- A motor whose status is not OK does not move. -/
theorem foldl_stuck (hstuck : m.status ≠ .ok) (dts : List F) :
    (dts.foldl Motor.tick m).position = m.position := by
  induction dts generalizing m with
  | nil => rfl
  | cons dt dts ih =>
      obtain ⟨-, -, hs⟩ := tick_keeps m dt
      rw [List.foldl_cons, ih (hs ▸ hstuck), Motor.tick, Motor.advance, if_pos hstuck]
      by_cases hdt : dt ≤ 0 <;> simp [hdt]

/-! ## The motion of a motor of the robot -/

/-- The motor after a history of the robot. -/
def motorAfter (env : Env F) (r : VirtualRobot F) (id : String) (as : List (Act F)) :
    Option (Motor F) :=
  (r.after env as).1.state.motors id

/-- **Motor motion does not depend on how time is sliced.** The history `as` may be any sequence of
ticks, with requests in between that leave the motor alone. -/
theorem motion_unsliced (env : Env F) {r : VirtualRobot F} {id : String}
    (hm : r.state.motors id = some m) :
    (m.status = .ok → ∀ as : List (Act F), (∀ a ∈ as, a.Leaves id) →
      ∃ m', motorAfter env r id as = some m' ∧
        |m.targetPosition - m'.position| =
          max 0 (|m.targetPosition - m.position| - m.maxVelocity * moving (ticks as)) ∧
        m'.position ∈ Set.uIcc m.position m.targetPosition ∧
        (m'.position = m.targetPosition → ∀ bs : List (Act F), (∀ b ∈ bs, b.Leaves id) →
          ∃ m'', motorAfter env r id (as ++ bs) = some m'' ∧ m''.position = m.targetPosition ∧
            ((∃ dt ∈ ticks (as ++ bs), 0 < dt) → m''.velocity = 0)) ∧
        ∀ bs : List (Act F), (∀ b ∈ bs, b.Leaves id) → moving (ticks bs) = moving (ticks as) →
          ∃ m'', motorAfter env r id bs = some m'' ∧ m''.position = m'.position) ∧
    (m.status ≠ .ok → ∀ as : List (Act F), (∀ a ∈ as, a.Leaves id) →
      ∃ m', motorAfter env r id as = some m' ∧ m'.position = m.position) := by
  refine ⟨fun hok as has => ?_, fun hstuck as has => ?_⟩
  · have hlen : ∀ as : List (Act F), 0 ≤ m.maxVelocity * moving (ticks as) := fun as =>
      mul_nonneg m.maxVelocity_pos.le (moving_nonneg _)
    have hpos := foldl_position_moving hok (ticks as)
    refine ⟨_, after_motor env hm has, ?_, ?_, fun hreach bs hbs => ?_, fun bs hbs hsame => ?_⟩
    · rw [hpos, dist_approach (hlen as)]
    · rw [hpos]
      exact approach_mem_uIcc (hlen as)
    · have hall : ∀ a ∈ as ++ bs, a.Leaves id := fun a ha =>
        (List.mem_append.mp ha).elim (has a) (hbs a)
      have hstay : ((ticks (as ++ bs)).foldl Motor.tick m).position = m.targetPosition := by
        obtain ⟨ht, hv, hs⟩ := foldl_keeps m (ticks as)
        rw [ticks_append, List.foldl_append, foldl_position_moving (hs.trans hok), hreach, ht, hv,
          approach_self (hlen bs)]
      exact ⟨_, after_motor env hm hall, hstay, fun h => foldl_velocity hok _ h hstay⟩
    · refine ⟨_, after_motor env hm hbs, ?_⟩
      rw [foldl_position_moving hok, hpos, hsame]
  · exact ⟨_, after_motor env hm has, foldl_stuck hstuck _⟩

/-- `base_x` on its way to 1 at the speed 2, with a tick back in time. -/
theorem motion_unsliced_base_x :
    ∃ m', motorAfter ⟨id, fun _ => ""⟩
        ((init 0).after ⟨id, fun _ => ""⟩ [.setMotorTarget "base_x" 1 (2 : ℚ)]).1 "base_x"
        [.tick 100000000, .tick (-500), .tick 200000000] = some m' ∧
      |1 - m'.position| = 2 / 5 := by
  have hspeed : pyMax PyFloat.milli 2 = (2 : ℚ) := by norm_num [pyMax, PyFloat.milli]
  have hm : ((init 0).after ⟨id, fun _ => ""⟩
      [.setMotorTarget "base_x" 1 (2 : ℚ)]).1.state.motors "base_x" =
      some ⟨0, 0, 1, 2, .ok, two_pos⟩ := by
    simp [after, act, setTargetCb, init, seedMotors, RobotState.ensureMotor,
      RobotState.ensureCamera, RobotState.setMotor, RobotState.setCamera, Function.update,
      RobotState.fresh, Motor.fresh, hspeed]
  obtain ⟨m', h, hdist, -⟩ := (motion_unsliced ⟨id, fun _ => ""⟩ hm).1 rfl
    [.tick 100000000, .tick (-500), .tick 200000000] (by simp [Act.Leaves])
  refine ⟨m', h, hdist.trans ?_⟩
  norm_num [moving, positive, ticks, seconds, PyFloat.nano]

end Exact

end RobotTaskManager.Emulator
