import Mathlib.Analysis.SpecialFunctions.Trigonometric.Angle
import Mathlib.Analysis.SpecialFunctions.Complex.Arg
import RobotTaskManager.SkillLibrary.Limits

set_option autoImplicit false

/-! # Where the robot is when it has arrived

A goal succeeds when the yaw is within its tolerance in the phase `ROTATE_TO_YAW`. The distance
to the target point has been within its tolerance when that phase began, and is not looked at
again: a robot that drifts away while it turns still arrives.
-/

namespace RobotTaskManager.DriveToPose

open Interleaving

/-! ## Real numbers -/

/-- Exact arithmetic, with `hypot` and `atan2` as functions of real numbers. -/
noncomputable def realFloats : Floats ℝ where
  lit q := q
  pi := Real.pi
  add := (· + ·)
  sub := (· - ·)
  mul := (· * ·)
  neg := (- ·)
  lt a b := decide (a < b)
  abs a := |a|
  hypot x y := √(x ^ 2 + y ^ 2)
  atan2 y x := Complex.arg ⟨x, y⟩
  misclamp _ _ hi := hi

theorem exact_realFloats : realFloats.Exact where
  lit _ := rfl
  add _ _ := rfl
  sub _ _ := rfl
  mul _ _ := rfl
  neg _ := rfl
  lt _ _ := rfl
  abs _ := rfl

/-- Full turns more or less are the same angle. -/
theorem coe_add_two_pi (a : ℝ) : ((a + 2 * Real.pi : ℝ) : Real.Angle) = a := by
  rw [Real.Angle.coe_add, Real.Angle.coe_two_pi, add_zero]

theorem turnDown_spec {fuel : Nat} {a r : ℝ} (h : realFloats.turnDown fuel a = some r) :
    (r : Real.Angle) = a ∧ r ≤ Real.pi ∧ (r = a ∨ -Real.pi < r) := by
  induction fuel generalizing a with
  | zero => cases h
  | succ fuel ih =>
      rw [Floats.turnDown] at h
      by_cases hlt : Real.pi < a
      · have htrue : realFloats.lt realFloats.pi a = true := decide_eq_true hlt
        rw [if_pos htrue] at h
        obtain ⟨hangle, hle, hor⟩ := ih h
        have hturn : realFloats.sub a (realFloats.mul (realFloats.lit 2) realFloats.pi) =
            a - 2 * Real.pi := by
          show a - ((2 : ℚ) : ℝ) * Real.pi = a - 2 * Real.pi
          norm_num
        rw [hturn] at hangle hor
        refine ⟨?_, hle, Or.inr ?_⟩
        · rw [hangle, ← coe_add_two_pi (a - 2 * Real.pi), sub_add_cancel]
        · rcases hor with rfl | hor
          · linarith
          · exact hor
      · rw [if_neg (by simpa [realFloats] using hlt)] at h
        obtain rfl := Option.some.inj h
        exact ⟨rfl, not_lt.mp hlt, Or.inl rfl⟩

theorem turnUp_spec {fuel : Nat} {a r : ℝ} (h : realFloats.turnUp fuel a = some r) :
    (r : Real.Angle) = a ∧ -Real.pi ≤ r ∧ (r = a ∨ r < Real.pi) := by
  induction fuel generalizing a with
  | zero => cases h
  | succ fuel ih =>
      rw [Floats.turnUp] at h
      by_cases hlt : a < -Real.pi
      · have htrue : realFloats.lt a (realFloats.neg realFloats.pi) = true := decide_eq_true hlt
        rw [if_pos htrue] at h
        obtain ⟨hangle, hle, hor⟩ := ih h
        have hturn : realFloats.add a (realFloats.mul (realFloats.lit 2) realFloats.pi) =
            a + 2 * Real.pi := by
          show a + ((2 : ℚ) : ℝ) * Real.pi = a + 2 * Real.pi
          norm_num
        rw [hturn] at hangle hor
        refine ⟨hangle.trans (coe_add_two_pi a), hle, Or.inr ?_⟩
        rcases hor with rfl | hor
        · linarith
        · exact hor
      · rw [if_neg (by simpa [realFloats] using hlt)] at h
        obtain rfl := Option.some.inj h
        exact ⟨rfl, not_lt.mp hlt, Or.inl rfl⟩

/-- **`normalizeAngle`** returns a representative of the angle between `-π` and `π`. -/
theorem abs_normalizeAngle {fuel : Nat} {a r : ℝ} (h : realFloats.normalizeAngle fuel a = some r) :
    |r| = |(a : Real.Angle).toReal| := by
  obtain ⟨m, hdown, hup⟩ := Option.bind_eq_some_iff.mp h
  obtain ⟨hm, hle, -⟩ := turnDown_spec hdown
  obtain ⟨hr, hge, hor⟩ := turnUp_spec hup
  have hpi : r ≤ Real.pi := by
    rcases hor with rfl | hlt
    · exact hle
    · exact hlt.le
  rw [← hm, ← hr]
  rcases hge.lt_or_eq with hlt | heq
  · rw [Real.Angle.toReal_coe_eq_self_iff.mpr ⟨hlt, hpi⟩]
  -- `-π` is the representative that `toReal` does not choose
  · rw [← heq, Real.Angle.coe_neg, Real.Angle.neg_coe_pi, Real.Angle.toReal_pi, abs_neg]

/-! ## Arrival -/

/-- The Euclidean distance of a point to the target point. -/
noncomputable def targetDistance (goal : Request ℝ) (x y : ℝ) : ℝ :=
  √((goal.targetX - x) ^ 2 + (goal.targetY - y) ^ 2)

/-- The absolute value of the angle between a yaw and the target yaw. -/
noncomputable def yawError (goal : Request ℝ) (yaw : ℝ) : ℝ :=
  |((goal.targetYaw - yaw : ℝ) : Real.Angle).toReal|

/-- The final pose of the result is the target pose, up to the tolerances. -/
def RealArrival (goal : Request ℝ) (result : Result ℝ) : Prop :=
  targetDistance goal result.finalX result.finalY < max ((1 / 1000 : ℚ) : ℝ) goal.xyTolerance ∧
    yawError goal result.finalYaw < max ((1 / 1000 : ℚ) : ℝ) goal.yawTolerance

/-- The goal is reported succeeded with the result, or its thread is about to report it. -/
def SucceedsWith (tr : List (Event ℝ)) (s : State ℝ) (g : Nat) (result : Result ℝ) : Prop :=
  Event.terminal g .succeed result ∈ tr ∨
    ∃ goal, s.goals[g]? = some goal ∧ goal.pc = .closing .succeed result

/-- Every success is a real arrival. -/
def SuccessesReal (tr : List (Event ℝ)) (s : State ℝ) : Prop :=
  ∀ g goal result, s.goals[g]? = some goal → SucceedsWith tr s g result →
    RealArrival goal.request result

/-- The robot has not drifted away while it turned: a pose that is read in `ROTATE_TO_YAW` and is
within the tolerance of the yaw is within the tolerance of the point too. -/
def NotDrifted (s : State ℝ) (a : Act ℝ) : Prop :=
  ∀ (g fuel : Nat) (goal : Goal ℝ) startTime pose, a = .thread g fuel → s.goals[g]? = some goal →
    goal.pc = .readPose .rotateToYaw startTime → s.pose = some pose →
    yawError goal.request pose.yaw < max ((1 / 1000 : ℚ) : ℝ) goal.request.yawTolerance →
      targetDistance goal.request pose.x pose.y <
        max ((1 / 1000 : ℚ) : ℝ) goal.request.xyTolerance

/-- **When the control law arrives**: in the last phase, within the tolerance of the yaw. -/
theorem control_arrived_iff {fuel : Nat} {goal : Request ℝ} {phase : Phase} {pose : Pose ℝ}
    {out : Control ℝ} (h : realFloats.control fuel goal phase pose = some out) :
    out = .arrived ↔ phase = .rotateToYaw ∧
      yawError goal pose.yaw < max ((1 / 1000 : ℚ) : ℝ) goal.yawTolerance := by
  cases phase with
  | rotateToHeading =>
      refine iff_of_false ?_ (by simp)
      rintro rfl
      simp only [Floats.control] at h
      split at h
      · cases h
      · obtain ⟨err, -, h⟩ := Option.map_eq_some_iff.mp h
        split at h <;> cases h
  | driveToPoint =>
      refine iff_of_false ?_ (by simp)
      rintro rfl
      simp only [Floats.control] at h
      split at h
      · cases h
      · obtain ⟨err, -, h⟩ := Option.map_eq_some_iff.mp h
        cases h
  | rotateToYaw =>
      rw [and_iff_right rfl]
      simp only [Floats.control] at h
      obtain ⟨err, herr, h⟩ := Option.map_eq_some_iff.mp h
      have habs : realFloats.abs err = yawError goal pose.yaw := abs_normalizeAngle herr
      have hiff : realFloats.lt (realFloats.abs err) (realFloats.bounds goal).yawTol = true ↔
          yawError goal pose.yaw < max ((1 / 1000 : ℚ) : ℝ) goal.yawTolerance := by
        rw [habs, exact_realFloats.lt, exact_realFloats.bounds, decide_eq_true_eq]
      by_cases hlt : yawError goal pose.yaw < max ((1 / 1000 : ℚ) : ℝ) goal.yawTolerance
      · rw [if_pos (hiff.mpr hlt)] at h
        exact iff_of_true h.symm hlt
      · rw [if_neg (mt hiff.mp hlt)] at h
        refine iff_of_false ?_ hlt
        rintro rfl
        cases h

section Steps

variable {cfg : Config} {s s' : State ℝ} {a : Act ℝ} {es tr : List (Event ℝ)} {g : Nat}

/-- **A pass that comes to a success** arrives in the last phase, or reports what it has come to
before. -/
theorem ThreadMove.succeeds {fuel : Nat} {goal : Goal ℝ} {pc : Pc ℝ}
    {terminal : Option TerminalCall} {result : Result ℝ}
    (h : ThreadMove realFloats cfg s g fuel goal pc terminal es)
    (hsucc : pc = .closing .succeed result ∨ Event.terminal g .succeed result ∈ es) :
    goal.pc = .closing .succeed result ∨
      ∃ startTime pose, goal.pc = .readPose .rotateToYaw startTime ∧ s.pose = some pose ∧
        yawError goal.request pose.yaw < max ((1 / 1000 : ℚ) : ℝ) goal.request.yawTolerance ∧
        result = ⟨pose.x, pose.y, pose.yaw, true, "arrived"⟩ := by
  have hquiet (cmd : Twist ℝ) :
      Event.terminal g .succeed result ∉ cfg.publishCmd (.thread g) cmd := by
    intro hmem
    obtain ⟨stamped, he⟩ := mem_publishCmd hmem
    cases he
  cases h with
  | shutDown hpc hoff =>
      rcases hsucc with hsucc | hsucc
      · cases hsucc
      · exact absurd hsucc (hquiet _)
  | giveUp call message hpc hcall =>
      rcases hsucc with hsucc | hsucc
      · cases hsucc
        exact absurd rfl hcall
      · exact absurd hsucc (hquiet _)
  | arrive hpc hpose hc =>
      obtain ⟨rfl, hyaw⟩ := (control_arrived_iff hc).mp rfl
      refine Or.inr ⟨_, _, hpc, hpose, hyaw, ?_⟩
      rcases hsucc with hsucc | hsucc
      · cases hsucc
        rfl
      · exact absurd hsucc (hquiet _)
  | publish hpc =>
      rcases hsucc with hsucc | hsucc
      · cases hsucc
      · rcases List.mem_append.mp hsucc with hsucc | hsucc
        · exact absurd hsucc (hquiet _)
        · cases List.mem_singleton.mp hsucc
  | close hpc =>
      rcases hsucc with hsucc | hsucc
      · cases hsucc
      · cases List.mem_singleton.mp hsucc
        exact Or.inl hpc
  | _ =>
      rcases hsucc with hsucc | hsucc
      · cases hsucc
      · cases hsucc

/-- A pass that reads a pose within the tolerance of the yaw in the last phase succeeds. -/
theorem ThreadMove.arrives {fuel startTime : Nat} {goal : Goal ℝ} {pc : Pc ℝ}
    {terminal : Option TerminalCall} {pose : Pose ℝ}
    (h : ThreadMove realFloats cfg s g fuel goal pc terminal es)
    (hpc : goal.pc = .readPose .rotateToYaw startTime) (hpose : s.pose = some pose)
    (hyaw : yawError goal.request pose.yaw < max ((1 / 1000 : ℚ) : ℝ) goal.request.yawTolerance) :
    pc = .closing .succeed ⟨pose.x, pose.y, pose.yaw, true, "arrived"⟩ := by
  cases h with
  | skip _ hnone =>
      rw [hnone] at hpose
      cases hpose
  | command hpc' hpose' hc =>
      obtain rfl := Option.some.inj (hpose'.symm.trans hpose)
      cases hpc'.symm.trans hpc
      cases (control_arrived_iff hc).mpr ⟨rfl, hyaw⟩
  | arrive hpc' hpose' hc =>
      obtain rfl := Option.some.inj (hpose'.symm.trans hpose)
      rfl
  -- the others start at another place
  | _ => simp_all

/-- A step shows no success of a goal other than those of its passes. -/
theorem not_mem_of_silence {result : Result ℝ} (h : Silence g es) :
    Event.terminal g .succeed result ∉ es := by
  intro hmem
  have := mem_terminalCalls hmem
  rw [h.2] at this
  cases this

/-- **The successes after a step** are real exactly if those before it were and the step does not
arrive elsewhere. -/
theorem successesReal_step (hinv : ShownInv realFloats tr s)
    (hst : step realFloats cfg s a = some (s', es)) :
    SuccessesReal (tr ++ es) s' ↔ SuccessesReal tr s ∧ NotDrifted s a := by
  constructor
  · intro hreal
    constructor
    · intro g goal result hg hsucc
      obtain ⟨goal', hg', hreq, hmove⟩ := step_goal_stays hst hg
      rw [← hreq]
      refine hreal g goal' result hg' ?_
      rcases hsucc with hmem | ⟨goal₁, hg₁, hpc⟩
      · exact Or.inl (List.mem_append_left _ hmem)
      · obtain rfl := Option.some.inj (hg.symm.trans hg₁)
        rcases hmove with ⟨fuel, -, hmove⟩ | ⟨-, hpc'⟩
        · cases hmove.close_of hpc
          exact Or.inl (List.mem_append_right _ List.mem_cons_self)
        · exact Or.inr ⟨goal', hg', hpc'.trans hpc⟩
    · rintro g fuel goal startTime pose rfl hg hpc hpose hyaw
      obtain ⟨goal', hg', hreq, ⟨fuel', -, hmove⟩ | ⟨hne, -⟩⟩ := step_goal_stays hst hg
      · have hclosing := hmove.arrives hpc hpose hyaw
        rw [← hreq]
        exact (hreal g goal' _ hg' (Or.inr ⟨goal', hg', hclosing⟩)).1
      · exact absurd rfl (hne fuel)
  · rintro ⟨hreal, hdrift⟩ g goal' result hg' hsucc
    rcases step_goal hst hg' with ⟨goal, fuel, rfl, hg, hreq, hmove⟩ | ⟨hnone, hstarted, hes⟩ |
      ⟨-, hes, goal, hg, hreq, hpc⟩
    · rw [hreq]
      rcases hsucc with hmem | ⟨goal₁, hg₁, hclosing⟩
      · rcases List.mem_append.mp hmem with hmem | hmem
        · exact hreal g goal result hg (Or.inl hmem)
        · rcases hmove.succeeds (Or.inr hmem) with hpc | ⟨startTime, pose, hpc, hpose, hyaw, rfl⟩
          · exact hreal g goal result hg (Or.inr ⟨goal, hg, hpc⟩)
          · exact ⟨hdrift g fuel goal startTime pose rfl hg hpc hpose hyaw, hyaw⟩
      · obtain rfl := Option.some.inj (hg'.symm.trans hg₁)
        rcases hmove.succeeds (Or.inl hclosing) with hpc | ⟨startTime, pose, hpc, hpose, hyaw, rfl⟩
        · exact hreal g goal result hg (Or.inr ⟨goal, hg, hpc⟩)
        · exact ⟨hdrift g fuel goal startTime pose rfl hg hpc hpose hyaw, hyaw⟩
    · rcases hsucc with hmem | ⟨goal₁, hg₁, hpc⟩
      · rcases List.mem_append.mp hmem with hmem | hmem
        · exact absurd hmem (not_mem_of_silence (hinv.unknown g hnone))
        · exact absurd hmem (not_mem_of_silence hes)
      · obtain rfl := Option.some.inj (hg'.symm.trans hg₁)
        rw [hstarted] at hpc
        cases hpc
    · rw [hreq]
      rcases hsucc with hmem | ⟨goal₁, hg₁, hpc₁⟩
      · rcases List.mem_append.mp hmem with hmem | hmem
        · exact hreal g goal result hg (Or.inl hmem)
        · exact absurd hmem (not_mem_of_silence hes)
      · obtain rfl := Option.some.inj (hg'.symm.trans hg₁)
        exact hreal g goal result hg (Or.inr ⟨goal, hg, hpc.symm.trans hpc₁⟩)

/-- **A success is a real arrival** throughout a schedule, exactly if the robot never drifts away
while it turns to the final yaw. -/
theorem successes_real_iff (cfg : Config) (clock : Nat) (as : List (Act ℝ)) (s : State ℝ)
    (tr : List (Event ℝ))
    (h : runActs (step realFloats cfg) anyStep (.init clock) as = some (s, tr)) :
    SuccessesReal tr s ↔ Obeys (step realFloats cfg) NotDrifted (.init clock) as := by
  have hinit : SuccessesReal [] (.init clock) := by
    intro g goal result hg
    cases hg
  have hiff := record_iff_obeys (H := SuccessesReal) (I := ShownInv realFloats) (P := NotDrifted)
    (fun _ _ _ _ _ hinv hst => hinv.step hst)
    (fun _ _ _ _ _ hinv hst => successesReal_step hinv hst)
    (ShownInv.init clock) h
  rw [List.nil_append] at hiff
  exact hiff.trans (and_iff_right hinit)

end Steps

/-! ## Runs -/

/-- At the target point already, with the tolerances and velocities of the action's defaults. -/
noncomputable def here : Request ℝ := ⟨1, 0, 0, 15 / 100, 1 / 10, 22 / 100, 8 / 10⟩

/-- The orientation of a robot that looks along the x axis. -/
theorem yaw_ahead : realFloats.yawFromQuat 0 0 0 1 = 0 := by
  simp [Floats.yawFromQuat, realFloats, Complex.arg_eq_zero_iff]

theorem control_here :
    realFloats.control 1 here .rotateToHeading ⟨1, 0, 0⟩ =
      some (.command realFloats.stop .rotateToYaw 0) := by
  have hdist :
      realFloats.hypot (realFloats.sub here.targetX 1) (realFloats.sub here.targetY 0) = 0 := by
    simp [realFloats, here]
  have hnear : realFloats.lt (realFloats.hypot (realFloats.sub here.targetX 1)
      (realFloats.sub here.targetY 0)) (realFloats.bounds here).xyTol = true := by
    rw [hdist, exact_realFloats.lt, exact_realFloats.bounds, decide_eq_true_eq]
    exact lt_max_of_lt_left (by norm_num)
  simp only [Floats.control]
  rw [if_pos hnear, hdist]

/-- In the last phase, the yaw alone decides. -/
theorem control_yaw (x : ℝ) : realFloats.control 1 here .rotateToYaw ⟨x, 0, 0⟩ = some .arrived := by
  have hnorm : realFloats.normalizeAngle 1 (realFloats.sub here.targetYaw 0) = some 0 := by
    have hpi : ¬ Real.pi < 0 := not_lt.mpr Real.pi_pos.le
    simp [Floats.normalizeAngle, Floats.turnDown, Floats.turnUp, realFloats, here, hpi]
  have hsmall : realFloats.lt (realFloats.abs 0) (realFloats.bounds here).yawTol = true := by
    rw [exact_realFloats.abs, abs_zero, exact_realFloats.lt, exact_realFloats.bounds,
      decide_eq_true_eq]
    exact lt_max_of_lt_left (by norm_num)
  simp only [Floats.control, hnorm, Option.map_some]
  rw [if_pos hsmall]

/-- The robot stands on the target point, turns to the final yaw and arrives. -/
noncomputable def turnHere : List (Act ℝ) :=
  [.goal here, .odom ⟨1, 0, 0, 0, 0, 1⟩] ++ List.replicate 9 (.thread 0 1)

theorem turnHere_run :
    runActs (step realFloats ⟨"twist"⟩) anyStep (.init 0) turnHere =
      some (⟨0, some ⟨1, 0, 0⟩, [⟨here, .returned, false, some .succeed⟩], true⟩,
        [.accepted 0, .published (.thread 0) false realFloats.stop, .feedback 0 ⟨1, 0, 0⟩ 0,
          .published (.thread 0) false realFloats.stop,
          .terminal 0 .succeed ⟨1, 0, 0, true, "arrived"⟩]) := by
  simp [turnHere, runActs, anyStep, step, State.init, threadStep, topStep, readStep, Floats.poseOf,
    yaw_ahead, control_here, control_yaw, Config.publishCmd, overallTimeout]

theorem realArrival_here : RealArrival here ⟨1, 0, 0, true, "arrived"⟩ := by
  have hdist : targetDistance here 1 0 = 0 := by simp [targetDistance, here]
  have hyaw : yawError here 0 = 0 := by simp [yawError, here]
  constructor
  · rw [hdist]
    exact lt_max_of_lt_left (by norm_num)
  · rw [hyaw]
    exact lt_max_of_lt_left (by norm_num)

theorem successes_real_iff_here :
    RealArrival here ⟨1, 0, 0, true, "arrived"⟩ ∧
      (SuccessesReal
          [.accepted 0, .published (.thread 0) false realFloats.stop, .feedback 0 ⟨1, 0, 0⟩ 0,
            .published (.thread 0) false realFloats.stop,
            .terminal 0 .succeed ⟨1, 0, 0, true, "arrived"⟩]
          ⟨0, some ⟨1, 0, 0⟩, [⟨here, .returned, false, some .succeed⟩], true⟩ ↔
        Obeys (step realFloats ⟨"twist"⟩) NotDrifted (.init 0) turnHere) :=
  ⟨realArrival_here, successes_real_iff ⟨"twist"⟩ 0 turnHere _ _ turnHere_run⟩

/-- The robot stands on the target point, drifts two metres away before it has turned to the final
yaw, and arrives. -/
noncomputable def driveAway : List (Act ℝ) :=
  [.goal here, .odom ⟨1, 0, 0, 0, 0, 1⟩] ++ List.replicate 7 (.thread 0 1) ++
    [.odom ⟨3, 0, 0, 0, 0, 1⟩] ++ List.replicate 2 (.thread 0 1)

theorem driveAway_run :
    runActs (step realFloats ⟨"twist"⟩) anyStep (.init 0) driveAway =
      some (⟨0, some ⟨3, 0, 0⟩, [⟨here, .returned, false, some .succeed⟩], true⟩,
        [.accepted 0, .published (.thread 0) false realFloats.stop, .feedback 0 ⟨1, 0, 0⟩ 0,
          .published (.thread 0) false realFloats.stop,
          .terminal 0 .succeed ⟨3, 0, 0, true, "arrived"⟩]) := by
  simp [driveAway, runActs, anyStep, step, State.init, threadStep, topStep, readStep, Floats.poseOf,
    yaw_ahead, control_here, control_yaw, Config.publishCmd, overallTimeout]

/-- The goal is reported succeeded two metres from the target point. -/
theorem not_successes_real : ¬ ∀ (as : List (Act ℝ)) (s : State ℝ) (tr : List (Event ℝ)),
    runActs (step realFloats ⟨"twist"⟩) anyStep (.init 0) as = some (s, tr) →
      ∀ g goal result, s.goals[g]? = some goal → Event.terminal g .succeed result ∈ tr →
        RealArrival goal.request result := by
  intro h
  have hreal := h driveAway _ _ driveAway_run 0 ⟨here, .returned, false, some .succeed⟩
    ⟨3, 0, 0, true, "arrived"⟩ rfl (by simp)
  have hdist : targetDistance here 3 0 = 2 := by
    have hsq : ((1 : ℝ) - 3) ^ 2 + (0 - 0) ^ 2 = 2 ^ 2 := by norm_num
    show √((1 - 3) ^ 2 + (0 - 0) ^ 2) = 2
    rw [hsq, Real.sqrt_sq (by norm_num)]
  have hlt : (2 : ℝ) < max ((1 / 1000 : ℚ) : ℝ) (15 / 100) := hdist ▸ hreal.1
  have hmax : max ((1 / 1000 : ℚ) : ℝ) (15 / 100) < 2 := max_lt (by norm_num) (by norm_num)
  linarith

end RobotTaskManager.DriveToPose
