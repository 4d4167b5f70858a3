import Mathlib.Algebra.Order.Field.Rat
import Mathlib.Tactic.Linarith
import Mathlib.Tactic.NormNum
import RobotTaskManager.SkillLibrary.Phases

set_option autoImplicit false

/-! # The velocity limits of a goal

`execute` takes its limits from the goal, `vmax = max(0.01, max_linear_velocity)`, but clamps the
forward velocity from below at 0.05. Every driving iteration of a goal with a limit below that calls
`std::clamp` with its bounds the wrong way round, and what such a call gives is undefined. All other
commands are within the limits.
-/

namespace RobotTaskManager.DriveToPose

open Interleaving

variable {F : Type}

/-! ## Exact arithmetic -/

section Exact

variable [Field F] [LinearOrder F]

/-- The arithmetic is that of an ordered field; nothing is said of `hypot` and `atan2`. -/
structure Floats.Exact (φ : Floats F) : Prop where
  lit : ∀ q, φ.lit q = (q : F)
  add : ∀ a b, φ.add a b = a + b
  sub : ∀ a b, φ.sub a b = a - b
  mul : ∀ a b, φ.mul a b = a * b
  neg : ∀ a, φ.neg a = -a
  lt : ∀ a b, φ.lt a b = decide (a < b)
  abs : ∀ a, φ.abs a = |a|

variable {φ : Floats F}

theorem Floats.Exact.max (hφ : φ.Exact) (a b : F) : φ.max a b = Max.max a b := by
  unfold Floats.max
  rw [hφ.lt]
  by_cases h : a < b
  · simp [h, h.le]
  · simp [h, not_lt.mp h]

theorem Floats.Exact.bounds (hφ : φ.Exact) (goal : Request F) :
    φ.bounds goal = ⟨Max.max ((1 / 100 : ℚ) : F) goal.maxLinearVelocity,
      Max.max ((1 / 10 : ℚ) : F) goal.maxAngularVelocity,
      Max.max ((1 / 1000 : ℚ) : F) goal.xyTolerance,
      Max.max ((1 / 1000 : ℚ) : F) goal.yawTolerance⟩ := by
  simp only [Floats.bounds, hφ.max, hφ.lit]

/-- `std::clamp` stays within bounds that are in order. -/
theorem Floats.Exact.clamp_mem (hφ : φ.Exact) (v : F) {lo hi : F} (h : lo ≤ hi) :
    lo ≤ φ.clamp v lo hi ∧ φ.clamp v lo hi ≤ hi := by
  unfold Floats.clamp
  rw [hφ.lt, hφ.lt, hφ.lt, if_neg (by simpa using h)]
  by_cases hlo : v < lo
  · simp [hlo, h]
  · by_cases hhi : hi < v
    · simp [hlo, hhi, h]
    · simp [hlo, hhi, not_lt.mp hlo, not_lt.mp hhi]

end Exact

/-! ## The calls of `std::clamp` -/

/-- The arguments of a call of `std::clamp`. -/
structure ClampCall (F : Type) where
  v : F
  lo : F
  hi : F

def ClampCall.result (φ : Floats F) (call : ClampCall F) : F := φ.clamp call.v call.lo call.hi

/-- `control` with the calls of `std::clamp` that it makes. -/
def Floats.controlCalls (φ : Floats F) (fuel : Nat) (goal : Request F) (phase : Phase)
    (pose : Pose F) : Option (Control F × List (ClampCall F)) :=
  let b := φ.bounds goal
  let dx := φ.sub goal.targetX pose.x
  let dy := φ.sub goal.targetY pose.y
  let dist := φ.hypot dx dy
  let heading := φ.atan2 dy dx
  match phase with
  | .rotateToHeading =>
      if φ.lt dist b.xyTol then some (.command φ.stop .rotateToYaw dist, [])
      else
        (φ.normalizeAngle fuel (φ.sub heading pose.yaw)).map fun err =>
          if φ.lt (φ.abs err) (φ.lit (8 / 100)) then (.command φ.stop .driveToPoint dist, [])
          else
            let turn : ClampCall F := ⟨φ.mul (φ.lit 2) err, φ.neg b.wmax, b.wmax⟩
            (.command ⟨φ.lit 0, turn.result φ⟩ .rotateToHeading dist, [turn])
  | .driveToPoint =>
      if φ.lt dist b.xyTol then some (.command φ.stop .rotateToYaw dist, [])
      else
        (φ.normalizeAngle fuel (φ.sub heading pose.yaw)).map fun err =>
          let drive : ClampCall F := ⟨φ.mul (φ.lit (8 / 10)) dist, φ.lit (5 / 100), b.vmax⟩
          let turn : ClampCall F := ⟨φ.mul (φ.lit (15 / 10)) err, φ.neg b.wmax, b.wmax⟩
          (.command ⟨drive.result φ, turn.result φ⟩ .driveToPoint dist, [drive, turn])
  | .rotateToYaw =>
      (φ.normalizeAngle fuel (φ.sub goal.targetYaw pose.yaw)).map fun err =>
        if φ.lt (φ.abs err) b.yawTol then (.arrived, [])
        else
          let turn : ClampCall F := ⟨φ.mul (φ.lit 2) err, φ.neg b.wmax, b.wmax⟩
          (.command ⟨φ.lit 0, turn.result φ⟩ .rotateToYaw dist, [turn])

/-- The calls leave the control law as it is. -/
theorem controlCalls_control (φ : Floats F) (fuel : Nat) (goal : Request F) (phase : Phase)
    (pose : Pose F) :
    (φ.controlCalls fuel goal phase pose).map Prod.fst = φ.control fuel goal phase pose := by
  cases phase with
  | rotateToHeading =>
      simp only [Floats.controlCalls, Floats.control]
      rw [apply_ite (Option.map Prod.fst), Option.map_map]
      congr 2
      funext err
      exact apply_ite Prod.fst _ _ _
  | driveToPoint =>
      simp only [Floats.controlCalls, Floats.control]
      rw [apply_ite (Option.map Prod.fst), Option.map_map]
      rfl
  | rotateToYaw =>
      simp only [Floats.controlCalls, Floats.control]
      rw [Option.map_map]
      congr 1
      funext err
      exact apply_ite Prod.fst _ _ _

/-- The calls of `std::clamp` that a step makes. -/
def State.clampCalls (φ : Floats F) (s : State F) : Act F → List (ClampCall F)
  | .thread g fuel =>
      match s.goals[g]?, s.pose with
      | some goal, some pose =>
          match goal.pc with
          | .readPose phase _ =>
              ((φ.controlCalls fuel goal.request phase pose).map Prod.snd).getD []
          | _ => []
      | _, _ => []
  | _ => []

section Calls

variable {φ : Floats F} {cfg : Config} {s s' : State F} {a : Act F} {es : List (Event F)}
  {goal : Goal F} {phase : Phase} {pose : Pose F} {g startTime fuel : Nat} {out : Control F}
  {calls : List (ClampCall F)}

theorem mem_clampCalls {call : ClampCall F} (h : call ∈ s.clampCalls φ a) :
    ∃ g fuel goal phase startTime pose out calls, a = .thread g fuel ∧ s.goals[g]? = some goal ∧
      goal.pc = .readPose phase startTime ∧ s.pose = some pose ∧
      φ.controlCalls fuel goal.request phase pose = some (out, calls) ∧ call ∈ calls := by
  cases a with
  | thread g fuel =>
      simp only [State.clampCalls] at h
      split at h
      · rename_i goal pose hg hpose
        split at h
        · rename_i phase startTime hpc
          cases hc : φ.controlCalls fuel goal.request phase pose with
          | none =>
              rw [hc] at h
              cases h
          | some p =>
              rw [hc] at h
              exact ⟨g, fuel, goal, phase, startTime, pose, p.1, p.2, rfl, hg, hpc, hpose, hc, h⟩
        · cases h
      · cases h
  | _ => exact absurd h List.not_mem_nil

theorem clampCalls_eq (hg : s.goals[g]? = some goal)
    (hpc : goal.pc = .readPose phase startTime) (hpose : s.pose = some pose)
    (h : φ.controlCalls fuel goal.request phase pose = some (out, calls)) :
    s.clampCalls φ (.thread g fuel) = calls := by
  simp only [State.clampCalls, hg, hpose, hpc, h, Option.map_some, Option.getD_some]

/-- An iteration that goes on has got through the control law. -/
theorem controlCalls_of_step
    (hst : step φ cfg s (.thread g fuel) = some (s', es)) (hg : s.goals[g]? = some goal)
    (hpc : goal.pc = .readPose phase startTime) (hpose : s.pose = some pose) :
    ∃ out calls, φ.controlCalls fuel goal.request phase pose = some (out, calls) := by
  cases hc : φ.controlCalls fuel goal.request phase pose with
  | some p => exact ⟨p.1, p.2, rfl⟩
  | none =>
      have hnone : φ.control fuel goal.request phase pose = none := by
        rw [← controlCalls_control, hc]
        rfl
      simp [step, hg, threadStep, hpc, readStep, hpose, hnone] at hst

end Calls

/-! ## The property and its condition -/

section Limits

variable [Field F] [LinearOrder F] [IsStrictOrderedRing F]

/-- The command is within the limits of the goal. -/
def Request.Within (goal : Request F) (cmd : Twist F) : Prop :=
  (0 ≤ cmd.linearX ∧ cmd.linearX ≤ max ((1 / 100 : ℚ) : F) goal.maxLinearVelocity) ∧
    |cmd.angularZ| ≤ max ((1 / 10 : ℚ) : F) goal.maxAngularVelocity

/-- Every command that the step publishes for the thread of a goal is within the limits of the
goal, and every `std::clamp` it calls has its bounds in order. -/
def LimitsKept (φ : Floats F) (cfg : Config) (s : State F) (a : Act F) : Prop :=
  (∀ s' es g goal cmd, step φ cfg s a = some (s', es) → s.goals[g]? = some goal →
    cmd ∈ commands g es → goal.request.Within cmd) ∧
  ∀ call ∈ s.clampCalls φ a, call.lo ≤ call.hi

/-- The goal asks for less than 0.05, and is to be driven to a point that is not within reach of
its tolerance. -/
def SlowDrive (φ : Floats F) (goal : Request F) (phase : Phase) (pose : Pose F) : Prop :=
  phase = .driveToPoint ∧ goal.maxLinearVelocity < ((5 / 100 : ℚ) : F) ∧
    max ((1 / 1000 : ℚ) : F) goal.xyTolerance ≤
      φ.hypot (goal.targetX - pose.x) (goal.targetY - pose.y)

/-- The step is no driving iteration of a goal that asks for less than 0.05. -/
def NoSlowDrive (φ : Floats F) (s : State F) (a : Act F) : Prop :=
  ∀ g fuel goal phase startTime pose, a = .thread g fuel → s.goals[g]? = some goal →
    goal.pc = .readPose phase startTime → s.pose = some pose →
      ¬ SlowDrive φ goal.request phase pose

/-! ## The control law -/

variable {φ : Floats F} {goal : Request F} {phase phase' : Phase} {pose : Pose F} {fuel : Nat}
  {out : Control F} {cmd : Twist F} {dist : F} {calls : List (ClampCall F)}

theorem within_stop (hφ : φ.Exact) (goal : Request F) : goal.Within φ.stop := by
  have hv : ((1 / 100 : ℚ) : F) ≤ max ((1 / 100 : ℚ) : F) goal.maxLinearVelocity := le_max_left _ _
  have hw : ((1 / 10 : ℚ) : F) ≤ max ((1 / 10 : ℚ) : F) goal.maxAngularVelocity := le_max_left _ _
  have hv0 : (0 : F) ≤ ((1 / 100 : ℚ) : F) := by norm_num
  have hw0 : (0 : F) ≤ ((1 / 10 : ℚ) : F) := by norm_num
  have hzero : φ.lit 0 = 0 := by rw [hφ.lit, Rat.cast_zero]
  refine ⟨⟨?_, ?_⟩, ?_⟩
  · show 0 ≤ φ.lit 0
    rw [hzero]
  · show φ.lit 0 ≤ _
    rw [hzero]
    exact hv0.trans hv
  · show |φ.lit 0| ≤ _
    rw [hzero, abs_zero]
    exact hw0.trans hw

/-- The bounds of a turn are in order. -/
theorem turn_bounds (hφ : φ.Exact) (goal : Request F) :
    φ.neg (φ.bounds goal).wmax ≤ (φ.bounds goal).wmax := by
  have hw : (φ.bounds goal).wmax = max ((1 / 10 : ℚ) : F) goal.maxAngularVelocity := by
    rw [hφ.bounds]
  have hpos : (0 : F) ≤ (φ.bounds goal).wmax := by
    rw [hw]
    exact le_max_of_le_left (by norm_num)
  rw [hφ.neg]
  linarith

/-- A turn is within the limits of the goal. -/
theorem abs_turn_le (hφ : φ.Exact) (goal : Request F) (v : F) :
    |φ.clamp v (φ.neg (φ.bounds goal).wmax) (φ.bounds goal).wmax| ≤
      max ((1 / 10 : ℚ) : F) goal.maxAngularVelocity := by
  have hw : (φ.bounds goal).wmax = max ((1 / 10 : ℚ) : F) goal.maxAngularVelocity := by
    rw [hφ.bounds]
  have hmem := hφ.clamp_mem v (turn_bounds hφ goal)
  rw [← hw, abs_le, ← hφ.neg]
  exact hmem

/-- A command without forward velocity is within the limits. -/
theorem within_turn (hφ : φ.Exact) (goal : Request F) (v : F) :
    goal.Within ⟨φ.lit 0, φ.clamp v (φ.neg (φ.bounds goal).wmax) (φ.bounds goal).wmax⟩ :=
  ⟨(within_stop hφ goal).1, abs_turn_le hφ goal v⟩

/-- **The calls of the control law** have their bounds in order, except when it drives for a goal
that asks for less than 0.05. -/
theorem controlCalls_ordered_iff (hφ : φ.Exact)
    (h : φ.controlCalls fuel goal phase pose = some (out, calls)) :
    (∀ call ∈ calls, call.lo ≤ call.hi) ↔ ¬ SlowDrive φ goal phase pose := by
  have hturn := turn_bounds hφ goal
  cases phase with
  | rotateToHeading =>
      refine iff_of_true ?_ fun hslow => nomatch hslow.1
      simp only [Floats.controlCalls] at h
      split at h
      · cases h
        nofun
      · obtain ⟨err, -, h⟩ := Option.map_eq_some_iff.mp h
        split at h
        · cases h
          nofun
        · cases h
          simpa using hturn
  | driveToPoint =>
      have hxy : (φ.bounds goal).xyTol = max ((1 / 1000 : ℚ) : F) goal.xyTolerance := by
        rw [hφ.bounds]
      have hv : (φ.bounds goal).vmax = max ((1 / 100 : ℚ) : F) goal.maxLinearVelocity := by
        rw [hφ.bounds]
      have hlit : φ.lit (5 / 100) = ((5 / 100 : ℚ) : F) := hφ.lit _
      have hfloor : ((1 / 100 : ℚ) : F) < ((5 / 100 : ℚ) : F) := by
        rw [Rat.cast_lt]
        norm_num
      simp only [Floats.controlCalls, hφ.lt, hφ.sub, hxy, decide_eq_true_eq] at h
      unfold SlowDrive
      split at h
      · rename_i hnear
        cases h
        exact iff_of_true nofun fun hslow => absurd hnear (not_lt.mpr hslow.2.2)
      · rename_i hfar
        obtain ⟨err, -, h⟩ := Option.map_eq_some_iff.mp h
        cases h
        have hcalls : (φ.lit (5 / 100) ≤ (φ.bounds goal).vmax) ↔
            ¬ goal.maxLinearVelocity < ((5 / 100 : ℚ) : F) := by
          rw [hlit, hv, le_max_iff, not_lt, or_iff_right (not_le.mpr hfloor)]
        simp only [List.mem_cons, List.not_mem_nil, or_false, forall_eq_or_imp, forall_eq, hcalls]
        constructor
        · exact fun hall hslow => hall.1 hslow.2.1
        · exact fun hslow => ⟨fun hlt => hslow ⟨trivial, hlt, not_lt.mp hfar⟩, hturn⟩
  | rotateToYaw =>
      refine iff_of_true ?_ fun hslow => nomatch hslow.1
      simp only [Floats.controlCalls] at h
      obtain ⟨err, -, h⟩ := Option.map_eq_some_iff.mp h
      split at h
      · cases h
        nofun
      · cases h
        simpa using hturn

/-- What the control law commands with all its bounds in order is within the limits. -/
theorem controlCalls_within (hφ : φ.Exact)
    (h : φ.controlCalls fuel goal phase pose = some (.command cmd phase' dist, calls))
    (hcalls : ∀ call ∈ calls, call.lo ≤ call.hi) : goal.Within cmd := by
  cases phase with
  | rotateToHeading =>
      simp only [Floats.controlCalls] at h
      split at h
      · cases h
        exact within_stop hφ goal
      · obtain ⟨err, -, h⟩ := Option.map_eq_some_iff.mp h
        split at h
        · cases h
          exact within_stop hφ goal
        · cases h
          exact within_turn hφ goal _
  | driveToPoint =>
      simp only [Floats.controlCalls] at h
      split at h
      · cases h
        exact within_stop hφ goal
      · obtain ⟨err, -, h⟩ := Option.map_eq_some_iff.mp h
        cases h
        have hv : (φ.bounds goal).vmax = max ((1 / 100 : ℚ) : F) goal.maxLinearVelocity := by
          rw [hφ.bounds]
        have hlit : φ.lit (5 / 100) = ((5 / 100 : ℚ) : F) := hφ.lit _
        have hlo : (0 : F) ≤ φ.lit (5 / 100) := by
          rw [hlit]
          norm_num
        obtain ⟨hmin, hmax⟩ := hφ.clamp_mem _ (hcalls _ List.mem_cons_self)
        exact ⟨⟨hlo.trans hmin, hmax.trans_eq hv⟩, abs_turn_le hφ goal _⟩
  | rotateToYaw =>
      simp only [Floats.controlCalls] at h
      obtain ⟨err, -, h⟩ := Option.map_eq_some_iff.mp h
      split at h
      · cases h
      · cases h
        exact within_turn hφ goal _

/-! ## Runs -/

variable {cfg : Config} {s s' : State F} {a : Act F} {es : List (Event F)}

/-- The commands that are about to be published are within the limits. -/
def PendingWithin (s : State F) : Prop :=
  ∀ (g : Nat) (goal : Goal F) cmd phase startTime pose dist, s.goals[g]? = some goal →
    goal.pc = .publish cmd phase startTime pose dist → goal.request.Within cmd

theorem PendingWithin.step (hφ : φ.Exact) (h : PendingWithin s) (hslow : NoSlowDrive φ s a)
    (hst : step φ cfg s a = some (s', es)) : PendingWithin s' := by
  intro g goal' cmd phase' startTime pose dist hg' hpc'
  rcases step_goal hst hg' with ⟨goal, fuel, rfl, hg, hreq, hmove⟩ | ⟨-, hstarted, -⟩ |
    ⟨-, -, goal, hg, hreq, hpc⟩
  · rw [hpc'] at hmove
    generalize goal'.terminal = terminal at hmove
    cases hmove with
    | @command phase _ _ _ _ _ hpc hpose hc =>
        rw [hreq]
        rw [← controlCalls_control] at hc
        obtain ⟨⟨out, calls⟩, hcalls, rfl⟩ := Option.map_eq_some_iff.mp hc
        refine controlCalls_within hφ hcalls ((controlCalls_ordered_iff hφ hcalls).mpr ?_)
        exact hslow g fuel goal phase startTime pose rfl hg hpc hpose
  · rw [hpc'] at hstarted
    cases hstarted
  · rw [hreq]
    exact h g goal cmd phase' startTime pose dist hg (hpc ▸ hpc')

/-- A step keeps the limits exactly if it is no driving iteration of a slow goal. -/
theorem limitsKept_iff (hφ : φ.Exact) (h : PendingWithin s)
    (hst : step φ cfg s a = some (s', es)) : LimitsKept φ cfg s a ↔ NoSlowDrive φ s a := by
  constructor
  · rintro ⟨-, hclamps⟩ g fuel goal phase startTime pose rfl hg hpc hpose
    obtain ⟨out, calls, hc⟩ := controlCalls_of_step hst hg hpc hpose
    rw [clampCalls_eq hg hpc hpose hc] at hclamps
    exact (controlCalls_ordered_iff hφ hc).mp hclamps
  · intro hslow
    constructor
    · intro s₁ es₁ g goal cmd hst₁ hg hmem
      by_cases hstop : cmd = φ.stop
      · rw [hstop]
        exact within_stop hφ goal.request
      · obtain ⟨stamped, he⟩ := mem_commands.mp hmem
        obtain ⟨goal₁, phase, startTime, pose, dist, hg₁, hpc⟩ := step_published hst₁ he hstop
        obtain rfl := Option.some.inj (hg.symm.trans hg₁)
        exact h g goal cmd phase startTime pose dist hg hpc
    · intro call hcall
      obtain ⟨g, fuel, goal, phase, startTime, pose, out, calls, rfl, hg, hpc, hpose, hc, hmem⟩ :=
        mem_clampCalls hcall
      have hok := hslow g fuel goal phase startTime pose rfl hg hpc hpose
      exact (controlCalls_ordered_iff hφ hc).mpr hok call hmem

/-- **The velocity limits.** The steps of a schedule keep the limits exactly if none of them is a
driving iteration of a goal that asks for less than 0.05. -/
theorem limits_kept_iff (φ : Floats F) (hφ : φ.Exact) (cfg : Config) (clock : Nat)
    (as : List (Act F)) :
    Obeys (step φ cfg) (LimitsKept φ cfg) (.init clock) as ↔
      Obeys (step φ cfg) (NoSlowDrive φ) (.init clock) as :=
  obeys_congr (J := PendingWithin) (fun _ _ _ _ hJ hslow hst => hJ.step hφ hslow hst)
    (fun _ _ _ _ hJ hst => limitsKept_iff hφ hJ hst) fun _ _ _ _ _ _ _ hg => nomatch hg

end Limits

theorem exact_onAxis : onAxis.Exact where
  lit q := (Rat.cast_id q).symm
  add _ _ := rfl
  sub _ _ := rfl
  mul _ _ := rfl
  neg _ := rfl
  lt _ _ := rfl
  abs _ := rfl

theorem limits_kept_iff_ahead :
    Obeys (step onAxis ⟨"twist"⟩) (LimitsKept onAxis ⟨"twist"⟩) (.init 0) driveAhead ↔
      Obeys (step onAxis ⟨"twist"⟩) (NoSlowDrive onAxis) (.init 0) driveAhead :=
  limits_kept_iff onAxis exact_onAxis ⟨"twist"⟩ 0 driveAhead

/-- Four centimetres ahead, at 0.02. -/
def slowly : Request ℚ := ⟨4 / 100, 0, 0, 15 / 1000, 1 / 10, 2 / 100, 8 / 10⟩

/-- The robot turns and is about to drive. -/
def driveSlowly : List (Act ℚ) :=
  [.goal slowly, .odom ⟨0, 0, 0, 0, 0, 1⟩] ++ List.replicate 7 (.thread 0 1)

theorem driveSlowly_isSome :
    (runActs (step onAxis ⟨"twist"⟩) anyStep (.init 0) driveSlowly).isSome := by decide +kernel

/-- The state in which the first driving iteration is due. -/
def drivingSlowly : State ℚ := ((runActs _ _ _ _).get driveSlowly_isSome).1

theorem step_drivingSlowly_isSome :
    (step onAxis ⟨"twist"⟩ drivingSlowly (.thread 0 1)).isSome := by decide +kernel

/-- The forward velocity is clamped between 0.05 and 0.02. -/
theorem not_limits_kept : ¬ ∀ as : List (Act ℚ),
    Obeys (step onAxis ⟨"twist"⟩) (LimitsKept onAxis ⟨"twist"⟩) (.init 0) as := by
  intro h
  have hrun : runActs (step onAxis ⟨"twist"⟩) anyStep (.init 0) driveSlowly =
      some (drivingSlowly, _) := (Option.some_get driveSlowly_isSome).symm
  have hlast : LimitsKept onAxis ⟨"twist"⟩ drivingSlowly (.thread 0 1) :=
    (h (driveSlowly ++ [.thread 0 1])).last hrun step_drivingSlowly_isSome
  have hcall : ((drivingSlowly.clampCalls onAxis (.thread 0 1)).any fun call =>
      call.lo = 5 / 100 && call.hi = 2 / 100) = true := by
    decide +kernel
  obtain ⟨call, hmem, heq⟩ := List.any_eq_true.mp hcall
  obtain ⟨hlo, hhi⟩ : call.lo = 5 / 100 ∧ call.hi = 2 / 100 := by simpa using heq
  have hle := hlast.2 call hmem
  rw [hlo, hhi] at hle
  norm_num at hle

end RobotTaskManager.DriveToPose
