import Mathlib.Data.Rat.Defs
import RobotTaskManager.Lib.Run

set_option autoImplicit false

/-! # The drive-to-pose server

`DriveToPoseServer` of `mw_skill_library`. Every accepted goal runs `execute` in a detached
thread of its own; the threads share the pose and the publishers of `cmd_vel`. A step is one
pass of a thread up to its next access to something shared; the goal callbacks, the odometry
callback, the clock and `rclcpp::shutdown()` come in between in any order.

The arithmetic of `double` and the functions of `<cmath>` are a parameter (`Floats`); a numeral
of the source stands for `lit` of it. `now()` counts nanoseconds.
-/

namespace RobotTaskManager.DriveToPose

/-! ## Numbers -/

structure Floats (F : Type) where
  lit : ℚ → F
  pi : F
  add : F → F → F
  sub : F → F → F
  mul : F → F → F
  neg : F → F
  lt : F → F → Bool
  abs : F → F
  hypot : F → F → F
  atan2 : F → F → F
  /-- What a call of `std::clamp` gives whose bounds are not in order: the standard leaves it
  undefined. -/
  misclamp : F → F → F → F

variable {F : Type}

/-- `std::max` -/
def Floats.max (φ : Floats F) (a b : F) : F := if φ.lt a b then b else a

/-- `std::clamp` -/
def Floats.clamp (φ : Floats F) (v lo hi : F) : F :=
  if φ.lt hi lo then φ.misclamp v lo hi else if φ.lt v lo then lo else if φ.lt hi v then hi else v

/-- `while (a > M_PI) {a -= 2.0 * M_PI;}`, which takes at most `fuel` rounds. -/
def Floats.turnDown (φ : Floats F) : Nat → F → Option F
  | 0, _ => none
  | fuel + 1, a =>
      if φ.lt φ.pi a then φ.turnDown fuel (φ.sub a (φ.mul (φ.lit 2) φ.pi)) else some a

/-- `while (a < -M_PI) {a += 2.0 * M_PI;}` -/
def Floats.turnUp (φ : Floats F) : Nat → F → Option F
  | 0, _ => none
  | fuel + 1, a =>
      if φ.lt a (φ.neg φ.pi) then φ.turnUp fuel (φ.add a (φ.mul (φ.lit 2) φ.pi)) else some a

/-- `normalizeAngle` -/
def Floats.normalizeAngle (φ : Floats F) (fuel : Nat) (a : F) : Option F :=
  (φ.turnDown fuel a).bind (φ.turnUp fuel)

/-- `yawFromQuat` -/
def Floats.yawFromQuat (φ : Floats F) (x y z w : F) : F :=
  φ.atan2 (φ.mul (φ.lit 2) (φ.add (φ.mul w z) (φ.mul x y)))
    (φ.sub (φ.lit 1) (φ.mul (φ.lit 2) (φ.add (φ.mul y y) (φ.mul z z))))

/-! ## Messages -/

/-- The request part of the `DriveToPose` action. -/
structure Request (F : Type) where
  targetX : F
  targetY : F
  targetYaw : F
  xyTolerance : F
  yawTolerance : F
  maxLinearVelocity : F
  maxAngularVelocity : F

/-- The result part of the `DriveToPose` action. -/
structure Result (F : Type) where
  finalX : F
  finalY : F
  finalYaw : F
  succeeded : Bool
  message : String

/-- The components of a `Twist` that the server sets. -/
structure Twist (F : Type) where
  linearX : F
  angularZ : F

/-- `Twist{}` -/
def Floats.stop (φ : Floats F) : Twist F := ⟨φ.lit 0, φ.lit 0⟩

structure Pose (F : Type) where
  x : F
  y : F
  yaw : F

/-- The message of the odometry topic: position and orientation. -/
structure Odometry (F : Type) where
  x : F
  y : F
  orientation : F × F × F × F

/-- What `onOdom` stores. -/
def Floats.poseOf (φ : Floats F) (msg : Odometry F) : Pose F :=
  let (qx, qy, qz, qw) := msg.orientation
  ⟨msg.x, msg.y, φ.yawFromQuat qx qy qz qw⟩

/-- A result that has not been filled in, but for `succeeded` and `message`. -/
def Floats.failure (φ : Floats F) (message : String) : Result F :=
  ⟨φ.lit 0, φ.lit 0, φ.lit 0, false, message⟩

/-- The calls on a goal handle that end the goal. -/
inductive TerminalCall
  | succeed
  | abort
  | canceled
  deriving DecidableEq

/-! ## The control law -/

inductive Phase
  | rotateToHeading
  | driveToPoint
  | rotateToYaw
  deriving DecidableEq

/-- How one iteration of the control loop ends: a command is to be published, with the distance
for the feedback, or the robot has arrived. -/
inductive Control (F : Type)
  | command (cmd : Twist F) (phase : Phase) (dist : F)
  | arrived

/-- The bounds that `execute` takes from the goal. -/
structure Bounds (F : Type) where
  vmax : F
  wmax : F
  xyTol : F
  yawTol : F

def Floats.bounds (φ : Floats F) (goal : Request F) : Bounds F :=
  ⟨φ.max (φ.lit (1 / 100)) goal.maxLinearVelocity, φ.max (φ.lit (1 / 10)) goal.maxAngularVelocity,
    φ.max (φ.lit (1 / 1000)) goal.xyTolerance, φ.max (φ.lit (1 / 1000)) goal.yawTolerance⟩

/-- The `switch (phase)` of the control loop, once the pose has been read. -/
def Floats.control (φ : Floats F) (fuel : Nat) (goal : Request F) (phase : Phase)
    (pose : Pose F) : Option (Control F) :=
  let b := φ.bounds goal
  let dx := φ.sub goal.targetX pose.x
  let dy := φ.sub goal.targetY pose.y
  let dist := φ.hypot dx dy
  let heading := φ.atan2 dy dx
  match phase with
  | .rotateToHeading =>
      -- already on the target point, skip to the final yaw
      if φ.lt dist b.xyTol then some (.command φ.stop .rotateToYaw dist)
      else
        (φ.normalizeAngle fuel (φ.sub heading pose.yaw)).map fun err =>
          if φ.lt (φ.abs err) (φ.lit (8 / 100)) then .command φ.stop .driveToPoint dist
          else
            .command ⟨φ.lit 0, φ.clamp (φ.mul (φ.lit 2) err) (φ.neg b.wmax) b.wmax⟩
              .rotateToHeading dist
  | .driveToPoint =>
      if φ.lt dist b.xyTol then some (.command φ.stop .rotateToYaw dist)
      else
        (φ.normalizeAngle fuel (φ.sub heading pose.yaw)).map fun err =>
          .command ⟨φ.clamp (φ.mul (φ.lit (8 / 10)) dist) (φ.lit (5 / 100)) b.vmax,
            φ.clamp (φ.mul (φ.lit (15 / 10)) err) (φ.neg b.wmax) b.wmax⟩ .driveToPoint dist
  | .rotateToYaw =>
      (φ.normalizeAngle fuel (φ.sub goal.targetYaw pose.yaw)).map fun err =>
        if φ.lt (φ.abs err) b.yawTol then .arrived
        else
          .command ⟨φ.lit 0, φ.clamp (φ.mul (φ.lit 2) err) (φ.neg b.wmax) b.wmax⟩
            .rotateToYaw dist

/-! ## State -/

/-- Where the `execute` of a goal is. -/
inductive Pc (F : Type)
  /-- The thread has been started. -/
  | started
  /-- Waiting for the first odometry message. -/
  | waitOdom (deadline : Nat)
  /-- `if (!pose_valid_)` -/
  | checkPose
  /-- The top of the control loop. -/
  | top (phase : Phase) (startTime : Nat)
  /-- Before `snapshot`. -/
  | readPose (phase : Phase) (startTime : Nat)
  /-- Before `publishCmd(cmd)`. -/
  | publish (cmd : Twist F) (phase : Phase) (startTime : Nat) (pose : Pose F) (dist : F)
  /-- Before the call that ends the goal. -/
  | closing (call : TerminalCall) (result : Result F)
  /-- `execute` has returned. -/
  | returned

/-- An accepted goal with its thread and what its handle knows. -/
structure Goal (F : Type) where
  request : Request F
  pc : Pc F
  canceling : Bool
  terminal : Option TerminalCall

structure State (F : Type) where
  clock : Nat
  /-- `cur_x_`, `cur_y_` and `cur_yaw_`, once `pose_valid_`. -/
  pose : Option (Pose F)
  goals : List (Goal F)
  /-- `rclcpp::ok()` -/
  ok : Bool

def State.init (clock : Nat) : State F := ⟨clock, none, [], true⟩

/-- Who publishes: the thread of a goal, or `handleCancel`. -/
inductive Owner
  | thread (g : Nat)
  | handleCancel
  deriving DecidableEq

inductive Event (F : Type)
  | accepted (g : Nat)
  /-- A message on `cmd_vel`, as `TwistStamped` if `stamped`. -/
  | published (owner : Owner) (stamped : Bool) (cmd : Twist F)
  | feedback (g : Nat) (pose : Pose F) (dist : F)
  | terminal (g : Nat) (call : TerminalCall) (result : Result F)

inductive Act (F : Type)
  /-- A goal arrives: `handleGoal` and `handleAccepted`. -/
  | goal (request : Request F)
  /-- A cancel request for a goal that has not ended: `handleCancel`. -/
  | cancel (g : Nat)
  | odom (msg : Odometry F)
  | advance (d : Nat)
  | shutdown
  /-- The thread of the goal goes on; the loops of `normalizeAngle` take at most `fuel` rounds. -/
  | thread (g : Nat) (fuel : Nat)

/-- The parameter `cmd_vel_format`. -/
structure Config where
  cmdVelFormat : String

/-- `publishCmd` -/
def Config.publishCmd (cfg : Config) (owner : Owner) (cmd : Twist F) : List (Event F) :=
  (if cfg.cmdVelFormat ≠ "twist_stamped" then [.published owner false cmd] else []) ++
    if cfg.cmdVelFormat ≠ "twist" then [.published owner true cmd] else []

/-! ## Steps -/

/-- `Duration::from_seconds(5.0)` and `overall_timeout` -/
def odomWait : Nat := 5000000000
def overallTimeout : Nat := 60000000000

/-- The top of the control loop: `rclcpp::ok()`, `is_canceling()` and the overall timeout, each
with the `publishStop` that follows it. -/
def topStep (φ : Floats F) (cfg : Config) (s : State F) (g : Nat) (goal : Goal F) (phase : Phase)
    (startTime : Nat) : Pc F × List (Event F) :=
  if !s.ok then (.returned, cfg.publishCmd (.thread g) φ.stop)
  else if goal.canceling then
    (.closing .canceled (φ.failure "canceled"), cfg.publishCmd (.thread g) φ.stop)
  else if s.clock - startTime > overallTimeout then
    (.closing .abort (φ.failure "overall timeout"), cfg.publishCmd (.thread g) φ.stop)
  else (.readPose phase startTime, [])

/-- `snapshot` and the `switch`. Without a pose the iteration is skipped. -/
def readStep (φ : Floats F) (cfg : Config) (s : State F) (g : Nat) (goal : Goal F)
    (phase : Phase) (startTime fuel : Nat) : Option (Pc F × List (Event F)) :=
  match s.pose with
  | none => some (.top phase startTime, [])
  | some pose =>
      (φ.control fuel goal.request phase pose).map fun
        | .command cmd phase dist => (.publish cmd phase startTime pose dist, [])
        | .arrived =>
            (.closing .succeed ⟨pose.x, pose.y, pose.yaw, true, "arrived"⟩,
              cfg.publishCmd (.thread g) φ.stop)

/-- One step of the thread of goal `g`: the position afterwards, whether the goal ends, and the
events. -/
def threadStep (φ : Floats F) (cfg : Config) (s : State F) (g : Nat) (goal : Goal F)
    (fuel : Nat) : Option (Pc F × Option TerminalCall × List (Event F)) :=
  match goal.pc with
  | .started => some (.waitOdom (s.clock + odomWait), goal.terminal, [])
  | .waitOdom deadline =>
      if s.ok && decide (s.clock < deadline) && s.pose.isNone then
        some (.waitOdom deadline, goal.terminal, [])
      else some (.checkPose, goal.terminal, [])
  | .checkPose =>
      match s.pose with
      | none => some (.closing .abort (φ.failure "no odom received"), goal.terminal, [])
      | some _ => some (.top .rotateToHeading s.clock, goal.terminal, [])
  | .top phase startTime =>
      let after := topStep φ cfg s g goal phase startTime
      some (after.1, goal.terminal, after.2)
  | .readPose phase startTime =>
      (readStep φ cfg s g goal phase startTime fuel).map fun after =>
        (after.1, goal.terminal, after.2)
  | .publish cmd phase startTime pose dist =>
      some (.top phase startTime, goal.terminal,
        cfg.publishCmd (.thread g) cmd ++ [.feedback g pose dist])
  | .closing call result => some (.returned, some call, [.terminal g call result])
  | .returned => none

def step (φ : Floats F) (cfg : Config) (s : State F) : Act F → Option (State F × List (Event F))
  | .goal request =>
      -- `handleGoal` looks at nothing but the request it logs
      if s.ok then
        some ({ s with goals := s.goals ++ [⟨request, .started, false, none⟩] },
          [.accepted s.goals.length])
      else none
  | .cancel g =>
      match s.goals[g]? with
      | none => none
      | some goal =>
          if s.ok ∧ goal.terminal = none then
            some ({ s with goals := s.goals.set g { goal with canceling := true } },
              cfg.publishCmd .handleCancel φ.stop)
          else none
  | .odom msg => if s.ok then some ({ s with pose := some (φ.poseOf msg) }, []) else none
  | .advance d => some ({ s with clock := s.clock + d }, [])
  | .shutdown => some ({ s with ok := false }, [])
  | .thread g fuel =>
      match s.goals[g]? with
      | none => none
      | some goal =>
          match threadStep φ cfg s g goal fuel with
          | none => none
          | some (pc, terminal, es) =>
              some ({ s with goals := s.goals.set g { goal with pc, terminal } }, es)

end RobotTaskManager.DriveToPose
