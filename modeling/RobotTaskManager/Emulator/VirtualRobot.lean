import Mathlib.Algebra.Order.Field.Basic
import Mathlib.Tactic.Positivity
import RobotTaskManager.Lib.Run

set_option autoImplicit false

/-! # The virtual robot emulator

`virtual_robot_node.py`: the state of the robot, its four services and the physics step. The node
runs on a single-threaded executor, so its callbacks come one after the other, and a history of the
robot is a list of requests and ticks. A tick carries the time that has elapsed since the last one,
in nanoseconds as the clock counts it; it is negative when the clock has been set back.

The numbers are a parameter: `PyFloat` has what the node takes from them beside the ring operations
and comparisons, and what holds of them both as floats and as exact numbers. In the comparisons of
`pyMax` and `pyMin` the order of the arguments is Python's, which decides where a float is NaN.
-/

namespace RobotTaskManager.Emulator

/-! ## Numbers -/

/-- What the emulator uses of its numbers. `still_le` says that in a positive time a motor that
stands at zero, with the target zero, can reach its target. -/
class PyFloat (F : Type*) [Zero F] [One F] [Sub F] [Mul F] [IntCast F] [LT F] [LE F] where
  fabs : F → F
  copysign : F → F → F
  milli : F
  nano : F
  one_pos : (0 : F) < 1
  milli_pos : (0 : F) < milli
  pos_of_milli_lt {v : F} : milli < v → 0 < v
  still_le {v : F} {elapsed : ℤ} : 0 < v → ¬ (elapsed : F) * nano ≤ 0 →
    fabs (0 - 0) ≤ v * ((elapsed : F) * nano)

export PyFloat (fabs copysign)

/-- Exact arithmetic. -/
instance {F : Type*} [Field F] [LinearOrder F] [IsStrictOrderedRing F] : PyFloat F where
  fabs x := |x|
  copysign x y := if y < 0 then -|x| else |x|
  milli := 1 / 1000
  nano := 1 / 1000000000
  one_pos := zero_lt_one
  milli_pos := by positivity
  pos_of_milli_lt h := lt_trans (by positivity) h
  still_le hv hdt := by rw [sub_self, abs_zero]; exact (mul_pos hv (not_le.mp hdt)).le

/-! ## The state of the robot -/

/-- `MotorStatus.STATUS_*` -/
inductive MotorStatus where
  | ok
  | stuck
  | dead
  | unreachable
  deriving DecidableEq, Repr

variable {F : Type*} [Zero F] [One F] [Sub F] [Mul F] [IntCast F] [LT F] [LE F] [DecidableLT F]
  [PyFloat F]

/-- `max(a, b)` -/
def pyMax (a b : F) : F := if a < b then b else a

/-- `min(a, b)` -/
def pyMin (a b : F) : F := if b < a then b else a

theorem pyMax_milli_pos (v : F) : 0 < pyMax (PyFloat.milli : F) v := by
  unfold pyMax
  by_cases h : (PyFloat.milli : F) < v
  · rw [if_pos h]
    exact PyFloat.pos_of_milli_lt h
  · rw [if_neg h]
    exact PyFloat.milli_pos

/-- A motor. Its speed is positive: the default is, and `set_motor_target` keeps it so. -/
@[ext] structure Motor (F : Type*) [Zero F] [One F] [Sub F] [Mul F] [IntCast F] [LT F]
    [LE F] [PyFloat F] where
  position : F
  velocity : F
  targetPosition : F
  maxVelocity : F
  status : MotorStatus
  maxVelocity_pos : 0 < maxVelocity

/-- `Motor(motor_id=motor_id)` -/
def Motor.fresh : Motor F where
  position := 0
  velocity := 0
  targetPosition := 0
  maxVelocity := 1
  status := .ok
  maxVelocity_pos := PyFloat.one_pos

/-- `Camera` -/
structure Camera where
  available : Bool
  deriving DecidableEq

/-- `Camera(camera_id=camera_id)` -/
def Camera.fresh : Camera := ⟨true⟩

/-- `Battery` -/
structure Battery (F : Type*) where
  level : F
  drainRate : F

/-- `RobotState`: the motors and cameras by their ids. -/
@[ext] structure RobotState (F : Type*) [Zero F] [One F] [Sub F] [Mul F] [IntCast F] [LT F]
    [LE F] [PyFloat F] where
  motors : String → Option (Motor F)
  cameras : String → Option Camera
  battery : Battery F

namespace RobotState

/-- `RobotState()` -/
def fresh : RobotState F where
  motors := fun _ => none
  cameras := fun _ => none
  battery := ⟨1, 0⟩

/-- `self.motors[motor_id] = m`, and any write to the fields of the motor `m` stored there. -/
def setMotor (s : RobotState F) (motorId : String) (m : Motor F) : RobotState F :=
  { s with motors := Function.update s.motors motorId (some m) }

/-- `self.cameras[camera_id] = c`, and any write to the fields of the camera `c` stored there. -/
def setCamera (s : RobotState F) (cameraId : String) (c : Camera) : RobotState F :=
  { s with cameras := Function.update s.cameras cameraId (some c) }

/-- `ensure_motor` -/
def ensureMotor (s : RobotState F) (motorId : String) : Motor F × RobotState F :=
  match s.motors motorId with
  | some m => (m, s)
  | none => (Motor.fresh, s.setMotor motorId Motor.fresh)

/-- `ensure_camera` -/
def ensureCamera (s : RobotState F) (cameraId : String) : Camera × RobotState F :=
  match s.cameras cameraId with
  | some c => (c, s)
  | none => (Camera.fresh, s.setCamera cameraId Camera.fresh)

end RobotState

/-! ## Requests and replies -/

/-- What the node uses of Python: `repr` of a string and the format `.2f`. -/
structure Env (F : Type*) where
  repr : String → String
  fixed2 : F → String

/-- The requests of the services, and a timer tick with the nanoseconds elapsed since the last. -/
inductive Act (F : Type*) where
  | setMotorTarget (motorId : String) (targetPosition maxVelocity : F)
  | captureImage (cameraId savePath : String)
  | injectFault (target kind : String) (parameter : F)
  | reset
  | tick (elapsed : ℤ)

/-- The responses of the services. -/
inductive Reply where
  | setMotorTarget (accepted : Bool) (message : String)
  | captureImage (success : Bool) (imagePath message : String)
  | injectFault (applied : Bool) (message : String)
  | reset (success : Bool) (message : String)
  deriving DecidableEq

/-- `_set_target_cb` -/
def setTargetCb (s : RobotState F) (motorId : String) (targetPosition maxVelocity : F) :
    RobotState F × Reply :=
  if motorId = "" then (s, .setMotorTarget false "motor_id is empty")
  else
    let (m, s) := s.ensureMotor motorId
    if m.status = .dead then (s, .setMotorTarget false s!"motor {motorId} is dead")
    else
      (s.setMotor motorId
        { m with
          targetPosition := targetPosition
          maxVelocity := pyMax PyFloat.milli maxVelocity
          maxVelocity_pos := pyMax_milli_pos maxVelocity },
        .setMotorTarget true "ok")

/-- `_capture_cb` -/
def captureCb (s : RobotState F) (cameraId savePath : String) : RobotState F × Reply :=
  let (cam, s) := s.ensureCamera cameraId
  if cam.available then
    let imagePath := if savePath = "" then s!"/tmp/mw_capture_{cameraId}.jpg" else savePath
    (s, .captureImage true imagePath "ok")
  else (s, .captureImage false "" s!"camera {cameraId} unavailable")

/-- `_motor_kind_to_status`, with the text of the `ValueError` it raises. -/
def motorKindToStatus (env : Env F) (kind : String) : Except String MotorStatus :=
  if kind = "clear" then .ok .ok
  else if kind = "stuck" then .ok .stuck
  else if kind = "dead" then .ok .dead
  else if kind = "unreachable" then .ok .unreachable
  else .error (s!"unknown motor fault kind: {env.repr kind}")

/-- `target.startswith(pre)` -/
def startsWith (target pre : String) : Bool := pre.toList.isPrefixOf target.toList

/-- `target.split(':', 1)[1]`, for a target that has a colon. -/
def afterColon (target : String) : String :=
  String.ofList ((target.toList.dropWhile (· ≠ ':')).drop 1)

/-- `_inject_fault_cb` -/
def injectFaultCb (env : Env F) (s : RobotState F) (target kind : String) (parameter : F) :
    RobotState F × Reply :=
  if startsWith target "motor:" then
    let mid := afterColon target
    let (m, s) := s.ensureMotor mid
    match motorKindToStatus env kind with
    | .ok status =>
        (s.setMotor mid { m with status := status }, .injectFault true s!"motor {mid} -> {kind}")
    -- the motor has been created by now
    | .error e => (s, .injectFault false e)
  else if startsWith target "camera:" then
    let cid := afterColon target
    let (c, s) := s.ensureCamera cid
    (s.setCamera cid { c with available := kind = "clear" },
      .injectFault true s!"camera {cid} -> {kind}")
  else if target = "battery" then
    let level := pyMax 0 (pyMin 1 parameter)
    ({ s with battery := { s.battery with level := level } },
      .injectFault true s!"battery -> {env.fixed2 level}")
  else (s, .injectFault false s!"unknown target: {env.repr target}")

/-- What a reset leaves of a motor. -/
def Motor.reset (m : Motor F) : Motor F :=
  { m with position := 0, velocity := 0, targetPosition := 0, status := .ok }

/-- `_reset_cb` -/
def resetCb (s : RobotState F) : RobotState F × Reply :=
  ({ motors := fun id => (s.motors id).map Motor.reset
     cameras := fun id => (s.cameras id).map fun c => { c with available := true }
     battery := ⟨1, 0⟩ },
    .reset true "reset ok")

/-! ## The physics loop -/

variable [Add F] [DecidableLE F]

/-- `.nanoseconds * 1e-9` -/
def seconds (elapsed : ℤ) : F := (elapsed : F) * PyFloat.nano

/-- The pass of the loop of `_update_physics` over one motor, for `dt > 0`. -/
def Motor.advance (m : Motor F) (dt : F) : Motor F :=
  if m.status ≠ .ok then { m with velocity := 0 }
  else
    let delta := m.targetPosition - m.position
    let step := m.maxVelocity * dt
    if fabs delta ≤ step then { m with position := m.targetPosition, velocity := 0 }
    else
      let direction := copysign 1 delta
      { m with
        position := m.position + direction * step
        velocity := direction * m.maxVelocity }

omit [DecidableLT F] in
/-- A motor that can reach the target in the time ends there, at rest. -/
theorem Motor.advance_reach {m : Motor F} {dt : F} (hok : m.status = .ok)
    (h : fabs (m.targetPosition - m.position) ≤ m.maxVelocity * dt) :
    m.advance dt = { m with position := m.targetPosition, velocity := 0 } := by
  rw [Motor.advance, if_neg (not_not.mpr hok)]
  exact if_pos h

/-- `_update_physics` on the state of the robot, `dt` seconds after the last update. -/
def RobotState.advance (s : RobotState F) (dt : F) : RobotState F :=
  if dt ≤ 0 then s
  else
    let battery :=
      if 0 < s.battery.drainRate then
        { s.battery with level := pyMax 0 (s.battery.level - s.battery.drainRate * dt) }
      else s.battery
    { s with motors := fun id => (s.motors id).map (·.advance dt), battery := battery }

/-- `_update_physics` on one motor, `dt` seconds after the last update. -/
def Motor.tick (m : Motor F) (dt : F) : Motor F := if dt ≤ 0 then m else m.advance dt

theorem RobotState.advance_motors (s : RobotState F) (dt : F) (id : String) :
    (s.advance dt).motors id = (s.motors id).map (·.tick dt) := by
  unfold RobotState.advance Motor.tick
  by_cases hdt : dt ≤ 0 <;> simp [hdt]

/-- The node: the state of the robot, and the time of the last update in nanoseconds. -/
@[ext] structure VirtualRobot (F : Type*) [Zero F] [One F] [Sub F] [Mul F] [IntCast F] [LT F]
    [LE F] [PyFloat F] where
  state : RobotState F
  lastUpdate : ℤ

namespace VirtualRobot

/-- The motors that `__init__` creates. -/
def seedMotors : List String := ["base_x", "base_yaw", "arm_shoulder", "arm_gripper"]

/-- `__init__`, at the time `now`. -/
def init (now : ℤ) : VirtualRobot F where
  state :=
    ((seedMotors.foldl (fun s mid => (s.ensureMotor mid).2)
      RobotState.fresh).ensureCamera "head_rgb").2
  lastUpdate := now

/-- `_update_physics`, when the clock shows `now`. -/
def updatePhysics (r : VirtualRobot F) (now : ℤ) : VirtualRobot F where
  state := r.state.advance (seconds (now - r.lastUpdate))
  lastUpdate := now

theorem updatePhysics_elapsed (r : VirtualRobot F) (elapsed : ℤ) :
    (r.updatePhysics (r.lastUpdate + elapsed)).state = r.state.advance (seconds elapsed) := by
  rw [updatePhysics, add_sub_cancel_left]

/-- A request or a tick, with the reply to a request. -/
def act (env : Env F) (r : VirtualRobot F) : Act F → VirtualRobot F × List Reply
  | .setMotorTarget motorId targetPosition maxVelocity =>
      let (s, reply) := setTargetCb r.state motorId targetPosition maxVelocity
      ({ r with state := s }, [reply])
  | .captureImage cameraId savePath =>
      let (s, reply) := captureCb r.state cameraId savePath
      ({ r with state := s }, [reply])
  | .injectFault target kind parameter =>
      let (s, reply) := injectFaultCb env r.state target kind parameter
      ({ r with state := s }, [reply])
  | .reset =>
      let (s, reply) := resetCb r.state
      ({ r with state := s }, [reply])
  | .tick elapsed => (r.updatePhysics (r.lastUpdate + elapsed), [])

/-- The robot after a list of requests and ticks, with all replies. -/
def after (env : Env F) : VirtualRobot F → List (Act F) → VirtualRobot F × List Reply
  | r, [] => (r, [])
  | r, a :: as =>
      let (r', replies) := r.act env a
      let (r'', more) := after env r' as
      (r'', replies ++ more)

end VirtualRobot

end RobotTaskManager.Emulator
