import RobotTaskManager.Emulator.VirtualRobot

set_option autoImplicit false

/-! # A reset erases the history

Two robots that have been reset are not in the same state: a reset leaves the speed of every motor
as it is, and it does not remove the motors and cameras that requests have created. They are in
states that no request can tell apart (`Alike`). There a motor or camera that has not been created
counts as a fresh one, and the speeds of two motors may differ while both stand at zero with the
target zero, since then the speed does not matter, and the request that sets a target also sets the
speed.
-/

namespace RobotTaskManager.Emulator

open VirtualRobot

section States

variable {F : Type*} [Zero F] [One F] [Sub F] [Mul F] [IntCast F] [LT F] [LE F] [PyFloat F]
  {m n : Motor F} {s t : RobotState F}

/-! ## Motors and cameras by their ids -/

namespace RobotState

/-- The motor, or a fresh one while it has not been created. -/
def motor (s : RobotState F) (id : String) : Motor F := (s.motors id).getD Motor.fresh

/-- The camera, or a fresh one while it has not been created. -/
def camera (s : RobotState F) (id : String) : Camera := (s.cameras id).getD Camera.fresh

theorem ensureMotor_fst (id : String) : (s.ensureMotor id).1 = s.motor id := by
  unfold ensureMotor motor
  cases s.motors id <;> rfl

theorem ensureMotor_motor (id : String) : (s.ensureMotor id).2.motor = s.motor := by
  funext j
  unfold ensureMotor
  cases h : s.motors id with
  | some m => rfl
  | none => by_cases hj : j = id <;> simp [motor, setMotor, hj, h]

theorem ensureCamera_fst (id : String) : (s.ensureCamera id).1 = s.camera id := by
  unfold ensureCamera camera
  cases s.cameras id <;> rfl

theorem ensureCamera_camera (id : String) : (s.ensureCamera id).2.camera = s.camera := by
  funext j
  unfold ensureCamera
  cases h : s.cameras id with
  | some c => rfl
  | none => by_cases hj : j = id <;> simp [camera, setCamera, hj, h]

theorem ensureMotor_frame (id : String) :
    (s.ensureMotor id).2.cameras = s.cameras ∧ (s.ensureMotor id).2.battery = s.battery := by
  unfold ensureMotor
  cases s.motors id <;> exact ⟨rfl, rfl⟩

theorem ensureCamera_frame (id : String) :
    (s.ensureCamera id).2.motors = s.motors ∧ (s.ensureCamera id).2.battery = s.battery := by
  unfold ensureCamera
  cases s.cameras id <;> exact ⟨rfl, rfl⟩

theorem setMotor_motor (id : String) (m : Motor F) :
    (s.setMotor id m).motor = Function.update s.motor id m := by
  funext j
  by_cases hj : j = id <;> simp [motor, setMotor, hj]

theorem setCamera_camera (id : String) (c : Camera) :
    (s.setCamera id c).camera = Function.update s.camera id c := by
  funext j
  by_cases hj : j = id <;> simp [camera, setCamera, hj]

end RobotState

/-! ## States that cannot be told apart -/

/-- The motors show the same, and their speeds are the same as soon as they matter. -/
structure Motor.Alike (m n : Motor F) : Prop where
  position : m.position = n.position
  velocity : m.velocity = n.velocity
  targetPosition : m.targetPosition = n.targetPosition
  status : m.status = n.status
  speed : m.maxVelocity = n.maxVelocity ∨ m.position = 0 ∧ m.targetPosition = 0

/-- The states have the same battery, and motors and cameras that cannot be told apart. -/
structure RobotState.Alike (s t : RobotState F) : Prop where
  motor : ∀ id, (s.motor id).Alike (t.motor id)
  camera : s.camera = t.camera
  battery : s.battery = t.battery

namespace RobotState.Alike

variable {id : String}

theorem ensureMotor (h : s.Alike t) (id : String) :
    (s.ensureMotor id).2.Alike (t.ensureMotor id).2 := by
  obtain ⟨hscam, hsbat⟩ := ensureMotor_frame (s := s) id
  obtain ⟨htcam, htbat⟩ := ensureMotor_frame (s := t) id
  refine ⟨?_, ?_, by rw [hsbat, htbat, h.battery]⟩
  · rw [ensureMotor_motor, ensureMotor_motor]
    exact h.motor
  · funext j
    rw [RobotState.camera, RobotState.camera, hscam, htcam]
    exact congrFun h.camera j

theorem ensureCamera (h : s.Alike t) (id : String) :
    (s.ensureCamera id).2.Alike (t.ensureCamera id).2 := by
  obtain ⟨hsmot, hsbat⟩ := ensureCamera_frame (s := s) id
  obtain ⟨htmot, htbat⟩ := ensureCamera_frame (s := t) id
  refine ⟨fun j => ?_, ?_, by rw [hsbat, htbat, h.battery]⟩
  · rw [RobotState.motor, RobotState.motor, hsmot, htmot]
    exact h.motor j
  · rw [ensureCamera_camera, ensureCamera_camera, h.camera]

theorem setMotor (h : s.Alike t) (hmn : m.Alike n) : (s.setMotor id m).Alike (t.setMotor id n) := by
  refine ⟨fun j => ?_, h.camera, h.battery⟩
  rw [setMotor_motor, setMotor_motor]
  by_cases hj : j = id
  · rw [hj, Function.update_self, Function.update_self]
    exact hmn
  · rw [Function.update_of_ne hj, Function.update_of_ne hj]
    exact h.motor j

theorem setCamera (h : s.Alike t) (c : Camera) : (s.setCamera id c).Alike (t.setCamera id c) := by
  refine ⟨h.motor, ?_, h.battery⟩
  rw [setCamera_camera, setCamera_camera, h.camera]

end RobotState.Alike

/-! ## Motors in the physics loop -/

section Ticks

variable [Add F] [DecidableLE F] {elapsed : ℤ}

/-- A motor that stands at zero with the target zero stays there, whatever its speed. -/
theorem advance_still (hok : m.status = .ok) (hx : m.position = 0) (ht : m.targetPosition = 0)
    (hdt : ¬ (seconds elapsed : F) ≤ 0) :
    m.advance (seconds elapsed) = { m with position := m.targetPosition, velocity := 0 } := by
  refine Motor.advance_reach hok ?_
  rw [hx, ht]
  exact PyFloat.still_le m.maxVelocity_pos hdt

/-- A tick leaves a motor that has not been created as it is. -/
theorem tick_fresh : (Motor.fresh : Motor F).tick (seconds elapsed) = Motor.fresh := by
  unfold Motor.tick
  by_cases hdt : (seconds elapsed : F) ≤ 0
  · rw [if_pos hdt]
  · rw [if_neg hdt, advance_still rfl rfl rfl hdt]
    rfl

theorem tick_alike (h : m.Alike n) :
    (m.tick (seconds elapsed)).Alike (n.tick (seconds elapsed)) := by
  unfold Motor.tick
  by_cases hdt : (seconds elapsed : F) ≤ 0
  · rw [if_pos hdt, if_pos hdt]
    exact h
  · rw [if_neg hdt, if_neg hdt]
    cases h.speed with
    | inl hspeed =>
        have hmn : m = n := Motor.ext h.position h.velocity h.targetPosition hspeed h.status
        rw [hmn]
        exact ⟨rfl, rfl, rfl, rfl, Or.inl rfl⟩
    | inr hzero =>
        obtain ⟨hx, ht⟩ := hzero
        by_cases hok : m.status = .ok
        · rw [advance_still hok hx ht hdt, advance_still (h.status ▸ hok) (h.position ▸ hx)
            (h.targetPosition ▸ ht) hdt]
          exact ⟨h.targetPosition, rfl, h.targetPosition, h.status, Or.inr ⟨ht, ht⟩⟩
        · rw [Motor.advance, Motor.advance, if_pos hok, if_pos (h.status ▸ hok)]
          exact ⟨h.position, rfl, h.targetPosition, h.status, Or.inr ⟨hx, ht⟩⟩

end Ticks

/-! ## The services -/

/-- The services leave such states, with the same reply. -/
def Answers (x y : RobotState F × Reply) : Prop := x.1.Alike y.1 ∧ x.2 = y.2

theorem captureCb_alike (h : s.Alike t) (cameraId savePath : String) :
    Answers (captureCb s cameraId savePath) (captureCb t cameraId savePath) := by
  have hens := h.ensureCamera cameraId
  unfold captureCb
  rw [← Prod.eta (s.ensureCamera cameraId), ← Prod.eta (t.ensureCamera cameraId)]
  simp only [RobotState.ensureCamera_fst, h.camera]
  by_cases hcam : (t.camera cameraId).available = true
  · simp only [if_pos hcam]
    exact ⟨hens, rfl⟩
  · simp only [if_neg hcam]
    exact ⟨hens, rfl⟩

theorem resetCb_motor (s : RobotState F) (id : String) :
    (resetCb s).1.motor id = (s.motor id).reset := by
  cases h : s.motors id <;> simp [resetCb, RobotState.motor, h, Motor.reset, Motor.fresh]

theorem resetCb_camera (s : RobotState F) (id : String) : (resetCb s).1.camera id = ⟨true⟩ := by
  cases h : s.cameras id <;> simp [resetCb, RobotState.camera, h, Camera.fresh]

/-- After a reset nothing of the history is left that a request could tell. -/
theorem resetCb_alike (s t : RobotState F) : Answers (resetCb s) (resetCb t) := by
  refine ⟨⟨fun id => ?_, ?_, rfl⟩, rfl⟩
  · rw [resetCb_motor, resetCb_motor]
    exact ⟨rfl, rfl, rfl, rfl, Or.inr ⟨rfl, rfl⟩⟩
  · funext id
    rw [resetCb_camera, resetCb_camera]

variable [DecidableLT F]

theorem setTargetCb_alike (h : s.Alike t) (motorId : String) (target v : F) :
    Answers (setTargetCb s motorId target v) (setTargetCb t motorId target v) := by
  have hens := h.ensureMotor motorId
  have hm := h.motor motorId
  unfold setTargetCb
  by_cases hempty : motorId = ""
  · rw [if_pos hempty, if_pos hempty]
    exact ⟨h, rfl⟩
  · rw [if_neg hempty, if_neg hempty]
    simp only [RobotState.ensureMotor_fst, hm.status]
    by_cases hdead : (t.motor motorId).status = .dead
    · simp only [if_pos hdead]
      exact ⟨hens, rfl⟩
    · simp only [if_neg hdead]
      exact ⟨hens.setMotor ⟨hm.position, hm.velocity, rfl, rfl, Or.inl rfl⟩, rfl⟩

theorem injectFaultCb_alike (env : Env F) (h : s.Alike t) (target kind : String) (p : F) :
    Answers (injectFaultCb env s target kind p) (injectFaultCb env t target kind p) := by
  unfold injectFaultCb
  by_cases hmotor : startsWith target "motor:" = true
  · have hens := h.ensureMotor (afterColon target)
    have hm := h.motor (afterColon target)
    simp only [if_pos hmotor, RobotState.ensureMotor_fst]
    cases motorKindToStatus env kind with
    | ok status =>
        exact ⟨hens.setMotor ⟨hm.position, hm.velocity, hm.targetPosition, rfl, hm.speed⟩, rfl⟩
    | error e => exact ⟨hens, rfl⟩
  · rw [if_neg hmotor, if_neg hmotor]
    by_cases hcamera : startsWith target "camera:" = true
    · simp only [if_pos hcamera]
      exact ⟨(h.ensureCamera (afterColon target)).setCamera _, rfl⟩
    · rw [if_neg hcamera, if_neg hcamera]
      by_cases hbattery : target = "battery"
      · rw [if_pos hbattery, if_pos hbattery, h.battery]
        exact ⟨⟨h.motor, h.camera, rfl⟩, rfl⟩
      · rw [if_neg hbattery, if_neg hbattery]
        exact ⟨h, rfl⟩

/-! ## Histories -/

variable [Add F] [DecidableLE F]

/-- The physics loop. -/
theorem advance_alike {elapsed : ℤ} (h : s.Alike t) :
    (s.advance (seconds elapsed)).Alike (t.advance (seconds elapsed)) := by
  have hmotor : ∀ (s : RobotState F) (id : String),
      (s.advance (seconds elapsed)).motor id = (s.motor id).tick (seconds elapsed) := fun s id => by
    rw [RobotState.motor, RobotState.advance_motors, RobotState.motor]
    cases s.motors id with
    | none => exact tick_fresh.symm
    | some m => rfl
  refine ⟨fun id => ?_, ?_, ?_⟩
  · rw [hmotor, hmotor]
    exact tick_alike (h.motor id)
  · unfold RobotState.advance
    by_cases hdt : (seconds elapsed : F) ≤ 0
    · rw [if_pos hdt, if_pos hdt, h.camera]
    · rw [if_neg hdt, if_neg hdt]
      exact h.camera
  · unfold RobotState.advance
    by_cases hdt : (seconds elapsed : F) ≤ 0
    · rw [if_pos hdt, if_pos hdt, h.battery]
    · rw [if_neg hdt, if_neg hdt, h.battery]

/-- **No request or tick tells such robots apart**, and none makes them differ. -/
theorem act_alike (env : Env F) {r q : VirtualRobot F} (h : r.state.Alike q.state) (a : Act F) :
    (r.act env a).1.state.Alike (q.act env a).1.state ∧ (r.act env a).2 = (q.act env a).2 := by
  cases a with
  | setMotorTarget motorId target v =>
      have hans := setTargetCb_alike h motorId target v
      exact ⟨hans.1, congrArg (fun reply => [reply]) hans.2⟩
  | captureImage cameraId savePath =>
      have hans := captureCb_alike h cameraId savePath
      exact ⟨hans.1, congrArg (fun reply => [reply]) hans.2⟩
  | injectFault target kind p =>
      have hans := injectFaultCb_alike env h target kind p
      exact ⟨hans.1, congrArg (fun reply => [reply]) hans.2⟩
  | reset =>
      have hans := resetCb_alike r.state q.state
      exact ⟨hans.1, congrArg (fun reply => [reply]) hans.2⟩
  | tick elapsed =>
      refine ⟨?_, rfl⟩
      show (r.updatePhysics (r.lastUpdate + elapsed)).state.Alike
        (q.updatePhysics (q.lastUpdate + elapsed)).state
      rw [updatePhysics_elapsed, updatePhysics_elapsed]
      exact advance_alike h

theorem after_alike (env : Env F) {r q : VirtualRobot F} (h : r.state.Alike q.state)
    (as : List (Act F)) :
    (r.after env as).1.state.Alike (q.after env as).1.state ∧
      (r.after env as).2 = (q.after env as).2 := by
  induction as generalizing r q with
  | nil => exact ⟨h, rfl⟩
  | cons a as ih =>
      obtain ⟨hstate, hreply⟩ := act_alike env h a
      obtain ⟨hrest, hreplies⟩ := ih hstate
      exact ⟨hrest, congrArg₂ (· ++ ·) hreply hreplies⟩

theorem after_append (env : Env F) (r : VirtualRobot F) (as bs : List (Act F)) :
    (r.after env (as ++ bs)).1 = ((r.after env as).1.after env bs).1 := by
  induction as generalizing r with
  | nil => rfl
  | cons a as ih => exact ih _

/-- What a motor shows: `/virtual_robot/motor_status` publishes it. -/
structure MotorView (F : Type*) where
  position : F
  velocity : F
  targetPosition : F
  status : MotorStatus

/-- What the motor shows. -/
def Motor.view (m : Motor F) : MotorView F :=
  ⟨m.position, m.velocity, m.targetPosition, m.status⟩

/-- **A reset erases the history.** After any two histories that end with a reset, the same
requests and ticks get the same replies, and every motor, every camera and the battery show the
same. -/
theorem reset_erases (env : Env F) (now₁ now₂ : ℤ) (history₁ history₂ as : List (Act F)) :
    let r₁ := ((init now₁).after env (history₁ ++ [.reset])).1
    let r₂ := ((init now₂).after env (history₂ ++ [.reset])).1
    (r₁.after env as).2 = (r₂.after env as).2 ∧
      (∀ id, ((r₁.after env as).1.state.motor id).view =
        ((r₂.after env as).1.state.motor id).view) ∧
      (∀ id, ((r₁.after env as).1.state.camera id).available =
        ((r₂.after env as).1.state.camera id).available) ∧
      (r₁.after env as).1.state.battery.level = (r₂.after env as).1.state.battery.level := by
  intro r₁ r₂
  have hreset : r₁.state.Alike r₂.state := by
    simp only [r₁, r₂, after_append]
    exact (resetCb_alike _ _).1
  obtain ⟨hstate, hreplies⟩ := after_alike env hreset as
  refine ⟨hreplies, fun id => ?_, fun id => ?_, by rw [hstate.battery]⟩
  · have hm := hstate.motor id
    simp only [Motor.view, hm.position, hm.velocity, hm.targetPosition, hm.status]
  · rw [hstate.camera]

end States

end RobotTaskManager.Emulator
