import RobotTaskManager.Emulator.VirtualRobot

set_option autoImplicit false

/-! # Refused requests

A request that is refused should leave the state of the robot as it was. A handler creates the
motor or camera of a request before it looks at the rest, but what it has just created is neither
dead nor unavailable, so a request is refused after that for one reason only: the kind of a motor
fault is unknown. `refused_unchanged_iff` is the exact condition, for every history of the robot.
-/

namespace RobotTaskManager.Emulator

open Interleaving VirtualRobot

/-! ## The kinds of motor faults -/

/-- The kinds of faults that a motor can have. -/
def motorFaultKinds : List String := ["clear", "stuck", "dead", "unreachable"]

theorem motorKindToStatus_ok {F : Type*} (env : Env F) {kind : String}
    (h : kind ∈ motorFaultKinds) : ∃ status, motorKindToStatus env kind = .ok status := by
  simp only [motorFaultKinds, List.mem_cons, List.not_mem_nil, or_false] at h
  rcases h with rfl | rfl | rfl | rfl
  · exact ⟨.ok, rfl⟩
  · exact ⟨.stuck, rfl⟩
  · exact ⟨.dead, rfl⟩
  · exact ⟨.unreachable, rfl⟩

theorem motorKindToStatus_error {F : Type*} (env : Env F) {kind : String}
    (h : kind ∉ motorFaultKinds) : ∃ e, motorKindToStatus env kind = .error e := by
  simp only [motorFaultKinds, List.mem_cons, List.not_mem_nil, or_false, not_or] at h
  obtain ⟨hclear, hstuck, hdead, hunreachable⟩ := h
  exact ⟨_, by rw [motorKindToStatus, if_neg hclear, if_neg hstuck, if_neg hdead,
    if_neg hunreachable]⟩

section States

variable {F : Type*} [Zero F] [One F] [Sub F] [Mul F] [IntCast F] [LT F] [LE F] [PyFloat F]
  {s : RobotState F} {id : String}

/-! ## Looking up motors and cameras -/

theorem ensureMotor_of_some {m : Motor F} (h : s.motors id = some m) :
    s.ensureMotor id = (m, s) := by
  rw [RobotState.ensureMotor, h]

theorem ensureMotor_of_none (h : s.motors id = none) :
    s.ensureMotor id = (Motor.fresh, s.setMotor id Motor.fresh) := by
  rw [RobotState.ensureMotor, h]

/-- Creating a motor changes the state. -/
theorem setMotor_ne (h : s.motors id = none) (m : Motor F) : s.setMotor id m ≠ s := by
  intro heq
  have hid : (s.setMotor id m).motors id = none := by rw [heq, h]
  rw [RobotState.setMotor] at hid
  simp at hid

/-- A motor that is dead has been there before. -/
theorem ensureMotor_dead (h : (s.ensureMotor id).1.status = .dead) : (s.ensureMotor id).2 = s := by
  cases hm : s.motors id with
  | some m => rw [ensureMotor_of_some hm]
  | none =>
      rw [ensureMotor_of_none hm] at h
      cases h

/-- So has a camera that is unavailable. -/
theorem ensureCamera_unavailable (h : (s.ensureCamera id).1.available = false) :
    (s.ensureCamera id).2 = s := by
  unfold RobotState.ensureCamera at h ⊢
  cases hc : s.cameras id with
  | some c => rfl
  | none =>
      rw [hc] at h
      cases h

/-! ## The refusals of each service -/

/-- The reply tells that the request is refused. -/
def Reply.refuses : Reply → Prop
  | .setMotorTarget accepted _ => accepted = false
  | .captureImage success _ _ => success = false
  | .injectFault applied _ => applied = false
  | .reset success _ => success = false

/-- If the reply refuses the request, the state is `s` still. -/
def KeptIfRefused (s : RobotState F) (x : RobotState F × Reply) : Prop := x.2.refuses → x.1 = s

theorem captureCb_kept (cameraId savePath : String) :
    KeptIfRefused s (captureCb s cameraId savePath) := by
  unfold captureCb
  by_cases hcam : (s.ensureCamera cameraId).1.available = true
  · simp only [if_pos hcam]
    intro h
    cases h
  · simp only [if_neg hcam]
    exact fun _ => ensureCamera_unavailable (Bool.eq_false_iff.mpr hcam)

variable [DecidableLT F]

theorem setTargetCb_kept (motorId : String) (target v : F) :
    KeptIfRefused s (setTargetCb s motorId target v) := by
  unfold setTargetCb
  by_cases hempty : motorId = ""
  · rw [if_pos hempty]
    exact fun _ => rfl
  · rw [if_neg hempty]
    by_cases hdead : (s.ensureMotor motorId).1.status = .dead
    · simp only [if_pos hdead]
      exact fun _ => ensureMotor_dead hdead
    · simp only [if_neg hdead]
      intro h
      cases h

/-- The fault has a known kind, or it is for a motor that exists, or it is not for a motor. -/
def FaultKnown (s : RobotState F) (target kind : String) : Prop :=
  startsWith target "motor:" = true → kind ∉ motorFaultKinds → (s.motors (afterColon target)).isSome

theorem injectFaultCb_kept (env : Env F) (target kind : String) (p : F) :
    KeptIfRefused s (injectFaultCb env s target kind p) ↔ FaultKnown s target kind := by
  unfold injectFaultCb FaultKnown
  by_cases hmotor : startsWith target "motor:" = true
  · simp only [forall_const, hmotor]
    by_cases hkind : kind ∈ motorFaultKinds
    · obtain ⟨status, hstatus⟩ := motorKindToStatus_ok env hkind
      simp only [hstatus]
      exact iff_of_true (fun h => nomatch h) fun h => absurd hkind h
    · obtain ⟨e, he⟩ := motorKindToStatus_error env hkind
      simp only [he]
      rw [imp_iff_right hkind]
      cases hm : s.motors (afterColon target) with
      | some m =>
          rw [ensureMotor_of_some hm]
          exact iff_of_true (fun _ => rfl) rfl
      | none =>
          rw [ensureMotor_of_none hm]
          exact iff_of_false (fun h => setMotor_ne hm _ (h rfl)) (by simp)
  · refine iff_of_true ?_ fun h => absurd h hmotor
    rw [if_neg hmotor]
    by_cases hcamera : startsWith target "camera:" = true
    · rw [if_pos hcamera]
      exact fun h => nomatch h
    · rw [if_neg hcamera]
      by_cases hbattery : target = "battery"
      · rw [if_pos hbattery]
        exact fun h => nomatch h
      · rw [if_neg hbattery]
        exact fun _ => rfl

/-! ## Histories -/

variable [Add F] [DecidableLE F]

/-- The robot as a system: every request and every tick can come at any time. -/
def step (env : Env F) (r : VirtualRobot F) (a : Act F) : Option (VirtualRobot F × List Reply) :=
  some (r.act env a)

/-- If the request is refused, the state of the robot does not change. -/
def RefusedUnchanged (env : Env F) (r : VirtualRobot F) (a : Act F) : Prop :=
  (∃ reply ∈ (r.act env a).2, reply.refuses) → (r.act env a).1.state = r.state

/-- A motor fault of unknown kind is for a motor that exists. -/
def KnownFault (r : VirtualRobot F) : Act F → Prop
  | .injectFault target kind _ => FaultKnown r.state target kind
  | _ => True

theorem refusedUnchanged_iff (env : Env F) (r : VirtualRobot F) (a : Act F) :
    RefusedUnchanged env r a ↔ KnownFault r a := by
  unfold RefusedUnchanged
  cases a with
  | setMotorTarget motorId target v =>
      refine iff_of_true ?_ trivial
      rintro ⟨reply, hreply, h⟩
      exact setTargetCb_kept motorId target v (List.mem_singleton.mp hreply ▸ h)
  | captureImage cameraId savePath =>
      refine iff_of_true ?_ trivial
      rintro ⟨reply, hreply, h⟩
      exact captureCb_kept cameraId savePath (List.mem_singleton.mp hreply ▸ h)
  | injectFault target kind p =>
      refine Iff.trans ⟨fun h hrefuses => ?_, ?_⟩ (injectFaultCb_kept env target kind p)
      · exact h ⟨_, List.mem_singleton_self _, hrefuses⟩
      · rintro h ⟨reply, hreply, hrefuses⟩
        exact h (List.mem_singleton.mp hreply ▸ hrefuses)
  | reset =>
      refine iff_of_true ?_ trivial
      rintro ⟨reply, hreply, h⟩
      rw [List.mem_singleton.mp hreply] at h
      cases h
  | tick elapsed =>
      refine iff_of_true ?_ trivial
      rintro ⟨reply, hreply, -⟩
      cases hreply

/-- **Refused requests change nothing, exactly** as long as every motor fault of unknown kind is
for a motor that exists. -/
theorem refused_unchanged_iff (env : Env F) (now : ℤ) (as : List (Act F)) :
    Obeys (step env) (RefusedUnchanged env) (init now) as ↔
      Obeys (step env) KnownFault (init now) as :=
  obeys_congr (J := fun _ => True) (fun _ _ _ _ _ _ _ => trivial)
    (fun r a _ _ _ _ => refusedUnchanged_iff env r a) trivial

end States

/-- The fault "timeout" is refused, and the motor of the request is created. -/
theorem not_always_refusedUnchanged : ¬ ∀ as : List (Act ℚ),
    Obeys (step ⟨id, fun _ => ""⟩) (RefusedUnchanged ⟨id, fun _ => ""⟩) (init 0) as := by
  intro h
  have hkept := (obeys_cons rfl).mp (h [.injectFault "motor:x" "timeout" 0]) |>.1
  have hknown := (refusedUnchanged_iff _ _ _).mp hkept (by decide) (by decide)
  have hname : afterColon "motor:x" = "x" := by decide
  rw [hname] at hknown
  simp [init, seedMotors, RobotState.ensureMotor, RobotState.ensureCamera, RobotState.setMotor,
    RobotState.setCamera, RobotState.fresh, Function.update] at hknown

end RobotTaskManager.Emulator
