import RobotTaskManager.Emulator.Motion
import RobotTaskManager.Emulator.Reset
import RobotTaskManager.SkillLibrary.MotorGoals

set_option autoImplicit false

/-! # The move-motor server and the robot

The server commands the motors of the emulator through the service `set_motor_target` and learns of
them from the topic `motor_status`. Requests, responses and status messages are in flight in
between: they arrive in any order, late, or not at all. Others use the services of the robot as
well, and other goals of the server may be for the same motor.

A goal sends its request once (`served_once`), so what becomes of the goal does not touch a motor
that has been commanded (`motor_goes_on`).
-/

namespace RobotTaskManager.MotorSystem

open Interleaving Emulator Approach
open MoveMotor (Floats Request Status sent sent_cases)

variable {F : Type} [Zero F] [One F] [Add F] [Sub F] [Mul F] [IntCast F] [LT F] [LE F]
  [DecidableLT F] [DecidableLE F] [PyFloat F]

/-! ## The system -/

structure State (F : Type) [Zero F] [One F] [Sub F] [Mul F] [IntCast F] [LT F] [LE F]
    [PyFloat F] where
  server : MoveMotor.State F
  robot : VirtualRobot F
  /-- The requests of goals that the robot has not served. -/
  requests : List (Nat × Request F)
  /-- The responses for goals that have not arrived: `accepted` and `message`. -/
  replies : List (Nat × Bool × String)
  statuses : List (List (String × Status F))

def State.init (clock : Nat) (now : ℤ) : State F :=
  ⟨MoveMotor.State.init clock, VirtualRobot.init now, [], [], []⟩

inductive Event (F : Type)
  | server (e : MoveMotor.Event F)
  /-- The robot serves the request of a goal. -/
  | served (g : Nat) (request : Request F) (replies : List Reply)
  /-- It serves a request of somebody else, or ticks. -/
  | robot (a : Emulator.Act F) (replies : List Reply)
  /-- It publishes the status of its motors. -/
  | published (motors : List (String × Status F))

inductive Act (F : Type)
  /-- A step of the server that receives nothing from the robot. -/
  | server (a : MoveMotor.Act F)
  /-- The robot serves a request of the server. -/
  | serve (i : Nat)
  /-- A response arrives, or comes to nothing since nobody waits for it. -/
  | respond (i : Nat)
  | forget (i : Nat)
  /-- A request of somebody else, or a tick. -/
  | robot (a : Emulator.Act F)
  /-- `_publish_status`, with the ids of the motors in the order of the dict. -/
  | publishStatus (ids : List String)
  /-- A status message arrives, or is lost. -/
  | onStatus (i : Nat)
  | lose (i : Nat)

/-- The array of `_publish_status`. -/
def publishStatus (r : RobotState F) (ids : List String) : List (String × Status F) :=
  ids.filterMap fun id => (r.motors id).map fun m => (id, ⟨m.position, m.status⟩)

/-- The request of a goal as the robot gets it. -/
def asAct (request : Request F) : Emulator.Act F :=
  .setMotorTarget request.motorId request.targetPosition request.maxVelocity

/-- The response to the request of a goal. -/
def responses (g : Nat) (replies : List Reply) : List (Nat × Bool × String) :=
  replies.filterMap fun
    | .setMotorTarget accepted message => some (g, accepted, message)
    | _ => none

/-- The server receives something. -/
def receives : MoveMotor.Act F → Bool
  | .status _ => true
  | .respond _ _ _ => true
  | _ => false

/-- A step of the server; what it sends is in flight afterwards. -/
def serverStep (φ : Floats F) (s : State F) (a : MoveMotor.Act F) :
    Option (State F × List (Event F)) :=
  (MoveMotor.step φ s.server a).map fun after =>
    ({ s with server := after.1, requests := s.requests ++ sent after.2 }, after.2.map .server)

def step (φ : Floats F) (env : Env F) (s : State F) : Act F → Option (State F × List (Event F))
  | .server a => if receives a then none else serverStep φ s a
  | .serve i =>
      match s.requests[i]? with
      | none => none
      | some (g, request) =>
          let after := s.robot.act env (asAct request)
          some ({ s with
              robot := after.1
              requests := s.requests.eraseIdx i
              replies := s.replies ++ responses g after.2 },
            [.served g request after.2])
  | .respond i =>
      match s.replies[i]? with
      | none => none
      | some (g, accepted, message) =>
          serverStep φ { s with replies := s.replies.eraseIdx i } (.respond g accepted message)
  | .forget i => some ({ s with replies := s.replies.eraseIdx i }, [])
  | .robot a =>
      let after := s.robot.act env a
      some ({ s with robot := after.1 }, [.robot a after.2])
  | .publishStatus ids =>
      let motors := publishStatus s.robot.state ids
      some ({ s with statuses := s.statuses ++ [motors] }, [.published motors])
  | .onStatus i =>
      match s.statuses[i]? with
      | none => none
      | some motors => serverStep φ { s with statuses := s.statuses.eraseIdx i } (.status motors)
  | .lose i => some ({ s with statuses := s.statuses.eraseIdx i }, [])

/-! ## What a step can do -/

/-- The steps of the system, with what they change: the server takes a step on what was in flight,
or the robot does something, or something gets lost. -/
inductive Move (φ : Floats F) (env : Env F) (s : State F) : State F → List (Event F) → Prop
  | server {a : MoveMotor.Act F} {server : MoveMotor.State F} {es : List (MoveMotor.Event F)}
      {replies : List (Nat × Bool × String)} {statuses : List (List (String × Status F))} :
      MoveMotor.step φ s.server a = some (server, es) →
      (∀ motors, a = .status motors → motors ∈ s.statuses) →
      (∀ g accepted message, a = .respond g accepted message →
        (g, accepted, message) ∈ s.replies) →
      replies ⊆ s.replies → statuses ⊆ s.statuses →
      Move φ env s ⟨server, s.robot, s.requests ++ sent es, replies, statuses⟩ (es.map .server)
  | serve {i g : Nat} {request : Request F} : s.requests[i]? = some (g, request) →
      Move φ env s
        { s with
          robot := (s.robot.act env (asAct request)).1
          requests := s.requests.eraseIdx i
          replies := s.replies ++ responses g (s.robot.act env (asAct request)).2 }
        [.served g request (s.robot.act env (asAct request)).2]
  | robot {a : Emulator.Act F} :
      Move φ env s { s with robot := (s.robot.act env a).1 } [.robot a (s.robot.act env a).2]
  | publishStatus {ids : List String} :
      Move φ env s { s with statuses := s.statuses ++ [publishStatus s.robot.state ids] }
        [.published (publishStatus s.robot.state ids)]
  | lost {replies : List (Nat × Bool × String)} {statuses : List (List (String × Status F))} :
      replies ⊆ s.replies → statuses ⊆ s.statuses → Move φ env s { s with replies, statuses } []

section System

variable {φ : Floats F} {env : Env F} {s s' : State F} {a : Act F} {tr es : List (Event F)}
  {g : Nat}

omit [Add F] [DecidableLT F] [DecidableLE F] in
theorem serverStep_eq {b : MoveMotor.Act F} (h : serverStep φ s b = some (s', es)) :
    ∃ es', MoveMotor.step φ s.server b = some (s'.server, es') ∧
      s' = { s with server := s'.server, requests := s.requests ++ sent es' } ∧
      es = es'.map .server := by
  obtain ⟨⟨server, es'⟩, hst, heq⟩ := Option.map_eq_some_iff.mp h
  cases heq
  exact ⟨es', hst, rfl, rfl⟩

theorem Move.of_step (h : step φ env s a = some (s', es)) : Move φ env s s' es := by
  cases a with
  | server b =>
      obtain ⟨hnot, h⟩ := Option.ite_none_left_eq_some.mp h
      obtain ⟨es', hst, hs', rfl⟩ := serverStep_eq h
      rw [hs']
      refine .server hst ?_ ?_ (List.Subset.refl _) (List.Subset.refl _)
      · rintro motors rfl
        exact absurd rfl hnot
      · rintro g accepted message rfl
        exact absurd rfl hnot
  | serve i =>
      rw [step] at h
      split at h
      · cases h
      · rename_i hreq
        cases h
        exact .serve hreq
  | respond i =>
      rw [step] at h
      split at h
      · cases h
      · rename_i hreply
        obtain ⟨es', hst, hs', rfl⟩ := serverStep_eq h
        rw [hs']
        refine .server hst (by simp) ?_ (List.eraseIdx_subset) (List.Subset.refl _)
        intro g' accepted' message' heq
        cases heq
        exact List.mem_of_getElem? hreply
  | forget i =>
      cases h
      exact .lost List.eraseIdx_subset (List.Subset.refl _)
  | robot b =>
      cases h
      exact .robot
  | publishStatus ids =>
      cases h
      exact .publishStatus
  | onStatus i =>
      rw [step] at h
      split at h
      · cases h
      · rename_i hmotors
        obtain ⟨es', hst, hs', rfl⟩ := serverStep_eq h
        rw [hs']
        refine .server hst ?_ (by simp) (List.Subset.refl _) List.eraseIdx_subset
        intro motors' heq
        cases heq
        exact List.mem_of_getElem? hmotors
  | lose i =>
      cases h
      exact .lost (List.Subset.refl _) List.eraseIdx_subset

/-! ## The robot of a run -/

/-- What the robot is asked, and its ticks. -/
def robotActs (tr : List (Event F)) : List (Emulator.Act F) :=
  tr.filterMap fun
    | .served _ request _ => some (asAct request)
    | .robot a _ => some a
    | _ => none

omit [Zero F] [One F] [Add F] [Sub F] [Mul F] [IntCast F] [LT F] [LE F] [DecidableLT F]
  [DecidableLE F] [PyFloat F] in
theorem robotActs_server (es : List (MoveMotor.Event F)) : robotActs (es.map .server) = [] := by
  rw [robotActs, List.filterMap_map]
  exact List.filterMap_eq_nil_iff.mpr fun _ _ => rfl

/-- A step of the system is one step of the robot, or none. -/
theorem robot_step (h : step φ env s a = some (s', es)) :
    s'.robot = (s.robot.after env (robotActs es)).1 := by
  cases Move.of_step h with
  | server =>
      rw [robotActs_server]
      rfl
  | _ => rfl

/-- **The robot of a run** is the robot after what it was asked in the run. -/
theorem robot_of_run (h : Run (step φ env) anyStep s tr s') :
    s'.robot = (s.robot.after env (robotActs tr)).1 := by
  induction h with
  | nil => rfl
  | @cons s₁ s₂ s₃ a es tr _ hst _ ih =>
      have hacts : robotActs (es ++ tr) = robotActs es ++ robotActs tr := List.filterMap_append
      rw [ih, robot_step hst, hacts, after_append]

/-! ## A goal sends its request once -/

/-- Every goal has at most one request in flight, and then it has sent it. -/
structure InFlight (s : State F) : Prop where
  past : ∀ p ∈ s.requests, s.server.PastSend p.1
  nodup : (s.requests.map Prod.fst).Nodup

/-- The request of the goal is no longer in flight, and will not be again. -/
structure Served (g : Nat) (s : State F) : Prop where
  past : s.server.PastSend g
  gone : ∀ p ∈ s.requests, p.1 ≠ g

theorem InFlight.step (hI : InFlight s) (h : MotorSystem.step φ env s a = some (s', es)) :
    InFlight s' := by
  cases Move.of_step h with
  | server hst =>
      have hpast : ∀ p ∈ s.requests, MoveMotor.State.PastSend _ p.1 := fun p hp =>
        (hI.past p hp).step hst
      rcases sent_cases hst with hsent | ⟨g, goal, goal', hg, hpc, hg', hpast', rfl⟩
      · rw [hsent, List.append_nil]
        exact ⟨hpast, hI.nodup⟩
      -- a goal that comes to `async_send_request` has no request in flight
      · have hnew : g ∉ s.requests.map Prod.fst := by
          intro hmem
          obtain ⟨p, hp, rfl⟩ := List.mem_map.mp hmem
          obtain ⟨goal₁, hg₁, hsent⟩ := hI.past p hp
          obtain rfl := Option.some.inj (hg₁.symm.trans hg)
          rw [hpc] at hsent
          exact hsent
        refine ⟨fun p hp => ?_, ?_⟩
        · rcases List.mem_append.mp hp with hp | hp
          · exact hpast p hp
          · cases List.mem_singleton.mp hp
            exact ⟨goal', hg', hpast'⟩
        · rw [List.map_append]
          exact hI.nodup.append (List.nodup_singleton g) (by simpa [sent] using hnew)
  | @serve i =>
      exact ⟨fun p hp => hI.past p (List.mem_of_mem_eraseIdx hp),
        hI.nodup.sublist ((List.eraseIdx_sublist s.requests i).map Prod.fst)⟩
  | robot => exact ⟨hI.past, hI.nodup⟩
  | publishStatus => exact ⟨hI.past, hI.nodup⟩
  | lost => exact ⟨hI.past, hI.nodup⟩

/-- When the robot serves the request of a goal, there is no other one of it. -/
theorem InFlight.served {i : Nat} {request : Request F} (hI : InFlight s)
    (hreq : s.requests[i]? = some (g, request)) (h : MotorSystem.step φ env s (.serve i) =
      some (s', es)) : Served g s' := by
  rw [MotorSystem.step, hreq] at h
  cases h
  refine ⟨hI.past _ (List.mem_of_getElem? hreq), ?_⟩
  rintro ⟨g', request'⟩ hp rfl
  obtain ⟨j, hji, hj⟩ := List.mem_eraseIdx_iff_getElem?.mp hp
  have hlt : j < (s.requests.map Prod.fst).length := by
    rw [List.length_map]
    exact (List.getElem?_eq_some_iff.mp hj).1
  refine hji ((List.getElem?_inj hlt hI.nodup).mp ?_)
  rw [List.getElem?_map, List.getElem?_map, hj, hreq]
  rfl

theorem Served.step (hS : Served g s) (h : MotorSystem.step φ env s a = some (s', es)) :
    Served g s' ∧ ∀ request replies, .served g request replies ∉ es := by
  cases Move.of_step h with
  | server hst =>
      refine ⟨⟨hS.past.step hst, fun p hp => ?_⟩, by simp⟩
      rcases List.mem_append.mp hp with hp | hp
      · exact hS.gone p hp
      · rcases sent_cases hst with hsent | ⟨g', goal, goal', hg, hpc, -, -, rfl⟩
        · rw [hsent] at hp
          cases hp
        -- the goal that sends has not sent before
        · cases List.mem_singleton.mp hp
          rintro rfl
          obtain ⟨goal₁, hg₁, hpast⟩ := hS.past
          obtain rfl := Option.some.inj (hg₁.symm.trans hg)
          rw [hpc] at hpast
          exact hpast
  | serve hreq =>
      have hne := hS.gone _ (List.mem_of_getElem? hreq)
      exact ⟨⟨hS.past, fun p hp => hS.gone p (List.mem_of_mem_eraseIdx hp)⟩,
        fun _ _ hmem => hne (Event.served.inj (List.mem_singleton.mp hmem)).1.symm⟩
  | robot => exact ⟨⟨hS.past, hS.gone⟩, by simp⟩
  | publishStatus => exact ⟨⟨hS.past, hS.gone⟩, by simp⟩
  | lost => exact ⟨⟨hS.past, hS.gone⟩, by simp⟩

/-- **A request that has been served is not served again.** -/
theorem served_once (h : Run (step φ env) anyStep s tr s') (hS : Served g s) :
    ∀ request replies, .served g request replies ∉ tr :=
  (h.history (H := fun tr s => Served g s ∧ ∀ request replies, .served g request replies ∉ tr)
    (fun _ _ _ _ _ hH _ hst => ⟨(hH.1.step hst).1, fun request replies hmem =>
      (List.mem_append.mp hmem).elim (hH.2 request replies) ((hH.1.step hst).2 request replies)⟩)
    ⟨hS, fun _ _ => List.not_mem_nil⟩).2

theorem inFlight_of_run {clock : Nat} {now : ℤ}
    (h : Run (step φ env) anyStep (State.init clock now) tr s) : InFlight s :=
  h.invariant (fun _ _ _ _ hI _ hst => hI.step hst) ⟨by simp [State.init], by simp [State.init]⟩

/-! ## A motor that has been commanded -/

/-- The event is no command for the motor by another than goal `g`, gives the motor no status and
is no reset. -/
def Event.Spares (g : Nat) (id : String) : Event F → Prop
  | .served g' request _ => g' = g ∨ request.motorId ≠ id
  | .robot a _ => a.Leaves id
  | .server _ => True
  | .published _ => True

instance (g : Nat) (id : String) : (e : Event F) → Decidable (e.Spares g id)
  | .served _ _ _ => inferInstanceAs (Decidable (_ ∨ _))
  | .robot a _ => inferInstanceAs (Decidable (a.Leaves id))
  | .server _ => isTrue trivial
  | .published _ => isTrue trivial

omit [Zero F] [One F] [Add F] [Sub F] [Mul F] [IntCast F] [LT F] [LE F] [DecidableLT F]
  [DecidableLE F] [PyFloat F] in
/-- Without requests of goal `g`, the robot leaves a spared motor alone. -/
theorem leaves_of_spares {id : String} (h : ∀ e ∈ tr, e.Spares g id)
    (honce : ∀ request replies, .served g request replies ∉ tr) :
    ∀ a ∈ robotActs tr, a.Leaves id := by
  intro a ha
  obtain ⟨e, he, hsome⟩ := List.mem_filterMap.mp ha
  have hspares : e.Spares g id := h e he
  cases e with
  | served g' request replies =>
      cases hsome
      rcases hspares with rfl | hne
      · exact absurd he (honce request replies)
      · exact hne
  | robot b replies =>
      cases hsome
      exact hspares
  | server e => cases hsome
  | published motors => cases hsome

omit [Add F] [DecidableLE F] in
/-- A motor whose target has been accepted has the target and the speed of the request. -/
theorem setTargetCb_accepted {r : RobotState F} {id message : String} {target speed : F}
    (h : (setTargetCb r id target speed).2 = .setMotorTarget true message) :
    ∃ m, (setTargetCb r id target speed).1.motors id = some m ∧ m.targetPosition = target ∧
      m.maxVelocity = pyMax PyFloat.milli speed := by
  unfold setTargetCb at h ⊢
  split at h
  · cases h
  · rename_i hid
    rw [if_neg hid]
    dsimp only at h ⊢
    split at h
    · cases h
    · rename_i hdead
      rw [if_neg hdead]
      exact ⟨_, Function.update_self _ _ _, rfl, rfl⟩

/-- What the robot does when it serves a request. -/
theorem serve_eq {i : Nat} {request : Request F} {message : String}
    (h : step φ env s (.serve i) =
      some (s', [.served g request [.setMotorTarget true message]])) :
    s.requests[i]? = some (g, request) ∧
      s'.robot.state =
        (setTargetCb s.robot.state request.motorId request.targetPosition request.maxVelocity).1 ∧
      (setTargetCb s.robot.state request.motorId request.targetPosition request.maxVelocity).2 =
        .setMotorTarget true message := by
  rw [step] at h
  split at h
  · cases h
  · rename_i g' request' hreq
    obtain ⟨hs, hes⟩ := Prod.mk.inj (Option.some.inj h)
    obtain ⟨rfl, rfl, hreplies⟩ := Event.served.inj (List.cons.inj hes).1
    rw [← hs]
    exact ⟨hreq, rfl, (List.cons.inj hreplies).1⟩

end System

/-- **A motor goes on to its target**, whatever becomes of the goal: from the moment when the robot
accepts the target of a goal for a motor that is ok, the way that is left depends on the ticks of
the robot only, as long as nobody else commands the motor. To cancel the goal, to let it time out,
to deactivate, to clean up or to shut down the server does not stop the motor: the goal has sent its
only request. -/
theorem motor_goes_on {F : Type} [Field F] [LinearOrder F] [IsStrictOrderedRing F] {φ : Floats F}
    {env : Env F} {clock : Nat} {now : ℤ} {s s₁ s' : State F} {tr₀ tr : List (Event F)} {i g : Nat}
    {request : Request F} {message : String} {m : Motor F}
    (hreach : Run (step φ env) anyStep (State.init clock now) tr₀ s)
    (hserve : step φ env s (.serve i) =
      some (s₁, [.served g request [.setMotorTarget true message]]))
    (hm : s₁.robot.state.motors request.motorId = some m) (hok : m.status = .ok)
    (h : Run (step φ env) anyStep s₁ tr s') (hothers : ∀ e ∈ tr, e.Spares g request.motorId) :
    ∃ m', s'.robot.state.motors request.motorId = some m' ∧
      |request.targetPosition - m'.position| =
        max 0 (|request.targetPosition - m.position| -
          pyMax PyFloat.milli request.maxVelocity * moving (ticks (robotActs tr))) := by
  obtain ⟨hreq, hstate, haccepted⟩ := serve_eq hserve
  have hleaves : ∀ a ∈ robotActs tr, a.Leaves request.motorId :=
    leaves_of_spares hothers (served_once h ((inFlight_of_run hreach).served hreq hserve))
  obtain ⟨m₁, hm₁, htarget, hspeed⟩ := setTargetCb_accepted haccepted
  rw [hstate] at hm
  obtain rfl := Option.some.inj (hm₁.symm.trans hm)
  refine ⟨(ticks (robotActs tr)).foldl Motor.tick m₁, ?_, ?_⟩
  · rw [robot_of_run h]
    exact after_motor env (hstate ▸ hm) hleaves
  · rw [foldl_position_moving hok, htarget, hspeed, dist_approach]
    exact mul_nonneg (hspeed ▸ m₁.maxVelocity_pos.le) (moving_nonneg _)

/-- A robot without `repr` and `.2f`, and the target of a goal on its way to it. -/
def plainEnv : Env ℚ := ⟨id, fun _ => ""⟩

theorem sentTarget_isSome : (runActs (step MoveMotor.ratFloats plainEnv) anyStep (State.init 0 0)
    [.server (.transition .configure), .server (.transition .activate),
      .server (.goal ⟨"base_x", 1, 1⟩), .server (.thread 0 true), .server (.thread 0 true),
      .server (.thread 0 true)]).isSome := by
  decide +kernel

def sentTarget : State ℚ := (Option.get _ sentTarget_isSome).1

def acceptedTarget : State ℚ :=
  ((step MoveMotor.ratFloats plainEnv sentTarget (.serve 0)).get (by decide +kernel)).1

/-- The goal is canceled, the server is taken down, and another goal is for another motor; the motor
gets to the target. -/
def canceledGoal : List (Act ℚ) :=
  [.respond 0, .server (.goal ⟨"lift", 1, 1⟩), .server (.thread 1 true), .server (.thread 1 true),
    .server (.thread 1 true), .serve 0, .server (.thread 0 true), .server (.cancel 0),
    .robot (.tick 700000000), .server (.thread 0 true), .server (.thread 0 true),
    .server (.transition .deactivate), .robot (.tick 500000000)]

theorem canceledGoal_isSome : (runActs (step MoveMotor.ratFloats plainEnv) anyStep acceptedTarget
    canceledGoal).isSome := by
  decide +kernel

theorem canceledGoal_goes_on : ∃ (s' : State ℚ) (m' : Motor ℚ),
    s'.robot.state.motors "base_x" = some m' ∧ m'.position = 1 := by
  have hspeed : pyMax PyFloat.milli 1 = (1 : ℚ) := by norm_num [pyMax, PyFloat.milli]
  have hserve : step MoveMotor.ratFloats plainEnv sentTarget (.serve 0) =
      some (acceptedTarget, [.served 0 ⟨"base_x", 1, 1⟩ [.setMotorTarget true "ok"]]) := rfl
  have hm : acceptedTarget.robot.state.motors "base_x" =
      some ⟨0, 0, 1, pyMax PyFloat.milli 1, .ok, pyMax_milli_pos 1⟩ := rfl
  have hacts : robotActs (Option.get _ canceledGoal_isSome).2 =
      [asAct ⟨"lift", 1, 1⟩, .tick 700000000, .tick 500000000] := rfl
  obtain ⟨m', hm', hdist⟩ := motor_goes_on (Run.of_isSome sentTarget_isSome) hserve hm rfl
    (Run.of_isSome canceledGoal_isSome) (by decide +kernel)
  rw [hacts] at hdist
  have hzero : |(1 : ℚ) - m'.position| = 0 := by
    refine hdist.trans ?_
    norm_num [hspeed, moving, positive, ticks, seconds, PyFloat.nano, asAct]
  exact ⟨_, m', hm', (sub_eq_zero.mp (abs_eq_zero.mp hzero)).symm⟩

end RobotTaskManager.MotorSystem
