import RobotTaskManager.Emulator.VirtualRobot
import RobotTaskManager.SkillLibrary.DriveToPose

set_option autoImplicit false

/-! # The move-motor server

`MoveMotorServer` of `mw_skill_library`, a lifecycle node. Every accepted goal runs `execute` in a
detached thread of its own: it commands the motor through a service of the robot and then watches
the motor's status until the target is reached. The threads share the statuses received so far and
the service client, which `on_configure` makes and `on_cleanup` releases; all callbacks run on one
other thread, one after the other. A step is one pass of a thread up to its next access to something
shared, or one callback.

The environment chooses what a wait for the service gives and when the wait for its reply is over.
The arithmetic of `double` is a parameter (`Floats`). `now()` counts nanoseconds.
-/

namespace RobotTaskManager.MoveMotor

open Emulator (MotorStatus)
open DriveToPose (TerminalCall)

/-! ## Numbers -/

structure Floats (F : Type) where
  lit : ℚ → F
  sub : F → F → F
  div : F → F → F
  abs : F → F
  lt : F → F → Bool
  le : F → F → Bool
  eq : F → F → Bool

variable {F : Type}

/-- `std::max` -/
def Floats.max (φ : Floats F) (a b : F) : F := if φ.lt a b then b else a

/-- `tolerance` -/
def Floats.tolerance (φ : Floats F) : F := φ.lit (5 / 1000)

/-- `overall_timeout_sec`, and the time after which a stuck motor is given up. -/
def overallTimeout : Nat := 30000000000
def stuckTimeout : Nat := 2000000000

/-! ## Messages -/

/-- The request part of the `MoveMotor` action. -/
structure Request (F : Type) where
  motorId : String
  targetPosition : F
  maxVelocity : F

/-- The result part of the `MoveMotor` action. -/
structure Result (F : Type) where
  finalPosition : F
  succeeded : Bool
  message : String

/-- An entry of a `MotorStatusArray`, as far as the server reads it. -/
structure Status (F : Type) where
  position : F
  status : MotorStatus

/-- A result that has not been filled in, but for `succeeded` and `message`. -/
def Floats.failure (φ : Floats F) (message : String) : Result F := ⟨φ.lit 0, false, message⟩

/-- `err_abs` -/
def Floats.error (φ : Floats F) (goal : Request F) (position : F) : F :=
  φ.abs (φ.sub position goal.targetPosition)

/-- `feedback->progress` -/
def Floats.progress (φ : Floats F) (goal : Request F) (position : F) : F :=
  if φ.eq goal.targetPosition (φ.lit 0) then φ.lit 1
  else
    φ.max (φ.lit 0)
      (φ.sub (φ.lit 1) (φ.div (φ.error goal position) (φ.abs goal.targetPosition)))

/-! ## State -/

/-- Where the `execute` of a goal is. -/
inductive Pc (F : Type)
  /-- The thread has been started. -/
  | started
  /-- In `wait_for_service` of a client. -/
  | waitService (client : Nat)
  /-- Before `async_send_request`. -/
  | send
  /-- In `future.wait_for`, with the response if it has come: `accepted` and `message`. -/
  | waitReply (client : Nat) (response : Option (Bool × String))
  /-- The top of the loop. -/
  | loop (start : Nat)
  /-- Before `tryGetStatus`. -/
  | readStatus (start : Nat)
  /-- With the status of a motor that is not in a fault state. -/
  | judge (start : Nat) (st : Status F)
  /-- Before the call that ends the goal. -/
  | closing (call : TerminalCall) (result : Result F)
  /-- `execute` has returned. -/
  | returned

/-- An accepted goal with its thread, the action server that accepted it and what its handle
knows. -/
structure Goal (F : Type) where
  request : Request F
  pc : Pc F
  server : Nat
  canceling : Bool
  terminal : Option TerminalCall

/-- The primary states of a lifecycle node. -/
inductive Lifecycle
  | unconfigured
  | inactive
  | active
  | finalized
  deriving DecidableEq

inductive Transition
  | configure
  | activate
  | deactivate
  | cleanup
  | shutdown
  deriving DecidableEq

structure State (F : Type) where
  clock : Nat
  lifecycle : Lifecycle
  /-- `set_target_client_` and `action_server_`; the objects that the node makes are numbered. -/
  client : Option Nat
  clients : Nat
  actionServer : Option Nat
  actionServers : Nat
  /-- `status_sub_` is there. -/
  subscribed : Bool
  latest : String → Option (Status F)
  goals : List (Goal F)
  /-- `rclcpp::ok()` -/
  ok : Bool
  /-- A thread has used a client that is not there, or has met a broken promise. -/
  crashed : Bool

def State.init (clock : Nat) : State F :=
  ⟨clock, .unconfigured, none, 0, none, 0, false, fun _ => none, [], true, false⟩

inductive Event (F : Type)
  | accepted (g : Nat)
  /-- `async_send_request` for a goal. -/
  | commanded (g : Nat) (request : Request F)
  | feedback (g : Nat) (currentPosition progress : F)
  | terminal (g : Nat) (call : TerminalCall) (result : Result F)
  | crashed (g : Nat)

inductive Act (F : Type)
  /-- A goal arrives: `handleGoal` and `handleAccepted`. -/
  | goal (request : Request F)
  /-- A cancel request for a goal that has not ended: `handleCancel`. -/
  | cancel (g : Nat)
  | transition (t : Transition)
  /-- `onStatus` -/
  | status (motors : List (String × Status F))
  /-- The response to the request of the goal arrives. -/
  | respond (g : Nat) (accepted : Bool) (message : String)
  | advance (d : Nat)
  /-- `rclcpp::shutdown()` -/
  | shutdown
  /-- The thread of the goal goes on. Where it waits, `available` tells whether the service is
  there; a wait for the response that goes on without one has timed out. -/
  | thread (g : Nat) (available : Bool)

/-! ## Callbacks -/

/-- `on_configure`, `on_activate`, `on_deactivate`, `on_cleanup` and `on_shutdown`, each in the
states that its transition starts from. -/
def State.transition (s : State F) : Transition → Option (State F)
  | .configure =>
      if s.lifecycle = .unconfigured then
        some { s with
          lifecycle := .inactive
          client := some s.clients
          clients := s.clients + 1
          subscribed := true }
      else none
  | .activate =>
      if s.lifecycle = .inactive then
        some { s with
          lifecycle := .active
          actionServer := some s.actionServers
          actionServers := s.actionServers + 1 }
      else none
  | .deactivate =>
      if s.lifecycle = .active then some { s with lifecycle := .inactive, actionServer := none }
      else none
  | .cleanup =>
      if s.lifecycle = .inactive then
        some { s with
          lifecycle := .unconfigured
          client := none
          subscribed := false
          latest := fun _ => none }
      else none
  | .shutdown =>
      if s.lifecycle = .finalized then none
      else
        some { s with
          lifecycle := .finalized
          client := none
          actionServer := none
          subscribed := false }

/-- The loop of `onStatus`. -/
def latestAfter (latest : String → Option (Status F)) (motors : List (String × Status F)) :
    String → Option (Status F) :=
  motors.foldl (fun latest m => Function.update latest m.1 (some m.2)) latest

/-! ## Threads -/

/-- After the status has been found: the feedback, then the tests for a stuck motor and for the
target. -/
def judgeStep (φ : Floats F) (s : State F) (g : Nat) (goal : Goal F) (start : Nat)
    (st : Status F) : Pc F × List (Event F) :=
  let err := φ.error goal.request st.position
  let pc :=
    if st.status = .stuck ∧ s.clock - start > stuckTimeout ∧ φ.lt φ.tolerance err then
      .closing .abort ⟨st.position, false, "motor stuck"⟩
    else if φ.le err φ.tolerance then .closing .succeed ⟨st.position, true, "ok"⟩
    else .loop start
  (pc, [.feedback g st.position (φ.progress goal.request st.position)])

/-- One step of the thread of goal `g`: the position afterwards, whether the goal ends, and the
events. -/
def threadStep (φ : Floats F) (s : State F) (g : Nat) (goal : Goal F) (available : Bool) :
    Option (Pc F × Option TerminalCall × List (Event F)) :=
  match goal.pc with
  | .started =>
      match s.client with
      | none =>
          some (.closing .abort (φ.failure "emulator set_motor_target service unavailable"),
            goal.terminal, [])
      | some c => some (.waitService c, goal.terminal, [])
  | .waitService _ =>
      if available then some (.send, goal.terminal, [])
      else
        some (.closing .abort (φ.failure "emulator set_motor_target service unavailable"),
          goal.terminal, [])
  | .send =>
      s.client.map fun c => (.waitReply c none, goal.terminal, [.commanded g goal.request])
  | .waitReply _ (some (true, _)) => some (.loop s.clock, goal.terminal, [])
  | .waitReply _ (some (false, message)) =>
      some (.closing .abort (φ.failure ("emulator rejected target: " ++ message)), goal.terminal,
        [])
  | .waitReply _ none =>
      some (.closing .abort (φ.failure "set_motor_target timed out"), goal.terminal, [])
  | .loop start =>
      if !s.ok then some (.returned, goal.terminal, [])
      else if goal.canceling then
        some (.closing .canceled (φ.failure "canceled"), goal.terminal, [])
      else if s.clock - start > overallTimeout then
        some (.closing .abort (φ.failure "timeout waiting for motor to reach target"),
          goal.terminal, [])
      else some (.readStatus start, goal.terminal, [])
  | .readStatus start =>
      match s.latest goal.request.motorId with
      -- `rate.sleep()`
      | none => some (.loop start, goal.terminal, [])
      | some st =>
          if st.status = .dead ∨ st.status = .unreachable then
            some (.closing .abort ⟨st.position, false, "motor in fault state"⟩, goal.terminal, [])
          else some (.judge start st, goal.terminal, [])
  | .judge start st =>
      let after := judgeStep φ s g goal start st
      some (after.1, goal.terminal, after.2)
  | .closing call result => some (.returned, some call, [.terminal g call result])
  | .returned => none

/-- The thread is about to use a client that is not there, or comes back to one that has been
released while it waited: in the client itself, or for a response, whose promise is broken then. -/
def Goal.dangling (s : State F) (goal : Goal F) : Bool :=
  match goal.pc with
  | .waitService c => s.client ≠ some c
  | .send => s.client.isNone
  | .waitReply c none => s.client ≠ some c
  | _ => false

/-- One step of the process. -/
def step (φ : Floats F) (s : State F) (a : Act F) : Option (State F × List (Event F)) :=
  if s.crashed then none
  else
    match a with
    | .goal request =>
        -- `handleGoal` looks at nothing but the request it logs
        match s.actionServer with
        | none => none
        | some server =>
            if s.ok then
              some ({ s with goals := s.goals ++ [⟨request, .started, server, false, none⟩] },
                [.accepted s.goals.length])
            else none
    | .cancel g =>
        match s.goals[g]? with
        | none => none
        | some goal =>
            if s.ok ∧ goal.terminal = none ∧ s.actionServer = some goal.server then
              some ({ s with goals := s.goals.set g { goal with canceling := true } }, [])
            else none
    | .transition t => if s.ok then (s.transition t).map fun s' => (s', []) else none
    | .status motors =>
        if s.ok ∧ s.subscribed then some ({ s with latest := latestAfter s.latest motors }, [])
        else none
    | .respond g accepted message =>
        match s.goals[g]? with
        | none => none
        | some goal =>
            match goal.pc with
            | .waitReply c none =>
                let pc : Pc F := .waitReply c (some (accepted, message))
                if s.ok ∧ s.client = some c then
                  some ({ s with goals := s.goals.set g { goal with pc } }, [])
                else none
            | _ => none
    | .advance d => some ({ s with clock := s.clock + d }, [])
    | .shutdown => some ({ s with ok := false }, [])
    | .thread g available =>
        match s.goals[g]? with
        | none => none
        | some goal =>
            if goal.dangling s then some ({ s with crashed := true }, [.crashed g])
            else
              match threadStep φ s g goal available with
              | none => none
              | some (pc, terminal, es) =>
                  some ({ s with goals := s.goals.set g { goal with pc, terminal } }, es)

/-! ## What a step can do -/

/-- The passes of a thread, by where it was: the position afterwards, whether the goal has ended,
and the events. -/
inductive ThreadMove (φ : Floats F) (s : State F) (g : Nat) (goal : Goal F) :
    Pc F → Option TerminalCall → List (Event F) → Prop
  | noClient : goal.pc = .started → s.client = none →
      ThreadMove φ s g goal
        (.closing .abort (φ.failure "emulator set_motor_target service unavailable"))
        goal.terminal []
  | start {c : Nat} : goal.pc = .started → s.client = some c →
      ThreadMove φ s g goal (.waitService c) goal.terminal []
  | noService {c : Nat} : goal.pc = .waitService c →
      ThreadMove φ s g goal
        (.closing .abort (φ.failure "emulator set_motor_target service unavailable"))
        goal.terminal []
  | service {c : Nat} : goal.pc = .waitService c → ThreadMove φ s g goal .send goal.terminal []
  | command {c : Nat} : goal.pc = .send → s.client = some c →
      ThreadMove φ s g goal (.waitReply c none) goal.terminal [.commanded g goal.request]
  | enter {c : Nat} {message : String} : goal.pc = .waitReply c (some (true, message)) →
      ThreadMove φ s g goal (.loop s.clock) goal.terminal []
  | rejected {c : Nat} {message : String} : goal.pc = .waitReply c (some (false, message)) →
      ThreadMove φ s g goal
        (.closing .abort (φ.failure ("emulator rejected target: " ++ message))) goal.terminal []
  | noReply {c : Nat} : goal.pc = .waitReply c none →
      ThreadMove φ s g goal (.closing .abort (φ.failure "set_motor_target timed out"))
        goal.terminal []
  | shutDown {start : Nat} : goal.pc = .loop start → s.ok = false →
      ThreadMove φ s g goal .returned goal.terminal []
  | canceled {start : Nat} : goal.pc = .loop start → goal.canceling = true →
      ThreadMove φ s g goal (.closing .canceled (φ.failure "canceled")) goal.terminal []
  | timeout {start : Nat} : goal.pc = .loop start → s.clock - start > overallTimeout →
      ThreadMove φ s g goal
        (.closing .abort (φ.failure "timeout waiting for motor to reach target")) goal.terminal []
  | goOn {start : Nat} : goal.pc = .loop start → s.clock - start ≤ overallTimeout →
      ThreadMove φ s g goal (.readStatus start) goal.terminal []
  | noStatus {start : Nat} : goal.pc = .readStatus start →
      s.latest goal.request.motorId = none → ThreadMove φ s g goal (.loop start) goal.terminal []
  | fault {start : Nat} {st : Status F} : goal.pc = .readStatus start →
      s.latest goal.request.motorId = some st → (st.status = .dead ∨ st.status = .unreachable) →
      ThreadMove φ s g goal (.closing .abort ⟨st.position, false, "motor in fault state"⟩)
        goal.terminal []
  | found {start : Nat} {st : Status F} : goal.pc = .readStatus start →
      s.latest goal.request.motorId = some st → st.status ≠ .dead → st.status ≠ .unreachable →
      ThreadMove φ s g goal (.judge start st) goal.terminal []
  | stuck {start : Nat} {st : Status F} : goal.pc = .judge start st → st.status = .stuck →
      s.clock - start > stuckTimeout →
      φ.lt φ.tolerance (φ.error goal.request st.position) = true →
      ThreadMove φ s g goal (.closing .abort ⟨st.position, false, "motor stuck"⟩) goal.terminal
        [.feedback g st.position (φ.progress goal.request st.position)]
  | arrive {start : Nat} {st : Status F} : goal.pc = .judge start st →
      φ.le (φ.error goal.request st.position) φ.tolerance = true →
      ThreadMove φ s g goal (.closing .succeed ⟨st.position, true, "ok"⟩) goal.terminal
        [.feedback g st.position (φ.progress goal.request st.position)]
  | again {start : Nat} {st : Status F} : goal.pc = .judge start st →
      φ.le (φ.error goal.request st.position) φ.tolerance = false →
      ThreadMove φ s g goal (.loop start) goal.terminal
        [.feedback g st.position (φ.progress goal.request st.position)]
  | close {call : TerminalCall} {result : Result F} : goal.pc = .closing call result →
      ThreadMove φ s g goal .returned (some call) [.terminal g call result]

section Cases

variable {φ : Floats F} {s s' : State F} {a : Act F} {es : List (Event F)} {g : Nat}
  {goal : Goal F} {pc : Pc F} {terminal : Option TerminalCall} {available : Bool}

theorem threadStep_moves (h : threadStep φ s g goal available = some (pc, terminal, es)) :
    ThreadMove φ s g goal pc terminal es := by
  unfold threadStep at h
  split at h
  · rename_i hpc
    split at h
    · rename_i hc
      obtain ⟨rfl, rfl, rfl⟩ := h
      exact .noClient hpc hc
    · rename_i c hc
      obtain ⟨rfl, rfl, rfl⟩ := h
      exact .start hpc hc
  · rename_i c hpc
    split at h
    · obtain ⟨rfl, rfl, rfl⟩ := h
      exact .service hpc
    · obtain ⟨rfl, rfl, rfl⟩ := h
      exact .noService hpc
  · rename_i hpc
    obtain ⟨c, hc, hr⟩ := Option.map_eq_some_iff.mp h
    obtain ⟨rfl, rfl, rfl⟩ := hr
    exact .command hpc hc
  · rename_i c message hpc
    obtain ⟨rfl, rfl, rfl⟩ := h
    exact .enter hpc
  · rename_i c message hpc
    obtain ⟨rfl, rfl, rfl⟩ := h
    exact .rejected hpc
  · rename_i c hpc
    obtain ⟨rfl, rfl, rfl⟩ := h
    exact .noReply hpc
  · rename_i start hpc
    split at h
    · rename_i hok
      obtain ⟨rfl, rfl, rfl⟩ := h
      exact .shutDown hpc (by simpa using hok)
    · split at h
      · rename_i hcancel
        obtain ⟨rfl, rfl, rfl⟩ := h
        exact .canceled hpc hcancel
      · split at h
        · rename_i hlate
          obtain ⟨rfl, rfl, rfl⟩ := h
          exact .timeout hpc hlate
        · rename_i hlate
          obtain ⟨rfl, rfl, rfl⟩ := h
          exact .goOn hpc (not_lt.mp hlate)
  · rename_i start hpc
    split at h
    · rename_i hst
      obtain ⟨rfl, rfl, rfl⟩ := h
      exact .noStatus hpc hst
    · rename_i st hst
      split at h
      · rename_i hfault
        obtain ⟨rfl, rfl, rfl⟩ := h
        exact .fault hpc hst hfault
      · rename_i hfault
        obtain ⟨rfl, rfl, rfl⟩ := h
        exact .found hpc hst (fun hd => hfault (Or.inl hd)) fun hu => hfault (Or.inr hu)
  · rename_i start st hpc
    obtain ⟨rfl, rfl, rfl⟩ := h
    unfold judgeStep
    dsimp only
    split
    · rename_i hstuck
      exact .stuck hpc hstuck.1 hstuck.2.1 hstuck.2.2
    · split
      · rename_i hnear
        exact .arrive hpc hnear
      · rename_i hfar
        exact .again hpc (by simpa using hfar)
  · rename_i call result hpc
    obtain ⟨rfl, rfl, rfl⟩ := h
    exact .close hpc
  · cases h

/-- **What a step does to a goal**: its thread makes a pass, its cancel flag is set, or the response
to its request arrives. -/
inductive GoalMove (φ : Floats F) (s : State F) (g : Nat) (goal : Goal F) :
    Act F → Goal F → List (Event F) → Prop
  | pass {available : Bool} {pc : Pc F} {terminal : Option TerminalCall}
      {es : List (Event F)} : goal.dangling s = false →
      threadStep φ s g goal available = some (pc, terminal, es) →
      GoalMove φ s g goal (.thread g available) { goal with pc, terminal } es
  | cancel : goal.terminal = none → s.actionServer = some goal.server →
      GoalMove φ s g goal (.cancel g) { goal with canceling := true } []
  | response {c : Nat} {accepted : Bool} {message : String} : goal.pc = .waitReply c none →
      s.client = some c → GoalMove φ s g goal (.respond g accepted message)
        { goal with pc := .waitReply c (some (accepted, message)) } []

/-- **What a transition does**: the state it starts from, and what its callback sets. -/
inductive TransitionMove (s : State F) : Transition → State F → Prop
  | configure : s.lifecycle = .unconfigured →
      TransitionMove s .configure { s with
        lifecycle := .inactive
        client := some s.clients
        clients := s.clients + 1
        subscribed := true }
  | activate : s.lifecycle = .inactive →
      TransitionMove s .activate { s with
        lifecycle := .active
        actionServer := some s.actionServers
        actionServers := s.actionServers + 1 }
  | deactivate : s.lifecycle = .active →
      TransitionMove s .deactivate { s with lifecycle := .inactive, actionServer := none }
  | cleanup : s.lifecycle = .inactive →
      TransitionMove s .cleanup { s with
        lifecycle := .unconfigured
        client := none
        subscribed := false
        latest := fun _ => none }
  | shutdown : s.lifecycle ≠ .finalized →
      TransitionMove s .shutdown { s with
        lifecycle := .finalized
        client := none
        actionServer := none
        subscribed := false }

/-- The steps of the process, with what they change. -/
inductive Move (φ : Floats F) (s : State F) : Act F → State F → List (Event F) → Prop
  | accept {request : Request F} {server : Nat} : s.actionServer = some server → s.ok = true →
      Move φ s (.goal request)
        { s with goals := s.goals ++ [⟨request, .started, server, false, none⟩] }
        [.accepted s.goals.length]
  | goal {a : Act F} {g : Nat} {goal goal' : Goal F} {es : List (Event F)} :
      s.goals[g]? = some goal → GoalMove φ s g goal a goal' es →
      Move φ s a { s with goals := s.goals.set g goal' } es
  | crash {g : Nat} {goal : Goal F} {available : Bool} : s.goals[g]? = some goal →
      goal.dangling s = true →
      Move φ s (.thread g available) { s with crashed := true } [.crashed g]
  | transition {t : Transition} {s' : State F} : s.ok = true → s.transition t = some s' →
      Move φ s (.transition t) s' []
  | status {motors : List (String × Status F)} : s.ok = true → s.subscribed = true →
      Move φ s (.status motors) { s with latest := latestAfter s.latest motors } []
  | advance {d : Nat} : Move φ s (.advance d) { s with clock := s.clock + d } []
  | shutdown : Move φ s .shutdown { s with ok := false } []

theorem TransitionMove.of_transition {t : Transition} (h : s.transition t = some s') :
    TransitionMove s t s' := by
  cases t with
  | configure =>
      obtain ⟨hl, h⟩ := Option.ite_none_right_eq_some.mp h
      cases h
      exact .configure hl
  | activate =>
      obtain ⟨hl, h⟩ := Option.ite_none_right_eq_some.mp h
      cases h
      exact .activate hl
  | deactivate =>
      obtain ⟨hl, h⟩ := Option.ite_none_right_eq_some.mp h
      cases h
      exact .deactivate hl
  | cleanup =>
      obtain ⟨hl, h⟩ := Option.ite_none_right_eq_some.mp h
      cases h
      exact .cleanup hl
  | shutdown =>
      obtain ⟨hl, h⟩ := Option.ite_none_left_eq_some.mp h
      cases h
      exact .shutdown hl

theorem Move.of_step (h : step φ s a = some (s', es)) : s.crashed = false ∧ Move φ s a s' es := by
  unfold step at h
  split at h
  · cases h
  rename_i hcrash
  refine ⟨by simpa using hcrash, ?_⟩
  split at h
  · split at h
    · cases h
    · rename_i server hserver
      split at h
      · rename_i hok
        obtain ⟨rfl, rfl⟩ := h
        exact .accept hserver hok
      · cases h
  · split at h
    · cases h
    · rename_i goal hg
      split at h
      · rename_i hc
        obtain ⟨rfl, rfl⟩ := h
        exact .goal hg (.cancel hc.2.1 hc.2.2)
      · cases h
  · split at h
    · rename_i hok
      obtain ⟨s₁, hs₁, heq⟩ := Option.map_eq_some_iff.mp h
      obtain ⟨rfl, rfl⟩ := heq
      exact .transition hok hs₁
    · cases h
  · split at h
    · rename_i hok
      obtain ⟨rfl, rfl⟩ := h
      exact .status hok.1 hok.2
    · cases h
  · split at h
    · cases h
    · rename_i goal hg
      split at h
      · rename_i c hpc
        simp only at h
        split at h
        · rename_i hc
          obtain ⟨rfl, rfl⟩ := h
          exact .goal hg (.response hpc hc.2)
        · cases h
      · cases h
  · obtain ⟨rfl, rfl⟩ := h
    exact .advance
  · obtain ⟨rfl, rfl⟩ := h
    exact .shutdown
  · split at h
    · cases h
    · rename_i goal hg
      split at h
      · rename_i hd
        obtain ⟨rfl, rfl⟩ := h
        exact .crash hg hd
      · rename_i hd
        split at h
        · cases h
        · rename_i pc terminal es' ht
          obtain ⟨rfl, rfl⟩ := h
          exact .goal hg (.pass (by simpa using hd) ht)

end Cases

end RobotTaskManager.MoveMotor
