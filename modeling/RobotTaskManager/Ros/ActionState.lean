import RobotTaskManager.Engine.Config
import RobotTaskManager.Lib.Run

set_option autoImplicit false

/-! # A state that calls an action

`LifecycleAwareActionState.execute` of `mw_hfsm_ros`: it brings the server's node to `active`,
waits for the action server, sends one goal and waits for the result. Every answer is waited
for by `_wait_future`, which polls the future, the deadline and the cancel token in turn.

`State` is one invocation of `execute` together with the future it waits for, what the action
server has decided about its goal, and the token. The environment chooses what a wait for a
service gives, when a deadline has passed, what a future completes with (a reply, or `None` or
an exception, which `_wait_future` makes `None` as well) and when the server decides. The three
shipped states differ in `server_node_name`, `build_goal` and `on_result` (`Skill`).
-/

namespace RobotTaskManager.Ros

open Engine (Exc Result)

/-! ## The state class -/

/-- What a subclass of `LifecycleAwareActionState` provides, over a type of userdata, of goals
and of results. -/
structure Skill (U G R : Type) where
  serverNodeName : Option String
  buildGoal : U → Except Exc G
  onResult : U → R → U

/-- The outcomes of `ActionOutcome`. -/
def succeeded : String := "succeeded"
def failed : String := "failed"
def lifecycleError : String := "lifecycle_error"
def timeout : String := "timeout"
def rejected : String := "rejected"

/-- `LifecycleState.PRIMARY_STATE_…` -/
def primaryStateUnconfigured : Nat := 1
def primaryStateInactive : Nat := 2
def primaryStateActive : Nat := 3

/-- `GoalStatus.STATUS_SUCCEEDED` -/
def statusSucceeded : Nat := 4

/-- `map_status` -/
def mapStatus (status : Nat) : String := if status = statusSucceeded then succeeded else failed

/-! ## Exchanges -/

/-- The requests of `execute`, each followed by a `_wait_future`. -/
inductive Exchange
  /-- The first `get_state`. -/
  | getState
  | configure
  | stateAfterConfigure
  | activate
  | stateAfterActivate
  | sendGoal
  | getResult
  deriving DecidableEq

inductive Reply (R : Type)
  /-- `get_state`: the id of the current state. -/
  | state (id : Nat)
  /-- `change_state` -/
  | changed (success : Bool)
  /-- `send_goal_async`: `handle.accepted`. -/
  | handle (accepted : Bool)
  /-- `get_result_async` -/
  | result (status : Nat) (result : Option R)

/-- The kind of reply an exchange gets. -/
def Reply.fits {R : Type} (r : Reply R) (x : Exchange) : Bool :=
  match r with
  | .state _ => x = .getState || x = .stateAfterConfigure || x = .stateAfterActivate
  | .changed _ => x = .configure || x = .activate
  | .handle _ => x = .sendGoal
  | .result _ _ => x = .getResult

/-- Where `execute` is. -/
inductive Pc
  /-- At the call of `execute`. -/
  | enter
  /-- `wait_for_service` of `get_state`. -/
  | waitForService
  /-- Before the request of an exchange. -/
  | call (x : Exchange)
  /-- `future.done()` in `_wait_future`. -/
  | done (x : Exchange)
  /-- `time.monotonic() >= deadline` -/
  | deadline (x : Exchange)
  /-- `raise_if_cancelled` -/
  | token (x : Exchange)
  | waitForServer
  | buildGoal
  | ended (r : Result)
  deriving DecidableEq

/-- What `execute` does with what `_wait_future` returned (`none` is Python's `None`). -/
def afterReply {R : Type} (x : Exchange) (r : Option (Reply R)) : Pc :=
  match x with
  | .getState =>
      match r with
      | some (.state id) =>
          if id = primaryStateActive then .waitForServer
          else if id = primaryStateUnconfigured then .call .configure
          else if id = primaryStateInactive then .call .activate
          else .ended (.ok lifecycleError)
      | _ => .ended (.ok lifecycleError)
  | .configure =>
      match r with
      | some (.changed true) => .call .stateAfterConfigure
      | _ => .ended (.ok lifecycleError)
  | .stateAfterConfigure =>
      match r with
      | some (.state id) =>
          if id = primaryStateInactive then .call .activate else .ended (.ok lifecycleError)
      | _ => .ended (.ok lifecycleError)
  | .activate =>
      match r with
      | some (.changed true) => .call .stateAfterActivate
      | _ => .ended (.ok lifecycleError)
  | .stateAfterActivate =>
      match r with
      | some (.state id) =>
          if id = primaryStateActive then .waitForServer else .ended (.ok lifecycleError)
      | _ => .ended (.ok lifecycleError)
  | .sendGoal =>
      match r with
      | some (.handle accepted) => if accepted then .call .getResult else .ended (.ok rejected)
      | _ => .ended (.ok timeout)
  | .getResult =>
      match r with
      | some (.result status _) => .ended (.ok (mapStatus status))
      | _ => .ended (.ok timeout)

/-- A lifecycle reply leads on with the lifecycle, to the action server, or out. -/
theorem afterReply_lifecycle {R : Type} {x : Exchange} (hs : x ≠ .sendGoal)
    (hr : x ≠ .getResult) (r : Option (Reply R)) : afterReply x r = .waitForServer ∨
      (∃ y, y ≠ .sendGoal ∧ y ≠ .getResult ∧ afterReply x r = .call y) ∨
      afterReply x r = .ended (.ok lifecycleError) := by
  cases x with
  | sendGoal => exact absurd rfl hs
  | getResult => exact absurd rfl hr
  | getState =>
      simp only [afterReply]
      split
      · split
        · exact Or.inl rfl
        · split
          · exact Or.inr (Or.inl ⟨.configure, nofun, nofun, rfl⟩)
          · split
            · exact Or.inr (Or.inl ⟨.activate, nofun, nofun, rfl⟩)
            · exact Or.inr (Or.inr rfl)
      · exact Or.inr (Or.inr rfl)
  | configure =>
      simp only [afterReply]
      split
      · exact Or.inr (Or.inl ⟨.stateAfterConfigure, nofun, nofun, rfl⟩)
      · exact Or.inr (Or.inr rfl)
  | stateAfterConfigure =>
      simp only [afterReply]
      split
      · split
        · exact Or.inr (Or.inl ⟨.activate, nofun, nofun, rfl⟩)
        · exact Or.inr (Or.inr rfl)
      · exact Or.inr (Or.inr rfl)
  | activate =>
      simp only [afterReply]
      split
      · exact Or.inr (Or.inl ⟨.stateAfterActivate, nofun, nofun, rfl⟩)
      · exact Or.inr (Or.inr rfl)
  | stateAfterActivate =>
      simp only [afterReply]
      split
      · split
        · exact Or.inl rfl
        · exact Or.inr (Or.inr rfl)
      · exact Or.inr (Or.inr rfl)

theorem afterReply_sendGoal {R : Type} (r : Option (Reply R)) :
    (r = some (.handle true) ∧ afterReply .sendGoal r = .call .getResult) ∨
      (r ≠ some (.handle true) ∧ ∃ o, afterReply .sendGoal r = .ended (.ok o)) := by
  simp only [afterReply]
  split
  · rename_i accepted
    cases accepted with
    | true => exact Or.inl ⟨rfl, rfl⟩
    | false => exact Or.inr ⟨by simp, rejected, rfl⟩
  · rename_i hr
    exact Or.inr ⟨fun h => hr true h, timeout, rfl⟩

theorem afterReply_getResult {R : Type} (r : Option (Reply R)) :
    ∃ o, afterReply .getResult r = .ended (.ok o) := by
  simp only [afterReply]
  split
  · exact ⟨_, rfl⟩
  · exact ⟨_, rfl⟩

/-- `userdata` after the reply: `on_result` is called on success with a result. -/
def userdataAfter {U G R : Type} (k : Skill U G R) (u : U) : Exchange → Option (Reply R) → U
  | .getResult, some (.result status (some res)) =>
      if mapStatus status = succeeded then k.onResult u res else u
  | _, _ => u

/-! ## Steps -/

structure State (U G R : Type) where
  pc : Pc
  userdata : U
  /-- The goal that `build_goal` has made. -/
  goal : Option G
  /-- What the future of the current exchange has completed with, if it has. -/
  future : Option (Option (Reply R))
  /-- The goal has been sent. -/
  sent : Bool
  /-- Whether the action server has accepted the goal, once it has decided. -/
  decision : Option Bool
  /-- The token in the context of `execute` is set. -/
  cancelled : Bool

def State.start {U G R : Type} (u : U) : State U G R := ⟨.enter, u, none, none, false, none, false⟩

inductive Event (R : Type)
  | called (x : Exchange)
  /-- `_wait_future` returns, with what it got from the future of the exchange. -/
  | replied (x : Exchange) (r : Option (Reply R))
  /-- `cancel_goal_async` on the handle of the goal. Nothing calls it. -/
  | cancelGoal

inductive Act (R : Type)
  /-- `execute` goes on. -/
  | client
  /-- `wait_for_service` or `wait_for_server` ends. -/
  | available (b : Bool)
  /-- `execute` compares the time with its deadline. -/
  | clock (expired : Bool)
  /-- The future of the current exchange completes. -/
  | complete (r : Option (Reply R))
  /-- The action server accepts or rejects the goal. -/
  | decide (accept : Bool)
  /-- `CancelToken.request()` -/
  | request

variable {U G R : Type}

/-- `_wait_future` returns `r` for the exchange `x`. -/
def State.resume (k : Skill U G R) (s : State U G R) (x : Exchange) (r : Option (Reply R)) :
    State U G R :=
  { s with pc := afterReply x r, userdata := userdataAfter k s.userdata x r, future := none }

/-- `execute` goes on, where it does not wait for the environment. -/
def clientStep (k : Skill U G R) (s : State U G R) : Option (State U G R × List (Event R)) :=
  match s.pc with
  | .enter =>
      some ({ s with
        pc := if k.serverNodeName.isSome then .waitForService else .waitForServer }, [])
  | .call x =>
      some ({ s with
          pc := .done x
          future := none
          sent := s.sent || x = .sendGoal },
        [.called x])
  | .done x =>
      match s.future with
      | some r => some (s.resume k x r, [.replied x r])
      | none => some ({ s with pc := .deadline x }, [])
  | .token x =>
      if s.cancelled then some ({ s with pc := .ended (.error .cancelled) }, [])
      else some ({ s with pc := .done x }, [])
  | .buildGoal =>
      match k.buildGoal s.userdata with
      | .error e => some ({ s with pc := .ended (.error e) }, [])
      | .ok g => some ({ s with pc := .call .sendGoal, goal := some g }, [])
  | _ => none

/-- The exchange whose future `execute` waits for. -/
def Pc.waitsFor : Pc → Option Exchange
  | .done x => some x
  | .deadline x => some x
  | .token x => some x
  | _ => none

/-- A future completes with a reply of its kind; the reply to the goal is the decision of the
server. -/
def State.canComplete (s : State U G R) (x : Exchange) : Option (Reply R) → Bool
  | none => true
  | some (.handle accepted) => x = .sendGoal && s.decision = some accepted
  | some r => r.fits x

def step (k : Skill U G R) (s : State U G R) :
    Act R → Option (State U G R × List (Event R))
  | .client => clientStep k s
  | .available b =>
      match s.pc with
      | .waitForService =>
          some ({ s with pc := if b then .call .getState else .ended (.ok lifecycleError) }, [])
      | .waitForServer =>
          some ({ s with pc := if b then .buildGoal else .ended (.ok timeout) }, [])
      | _ => none
  | .clock expired =>
      match s.pc with
      | .deadline x =>
          if expired then some (s.resume k x none, [.replied x none])
          else some ({ s with pc := .token x }, [])
      | _ => none
  | .complete r =>
      match s.pc.waitsFor, s.future with
      | some x, none => if s.canComplete x r then some ({ s with future := some r }, []) else none
      | _, _ => none
  | .decide accept =>
      if s.sent ∧ s.decision = none then some ({ s with decision := some accept }, []) else none
  | .request => some ({ s with cancelled := true }, [])

/-! ## What a step can do -/

/-- The steps of a state: action, state afterwards, events. -/
inductive Move (k : Skill U G R) (s : State U G R) :
    Act R → State U G R → List (Event R) → Prop
  | enter : s.pc = .enter → Move k s .client { s with
      pc := if k.serverNodeName.isSome then .waitForService else .waitForServer } []
  | call {x : Exchange} : s.pc = .call x → Move k s .client { s with
      pc := .done x, future := none, sent := s.sent || x = .sendGoal } [.called x]
  | replied {x : Exchange} {r : Option (Reply R)} : s.pc = .done x → s.future = some r →
      Move k s .client (s.resume k x r) [.replied x r]
  | notDone {x : Exchange} : s.pc = .done x → s.future = none →
      Move k s .client { s with pc := .deadline x } []
  | cancelled {x : Exchange} : s.pc = .token x → s.cancelled = true →
      Move k s .client { s with pc := .ended (.error .cancelled) } []
  | notCancelled {x : Exchange} : s.pc = .token x → s.cancelled = false →
      Move k s .client { s with pc := .done x } []
  | goalFails {e : Exc} : s.pc = .buildGoal → k.buildGoal s.userdata = .error e →
      Move k s .client { s with pc := .ended (.error e) } []
  | goalBuilt {g : G} : s.pc = .buildGoal → k.buildGoal s.userdata = .ok g →
      Move k s .client { s with pc := .call .sendGoal, goal := some g } []
  | service {b : Bool} : s.pc = .waitForService → Move k s (.available b) { s with
      pc := if b then .call .getState else .ended (.ok lifecycleError) } []
  | server {b : Bool} : s.pc = .waitForServer → Move k s (.available b) { s with
      pc := if b then .buildGoal else .ended (.ok timeout) } []
  | expired {x : Exchange} : s.pc = .deadline x →
      Move k s (.clock true) (s.resume k x none) [.replied x none]
  | notExpired {x : Exchange} : s.pc = .deadline x →
      Move k s (.clock false) { s with pc := .token x } []
  | complete {x : Exchange} {r : Option (Reply R)} : s.pc.waitsFor = some x →
      s.future = none → s.canComplete x r = true →
      Move k s (.complete r) { s with future := some r } []
  | decide {accept : Bool} : s.sent = true → s.decision = none →
      Move k s (.decide accept) { s with decision := some accept } []
  | request : Move k s .request { s with cancelled := true } []

section Cases

variable {k : Skill U G R} {s s' : State U G R} {a : Act R} {es : List (Event R)}

theorem Move.of_clientStep (h : clientStep k s = some (s', es)) : Move k s .client s' es := by
  unfold clientStep at h
  split at h
  · rename_i hpc
    obtain ⟨rfl, rfl⟩ := h
    exact .enter hpc
  · rename_i x hpc
    obtain ⟨rfl, rfl⟩ := h
    exact .call hpc
  · rename_i x hpc
    split at h
    · rename_i r hf
      obtain ⟨rfl, rfl⟩ := h
      exact .replied hpc hf
    · rename_i hf
      obtain ⟨rfl, rfl⟩ := h
      exact .notDone hpc hf
  · rename_i x hpc
    split at h
    · rename_i hc
      obtain ⟨rfl, rfl⟩ := h
      exact .cancelled hpc hc
    · rename_i hc
      obtain ⟨rfl, rfl⟩ := h
      exact .notCancelled hpc (Bool.not_eq_true _ ▸ hc)
  · rename_i hpc
    split at h
    · rename_i e hg
      obtain ⟨rfl, rfl⟩ := h
      exact .goalFails hpc hg
    · rename_i g hg
      obtain ⟨rfl, rfl⟩ := h
      exact .goalBuilt hpc hg
  · cases h

theorem Move.of_step (h : step k s a = some (s', es)) : Move k s a s' es := by
  cases a with
  | client => exact .of_clientStep h
  | available b =>
      rw [step] at h
      split at h
      · rename_i hpc
        obtain ⟨rfl, rfl⟩ := h
        exact .service hpc
      · rename_i hpc
        obtain ⟨rfl, rfl⟩ := h
        exact .server hpc
      · cases h
  | clock expired =>
      rw [step] at h
      split at h
      · rename_i x hpc
        cases expired with
        | true =>
            obtain ⟨rfl, rfl⟩ := h
            exact .expired hpc
        | false =>
            obtain ⟨rfl, rfl⟩ := h
            exact .notExpired hpc
      · cases h
  | complete r =>
      rw [step] at h
      split at h
      · rename_i x hx hf
        split at h
        · rename_i hc
          obtain ⟨rfl, rfl⟩ := h
          exact .complete hx hf hc
        · cases h
      · cases h
  | decide accept =>
      rw [step] at h
      split at h
      · rename_i hs
        obtain ⟨rfl, rfl⟩ := h
        exact .decide hs.1 hs.2
      · cases h
  | request =>
      obtain ⟨rfl, rfl⟩ := h
      exact .request

end Cases

end RobotTaskManager.Ros
