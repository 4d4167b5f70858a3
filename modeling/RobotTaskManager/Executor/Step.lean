import RobotTaskManager.Executor.Node
import RobotTaskManager.Lib.Run

set_option autoImplicit false

/-! # Interleaved callbacks of the executor node

The callbacks run on the threads of a `MultiThreadedExecutor`, in one reentrant callback
group, so their lock-protected sections interleave freely. A step is one section of one
callback, with the local code up to the next one; the return of a callback touches nothing
shared and belongs to the step of its last shared access. `_cancel_callback` reads the token
slot in one step and calls `request()` in another.

The terminal call of a goal handle is an event; what `rclpy` does in it is outside the model.
`_publish_status` reads `active_path()` before it takes the lock; its section is a function on the
fields (`NodeState.publishSection`).
-/

namespace RobotTaskManager.Executor

/-- Where the `_execute_goal` of an accepted goal is. -/
inductive GoalPc (Dict : Type)
  /-- `_goal_callback` has returned `ACCEPT`, `_execute_goal` has not taken the lock yet. -/
  | accepted
  /-- In `_build_subjob` and `to_spec`. -/
  | building (behaviorParameter userdataIn : Dict)
  /-- Before the section that publishes the spec. -/
  | specReady (className specJson : String) (behaviorParameter userdataIn : Dict)
  /-- In `sm.run`. -/
  | running (className : String) (behaviorParameter userdataIn : Dict)
  /-- In the `except CancelledError` branch, before its section. -/
  | cancelling (className : String)
  /-- In `_finish_failure`, before its section. -/
  | failing (outcome message : String)
  /-- `sm.run` has returned, before the last section. -/
  | returned (outcome : Outcome) (succeeded : Bool)
      (snapshot resultJson shown : Except String String)
  /-- Before the terminal call. -/
  | closing (call : TerminalCall) (result : GoalResult)
  /-- `_execute_goal` has returned. -/
  | ended (result : GoalResult)
  /-- `_execute_goal` has raised. -/
  | raised (e : String)

structure Goal (Dict : Type) where
  request : GoalRequest
  pc : GoalPc Dict

structure State (Dict : Type) where
  node : NodeState
  goals : List (Goal Dict)
  /-- The `_cancel_callback`s that have read the token slot and not returned yet: the goal the
  cancel is for, and the token read. -/
  cancels : List (Nat × Option Nat)
  /-- The tokens whose `request()` has been called. -/
  requested : List Nat

def State.init {Dict : Type} (now : Nat) : State Dict := ⟨.init now, [], [], []⟩

inductive Event
  | rejected
  | accepted (g : Nat)
  /-- `_execute_goal` of `g` sets `_busy = True`. -/
  | busySet (g : Nat)
  /-- `_execute_goal` of `g` sets `_busy = False`. -/
  | busyCleared (g : Nat)
  /-- `_cancel_callback` for `g` has called `request()` on the token it has read, if it has
  read one, and returns `ACCEPT`. -/
  | cancelAccepted (g : Nat) (token : Option Nat)
  | terminal (g : Nat) (call : TerminalCall)
  | raised (g : Nat) (e : String)
  deriving DecidableEq

/-- A step of `_execute_goal`. -/
inductive GoalAct
  | start (now : Nat)
  | build (b : BuildEnd)
  | publishSpec
  | runEnds (e : RunEnd)
  | finish
  | close

inductive Act
  | goalRequest (req : GoalRequest)
  | goal (g : Nat) (a : GoalAct)
  | cancelRead (g : Nat)
  | cancelRequest (k : Nat)

variable {Dict : Type}

/-- `_execute_goal` up to its first section: the two JSON texts, then the section. -/
def startStep (J : JsonModule Dict) (s : NodeState) (g : Nat) (req : GoalRequest) (now : Nat) :
    NodeState × GoalPc Dict × List Event :=
  match safeJsonLoads J req.behaviorParameterJson, safeJsonLoads J req.userdataInJson with
  | .error e, _ => (s, .raised e, [.raised g e])
  | .ok _, .error e => (s, .raised e, [.raised g e])
  | .ok params, .ok userdataIn =>
      (s.startSection g now req.subjobId (J.dumps userdataIn), .building params userdataIn,
        [.busySet g])

/-- After `_build_subjob` and `to_spec`. The handlers put the text of the exception into a
message; an exception that has none leaves `_execute_goal`. -/
def buildStep (g : Nat) (params userdataIn : Dict) : BuildEnd → GoalPc Dict × List Event
  | .failed (.error e) => (.raised e, [.raised g e])
  | .failed (.ok message) => (.failing "build_error" message, [])
  | .built _ (.error (.error e)) => (.raised e, [.raised g e])
  | .built cls (.error (.ok _)) => (.specReady cls "" params userdataIn, [])
  | .built cls (.ok specJson) => (.specReady cls specJson params userdataIn, [])

/-- After `sm.run`. An outcome without a hash raises before the last section. -/
def runEndStep (g : Nat) (cls : String) : RunEnd → GoalPc Dict × List Event
  | .cancelled => (.cancelling cls, [])
  | .raised (.error e) => (.raised e, [.raised g e])
  | .raised (.ok message) => (.failing "exception" message, [])
  | .returned o snapshot resultJson shown =>
      match o.succeeded with
      | .error e => (.raised e, [.raised g e])
      | .ok succeeded => (.returned o succeeded snapshot resultJson shown, [])

/-- After the last section. -/
def returnedStep (g : Nat) (succeeded : Bool) :
    Except String GoalResult → GoalPc Dict × List Event
  | .error e => (.raised e, [.raised g e])
  | .ok result => (.closing (returnedCall succeeded) result, [])

/-- One step of the `_execute_goal` of goal `g`. -/
def goalStep (J : JsonModule Dict) (s : NodeState) (g : Nat) (req : GoalRequest) :
    GoalPc Dict → GoalAct → Option (NodeState × GoalPc Dict × List Event)
  | .accepted, .start now => some (startStep J s g req now)
  | .building params userdataIn, .build b => some (s, buildStep g params userdataIn b)
  | .specReady cls specJson params userdataIn, .publishSpec =>
      some (s.specSection specJson, .running cls params userdataIn, [])
  | .running cls _ _, .runEnds e => some (s, runEndStep g cls e)
  | .cancelling cls, .finish =>
      some (s.cancelledSection cls (J.dumps J.empty),
        .closing .canceled (canceledResult (J.dumps J.empty)), [.busyCleared g])
  | .failing outcome message, .finish =>
      some (s.failureSection (J.dumps J.empty),
        .closing .abort (failureResult outcome message (J.dumps J.empty)), [.busyCleared g])
  | .returned o succeeded snapshot resultJson shown, .finish =>
      let after : GoalPc Dict × List Event :=
        returnedStep g succeeded (returnedEnd o succeeded snapshot resultJson shown)
      some (s.returnedSection req.subjobId o succeeded snapshot, after.1,
        .busyCleared g :: after.2)
  | .closing call result, .close => some (s, .ended result, [.terminal g call])
  | _, _ => none

/-- One step of the node. -/
def step (J : JsonModule Dict) (s : State Dict) : Act → Option (State Dict × List Event)
  -- `_goal_callback` reads `_busy` and does not set it
  | .goalRequest req =>
      if s.node.busy then some (s, [.rejected])
      else some ({ s with goals := s.goals ++ [⟨req, .accepted⟩] }, [.accepted s.goals.length])
  | .goal g a =>
      match s.goals[g]? with
      | none => none
      | some goal =>
          match goalStep J s.node g goal.request goal.pc a with
          | none => none
          | some (node, pc, es) =>
              some ({ s with node, goals := s.goals.set g { goal with pc } }, es)
  | .cancelRead g =>
      if g < s.goals.length then
        some ({ s with cancels := s.cancels ++ [(g, s.node.currentCancelToken)] }, [])
      else none
  | .cancelRequest k =>
      match s.cancels[k]? with
      | none => none
      | some (g, token) =>
          -- the token that was read before, whatever the slot holds now
          some ({ s with
              cancels := s.cancels.eraseIdx k
              requested := s.requested ++ token.toList },
            [.cancelAccepted g token])

/-! ## Status messages -/

/-- `HfsmExecutionStatus`. Times are in nanoseconds. -/
structure StatusMsg where
  subjobId : String
  specJson : String
  activeState : String
  userdataSnapshotJson : String
  status : Status
  startTime : Nat
  elapsed : Nat
  deriving DecidableEq

/-- The locked section of `_publish_status`, after `active_path()` has given `livePath`. -/
def NodeState.publishSection (s : NodeState) (livePath : String) (now : Nat) : StatusMsg where
  subjobId := s.currentSubjobId
  specJson := s.currentSpecJson
  activeState := if s.busy then livePath else s.currentActiveState
  userdataSnapshotJson := s.currentUserdataSnapshotJson
  status := s.currentStatus
  startTime := s.startTime
  elapsed := if s.currentStatus = .running then now - s.startTime else 0

/-! ## What a step can do -/

/-- The steps of the `_execute_goal` of goal `g`, one rule for each way through the code:
position, action, shared fields and position afterwards, events. -/
inductive GoalStep (J : JsonModule Dict) (s : NodeState) (g : Nat) (req : GoalRequest) :
    GoalPc Dict → GoalAct → NodeState → GoalPc Dict → List Event → Prop
  | start {now : Nat} {params userdataIn : Dict} :
      safeJsonLoads J req.behaviorParameterJson = .ok params →
      safeJsonLoads J req.userdataInJson = .ok userdataIn →
      GoalStep J s g req .accepted (.start now)
        (s.startSection g now req.subjobId (J.dumps userdataIn)) (.building params userdataIn)
        [.busySet g]
  | startRaises {now : Nat} {e : String} :
      safeJsonLoads J req.behaviorParameterJson = .error e ∨
        (∃ params, safeJsonLoads J req.behaviorParameterJson = .ok params ∧
          safeJsonLoads J req.userdataInJson = .error e) →
      GoalStep J s g req .accepted (.start now) s (.raised e) [.raised g e]
  | buildFailed {params userdataIn : Dict} {message : String} :
      GoalStep J s g req (.building params userdataIn) (.build (.failed (.ok message))) s
        (.failing "build_error" message) []
  | buildRaises {params userdataIn : Dict} {b : BuildEnd} {e : String} :
      b = .failed (.error e) ∨ (∃ cls, b = .built cls (.error (.error e))) →
      GoalStep J s g req (.building params userdataIn) (.build b) s (.raised e) [.raised g e]
  | built {params userdataIn : Dict} {cls specJson : String}
      {spec : Except (Except String String) String} :
      spec = .ok specJson ∨ (∃ message, spec = .error (.ok message) ∧ specJson = "") →
      GoalStep J s g req (.building params userdataIn) (.build (.built cls spec)) s
        (.specReady cls specJson params userdataIn) []
  | publishSpec {cls specJson : String} {params userdataIn : Dict} :
      GoalStep J s g req (.specReady cls specJson params userdataIn) .publishSpec
        (s.specSection specJson) (.running cls params userdataIn) []
  | runCancelled {cls : String} {params userdataIn : Dict} :
      GoalStep J s g req (.running cls params userdataIn) (.runEnds .cancelled) s
        (.cancelling cls) []
  | runRaised {cls message : String} {params userdataIn : Dict} :
      GoalStep J s g req (.running cls params userdataIn) (.runEnds (.raised (.ok message))) s
        (.failing "exception" message) []
  | runRaises {cls err : String} {params userdataIn : Dict} {e : RunEnd} :
      e = .raised (.error err) ∨ (∃ o snapshot resultJson shown,
        e = .returned o snapshot resultJson shown ∧ o.succeeded = .error err) →
      GoalStep J s g req (.running cls params userdataIn) (.runEnds e) s (.raised err)
        [.raised g err]
  | runReturned {cls : String} {o : Outcome} {succeeded : Bool} {params userdataIn : Dict}
      {snapshot resultJson shown : Except String String} : o.succeeded = .ok succeeded →
      GoalStep J s g req (.running cls params userdataIn)
        (.runEnds (.returned o snapshot resultJson shown)) s
        (.returned o succeeded snapshot resultJson shown) []
  | finishCancelled {cls : String} :
      GoalStep J s g req (.cancelling cls) .finish
        (s.cancelledSection cls (J.dumps J.empty))
        (.closing .canceled (canceledResult (J.dumps J.empty))) [.busyCleared g]
  | finishFailure {outcome message : String} :
      GoalStep J s g req (.failing outcome message) .finish
        (s.failureSection (J.dumps J.empty))
        (.closing .abort (failureResult outcome message (J.dumps J.empty))) [.busyCleared g]
  | finishReturned {o : Outcome} {succeeded : Bool} {result : GoalResult}
      {snapshot resultJson shown : Except String String} :
      returnedEnd o succeeded snapshot resultJson shown = .ok result →
      GoalStep J s g req (.returned o succeeded snapshot resultJson shown) .finish
        (s.returnedSection req.subjobId o succeeded snapshot)
        (.closing (returnedCall succeeded) result) [.busyCleared g]
  | finishRaises {o : Outcome} {succeeded : Bool} {e : String}
      {snapshot resultJson shown : Except String String} :
      returnedEnd o succeeded snapshot resultJson shown = .error e →
      GoalStep J s g req (.returned o succeeded snapshot resultJson shown) .finish
        (s.returnedSection req.subjobId o succeeded snapshot) (.raised e)
        [.busyCleared g, .raised g e]
  | close {call : TerminalCall} {result : GoalResult} :
      GoalStep J s g req (.closing call result) .close s (.ended result) [.terminal g call]

section Cases

variable {J : JsonModule Dict} {s s' : State Dict} {n n' : NodeState} {g : Nat}
  {req : GoalRequest} {pc pc' : GoalPc Dict} {a : GoalAct} {act : Act} {es : List Event}

theorem GoalStep.of_start {now : Nat} (h : startStep J n g req now = (n', pc', es)) :
    GoalStep J n g req .accepted (.start now) n' pc' es := by
  unfold startStep at h
  split at h
  · rename_i e hp
    obtain ⟨rfl, rfl, rfl⟩ := h
    exact .startRaises (Or.inl hp)
  · rename_i params e hp hu
    obtain ⟨rfl, rfl, rfl⟩ := h
    exact .startRaises (Or.inr ⟨params, hp, hu⟩)
  · rename_i params userdataIn hp hu
    obtain ⟨rfl, rfl, rfl⟩ := h
    exact .start hp hu

theorem GoalStep.of_build {params userdataIn : Dict} {b : BuildEnd}
    (h : buildStep g params userdataIn b = (pc', es)) :
    GoalStep J n g req (.building params userdataIn) (.build b) n pc' es := by
  unfold buildStep at h
  split at h
  · obtain ⟨rfl, rfl⟩ := h
    exact .buildRaises (Or.inl rfl)
  · obtain ⟨rfl, rfl⟩ := h
    exact .buildFailed
  · rename_i cls e
    obtain ⟨rfl, rfl⟩ := h
    exact .buildRaises (Or.inr ⟨cls, rfl⟩)
  · rename_i cls message
    obtain ⟨rfl, rfl⟩ := h
    exact .built (Or.inr ⟨message, rfl, rfl⟩)
  · obtain ⟨rfl, rfl⟩ := h
    exact .built (Or.inl rfl)

theorem GoalStep.of_runEnds {cls : String} {params userdataIn : Dict} {e : RunEnd}
    (h : runEndStep g cls e = (pc', es)) :
    GoalStep J n g req (.running cls params userdataIn) (.runEnds e) n pc' es := by
  unfold runEndStep at h
  split at h
  · obtain ⟨rfl, rfl⟩ := h
    exact .runCancelled
  · obtain ⟨rfl, rfl⟩ := h
    exact .runRaises (Or.inl rfl)
  · obtain ⟨rfl, rfl⟩ := h
    exact .runRaised
  · rename_i o snapshot resultJson shown
    split at h
    · rename_i err ho
      obtain ⟨rfl, rfl⟩ := h
      exact .runRaises (Or.inr ⟨o, snapshot, resultJson, shown, rfl, ho⟩)
    · rename_i succeeded ho
      obtain ⟨rfl, rfl⟩ := h
      exact .runReturned ho

theorem GoalStep.of_returned {o : Outcome} {succeeded : Bool}
    {snapshot resultJson shown : Except String String}
    (h : returnedStep g succeeded (returnedEnd o succeeded snapshot resultJson shown)
      = (pc', es)) :
    GoalStep J n g req (.returned o succeeded snapshot resultJson shown) .finish
      (n.returnedSection req.subjobId o succeeded snapshot) pc' (.busyCleared g :: es) := by
  cases hend : returnedEnd o succeeded snapshot resultJson shown with
  | error e =>
      rw [hend] at h
      obtain ⟨rfl, rfl⟩ := h
      exact .finishRaises hend
  | ok result =>
      rw [hend] at h
      obtain ⟨rfl, rfl⟩ := h
      exact .finishReturned hend

theorem GoalStep.of_goalStep (h : goalStep J n g req pc a = some (n', pc', es)) :
    GoalStep J n g req pc a n' pc' es := by
  unfold goalStep at h
  split at h
  all_goals simp only [Option.some.injEq, Prod.mk.injEq, reduceCtorEq] at h
  · exact .of_start h
  · obtain ⟨rfl, h⟩ := h
    exact .of_build h
  · obtain ⟨rfl, rfl, rfl⟩ := h
    exact .publishSpec
  · obtain ⟨rfl, h⟩ := h
    exact .of_runEnds h
  · obtain ⟨rfl, rfl, rfl⟩ := h
    exact .finishCancelled
  · obtain ⟨rfl, rfl, rfl⟩ := h
    exact .finishFailure
  · obtain ⟨rfl, rfl, rfl⟩ := h
    exact .of_returned rfl
  · obtain ⟨rfl, rfl, rfl⟩ := h
    exact .close

/-- **A step of the node** is an answer to a goal request, a step of an accepted goal, or one
of the two steps of `_cancel_callback`. -/
theorem step_cases (h : step J s act = some (s', es)) :
    (∃ req, act = .goalRequest req ∧ s.node.busy = true ∧ s' = s ∧ es = [.rejected]) ∨
    (∃ req, act = .goalRequest req ∧ s.node.busy = false ∧
      s' = { s with goals := s.goals ++ [⟨req, .accepted⟩] } ∧
      es = [.accepted s.goals.length]) ∨
    (∃ g a goal node pc, act = .goal g a ∧ s.goals[g]? = some goal ∧
      GoalStep J s.node g goal.request goal.pc a node pc es ∧
      s' = { s with node, goals := s.goals.set g { goal with pc } }) ∨
    (∃ g, act = .cancelRead g ∧ g < s.goals.length ∧ es = [] ∧
      s' = { s with cancels := s.cancels ++ [(g, s.node.currentCancelToken)] }) ∨
    ∃ k g token, act = .cancelRequest k ∧ s.cancels[k]? = some (g, token) ∧
      es = [.cancelAccepted g token] ∧
      s' = { s with
        cancels := s.cancels.eraseIdx k
        requested := s.requested ++ token.toList } := by
  cases act with
  | goalRequest req =>
      rw [step] at h
      cases hb : s.node.busy with
      | true =>
          rw [hb, if_pos rfl] at h
          obtain ⟨rfl, rfl⟩ := Prod.mk.inj (Option.some.inj h)
          exact Or.inl ⟨req, rfl, rfl, rfl, rfl⟩
      | false =>
          rw [hb, if_neg nofun] at h
          obtain ⟨rfl, rfl⟩ := Prod.mk.inj (Option.some.inj h)
          exact Or.inr (Or.inl ⟨req, rfl, rfl, rfl, rfl⟩)
  | goal g a =>
      cases hg : s.goals[g]? with
      | none => simp [step, hg] at h
      | some goal =>
          cases hs : goalStep J s.node g goal.request goal.pc a with
          | none => simp [step, hg, hs] at h
          | some p =>
              obtain ⟨node, pc, es'⟩ := p
              simp only [step, hg, hs] at h
              obtain ⟨rfl, rfl⟩ := Prod.mk.inj (Option.some.inj h)
              exact Or.inr (Or.inr (Or.inl ⟨g, a, goal, node, pc, rfl, hg, .of_goalStep hs, rfl⟩))
  | cancelRead g =>
      rw [step] at h
      split at h
      · rename_i hlt
        obtain ⟨rfl, rfl⟩ := Prod.mk.inj (Option.some.inj h)
        exact Or.inr (Or.inr (Or.inr (Or.inl ⟨g, rfl, hlt, rfl, rfl⟩)))
      · cases h
  | cancelRequest k =>
      cases hk : s.cancels[k]? with
      | none => simp [step, hk] at h
      | some p =>
          obtain ⟨g, token⟩ := p
          simp only [step, hk] at h
          obtain ⟨rfl, rfl⟩ := Prod.mk.inj (Option.some.inj h)
          exact Or.inr (Or.inr (Or.inr (Or.inr ⟨k, g, token, rfl, hk, rfl, rfl⟩)))

/-- Goals stay in the list, with the request they came with. -/
theorem step_request (h : step J s act = some (s', es)) {goal : Goal Dict}
    (hg : s.goals[g]? = some goal) :
    ∃ goal', s'.goals[g]? = some goal' ∧ goal'.request = goal.request := by
  have hlt : g < s.goals.length := (List.getElem?_eq_some_iff.mp hg).choose
  rcases step_cases h with ⟨_, -, -, rfl, -⟩ | ⟨_, -, -, rfl, -⟩ | ⟨k, _, u, _, pc, -, hk, -, rfl⟩ |
    ⟨_, -, -, -, rfl⟩ | ⟨_, _, _, -, -, -, rfl⟩
  · exact ⟨goal, hg, rfl⟩
  · exact ⟨goal, (List.getElem?_append_left hlt).trans hg, rfl⟩
  · by_cases hkg : k = g
    · subst hkg
      obtain rfl := Option.some.inj (hk.symm.trans hg)
      exact ⟨{ u with pc }, List.getElem?_set_self hlt, rfl⟩
    · exact ⟨goal, (List.getElem?_set_ne hkg).trans hg, rfl⟩
  · exact ⟨goal, hg, rfl⟩
  · exact ⟨goal, hg, rfl⟩

end Cases

end RobotTaskManager.Executor
