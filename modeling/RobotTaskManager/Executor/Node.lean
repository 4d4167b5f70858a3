import RobotTaskManager.Lib.PyText

set_option autoImplicit false

/-! # The executor node

`HfsmExecutorNode` of `mw_task_manager`: the fields its callbacks share under `_status_lock`,
and the lock-protected sections of `_goal_callback`, `_cancel_callback`, `_execute_goal` and
`_finish_failure`, each a function on those fields.

What a SubJob does while it is built and run is the environment's choice (`BuildEnd`,
`RunEnd`), and so is what `json.dumps` and `repr` make of a `userdata_out` with arbitrary
Python objects in it: each of the two calls of `dumps` may give a text or raise. The `json`
module itself is a parameter (`JsonModule`); a dict that `json.loads` has read is written back
without an exception. Exceptions are given by the name of their type. Goals are numbered in
the order of their acceptance, and the `CancelToken` of a goal has the goal's number.
-/

namespace RobotTaskManager.Executor

open PyText (strip)

/-! ## Data -/

/-- `HfsmExecutionStatus.status`. -/
inductive Status
  | idle
  | running
  | success
  | failure
  deriving DecidableEq

/-- The request part of the `ExecuteSubJob` action. -/
structure GoalRequest where
  subjobId : String
  behaviorParameterJson : String
  userdataInJson : String
  deriving DecidableEq

/-- The result part of the `ExecuteSubJob` action. -/
structure GoalResult where
  succeeded : Bool
  outcome : String
  message : String
  userdataOutJson : String
  deriving DecidableEq

/-- The methods of the goal handle that end a goal. -/
inductive TerminalCall
  | succeed
  | abort
  | canceled
  deriving DecidableEq

/-- What the callbacks of the node share under `_status_lock`. -/
structure NodeState where
  busy : Bool
  currentSubjobId : String
  currentActiveState : String
  currentStatus : Status
  currentSpecJson : String
  currentUserdataSnapshotJson : String
  startTime : Nat
  currentCancelToken : Option Nat
  deriving DecidableEq

/-- `__init__`. -/
def NodeState.init (now : Nat) : NodeState :=
  ⟨false, "", "", .idle, "", "{}", now, none⟩

/-- What `json.loads` gives: a dict, a value of another type, a `JSONDecodeError`, or another
exception, such as the `ValueError` of an integer with too many digits. -/
inductive Loads (Dict : Type)
  | dict (d : Dict)
  | other
  | decodeError
  | raises (e : String)

/-- The `json` module, as far as the node uses it. -/
structure JsonModule (Dict : Type) where
  loads : String → Loads Dict
  dumps : Dict → String
  /-- The empty dict. -/
  empty : Dict

/-- How `_build_subjob` and `to_spec` end: an exception with its `str`, or a machine with the
name of its class and either the text of its spec or the `str` of the exception that
serializing it raised. -/
inductive BuildEnd
  | failed (message : Except String String)
  | built (className : String) (spec : Except (Except String String) String)

/-- The outcome that `sm.run` returns. A spec may declare any value as an outcome, so there are
others than strings: of these, what `outcome in _SUCCESS_OUTCOMES` gives, which needs a hash, and
the text of `f'{outcome}'`. -/
inductive Outcome
  | str (o : String)
  | object (succeeded : Except String Bool) (text : Except String String)

/-- How `sm.run` ends: `CancelledError`, another exception with its `repr`, or an outcome
together with what the two `json.dumps(userdata_out)` and the `repr`s of both will give. -/
inductive RunEnd
  | cancelled
  | raised (message : Except String String)
  | returned (outcome : Outcome) (snapshot resultJson shown : Except String String)

/-! ## Reading the request -/

/-- `_safe_json_loads` -/
def safeJsonLoads {Dict : Type} (J : JsonModule Dict) (s : String) : Except String Dict :=
  if strip s = "" then .ok J.empty
  else
    match J.loads (strip s) with
    | .dict d => .ok d
    | .other => .ok J.empty
    | .decodeError => .ok J.empty
    | .raises e => .error e

/-- `json` for requests without parameters, whose texts are empty and never parsed. -/
def noParameters : JsonModule Unit := ⟨fun _ => .other, fun _ => "{}", ()⟩

/-- A request without parameters. -/
def plainRequest (subjobId : String) : GoalRequest := ⟨subjobId, "", ""⟩

example : safeJsonLoads noParameters (plainRequest "Patrol").userdataInJson = .ok () := rfl

/-! ## The lock-protected sections -/

/-- `_SUCCESS_OUTCOMES` -/
def successOutcomes : List String := ["done", "succeeded"]

/-- `outcome in _SUCCESS_OUTCOMES` -/
def Outcome.succeeded : Outcome → Except String Bool
  | .str o => .ok (decide (o ∈ successOutcomes))
  | .object succeeded _ => succeeded

/-- `f'{outcome}'` -/
def Outcome.text : Outcome → Except String String
  | .str o => .ok o
  | .object _ text => text

/-- `result.outcome = outcome`: the setter asserts that it is given a string. -/
def Outcome.field : Outcome → Except String String
  | .str o => .ok o
  | .object _ _ => .error "AssertionError"

/-- The first section of `_execute_goal`, for goal `g`. -/
def NodeState.startSection (s : NodeState) (g now : Nat) (subjobId snapshot : String) :
    NodeState :=
  { s with
    busy := true
    currentSubjobId := subjobId
    currentStatus := .running
    currentActiveState := ""
    currentUserdataSnapshotJson := snapshot
    currentSpecJson := ""
    startTime := now
    currentCancelToken := some g }

/-- The section that publishes the spec of the SubJob. -/
def NodeState.specSection (s : NodeState) (specJson : String) : NodeState :=
  { s with currentSpecJson := specJson }

/-- The section of the `except CancelledError` branch. -/
def NodeState.cancelledSection (s : NodeState) (className emptyJson : String) : NodeState :=
  { s with
    busy := false
    currentStatus := .failure
    currentUserdataSnapshotJson := emptyJson
    currentActiveState := className ++ " → canceled"
    currentCancelToken := none }

/-- The section of `_finish_failure`. -/
def NodeState.failureSection (s : NodeState) (userdataOutJson : String) : NodeState :=
  { s with
    busy := false
    currentStatus := .failure
    currentUserdataSnapshotJson := userdataOutJson }

/-- The last section of `_execute_goal`. `json.dumps(userdata_out)` is called in the middle of
it, and then the outcome is put into a text: when one of these raises, the section is left there. -/
def NodeState.returnedSection (s : NodeState) (subjobId : String) (outcome : Outcome)
    (succeeded : Bool) (snapshot : Except String String) : NodeState :=
  let s' := { s with
    busy := false
    currentStatus := if succeeded then .success else .failure }
  match snapshot, outcome.text with
  | .error _, _ => s'
  | .ok snapshot, .error _ => { s' with currentUserdataSnapshotJson := snapshot }
  | .ok snapshot, .ok text =>
      { s' with
        currentUserdataSnapshotJson := snapshot
        currentActiveState := subjobId ++ " → " ++ text
        currentCancelToken := none }

section Returned

variable (s : NodeState) (subjobId : String) (o : Outcome) (succeeded : Bool)
  (snapshot : Except String String)

/-- What the last section sets wherever it is left. -/
theorem returnedSection_frame : (s.returnedSection subjobId o succeeded snapshot).busy = false ∧
    (s.returnedSection subjobId o succeeded snapshot).currentStatus
      = (if succeeded then .success else .failure) ∧
    (s.returnedSection subjobId o succeeded snapshot).currentSubjobId = s.currentSubjobId := by
  cases snapshot with
  | error e => exact ⟨rfl, rfl, rfl⟩
  | ok snapshot =>
      cases o with
      | str o => exact ⟨rfl, rfl, rfl⟩
      | object _ text => cases text <;> exact ⟨rfl, rfl, rfl⟩

@[simp] theorem returnedSection_busy :
    (s.returnedSection subjobId o succeeded snapshot).busy = false :=
  (returnedSection_frame s subjobId o succeeded snapshot).1

@[simp] theorem returnedSection_currentStatus :
    (s.returnedSection subjobId o succeeded snapshot).currentStatus
      = if succeeded then .success else .failure :=
  (returnedSection_frame s subjobId o succeeded snapshot).2.1

@[simp] theorem returnedSection_currentSubjobId :
    (s.returnedSection subjobId o succeeded snapshot).currentSubjobId = s.currentSubjobId :=
  (returnedSection_frame s subjobId o succeeded snapshot).2.2

theorem returnedSection_ne_running :
    (s.returnedSection subjobId o succeeded snapshot).currentStatus ≠ .running := by
  rw [returnedSection_currentStatus]
  split <;> nofun

end Returned

/-! ## The results -/

/-- The result of the `except CancelledError` branch. -/
def canceledResult (emptyJson : String) : GoalResult :=
  ⟨false, "canceled", "SubJob canceled by client", emptyJson⟩

/-- The result of `_finish_failure`. -/
def failureResult (outcome message userdataOutJson : String) : GoalResult :=
  ⟨false, outcome, message, userdataOutJson⟩

/-- The result of a run that returned `outcome`. -/
def returnedResult (succeeded : Bool) (outcome userdataOutJson : String) : GoalResult :=
  ⟨succeeded, outcome, if succeeded then "ok" else "outcome=" ++ outcome, userdataOutJson⟩

/-- From the two calls in the last section on, up to the log line behind it: the result, or the
first exception. -/
def returnedEnd (outcome : Outcome) (succeeded : Bool)
    (snapshot resultJson shown : Except String String) : Except String GoalResult := do
  let _ ← snapshot
  let _ ← outcome.text
  let field ← outcome.field
  let userdataOut ← resultJson
  let _ ← shown
  return returnedResult succeeded field userdataOut

/-- The terminal call of a run that has returned. -/
def returnedCall (succeeded : Bool) : TerminalCall := if succeeded then .succeed else .abort

end RobotTaskManager.Executor
