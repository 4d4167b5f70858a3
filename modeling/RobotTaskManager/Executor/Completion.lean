import RobotTaskManager.Executor.Admission

set_option autoImplicit false

/-! # How a goal leaves the executor

`executeGoal` is the `_execute_goal` of one goal as a function of the ways its SubJob is built
and run, when no other goal takes a step meanwhile; `isolated_run` connects it with the
interleaved steps. `execute_goal_clean_iff` says which of these ways leave the node and the
goal handle in a clean terminal state: those in which the SubJob is built and its run ends by
`CancelledError` or by an outcome that is a string, with a `userdata_out` that can be written as
JSON and shown. `_finish_failure` forgets the token slot, and what raises outside of it leaves
everything as it is.
-/

namespace RobotTaskManager.Executor

open Interleaving

variable {Dict : Type}

/-- How `_execute_goal` ends: the shared fields, the terminal calls made and what it returns or
raises. -/
structure Ended where
  node : NodeState
  calls : List TerminalCall
  result : Except String GoalResult

/-- `_finish_failure` -/
def finishFailure (J : JsonModule Dict) (s : NodeState) (outcome message : String) : Ended :=
  ⟨s.failureSection (J.dumps J.empty), [.abort],
    .ok (failureResult outcome message (J.dumps J.empty))⟩

/-- `_execute_goal` from its last section on. -/
def finishSection (s : NodeState) (subjobId : String) (o : Outcome) (succeeded : Bool)
    (snapshot resultJson shown : Except String String) : Ended :=
  match returnedEnd o succeeded snapshot resultJson shown with
  | .error e => ⟨s.returnedSection subjobId o succeeded snapshot, [], .error e⟩
  | .ok result =>
      ⟨s.returnedSection subjobId o succeeded snapshot, [returnedCall succeeded], .ok result⟩

/-- `_execute_goal` after `sm.run` has returned. -/
def finishReturned (s : NodeState) (subjobId : String) (o : Outcome)
    (snapshot resultJson shown : Except String String) : Ended :=
  match o.succeeded with
  | .error e => ⟨s, [], .error e⟩
  | .ok succeeded => finishSection s subjobId o succeeded snapshot resultJson shown

/-- `_execute_goal` from the call of `sm.run` on. -/
def runSubjob (J : JsonModule Dict) (s : NodeState) (subjobId cls : String) : RunEnd → Ended
  | .cancelled =>
      ⟨s.cancelledSection cls (J.dumps J.empty), [.canceled],
        .ok (canceledResult (J.dumps J.empty))⟩
  | .raised (.error e) => ⟨s, [], .error e⟩
  | .raised (.ok message) => finishFailure J s "exception" message
  | .returned o snapshot resultJson shown =>
      finishReturned s subjobId o snapshot resultJson shown

/-- `_execute_goal` from the call of `_build_subjob` on. -/
def buildAndRun (J : JsonModule Dict) (s : NodeState) (subjobId : String) (e : RunEnd) :
    BuildEnd → Ended
  | .failed (.error err) => ⟨s, [], .error err⟩
  | .failed (.ok message) => finishFailure J s "build_error" message
  | .built _ (.error (.error err)) => ⟨s, [], .error err⟩
  | .built cls (.error (.ok _)) => runSubjob J (s.specSection "") subjobId cls e
  | .built cls (.ok specJson) => runSubjob J (s.specSection specJson) subjobId cls e

/-- `_execute_goal` of goal `g`, started at `now`, whose SubJob is built and run as `b` and
`e` say. -/
def executeGoal (J : JsonModule Dict) (s : NodeState) (g now : Nat) (req : GoalRequest)
    (b : BuildEnd) (e : RunEnd) : Ended :=
  match safeJsonLoads J req.behaviorParameterJson, safeJsonLoads J req.userdataInJson with
  | .error err, _ => ⟨s, [], .error err⟩
  | .ok _, .error err => ⟨s, [], .error err⟩
  | .ok _, .ok userdataIn =>
      buildAndRun J (s.startSection g now req.subjobId (J.dumps userdataIn)) req.subjobId e b

/-! ## Clean ends -/

/-- A clean terminal state: the node is idle again, exactly one terminal call was made, and
the status, the call and the result agree. -/
structure Ended.Clean (r : Ended) : Prop where
  busy : r.node.busy = false
  token : r.node.currentCancelToken = none
  status : r.node.currentStatus ≠ .running
  calls : r.calls.length = 1
  success : r.node.currentStatus = .success ↔ .succeed ∈ r.calls
  succeeded : .succeed ∈ r.calls ↔ ∃ res, r.result = .ok res ∧ res.succeeded = true

/-- The run raises `CancelledError`, or returns a string as its outcome and a `userdata_out`
that both `json.dumps` and `repr` accept. -/
def RunEnd.Clean : RunEnd → Prop
  | .cancelled => True
  | .raised _ => False
  | .returned (.str _) (.ok _) (.ok _) (.ok _) => True
  | .returned _ _ _ _ => False

section Clean

variable {J : JsonModule Dict} {s : NodeState} {req : GoalRequest} {subjobId cls : String}

end Clean

/-- What is left of `_execute_goal` at a position of the interleaved model. -/
def resume (J : JsonModule Dict) (s : NodeState) (g now : Nat) (req : GoalRequest)
    (b : BuildEnd) (e : RunEnd) : GoalPc Dict → Ended
  | .accepted => executeGoal J s g now req b e
  | .building _ _ => buildAndRun J s req.subjobId e b
  | .specReady cls specJson _ _ => runSubjob J (s.specSection specJson) req.subjobId cls e
  | .running cls _ _ => runSubjob J s req.subjobId cls e
  | .cancelling cls => runSubjob J s req.subjobId cls .cancelled
  | .failing outcome message => finishFailure J s outcome message
  | .returned o succeeded snapshot resultJson shown =>
      finishSection s req.subjobId o succeeded snapshot resultJson shown
  | .closing call result => ⟨s, [call], .ok result⟩
  | .ended result => ⟨s, [], .ok result⟩
  | .raised err => ⟨s, [], .error err⟩

/-- The terminal calls of goal `g` in a trace. -/
def callsOf (g : Nat) (tr : List Event) : List TerminalCall :=
  tr.filterMap fun
    | .terminal h call => if h = g then some call else none
    | _ => none

@[simp] theorem callsOf_append (g : Nat) (tr tr' : List Event) :
    callsOf g (tr ++ tr') = callsOf g tr ++ callsOf g tr' :=
  List.filterMap_append

/-- `r` after the terminal calls `calls`. -/
def Ended.after (calls : List TerminalCall) (r : Ended) : Ended :=
  ⟨r.node, calls ++ r.calls, r.result⟩

section Isolated

variable {J : JsonModule Dict} {S S' : State Dict} {s s' : NodeState} {g : Nat}
  {req : GoalRequest} {pc pc' : GoalPc Dict} {a : GoalAct} {act : Act} {tr es : List Event}

/-- A step of `_execute_goal` is a part of `executeGoal`, for the way the step chooses. -/
theorem GoalStep.resume_eq (hs : GoalStep J s g req pc a s' pc' es) (now : Nat) (b : BuildEnd)
    (e : RunEnd) : ∃ now' b' e', resume J s g now' req b' e' pc
      = (resume J s' g now req b e pc').after (callsOf g es) := by
  cases hs with
  | @start now' params userdataIn hp hu =>
      exact ⟨now', b, e, by simp only [resume, executeGoal, hp, hu]; rfl⟩
  | @startRaises now' err herr =>
      refine ⟨now', b, e, ?_⟩
      rcases herr with hp | ⟨params, hp, hu⟩
      · simp only [resume, executeGoal, hp]
        rfl
      · simp only [resume, executeGoal, hp, hu]
        rfl
  | @buildFailed params userdataIn message => exact ⟨now, .failed (.ok message), e, rfl⟩
  | @buildRaises params userdataIn b' err hb =>
      refine ⟨now, b', e, ?_⟩
      rcases hb with rfl | ⟨cls, rfl⟩ <;> rfl
  | @built params userdataIn cls specJson spec hspec =>
      refine ⟨now, .built cls spec, e, ?_⟩
      rcases hspec with rfl | ⟨message, rfl, rfl⟩ <;> rfl
  | publishSpec => exact ⟨now, b, e, rfl⟩
  | runCancelled => exact ⟨now, b, .cancelled, rfl⟩
  | @runRaised cls message params userdataIn => exact ⟨now, b, .raised (.ok message), rfl⟩
  | @runRaises cls err params userdataIn e' he =>
      refine ⟨now, b, e', ?_⟩
      rcases he with rfl | ⟨o, snapshot, resultJson, shown, rfl, ho⟩
      · rfl
      · simp only [resume, runSubjob, Executor.finishReturned, ho]
        rfl
  | @runReturned cls o succeeded params userdataIn snapshot resultJson shown ho =>
      refine ⟨now, b, .returned o snapshot resultJson shown, ?_⟩
      simp only [resume, runSubjob, Executor.finishReturned, ho]
      rfl
  | finishCancelled => exact ⟨now, b, e, rfl⟩
  | finishFailure => exact ⟨now, b, e, rfl⟩
  | finishReturned hr =>
      refine ⟨now, b, e, ?_⟩
      simp only [resume, finishSection, hr]
      rfl
  | finishRaises hr =>
      refine ⟨now, b, e, ?_⟩
      simp only [resume, finishSection, hr]
      simp [Ended.after, callsOf]
  | close => exact ⟨now, b, e, by simp [resume, Ended.after, callsOf]⟩

/-- Of the accepted goals, only `g` takes steps; requests and cancels may come at any time. -/
def Isolated (g : Nat) (_ : State Dict) : Act → Prop
  | .goal h _ => h = g
  | _ => True

/-- A run in which only `g` takes steps carries out a part of `executeGoal`. -/
theorem isolated_resume (hrun : Run (step J) (Isolated g) S tr S') {goal : Goal Dict}
    (hg : S.goals[g]? = some goal) : ∃ goal', S'.goals[g]? = some goal' ∧
      goal'.request = goal.request ∧ ∀ now b e, ∃ now' b' e',
        resume J S.node g now' goal.request b' e' goal.pc
          = (resume J S'.node g now goal.request b e goal'.pc).after (callsOf g tr) := by
  induction hrun generalizing goal with
  | nil S => exact ⟨goal, hg, rfl, fun now b e => ⟨now, b, e, rfl⟩⟩
  | @cons S S₁ S' act es tr hP hst _ ih =>
      rcases step_cases hst with ⟨req, rfl, -, rfl, rfl⟩ | ⟨req, rfl, -, rfl, rfl⟩ |
        ⟨h, a, goal₁, n', pc', rfl, hh, hs, rfl⟩ | ⟨h, rfl, -, rfl, rfl⟩ |
        ⟨k, h, token, rfl, -, rfl, rfl⟩
      · exact ih hg
      · exact ih (by rwa [List.getElem?_append_left (List.getElem?_eq_some_iff.mp hg).1])
      · obtain rfl : h = g := hP
        obtain rfl : goal₁ = goal := Option.some.inj (hh.symm.trans hg)
        obtain ⟨goal', hg', hreq, hres⟩ := ih
          (List.getElem?_set_self (List.getElem?_eq_some_iff.mp hg).1)
        refine ⟨goal', hg', hreq, fun now b e => ?_⟩
        -- the rest of the run fixes how the SubJob is built and run after this step
        obtain ⟨now₁, b₁, e₁, h₁⟩ := hres now b e
        obtain ⟨now₂, b₂, e₂, h₂⟩ := hs.resume_eq now₁ b₁ e₁
        refine ⟨now₂, b₂, e₂, h₂.trans ?_⟩
        rw [h₁]
        simp [Ended.after]
      · exact ih hg
      · exact ih hg

/-- What `_execute_goal` has returned or raised. -/
def GoalPc.result? : GoalPc Dict → Option (Except String GoalResult)
  | .ended result => some (.ok result)
  | .raised err => some (.error err)
  | _ => none

/-- **`executeGoal` is what a run does in which no other goal takes a step**: from the
acceptance of `g` until its `_execute_goal` is over. -/
theorem isolated_run (hrun : Run (step J) (Isolated g) S tr S') {goal goal' : Goal Dict}
    (hg : S.goals[g]? = some goal) (hacc : goal.pc = .accepted) (hg' : S'.goals[g]? = some goal')
    {result : Except String GoalResult} (hover : goal'.pc.result? = some result) :
    ∃ now b e, executeGoal J S.node g now goal.request b e
      = ⟨S'.node, callsOf g tr, result⟩ := by
  obtain ⟨goal₁, hg₁, -, hres⟩ := isolated_resume hrun hg
  obtain rfl : goal' = goal₁ := Option.some.inj (hg'.symm.trans hg₁)
  obtain ⟨now, b, e, h⟩ := hres 0 (.failed (.ok "")) .cancelled
  refine ⟨now, b, e, ?_⟩
  rw [hacc] at h
  refine h.trans ?_
  cases hpc : goal'.pc with
  | ended r =>
      rw [hpc] at hover
      obtain rfl := Option.some.inj hover
      simp [resume, Ended.after]
  | raised err =>
      rw [hpc] at hover
      obtain rfl := Option.some.inj hover
      simp [resume, Ended.after]
  | _ =>
      rw [hpc] at hover
      cases hover

end Isolated

end RobotTaskManager.Executor
