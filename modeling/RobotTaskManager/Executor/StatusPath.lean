import RobotTaskManager.Engine.Paths
import RobotTaskManager.Executor.Admission

set_option autoImplicit false

/-! # The executor, the engine and the status publisher together

The steps of the node's callbacks, of the `sm.run` of its goals with all threads it starts, and
of the timer callback `_publish_status`, interleaved in any order. What the three share beside the
fields under `_status_lock` is the slot `_GLOBAL_PATH` of `observer.py`: the engine's threads
write it, `_publish_status` reads it before it takes the lock.

A thread that outlives its run (a region of a `Parallel` that has returned) goes on taking steps.
Who has written the slot is recorded beside it; no step depends on that.
-/

namespace RobotTaskManager.Executor

variable {Dict : Type}

/-- Where the `run` of a SubJob is. -/
inductive RunPhase
  /-- After `reset_global_path()`. -/
  | reset (m : Engine.MachineInfo) (children : List (Engine.Child Engine.Tree)) (observer : Bool)
  /-- After `_observer.enter(root_name)`. -/
  | entered (c : Engine.Config)

/-- The `sm.run` of a goal. -/
structure EngineRun where
  goal : Nat
  rootName : String
  phase : RunPhase

/-- `root_name or type(self).__name__` -/
def rootNameOf (subjobId className : String) : String :=
  if subjobId = "" then className else subjobId

/-- A thread of the run of a goal: the goal, and the number of the thread. The thread `0` is the
worker that executes the goal. -/
abbrev Writer := Nat × Nat

/-- What `active_path()` has given to a `_publish_status` that has not taken the lock yet. -/
structure Reading where
  path : String
  writer : Option Writer

structure PathState (Dict : Type) where
  executor : State Dict
  runs : List EngineRun
  globalPath : String
  /-- Who wrote `globalPath`; nobody, if it is the initial one or that of a reset. -/
  writer : Option Writer
  readings : List Reading

def PathState.init (now : Nat) : PathState Dict := ⟨.init now, [], "", none, []⟩

inductive PathEvent
  | executor (e : Event)
  | published (msg : StatusMsg)
  deriving DecidableEq

inductive PathAct
  | executor (a : Act)
  /-- `sm.run` of a goal, up to `reset_global_path()`: the machine, and whether an observer is
  installed. -/
  | resetPath (g : Nat) (m : Engine.MachineInfo) (children : List (Engine.Child Engine.Tree))
      (observer : Bool)
  | enterRoot (k : Nat)
  /-- A step of a thread, or of a leaf, of a run. -/
  | engine (k : Nat) (a : Engine.Act)
  | readPath
  /-- The locked section of a `_publish_status`, and its `publish`. -/
  | publish (j now : Nat)

/-! ## Steps -/

/-- `sm.run` ends as the engine's run of the machine. -/
def endsLike : Engine.Result → RunEnd → Bool
  | .ok o, .returned (.str o') _ _ _ => o = o'
  | .error e, .cancelled => e = .cancelled
  | .error e, .raised _ => e ≠ .cancelled
  | _, _ => false

/-- Whether `sm.run` of goal `g` can end with `e` now. -/
def PathState.canEnd (s : PathState Dict) (g : Nat) (e : RunEnd) : Bool :=
  match s.runs.find? (·.goal = g) with
  -- `HfsmError` of a missing behavior parameter, before the path is reset
  | none => match e with
      | .raised _ => true
      | _ => false
  | some r => match r.phase with
      | .reset _ _ _ => false
      | .entered c => match c.result with
          | some res => endsLike res e
          | none => false

def PathState.canTake (s : PathState Dict) : Act → Bool
  | .goal g (.runEnds e) => s.canEnd g e
  | _ => true

/-- `_set_global_path`, if a path is recorded by a thread of the run of goal `g`. -/
def PathState.record (s : PathState Dict) (g : Nat) : Option (Nat × String) → PathState Dict
  | none => s
  | some (i, p) => { s with globalPath := p, writer := some (g, i) }

/-- A run reads the cancel tokens of the executor. -/
def PathState.view (s : PathState Dict) (c : Engine.Config) : Engine.Config :=
  { c with requested := s.executor.requested }

/-- One step of the node, of an engine thread or of `_publish_status`. -/
def pathStep (J : JsonModule Dict) (s : PathState Dict) :
    PathAct → Option (PathState Dict × List PathEvent)
  | .executor a =>
      if s.canTake a then
        match step J s.executor a with
        | none => none
        | some (e, es) => some ({ s with executor := e }, es.map .executor)
      else none
  | .resetPath g m children observer =>
      match s.executor.goals[g]? with
      | some ⟨req, .running cls _ _⟩ =>
          if m.className = cls ∧ ∀ r ∈ s.runs, r.goal ≠ g then
            some ({ s with
                runs := s.runs ++ [⟨g, rootNameOf req.subjobId cls, .reset m children observer⟩]
                globalPath := ""
                writer := none },
              [])
          else none
      | _ => none
  | .enterRoot k =>
      match s.runs[k]? with
      | some ⟨g, root, .reset m children observer⟩ =>
          some ({ s with
              runs := s.runs.set k ⟨g, root, .entered
                (.startRun (.machine m children) g root observer)⟩
              globalPath := Engine.enterPath "" root
              writer := some (g, 0) },
            [])
      | _ => none
  -- tokens are requested by `_cancel_callback`
  | .engine _ (.request _) => none
  | .engine k a =>
      match s.runs[k]? with
      | some ⟨g, root, .entered c⟩ =>
          match Engine.step (s.view c) a with
          | none => none
          | some (c', _) =>
              some (({ s with runs := s.runs.set k ⟨g, root, .entered c'⟩ }).record g
                (Engine.recordedPath (s.view c) a), [])
      | _ => none
  | .readPath => some ({ s with readings := s.readings ++ [⟨s.globalPath, s.writer⟩] }, [])
  | .publish j now =>
      match s.readings[j]? with
      | none => none
      | some r =>
          some ({ s with readings := s.readings.eraseIdx j },
            [.published (s.executor.node.publishSection r.path now)])

end RobotTaskManager.Executor
