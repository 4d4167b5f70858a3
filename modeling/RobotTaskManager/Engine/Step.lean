import RobotTaskManager.Engine.Config
import RobotTaskManager.Lib.Run

set_option autoImplicit false

/-! # The steps of a run

`threadStep` is one step of one thread, up to its next access to something other threads can
see: it gives the thread afterwards, its effect on the shared state and the events it emits.
A run interleaves such steps of the threads, moves of the leaves and calls of
`CancelToken.request()` in any order (`step`).
-/

namespace RobotTaskManager.Engine

/-- What a step shows to the outside. `i` is the thread, `inv` the invocation in it. -/
inductive Event
  /-- `raise_if_cancelled` at the top of a machine's loop, before its child number `visit`;
  `seen` is what `is_cancellation_requested` gave. -/
  | check (i : Nat) (inv visit : Nat) (seen : Bool)
  /-- A machine calls `execute` of its child `name`. -/
  | start (i : Nat) (inv visit : Nat) (name : String)
  /-- A `RetryDecorator` calls `inner.execute`, for the `n`th time. -/
  | attempt (i : Nat) (inv n : Nat)
  /-- A leaf calls `is_cancellation_requested`. -/
  | poll (i : Nat) (seen : Bool)
  /-- The runner of a region goes through its lock-protected section. -/
  | runnerSection (p : Nat) (region : String) (outcomes : OutcomeMap) (r : Result)
  /-- `_execute_first_wins` returns the winner. -/
  | parReturn (p : Nat) (outcome : String)
  /-- `_execute_first_wins` raises `errors[0][1]`. -/
  | parRegionError (p : Nat) (e : Exc)
  /-- `raise_if_cancelled` in the polling loop raises. -/
  | parCancelled (p : Nat)
  /-- `_execute_first_wins` raises its last `TransitionError`. -/
  | parNoOutcome (p : Nat)
  /-- The installed observer is called on `"enter"` (`outcome` then is `none`) or `"exit"`. -/
  | observed (i : Nat) (enter : Bool) (path : String) (outcome : Option String)
  | request (tok : Nat)
  /-- The outermost `execute`, or `run`, of a thread ends. -/
  | finished (i : Nat) (r : Result)
  deriving DecidableEq

/-- What a step of a thread does to the shared state. -/
inductive Effect
  | none
  /-- `_set_global_path` -/
  | path (s : String)
  /-- A new `Parallel` execution, no thread started. -/
  | newPar (first : Region Tree) (rest : List (Region Tree))
  /-- `t.start()` for the thread of a region. -/
  | spawn (p : Nat) (r : Region Tree)
  /-- The lock-protected section of the runner of a region. -/
  | runnerSection (p : Nat) (r : Region Tree) (res : Result)

/-! ## Containers -/

/-- `visit_cap` of `StateMachine.execute`. -/
def visitCap : Nat := 10000

def observe (ctx : Ctx) (i : Nat) (enter : Bool) (path : String)
    (outcome : Option String) : List Event :=
  if ctx.observer then [.observed i enter path outcome] else []

theorem mem_observe {ctx : Ctx} {i : Nat} {enter : Bool} {path : String} {o : Option String}
    {e : Event} (h : e ∈ observe ctx i enter path o) : e = .observed i enter path o := by
  unfold observe at h
  split at h
  · exact List.mem_singleton.mp h
  · cases h

/-- The outcome argument of `_observer.exit`. -/
def Result.outcome? : Result → Option String
  | .ok o => some o
  | .error _ => none

/-- Start of `t.execute(userdata)`. A machine without initial state raises, a retry decorator
makes its first attempt, a `Parallel` creates its lock, `winner` and `errors`. -/
def execStep (c : Config) (i : Nat) (t : Thread) : Tree → Thread × Effect × List Event
  | .leaf l => ({ t with control := .leaf l }, .none, [])
  | .machine m children =>
      match m.initialState with
      | none => ({ t with control := .done (.error (.noChildren m.className)) }, .none, [])
      | some s =>
          ({ t with control := .loop ⟨t.nextInv, m, children, s, 0⟩, nextInv := t.nextInv + 1 },
            .none, [])
  | .parallel _ first rest =>
      ({ t with control := .par c.pars.length (.starting (first :: rest)) },
        .newPar first rest, [])
  | .retry r inner =>
      ({ t with
          stack := .retry ⟨t.nextInv, r, inner, 1⟩ :: t.stack
          control := .exec inner
          nextInv := t.nextInv + 1 },
        .none, [.attempt i t.nextInv 1])

/-- The top of a machine's loop: count the visit, then `raise_if_cancelled`. -/
def loopStep (c : Config) (i : Nat) (t : Thread) (f : MachineFrame) :
    Thread × Effect × List Event :=
  -- the visit is counted before the token is looked at
  if visitCap < f.visits + 1 then
    ({ t with control := .done (.error (.visitCap f.info.className)) }, .none, [])
  else if c.isCancellationRequested t.ctx then
    ({ t with control := .done (.error .cancelled) }, .none,
      [.check i f.inv (f.visits + 1) true])
  else
    ({ t with control := .checked { f with visits := f.visits + 1 } }, .none,
      [.check i f.inv (f.visits + 1) false])

/-- `child = self._children[current]`, `_observer.enter(current)` and the call of
`child.execute`. -/
def checkedStep (i : Nat) (t : Thread) (f : MachineFrame) : Thread × Effect × List Event :=
  match findChild f.children f.current with
  | none => ({ t with control := .done (.error (.keyError f.current)) }, .none, [])
  | some ch =>
      let path := enterPath t.ctx.path f.current
      ({ t with
          stack := .machine f ch t.ctx.path :: t.stack
          control := .exec ch.state
          ctx := { t.ctx with path := path } },
        .path path, .start i f.inv f.visits f.current :: observe t.ctx i true path none)

/-- What a machine does with the outcome of its child: raise, return a terminal outcome, or
go on with the next child. -/
def afterChild (f : MachineFrame) (ch : Child Tree) (o : String) : Control :=
  if o ∉ ch.state.outcomes then
    .done (.error (.undeclaredOutcome f.current o ch.state.outcomes))
  else
    match ch.transitions.lookup o with
    | none => .done (.error (.noTransition f.current o (ch.transitions.map Prod.fst)))
    | some target =>
        if target ∈ f.info.outcomes then .done (.ok target)
        else if target ∈ childNames f.children then .loop { f with current := target }
        else .done (.error (.danglingTarget target f.info.className f.info.outcomes
          (childNames f.children)))

/-- The end of an inner `execute` in the frame that waits for it. -/
def resumeStep (i : Nat) (t : Thread) (rest : List Frame) (res : Result) :
    Frame → Thread × Effect × List Event
  | .machine f ch parentPath =>
      ({ t with
          stack := rest
          control := match res with
            | .ok o => afterChild f ch o
            | .error e => .done (.error e)
          ctx := { t.ctx with path := parentPath } },
        .path parentPath, observe t.ctx i false t.ctx.path res.outcome?)
  | .retry f =>
      match res with
      | .ok o =>
          if o = f.info.retryOutcome ∧ f.attempts ≤ f.info.maxRetries then
            ({ t with
                stack := .retry { f with attempts := f.attempts + 1 } :: rest
                control := .exec f.inner },
              .none, [.attempt i f.inv (f.attempts + 1)])
          else ({ t with stack := rest }, .none, [])
      -- only an outcome is retried, never an exception
      | .error _ => ({ t with stack := rest }, .none, [])

/-- The end of the outermost `execute` of a thread: `BehaviorSM.run` restores the paths and
uninstalls the token, a region runner enters its lock-protected section. -/
def baseStep (i : Nat) (t : Thread) (res : Result) : Thread × Effect × List Event :=
  match t.base with
  | .caller .execute => ({ t with control := .finished res }, .none, [.finished i res])
  | .caller (.run parentPath) =>
      ({ t with
          control := .finished res
          ctx := { t.ctx with path := parentPath, token := none } },
        .path "", observe t.ctx i false t.ctx.path res.outcome? ++ [.finished i res])
  | .runner p r =>
      ({ t with control := .closing }, .runnerSection p r res,
        [.runnerSection p r.name r.outcomes res])

/-- `_execute_first_wins` of the execution `p`. -/
def parStep (c : Config) (t : Thread) (p : Nat) (inst : ParInst) :
    ParPhase → Thread × Effect × List Event
  | .starting (r :: rest) => ({ t with control := .par p (.starting rest) }, .spawn p r, [])
  | .starting [] => ({ t with control := .par p .poll }, .none, [])
  -- a winner is returned without waiting for the other threads
  | .poll =>
      match inst.winner with
      | some v => ({ t with control := .done (.ok v) }, .none, [.parReturn p v])
      | none => ({ t with control := .par p .alive }, .none, [])
  | .alive =>
      if c.allDead inst.threads then ({ t with control := .par p .final }, .none, [])
      else ({ t with control := .par p .cancel }, .none, [])
  | .cancel =>
      if c.isCancellationRequested t.ctx then
        ({ t with control := .done (.error .cancelled) }, .none, [.parCancelled p])
      else ({ t with control := .par p .poll }, .none, [])
  | .final =>
      match inst.winner with
      | some v => ({ t with control := .done (.ok v) }, .none, [.parReturn p v])
      | none =>
          match inst.errors with
          | (_, e) :: _ => ({ t with control := .done (.error e) }, .none, [.parRegionError p e])
          | [] =>
              ({ t with control := .done (.error .noRegionOutcome) }, .none, [.parNoOutcome p])

/-! ## Threads, leaves and requests -/

/-- One step of thread `i`, if it is not inside a leaf and not over. -/
def threadStep (c : Config) (i : Nat) (t : Thread) : Option (Thread × Effect × List Event) :=
  match t.control with
  | .exec s => some (execStep c i t s)
  | .leaf _ => none
  | .loop f => some (loopStep c i t f)
  | .checked f => some (checkedStep i t f)
  | .par p phase =>
      match c.pars[p]? with
      | none => none
      | some inst => some (parStep c t p inst phase)
  | .done res =>
      match t.stack with
      | [] => some (baseStep i t res)
      | f :: rest => some (resumeStep i t rest res f)
  | .closing => some ({ t with control := .dead }, .none, [])
  | .dead => none
  | .finished _ => none

/-- What a leaf may do while it executes. -/
inductive LeafAct
  /-- Call `is_cancellation_requested()`. -/
  | poll
  /-- Return an outcome or raise an exception. -/
  | finish (r : Result)
  deriving DecidableEq

def leafStep (c : Config) (i : Nat) (t : Thread) (a : LeafAct) :
    Option (Thread × Effect × List Event) :=
  match t.control, a with
  | .leaf _, .poll => some (t, .none, [.poll i (c.isCancellationRequested t.ctx)])
  | .leaf _, .finish r => some ({ t with control := .done r }, .none, [])
  | _, _ => none

/-- The lock-protected section of a region's runner: an error is recorded, an outcome is
dropped after a winner, recorded as an error when the region does not map it, and makes its
mapped outcome the winner otherwise. -/
def ParInst.runnerSection (inst : ParInst) (r : Region Tree) : Result → ParInst
  | .error e => { inst with errors := inst.errors ++ [(r.name, e)] }
  | .ok raw =>
      match inst.winner with
      | some _ => inst
      | none =>
          match r.outcomes.lookup raw with
          | none =>
              { inst with errors := inst.errors ++
                  [(r.name, .unmappedOutcome r.name raw
                    ((r.outcomes.map Prod.fst).insertionSort (· ≤ ·)))] }
          | some v => { inst with winner := some v }

/-- Write back thread `i` and carry out its effect. -/
def Config.commit (c : Config) (i : Nat) (t : Thread) : Effect → Config
  | .none => { c with threads := c.threads.set i t }
  | .path s => { c with threads := c.threads.set i t, globalPath := s }
  | .newPar first rest =>
      { c with threads := c.threads.set i t, pars := c.pars ++ [⟨first, rest, [], none, []⟩] }
  | .spawn p r =>
      { c with
        threads := c.threads.set i t ++ [regionThread p r]
        pars := c.pars.modify p fun inst =>
          -- the new thread gets the next number
          { inst with threads := inst.threads ++ [c.threads.length] } }
  | .runnerSection p r res =>
      { c with
        threads := c.threads.set i t
        pars := c.pars.modify p fun inst => inst.runnerSection r res }

/-- An action of a run: a step of a thread, a move of the leaf that a thread is in, or
`CancelToken.request()`. -/
inductive Act
  | thread (i : Nat)
  | leaf (i : Nat) (a : LeafAct)
  | request (tok : Nat)
  deriving DecidableEq

/-- The part of a step that belongs to the thread `i`. -/
def actStep (c : Config) (t : Thread) : Act → Option (Thread × Effect × List Event)
  | .thread i => threadStep c i t
  | .leaf i a => leafStep c i t a
  | .request _ => none

/-- One step of a run. -/
def step (c : Config) (a : Act) : Option (Config × List Event) :=
  match a with
  | .request tok => some ({ c with requested := c.requested ++ [tok] }, [.request tok])
  | .thread i | .leaf i _ =>
      match c.threads[i]? with
      | none => none
      | some t =>
          match actStep c t a with
          | none => none
          | some (t', eff, es) => some (c.commit i t' eff, es)

end RobotTaskManager.Engine
