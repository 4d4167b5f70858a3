import RobotTaskManager.Engine.Tree

set_option autoImplicit false

/-! # Threads and shared state of a run

A run of a tree is a set of threads. A thread has a *control* (what it executes right now), a
*stack* of `execute` calls that wait for an inner `execute`, a *base* (who called the
outermost one) and its `contextvars` context. What threads share: the `winner` and `errors` of
each `Parallel` execution, the flags of the cancel tokens and the global active path. Threads,
`Parallel` executions and tokens are numbered.

The `Userdata` object is handed from call to call and read by leaves only, so it takes no part
in what a container does; a leaf may return any outcome or raise any exception at any time.
Stack depth and memory are not bounded.
-/

namespace RobotTaskManager.Engine

/-- The exceptions a tree raises, one constructor for each `raise` of the engine, with the
values its message is made of. -/
inductive Exc
  /-- `CancelledError('cancellation requested')` -/
  | cancelled
  /-- `HfsmError`: the machine has no child states. -/
  | noChildren (className : String)
  /-- `HfsmError`: exceeded `visit_cap` child invocations. -/
  | visitCap (className : String)
  /-- `KeyError` of `self._children[current]`. -/
  | keyError (key : String)
  /-- `TransitionError`: the child's outcome is not in its declared outcomes. -/
  | undeclaredOutcome (child outcome : String) (declared : List String)
  /-- `TransitionError`: no transition for the child's outcome. -/
  | noTransition (child outcome : String) (defined : List String)
  /-- `TransitionError`: the target is neither a terminal outcome nor a child name. -/
  | danglingTarget (target className : String) (outcomes children : List String)
  /-- `TransitionError`: a region produced an outcome that is not in its mapping. -/
  | unmappedOutcome (region outcome : String) (mapping : List String)
  /-- `TransitionError('Parallel: no region produced a mapped outcome')` -/
  | noRegionOutcome
  /-- Any other exception, raised by a leaf. -/
  | other (typeName : String)
  deriving DecidableEq

/-- How an `execute` ends: it returns an outcome or raises an exception. -/
abbrev Result := Except Exc String

/-! ## Threads -/

/-- The local variables of `StateMachine.execute`. `inv` numbers the invocation within its
thread. -/
structure MachineFrame where
  inv : Nat
  info : MachineInfo
  children : List (Child Tree)
  current : String
  visits : Nat

/-- The local variables of `RetryDecorator.execute`. -/
structure RetryFrame where
  inv : Nat
  info : RetryInfo
  inner : Tree
  attempts : Nat

/-- An `execute` that waits for the `execute` it called. `parentPath` is what
`_observer.enter` returned before `child.execute`. -/
inductive Frame
  | machine (f : MachineFrame) (child : Child Tree) (parentPath : String)
  | retry (f : RetryFrame)

/-- Where a thread is in `Parallel._execute_first_wins`. -/
inductive ParPhase
  /-- `for t in threads: t.start()`, with the regions whose thread is not started yet. -/
  | starting (rest : List (Region Tree))
  /-- The loop's `with lock: if winner`. -/
  | poll
  /-- `all(not t.is_alive() for t in threads)`. A dead thread stays dead, so reading the
  threads one by one sees what one read of all of them sees at the last of these reads. -/
  | alive
  /-- `_cancel.raise_if_cancelled()`. -/
  | cancel
  /-- After the loop: `with lock: if winner … if errors …`. -/
  | final

/-- What a thread does next. -/
inductive Control
  /-- Call `t.execute(userdata)`. -/
  | exec (t : Tree)
  /-- Inside the `execute` of a leaf. -/
  | leaf (l : Leaf)
  /-- At the top of a machine's `while True`. -/
  | loop (f : MachineFrame)
  /-- `raise_if_cancelled` has let the machine pass, the child is not entered yet. -/
  | checked (f : MachineFrame)
  /-- Inside `_execute_first_wins` of the `Parallel` execution `p`. -/
  | par (p : Nat) (phase : ParPhase)
  /-- The innermost `execute` of the thread is over. -/
  | done (r : Result)
  /-- A region runner has left its lock-protected section but its thread is still alive. -/
  | closing
  /-- The thread has ended. -/
  | dead
  /-- The outermost `execute` (or `run`) has ended with a result. -/
  | finished (r : Result)

/-- Who called the outermost `execute` of the run. -/
inductive Caller
  /-- Some code outside the engine. -/
  | execute
  /-- `BehaviorSM.run`; `parentPath` is what its `_observer.enter` returned. -/
  | run (parentPath : String)

/-- What the outermost `execute` of a thread returns to. -/
inductive Base
  | caller (k : Caller)
  /-- The `runner` of a region of the `Parallel` execution `p`. -/
  | runner (p : Nat) (region : Region Tree)

/-- The context variables: `_TOKEN`, `_ACTIVE_PATH` and whether `_OBSERVER` is set. -/
structure Ctx where
  token : Option Nat
  path : String
  observer : Bool
  deriving DecidableEq

/-- The context of a new `threading.Thread`: every variable has its default. -/
def Ctx.empty : Ctx := ⟨none, "", false⟩

structure Thread where
  base : Base
  stack : List Frame
  control : Control
  ctx : Ctx
  nextInv : Nat

def Control.isDead : Control → Bool
  | .dead => true
  | _ => false

/-! ## Shared state -/

/-- One execution of a `Parallel`: its regions, the threads started for them, and the
`winner` and `errors` its lock protects. -/
structure ParInst where
  first : Region Tree
  rest : List (Region Tree)
  threads : List Nat
  winner : Option String
  errors : List (String × Exc)

def ParInst.regions (p : ParInst) : List (Region Tree) := p.first :: p.rest

structure Config where
  threads : List Thread
  pars : List ParInst
  /-- The tokens whose `request()` has been called. -/
  requested : List Nat
  globalPath : String

/-- `is_cancellation_requested()` in a context. -/
def Config.isCancellationRequested (c : Config) (ctx : Ctx) : Bool :=
  match ctx.token with
  | none => false
  | some tok => decide (tok ∈ c.requested)

/-- `all(not t.is_alive() for t in threads)`. -/
def Config.allDead (c : Config) (threads : List Nat) : Bool :=
  threads.all fun i =>
    match c.threads[i]? with
    | none => false
    | some t => t.control.isDead

/-- How the outermost `execute` (or `run`) ended, if it has. -/
def Config.result (c : Config) : Option Result :=
  match c.threads[0]? with
  | some t =>
      match t.control with
      | .finished r => some r
      | _ => none
  | none => none

/-- `_observer.enter`: the path below `parent`. -/
def enterPath (parent segment : String) : String :=
  if parent = "" then segment else parent ++ "." ++ segment

/-- The thread of region `r` of the execution `p`, as `threading.Thread(...).start()` leaves
it. -/
def regionThread (p : Nat) (r : Region Tree) : Thread :=
  ⟨.runner p r, [], .exec r.state, Ctx.empty, 0⟩

/-! ## Start of a run -/

/-- The thread of a caller that is about to call `root.execute(userdata)` in a context. -/
def callerThread (root : Tree) (k : Caller) (ctx : Ctx) : Thread :=
  ⟨.caller k, [], .exec root, ctx, 0⟩

def Config.start (root : Tree) (k : Caller) (ctx : Ctx) : Config :=
  ⟨[callerThread root k ctx], [], [], ctx.path⟩

/-- `BehaviorSM.run(cancel_token=tok, root_name=rootName)` after its prologue: the token is
installed and the root is entered, from an empty path. -/
def Config.startRun (root : Tree) (tok : Nat) (rootName : String) (observer : Bool) : Config :=
  .start root (.run "") ⟨some tok, enterPath "" rootName, observer⟩

theorem isCancellationRequested_iff (c : Config) (ctx : Ctx) :
    c.isCancellationRequested ctx = true ↔ ∃ tok, ctx.token = some tok ∧ tok ∈ c.requested := by
  unfold Config.isCancellationRequested
  cases ctx.token with
  | none => simp
  | some tok => simp

theorem allDead_iff (c : Config) (threads : List Nat) :
    c.allDead threads = true ↔
      ∀ i ∈ threads, ∃ t, c.threads[i]? = some t ∧ t.control = .dead := by
  simp only [Config.allDead, List.all_eq_true]
  refine forall₂_congr fun i _ => ?_
  cases c.threads[i]? with
  | none => simp
  | some t => cases h : t.control <;> simp [Control.isDead, h]

end RobotTaskManager.Engine
