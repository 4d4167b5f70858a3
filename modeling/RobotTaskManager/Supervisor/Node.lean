import RobotTaskManager.Ros.ActionState

set_option autoImplicit false

/-! # The skill supervisor

`SkillSupervisor` of `mw_skill_supervisor`. The node is spun by one thread, so its callbacks do
not interleave: the timer callback `_poll_all`, which calls `_kick` for one managed skill after
the other, and the done callbacks `_on_state` and `_on_transition_done`. Each of them is a
function on the `ManagedSkill` it is for.

The environment chooses what `service_is_ready` gives, how the clock goes on, and when the done
callback of a call runs, if ever, and with what. A future completes with a response, with `None`
or with an exception. What the callbacks log is left out.
-/

namespace RobotTaskManager.Supervisor

open Ros (primaryStateUnconfigured primaryStateInactive)

/-! ## A managed skill -/

/-- `State.PRIMARY_STATE_UNKNOWN` -/
def primaryStateUnknown : Nat := 0

/-- `Transition.TRANSITION_…` -/
def transitionConfigure : Nat := 1
def transitionActivate : Nat := 3

/-- `IN_FLIGHT_TIMEOUT_SEC`; `time.monotonic()` counts nanoseconds. -/
def inFlightTimeoutSec : Nat := 3000000000

structure ManagedSkill where
  name : String
  lastState : Nat
  inFlight : Bool
  inFlightDeadline : Nat
  deriving DecidableEq

def ManagedSkill.new (name : String) : ManagedSkill := ⟨name, primaryStateUnknown, false, 0⟩

/-- What a future completes with. -/
inductive Completion (α : Type)
  | raises
  | none
  | response (a : α)
  deriving DecidableEq

/-- The deadline test of `_kick`: the call in flight has timed out. -/
def ManagedSkill.timedOut (skill : ManagedSkill) (now : Nat) : Bool :=
  skill.inFlight && decide (skill.inFlightDeadline < now)

/-- `_kick`: the skill afterwards, and whether `get_state` is called. `delay` is the time between
the two readings of the clock. -/
def kick (skill : ManagedSkill) (now : Nat) (ready : Bool) (delay : Nat) : ManagedSkill × Bool :=
  if skill.inFlight && !skill.timedOut now then (skill, false)
  else if !ready then
    ({ skill with inFlight := false, lastState := primaryStateUnknown }, false)
  else
    ({ skill with
        inFlight := true
        inFlightDeadline := now + delay + inFlightTimeoutSec },
      true)

/-- The transition toward `ACTIVE` that `_on_state` decides on. -/
def transitionFor (stateId : Nat) : Option Nat :=
  if stateId = primaryStateUnconfigured then some transitionConfigure
  else if stateId = primaryStateInactive then some transitionActivate
  else none

/-- `_fire_transition`: the skill afterwards, and the transition that `change_state` is called
with. -/
def fireTransition (skill : ManagedSkill) (now : Nat) (ready : Bool) (transitionId : Nat) :
    ManagedSkill × Option Nat :=
  if !ready then ({ skill with inFlight := false }, none)
  else ({ skill with inFlightDeadline := now + inFlightTimeoutSec }, some transitionId)

/-- `_on_state` -/
def onState (skill : ManagedSkill) (now : Nat) (ready : Bool) :
    Completion Nat → ManagedSkill × Option Nat
  | .raises => ({ skill with inFlight := false }, none)
  | .none => ({ skill with inFlight := false }, none)
  | .response stateId =>
      -- set when it is a new one; otherwise it has this value already
      let skill := { skill with lastState := stateId }
      match transitionFor stateId with
      | none => ({ skill with inFlight := false }, none)
      | some transitionId => fireTransition skill now ready transitionId

/-- `_on_transition_done` -/
def onTransitionDone (skill : ManagedSkill) : ManagedSkill := { skill with inFlight := false }

/-- The transition that a `get_state` reply leads to, if `change_state` is there. -/
def Completion.transition : Completion Nat → Option Nat
  | .response stateId => transitionFor stateId
  | _ => Option.none

/-! ## The node -/

inductive Request
  | getState
  | changeState (transitionId : Nat)
  deriving DecidableEq

/-- A call whose done callback has not run. `givenUp`: `_kick` has found its deadline passed. -/
structure Call where
  request : Request
  givenUp : Bool
  deriving DecidableEq

/-- A managed skill with its outstanding calls. -/
structure Slot where
  skill : ManagedSkill
  calls : List Call
  deriving DecidableEq

structure State where
  clock : Nat
  slots : List Slot
  /-- In `_poll_all`: the skill that is kicked next. -/
  polling : Option Nat

/-- `__init__` with the parameter `managed_nodes`; `skills` is a dict by name. -/
def State.init (managedNodes : List String) (clock : Nat) : State :=
  ⟨clock, managedNodes.eraseDups.map fun name => ⟨.new name, []⟩, none⟩

/-- The `i`th outstanding call for skill `k`, with the skill. -/
def State.callOf (s : State) (k i : Nat) : Option (ManagedSkill × Call) :=
  match s.slots[k]? with
  | none => none
  | some slot => (slot.calls[i]?).map fun call => (slot.skill, call)

/-- The skill that `_poll_all` kicks next. -/
def State.next (s : State) : Option Slot :=
  match s.polling with
  | none => none
  | some k => s.slots[k]?

/-- `k` is the number of the skill. `stale`: the `get_state` call whose reply led to the
transition had been given up. -/
inductive Event
  | getState (k : Nat)
  | changeState (k : Nat) (transitionId : Nat) (stale : Bool)
  deriving DecidableEq

inductive Act
  /-- The clock goes on. -/
  | advance (d : Nat)
  /-- The poll timer fires. -/
  | pollAll
  /-- `_poll_all` kicks the next skill. -/
  | kick (ready : Bool) (delay : Nat)
  /-- The done callback of the `i`th outstanding call for skill `k` runs. -/
  | stateDone (k i : Nat) (c : Completion Nat) (ready : Bool)
  | transitionDone (k i : Nat) (c : Completion Bool)
  deriving DecidableEq

/-- `_kick` with the calls of the skill. -/
def Slot.kick (slot : Slot) (now : Nat) (ready : Bool) (delay : Nat) : Slot :=
  let kicked := Supervisor.kick slot.skill now ready delay
  let calls :=
    if slot.skill.timedOut now then slot.calls.map fun c => { c with givenUp := true }
    else slot.calls
  ⟨kicked.1, if kicked.2 then calls ++ [⟨.getState, false⟩] else calls⟩

/-- `_on_state` with the calls of the skill. -/
def Slot.stateDone (slot : Slot) (i now : Nat) (ready : Bool) (c : Completion Nat) : Slot :=
  let done := onState slot.skill now ready c
  ⟨done.1, slot.calls.eraseIdx i ++ done.2.toList.map fun t => ⟨.changeState t, false⟩⟩

/-- `_on_transition_done` with the calls of the skill. -/
def Slot.transitionDone (slot : Slot) (i : Nat) : Slot :=
  ⟨onTransitionDone slot.skill, slot.calls.eraseIdx i⟩

/-- The next position of the loop of `_poll_all` from position `k`. -/
def State.pollFrom (s : State) (k : Nat) : Option Nat := if k < s.slots.length then some k else none

/-- One step of the node. -/
def step (s : State) : Act → Option (State × List Event)
  | .advance d => some ({ s with clock := s.clock + d }, [])
  | .pollAll =>
      match s.polling with
      | none => some ({ s with polling := s.pollFrom 0 }, [])
      | some _ => none
  | .kick ready delay =>
      match s.polling with
      | none => none
      | some k =>
          match s.slots[k]? with
          | none => none
          | some slot =>
              some ({
                  clock := s.clock + delay
                  slots := s.slots.set k (slot.kick s.clock ready delay)
                  polling := s.pollFrom (k + 1) },
                if (kick slot.skill s.clock ready delay).2 then [.getState k] else [])
  | .stateDone k i c ready =>
      match s.polling, s.slots[k]? with
      | none, some slot =>
          match slot.calls[i]? with
          | some ⟨.getState, stale⟩ =>
              some ({ s with slots := s.slots.set k (slot.stateDone i s.clock ready c) },
                (onState slot.skill s.clock ready c).2.toList.map fun t =>
                  .changeState k t stale)
          | _ => none
      | _, _ => none
  | .transitionDone k i _ =>
      match s.polling, s.slots[k]? with
      | none, some slot =>
          match slot.calls[i]? with
          | some ⟨.changeState _, _⟩ =>
              some ({ s with slots := s.slots.set k (slot.transitionDone i) }, [])
          | _ => none
      | _, _ => none

/-! ## What a step can do -/

theorem onState_transition (skill : ManagedSkill) (now : Nat) (ready : Bool)
    (c : Completion Nat) :
    (onState skill now ready c).2 = if ready then c.transition else none := by
  cases c with
  | raises => simp [onState, Completion.transition]
  | none => simp [onState, Completion.transition]
  | response stateId =>
      cases ht : transitionFor stateId with
      | none => simp [onState, Completion.transition, ht]
      | some t => cases ready <;> simp [onState, Completion.transition, ht, fireTransition]

/-- `_on_state` keeps the flag as it is when it fires a transition, and clears it otherwise. -/
theorem onState_inFlight (skill : ManagedSkill) (now : Nat) (ready : Bool)
    (c : Completion Nat) : (onState skill now ready c).1.inFlight =
      (skill.inFlight && (onState skill now ready c).2.isSome) := by
  cases c with
  | raises => simp [onState]
  | none => simp [onState]
  | response stateId =>
      cases ht : transitionFor stateId with
      | none => simp [onState, ht]
      | some t => cases ready <;> simp [onState, ht, fireTransition]

/-- `_kick` skips the skill, finds its service away, or calls `get_state`. -/
theorem kick_cases (skill : ManagedSkill) (now : Nat) (ready : Bool) (delay : Nat) :
    (skill.inFlight = true ∧ skill.timedOut now = false ∧
      kick skill now ready delay = (skill, false)) ∨
    ((skill.inFlight = true → skill.timedOut now = true) ∧
      ((kick skill now ready delay).1.inFlight = (kick skill now ready delay).2) ∧
      (kick skill now ready delay).2 = ready) := by
  by_cases h : (skill.inFlight && !skill.timedOut now) = true
  · obtain ⟨hf, ht⟩ : skill.inFlight = true ∧ skill.timedOut now = false := by simpa using h
    exact Or.inl ⟨hf, ht, by rw [kick, if_pos h]⟩
  · refine Or.inr ⟨fun hf => ?_, ?_⟩
    · simpa [hf] using h
    · rw [kick, if_neg h]
      cases ready with
      | true => exact ⟨rfl, rfl⟩
      | false => exact ⟨rfl, rfl⟩

/-- **A step of the node** lets time pass, starts a poll, or runs a callback for one skill. -/
theorem step_cases {s s' : State} {a : Act} {es : List Event} (h : step s a = some (s', es)) :
    (∃ d, a = .advance d ∧ s' = { s with clock := s.clock + d } ∧ es = []) ∨
    (a = .pollAll ∧ s.polling = none ∧ s' = { s with polling := s.pollFrom 0 } ∧ es = []) ∨
    (∃ ready delay k slot, a = .kick ready delay ∧ s.polling = some k ∧
      s.slots[k]? = some slot ∧
      s' = ⟨s.clock + delay, s.slots.set k (slot.kick s.clock ready delay),
        s.pollFrom (k + 1)⟩ ∧
      ∀ e ∈ es, e = .getState k) ∨
    (∃ k i c ready slot stale, a = .stateDone k i c ready ∧ s.polling = none ∧
      s.slots[k]? = some slot ∧ slot.calls[i]? = some ⟨.getState, stale⟩ ∧
      s' = { s with slots := s.slots.set k (slot.stateDone i s.clock ready c) } ∧
      es = (onState slot.skill s.clock ready c).2.toList.map fun t =>
        .changeState k t stale) ∨
    ∃ k i c slot t stale, a = .transitionDone k i c ∧ s.polling = none ∧
      s.slots[k]? = some slot ∧ slot.calls[i]? = some ⟨.changeState t, stale⟩ ∧
      s' = { s with slots := s.slots.set k (slot.transitionDone i) } ∧ es = [] := by
  cases a with
  | advance d =>
      obtain ⟨rfl, rfl⟩ := h
      exact Or.inl ⟨d, rfl, rfl, rfl⟩
  | pollAll =>
      rw [step] at h
      split at h
      · rename_i hp
        obtain ⟨rfl, rfl⟩ := h
        exact Or.inr (Or.inl ⟨rfl, hp, rfl, rfl⟩)
      · cases h
  | kick ready delay =>
      rw [step] at h
      split at h
      · cases h
      · rename_i k hp
        split at h
        · cases h
        · rename_i slot hs
          obtain ⟨rfl, rfl⟩ := h
          refine Or.inr (Or.inr (Or.inl ⟨ready, delay, k, slot, rfl, hp, hs, rfl, ?_⟩))
          intro e he
          split at he
          · exact List.mem_singleton.mp he
          · cases he
  | stateDone k i c ready =>
      rw [step] at h
      split at h
      · rename_i slot hp hs
        split at h
        · rename_i stale hc
          obtain ⟨rfl, rfl⟩ := h
          exact Or.inr (Or.inr (Or.inr (Or.inl
            ⟨k, i, c, ready, slot, stale, rfl, hp, hs, hc, rfl, rfl⟩)))
        · cases h
      · cases h
  | transitionDone k i c =>
      rw [step] at h
      split at h
      · rename_i slot hp hs
        split at h
        · rename_i t stale hc
          obtain ⟨rfl, rfl⟩ := h
          exact Or.inr (Or.inr (Or.inr (Or.inr
            ⟨k, i, c, slot, t, stale, rfl, hp, hs, hc, rfl, rfl⟩)))
        · cases h
      · cases h

end RobotTaskManager.Supervisor
