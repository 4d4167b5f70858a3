import RobotTaskManager.Supervisor.Bringup
import RobotTaskManager.Lib.LeadsTo
import Mathlib.Algebra.Ring.Nat
import Mathlib.Logic.Function.Basic

set_option autoImplicit false

/-! # Bringing the skills back

The supervisor with all the servers that it manages. Each call is a message of its own: the server
handles it at any time, and the done callback runs at any time after that. In between, calls may be
lost or fail, replies may come when the call has long been given up, and servers may be restarted or
be moved to another state by somebody else.

`supervisor_recovers`: once this has stopped for a skill, the supervisor brings its server to
`active`, and there it stays. Calls that were lost before may stay lost; this is what the deadline
of `_kick` is for.
-/

namespace RobotTaskManager.Supervisor

open Interleaving
open Ros (Reply primaryStateUnconfigured primaryStateInactive primaryStateActive)

/-! ## The system -/

/-- A call of the supervisor, and what its future has completed with. -/
structure Wire where
  id : Nat
  request : Request
  completion : Option (Completion (Reply Unit))

structure System where
  supervisor : State
  /-- The state of the server of each skill. -/
  server : Nat → Nat
  /-- The outstanding calls for each skill, in the order of `Slot.calls`. -/
  wires : Nat → List Wire
  nextId : Nat

def System.start (managedNodes : List String) (clock : Nat) (server : Nat → Nat) : System :=
  ⟨.init managedNodes clock, server, fun _ => [], 0⟩

def System.setWires (s : System) (k : Nat) (ws : List Wire) : System :=
  { s with wires := Function.update s.wires k ws }

/-- `call_async` -/
def System.post (s : System) (k : Nat) (request : Request) : System :=
  { s.setWires k (s.wires k ++ [⟨s.nextId, request, none⟩]) with nextId := s.nextId + 1 }

def System.send (s : System) : Event → System
  | .getState k => s.post k .getState
  | .changeState k transitionId _ => s.post k (.changeState transitionId)

/-- The callback of a call that has completed. -/
def doneCallback (k i : Nat) (ready : Bool) : Request → Completion (Reply Unit) → Option Act
  | .getState, .raises => some (.stateDone k i .raises ready)
  | .getState, .none => some (.stateDone k i .none ready)
  | .getState, .response (.state id) => some (.stateDone k i (.response id) ready)
  | .changeState _, .raises => some (.transitionDone k i .raises)
  | .changeState _, .none => some (.transitionDone k i .none)
  | .changeState _, .response (.changed success) => some (.transitionDone k i (.response success))
  | _, _ => none

inductive SystemAct
  /-- The clock goes on, the poll timer fires, or `_poll_all` goes on. -/
  | supervisor (a : Act)
  /-- The server of skill `k` handles the request of the `i`th call for it. -/
  | serve (k i : Nat)
  /-- The call fails: its future completes with an exception or with `None`. -/
  | fail (k i : Nat) (raises : Bool)
  /-- The done callback of the call runs. -/
  | done (k i : Nat) (ready : Bool)
  /-- The server is restarted, or led to another state by somebody else. -/
  | move (k id : Nat)
  deriving DecidableEq

/-- The supervisor goes on by itself. -/
def Act.isOwn : Act → Bool
  | .advance _ => true
  | .pollAll => true
  | .kick _ _ => true
  | _ => false

/-- The supervisor takes a step and makes its calls. -/
def System.supervise (s : System) (a : Act) : Option (System × List Event) :=
  (step s.supervisor a).map fun p => (p.2.foldl System.send { s with supervisor := p.1 }, p.2)

def systemStep (s : System) : SystemAct → Option (System × List Event)
  | .supervisor a => if a.isOwn then s.supervise a else none
  | .serve k i =>
      match (s.wires k)[i]? with
      | some ⟨id, request, none⟩ =>
          let served := serve (s.server k) request
          let wire := Wire.mk id request (some (.response served.2))
          some ({ s.setWires k ((s.wires k).set i wire) with
            server := Function.update s.server k served.1 }, [])
      | _ => none
  | .fail k i raises =>
      match (s.wires k)[i]? with
      | some ⟨id, request, none⟩ =>
          let wire := Wire.mk id request (some (if raises then .raises else .none))
          some (s.setWires k ((s.wires k).set i wire), [])
      | _ => none
  | .done k i ready =>
      match (s.wires k)[i]? with
      | some ⟨_, request, some c⟩ =>
          match doneCallback k i ready request c with
          | some a => (s.setWires k ((s.wires k).eraseIdx i)).supervise a
          | none => none
      | _ => none
  | .move k id => some ({ s with server := Function.update s.server k id }, [])

/-! ## What a step does for one skill -/

/-- The call with this number has not come to its done callback. -/
def Outstanding (k id : Nat) (s : System) : Prop := ∃ w ∈ s.wires k, w.id = id

/-- The deadline of the call in flight. -/
def System.deadline (s : System) (k : Nat) : Nat :=
  ((s.supervisor.slots[k]?).map fun slot => slot.skill.inFlightDeadline).getD 0

/-- `_poll_all` comes to skill `k`. -/
def Kicks (k : Nat) (s : System) (a : SystemAct) : Prop :=
  s.supervisor.polling = some k ∧ ∃ ready delay, a = .supervisor (.kick ready delay)

/-- Nothing bad happens to skill `k`: its services are there, none of its calls fails, and nobody
else moves its server. -/
def Healthy (k : Nat) (s : System) : SystemAct → Prop
  | .supervisor (.kick ready _) => s.supervisor.polling = some k → ready = true
  | .fail k' _ _ => k' ≠ k
  | .done k' _ ready => k' = k → ready = true
  | .move k' _ => k' ≠ k
  | _ => True

/-- The calls and the server of skill `k` are as they were. -/
structure Keeps (k : Nat) (s s' : System) : Prop where
  wires : s'.wires k = s.wires k
  server : s'.server k = s.server k
  nextId : s.nextId ≤ s'.nextId
  deadline : s'.deadline k = s.deadline k
  clock : s.supervisor.clock ≤ s'.supervisor.clock

/-- A call for skill `k` is made; others may have been taken off. -/
def Posts (k : Nat) (request : Request) (s s' : System) : Prop :=
  ∃ ws, (∀ w ∈ ws, w ∈ s.wires k) ∧ s'.wires k = ws ++ [⟨s.nextId, request, none⟩] ∧
    s'.nextId = s.nextId + 1

/-- A healthy step, as skill `k` sees it. -/
inductive Move (k : Nat) (s s' : System) : SystemAct → Prop
  | other {a : SystemAct} : Keeps k s s' → ¬ Kicks k s a → (∀ i, a ≠ .done k i true) →
      Move k s s' a
  | serve {i id : Nat} {request : Request} : (s.wires k)[i]? = some ⟨id, request, none⟩ →
      s'.wires k =
        (s.wires k).set i ⟨id, request, some (.response (serve (s.server k) request).2)⟩ →
      s'.server k = (serve (s.server k) request).1 → s'.nextId = s.nextId →
      s'.supervisor = s.supervisor → Move k s s' (.serve k i)
  /-- `_kick` waits for the call in flight. -/
  | waits {delay : Nat} : Keeps k s s' → s.supervisor.clock ≤ s.deadline k →
      Move k s s' (.supervisor (.kick true delay))
  /-- `_kick` calls `get_state`. -/
  | calls {delay : Nat} : Posts k .getState s s' → s'.server k = s.server k →
      (∀ w ∈ s.wires k, w ∈ s'.wires k) → s.supervisor.clock ≤ s'.supervisor.clock →
      Move k s s' (.supervisor (.kick true delay))
  | done {i id : Nat} {request : Request} {c : Completion (Reply Unit)} {a : Act} {p : State}
      {es : List Event} : (s.wires k)[i]? = some ⟨id, request, some c⟩ →
      doneCallback k i true request c = some a → step s.supervisor a = some (p, es) →
      s' = es.foldl System.send { s.setWires k ((s.wires k).eraseIdx i) with supervisor := p } →
      Move k s s' (.done k i true)

section Send

variable {s : System} {k k' : Nat}

@[simp] theorem setWires_self (ws : List Wire) : (s.setWires k ws).wires k = ws :=
  Function.update_self _ _ _

@[simp] theorem setWires_server (ws : List Wire) : (s.setWires k ws).server = s.server := rfl

@[simp] theorem setWires_nextId (ws : List Wire) : (s.setWires k ws).nextId = s.nextId := rfl

theorem setWires_of_ne (ws : List Wire) (h : k ≠ k') : (s.setWires k' ws).wires k = s.wires k :=
  Function.update_of_ne h _ _

def Event.skill : Event → Nat
  | .getState k => k
  | .changeState k _ _ => k

theorem send_other {e : Event} (h : e.skill ≠ k) : (s.send e).wires k = s.wires k := by
  cases e with
  | getState k' => exact setWires_of_ne _ (Ne.symm h)
  | changeState k' t stale => exact setWires_of_ne _ (Ne.symm h)

theorem send_supervisor (e : Event) : (s.send e).supervisor = s.supervisor := by
  cases e <;> rfl

theorem send_server (e : Event) : (s.send e).server = s.server := by
  cases e <;> rfl

theorem send_nextId (e : Event) : (s.send e).nextId = s.nextId + 1 := by
  cases e <;> rfl

/-- What is sent for other skills makes no difference. -/
theorem sends_other {es : List Event} (h : ∀ e ∈ es, e.skill ≠ k) :
    (es.foldl System.send s).wires k = s.wires k := by
  induction es generalizing s with
  | nil => rfl
  | cons e es ih =>
      rw [List.foldl_cons, ih fun e' he' => h e' (List.mem_cons_of_mem e he')]
      exact send_other (h e List.mem_cons_self)

theorem sends_supervisor (es : List Event) :
    (es.foldl System.send s).supervisor = s.supervisor := by
  induction es generalizing s with
  | nil => rfl
  | cons e es ih => rw [List.foldl_cons, ih, send_supervisor]

theorem sends_server (es : List Event) : (es.foldl System.send s).server = s.server := by
  induction es generalizing s with
  | nil => rfl
  | cons e es ih => rw [List.foldl_cons, ih, send_server]

theorem sends_nextId (es : List Event) :
    (es.foldl System.send s).nextId = s.nextId + es.length := by
  induction es generalizing s with
  | nil => rfl
  | cons e es ih =>
      rw [List.foldl_cons, ih, send_nextId, List.length_cons]
      omega

end Send

/-- The skill that a step of the supervisor is for. -/
def Act.skillAt (s : State) : Act → Option Nat
  | .kick _ _ => s.polling
  | .stateDone k _ _ _ => some k
  | .transitionDone k _ _ => some k
  | _ => none

theorem step_clock {s s' : State} {a : Act} {es : List Event} (h : step s a = some (s', es)) :
    s.clock ≤ s'.clock := by
  rcases step_cases h with ⟨d, -, rfl, -⟩ | ⟨-, -, rfl, -⟩ |
    ⟨ready, delay, k, slot, -, -, -, rfl, -⟩ |
    ⟨k, i, c, ready, slot, stale, -, -, -, -, rfl, -⟩ |
    ⟨k, i, c, slot, t, stale, -, -, -, -, rfl, -⟩
  · exact Nat.le_add_right _ _
  · exact le_rfl
  · exact Nat.le_add_right _ _
  · exact le_rfl
  · exact le_rfl

/-- A step for another skill, or for none. -/
theorem step_other {s s' : State} {a : Act} {es : List Event} {k : Nat}
    (h : step s a = some (s', es)) (hk : a.skillAt s ≠ some k) :
    s'.slots[k]? = s.slots[k]? ∧ ∀ e ∈ es, e.skill ≠ k := by
  have hset {k' : Nat} (slot : Slot) (hne : k' ≠ k) : (s.slots.set k' slot)[k]? = s.slots[k]? :=
    List.getElem?_set_ne hne
  rcases step_cases h with ⟨d, -, rfl, rfl⟩ | ⟨-, -, rfl, rfl⟩ |
    ⟨ready, delay, k', slot, rfl, hp, -, rfl, hes⟩ |
    ⟨k', i, c, ready, slot, stale, rfl, -, -, -, rfl, rfl⟩ |
    ⟨k', i, c, slot, t, stale, rfl, -, -, -, rfl, rfl⟩
  · exact ⟨rfl, by simp⟩
  · exact ⟨rfl, by simp⟩
  · have hne : k' ≠ k := fun heq => hk (heq ▸ hp)
    refine ⟨hset _ hne, fun e he => ?_⟩
    rw [hes e he]
    exact hne
  · have hne : k' ≠ k := fun heq => hk (heq ▸ rfl)
    refine ⟨hset _ hne, fun e he => ?_⟩
    obtain ⟨t, -, rfl⟩ := List.mem_map.mp he
    exact hne
  · exact ⟨hset _ fun heq => hk (heq ▸ rfl), by simp⟩

theorem doneCallback_skill {s : State} {k i : Nat} {ready : Bool} {request : Request}
    {c : Completion (Reply Unit)} {a : Act} (h : doneCallback k i ready request c = some a) :
    a.skillAt s = some k := by
  unfold doneCallback at h
  split at h <;> cases h <;> rfl

section Moves

variable {s s' : System} {k : Nat}

theorem Keeps.of_supervise {a : Act} {es : List Event} {k' : Nat} {ws : List Wire} {s₁ : System}
    (hs₁ : s₁ = s ∨ s₁ = s.setWires k' ws ∧ k' ≠ k) (h : s₁.supervise a = some (s', es))
    (hk : a.skillAt s.supervisor ≠ some k) : Keeps k s s' := by
  obtain ⟨⟨p, es⟩, hstep, heq⟩ := Option.map_eq_some_iff.mp h
  obtain ⟨rfl, rfl⟩ := heq
  have hsame : s₁.wires k = s.wires k ∧ s₁.server = s.server ∧ s₁.nextId = s.nextId ∧
      s₁.supervisor = s.supervisor := by
    rcases hs₁ with rfl | ⟨rfl, hne⟩
    · exact ⟨rfl, rfl, rfl, rfl⟩
    · exact ⟨setWires_of_ne ws (Ne.symm hne), rfl, rfl, rfl⟩
  obtain ⟨hwires, hserver, hnext, hsup⟩ := hsame
  rw [hsup] at hstep
  obtain ⟨hslot, hes⟩ := step_other hstep hk
  constructor
  · rw [sends_other hes, ← hwires]
  · rw [sends_server, ← hserver]
  · rw [sends_nextId, ← hnext]
    exact Nat.le_add_right _ _
  · simp only [System.deadline, sends_supervisor, hslot]
  · rw [sends_supervisor]
    exact step_clock hstep

/-- `_poll_all` comes to skill `k`, whose services are there. -/
theorem Move.of_kick {delay : Nat} {es : List Event} (hp : s.supervisor.polling = some k)
    (h : s.supervise (.kick true delay) = some (s', es)) :
    Move k s s' (.supervisor (.kick true delay)) := by
  obtain ⟨⟨p, es⟩, hstep, heq⟩ := Option.map_eq_some_iff.mp h
  obtain ⟨rfl, rfl⟩ := heq
  have hclock : s.supervisor.clock ≤ p.clock := step_clock hstep
  cases hslot : s.supervisor.slots[k]? with
  | none =>
      simp only [step, hp, hslot] at hstep
      cases hstep
  | some slot =>
      simp only [step, hp, hslot] at hstep
      obtain ⟨rfl, rfl⟩ := hstep
      rcases kick_cases slot.skill s.supervisor.clock true delay with
        ⟨hf, ht, hkick⟩ | ⟨-, -, hcalls⟩
      · have hsame : slot.kick s.supervisor.clock true delay = slot := by
          simp [Slot.kick, hkick, ht]
        refine .waits ⟨?_, ?_, ?_, ?_, ?_⟩ ?_
        · simp [hkick]
        · simp [hkick]
        · simp [hkick]
        · obtain ⟨hlt, hget⟩ := List.getElem?_eq_some_iff.mp hslot
          simp [hkick, System.deadline, hsame, hlt, hget]
        · simp [hkick]
        · simpa [ManagedSkill.timedOut, hf, System.deadline, hslot] using ht
      · refine .calls ⟨s.wires k, fun w => id, ?_, ?_⟩ ?_ ?_ ?_
        · simp [hcalls, System.send, System.post]
        · simp [hcalls, System.send, System.post]
        · simp [hcalls, System.send, System.post]
        · intro w hw
          simp [hcalls, System.send, System.post, hw]
        · rw [sends_supervisor]
          exact hclock

theorem Move.of_step {a : SystemAct} {es : List Event} (hP : Healthy k s a)
    (h : systemStep s a = some (s', es)) : Move k s s' a := by
  cases a with
  | supervisor a =>
      rw [systemStep] at h
      split at h
      · rename_i hown
        by_cases hk : a.skillAt s.supervisor = some k
        · cases a with
          | kick ready delay =>
              obtain rfl : ready = true := hP hk
              exact .of_kick hk h
          | advance d => cases hk
          | pollAll => cases hk
          | stateDone k' i c ready => cases hown
          | transitionDone k' i c => cases hown
        · have hsame : s = s ∨ s = s.setWires k [] ∧ k ≠ k := Or.inl rfl
          refine .other (.of_supervise hsame h hk) ?_ (by simp)
          rintro ⟨hp, ready, delay, hact⟩
          cases hact
          exact hk hp
      · cases h
  | serve k' i =>
      rw [systemStep] at h
      split at h
      · rename_i id request hi
        obtain ⟨rfl, rfl⟩ := h
        by_cases hk : k' = k
        · subst hk
          exact .serve hi (setWires_self _) (Function.update_self _ _ _) rfl rfl
        · have hk' : k ≠ k' := Ne.symm hk
          refine .other ⟨setWires_of_ne _ hk', Function.update_of_ne hk' _ _, le_rfl, rfl, le_rfl⟩
            ?_ (by simp)
          rintro ⟨-, ready, delay, hact⟩
          cases hact
      · cases h
  | fail k' i raises =>
      rw [systemStep] at h
      split at h
      · obtain ⟨rfl, rfl⟩ := h
        refine .other ⟨setWires_of_ne _ (Ne.symm hP), rfl, le_rfl, rfl, le_rfl⟩ ?_ (by simp)
        rintro ⟨-, ready, delay, hact⟩
        cases hact
      · cases h
  | done k' i ready =>
      rw [systemStep] at h
      split at h
      · rename_i id request c hi
        split at h
        · rename_i a hcallback
          by_cases hk : k' = k
          · subst hk
            obtain rfl : ready = true := hP rfl
            obtain ⟨⟨p, es⟩, hstep, heq⟩ := Option.map_eq_some_iff.mp h
            obtain ⟨rfl, rfl⟩ := heq
            exact .done hi hcallback hstep rfl
          · refine .other (.of_supervise (Or.inr ⟨rfl, hk⟩) h ?_) ?_ (by simp [hk])
            · rw [doneCallback_skill hcallback]
              simpa using hk
            · rintro ⟨-, ready, delay, hact⟩
              cases hact
        · cases h
      · cases h
  | move k' id =>
      obtain ⟨rfl, rfl⟩ := h
      refine .other ⟨rfl, Function.update_of_ne (Ne.symm hP) _ _, le_rfl, rfl, le_rfl⟩ ?_ (by simp)
      rintro ⟨-, ready, delay, hact⟩
      cases hact

theorem Move.clock {a : SystemAct} (h : Move k s s' a) :
    s.supervisor.clock ≤ s'.supervisor.clock := by
  cases h with
  | other hkeeps hkicks hdone => exact hkeeps.clock
  | serve hi hwires hserver hnext hsup => exact hsup ▸ le_rfl
  | waits hkeeps hwait => exact hkeeps.clock
  | calls hposts hserver hkept hclock => exact hclock
  | done hi hcallback hstep hs =>
      rw [hs, sends_supervisor]
      exact step_clock hstep

theorem Move.nextId {a : SystemAct} (h : Move k s s' a) : s.nextId ≤ s'.nextId := by
  cases h with
  | other hkeeps hkicks hdone => exact hkeeps.nextId
  | serve hi hwires hserver hnext hsup => exact hnext.ge
  | waits hkeeps hwait => exact hkeeps.nextId
  | calls hposts hserver hkept hclock =>
      obtain ⟨ws, -, -, hnext⟩ := hposts
      omega
  | done hi hcallback hstep hs =>
      rw [hs, sends_nextId]
      exact Nat.le_add_right _ _

theorem Move.server {a : SystemAct} (h : Move k s s' a) : s'.server k = s.server k ∨
    ∃ request, s'.server k = (Supervisor.serve (s.server k) request).1 := by
  cases h with
  | other hkeeps hkicks hdone => exact Or.inl hkeeps.server
  | serve hi hwires hserver hnext hsup => exact Or.inr ⟨_, hserver⟩
  | waits hkeeps hwait => exact Or.inl hkeeps.server
  | calls hposts hserver hkept hclock => exact Or.inl hserver
  | done hi hcallback hstep hs =>
      rw [hs, sends_server]
      exact Or.inl rfl

/-- The done callback of a `get_state` call may make a `change_state` call. -/
theorem done_events {i : Nat} {request : Request} {c : Completion (Reply Unit)} {a : Act}
    {s p : State} {es : List Event} (hcallback : doneCallback k i true request c = some a)
    (hstep : step s a = some (p, es)) :
    es = [] ∨ request = .getState ∧ ∃ t stale, es = [.changeState k t stale] := by
  have hstate (c : Completion Nat) (hstep : step s (.stateDone k i c true) = some (p, es)) :
      es = [] ∨ ∃ t stale, es = [.changeState k t stale] := by
    rcases step_cases hstep with ⟨d, h, -⟩ | ⟨h, -⟩ | ⟨ready, delay, k', slot, h, -⟩ |
      ⟨k', i', c', ready, slot, stale, h, -, -, -, -, rfl⟩ | ⟨k', i', c', slot, t, stale, h, -⟩
    · cases h
    · cases h
    · cases h
    · cases h
      cases (onState slot.skill s.clock true c).2 with
      | none => exact Or.inl rfl
      | some t => exact Or.inr ⟨t, stale, rfl⟩
    · cases h
  have htransition (c : Completion Bool)
      (hstep : step s (.transitionDone k i c) = some (p, es)) : es = [] := by
    rcases step_cases hstep with ⟨d, h, -⟩ | ⟨h, -⟩ | ⟨ready, delay, k', slot, h, -⟩ |
      ⟨k', i', c', ready, slot, stale, h, -⟩ | ⟨k', i', c', slot, t, stale, -, -, -, -, -, rfl⟩
    · cases h
    · cases h
    · cases h
    · cases h
    · rfl
  unfold doneCallback at hcallback
  split at hcallback <;> cases hcallback
  · exact (hstate _ hstep).imp id fun h => ⟨rfl, h⟩
  · exact (hstate _ hstep).imp id fun h => ⟨rfl, h⟩
  · exact (hstate _ hstep).imp id fun h => ⟨rfl, h⟩
  · exact Or.inl (htransition _ hstep)
  · exact Or.inl (htransition _ hstep)
  · exact Or.inl (htransition _ hstep)

end Moves

/-! ## The calls -/

section Calls

variable {s s' : System} {k id u : Nat} {request : Request} {a : SystemAct}

/-- No outstanding call has the number of a call to come. -/
def Fresh (s : System) : Prop := ∀ k, ∀ w ∈ s.wires k, w.id < s.nextId

theorem Fresh.setWires (h : Fresh s) (k : Nat) {ws : List Wire} (hws : ∀ w ∈ ws, w.id < s.nextId) :
    Fresh (s.setWires k ws) := by
  intro k' w hw
  by_cases hk : k' = k
  · subst hk
    rw [setWires_self] at hw
    exact hws w hw
  · rw [setWires_of_ne _ hk] at hw
    exact h k' w hw

theorem Fresh.post (h : Fresh s) (k : Nat) (request : Request) : Fresh (s.post k request) := by
  intro k' w hw
  have hlater : w.id < s.nextId ∨ w.id = s.nextId := by
    by_cases hk : k' = k
    · subst hk
      rw [System.post, setWires_self, List.mem_append] at hw
      rcases hw with hw | hw
      · exact Or.inl (h _ w hw)
      · exact Or.inr (List.mem_singleton.mp hw ▸ rfl)
    · exact Or.inl (h k' w (setWires_of_ne _ hk ▸ hw))
  show w.id < s.nextId + 1
  omega

theorem Fresh.sends (h : Fresh s) (es : List Event) : Fresh (es.foldl System.send s) := by
  induction es generalizing s with
  | nil => exact h
  | cons e es ih =>
      cases e with
      | getState k => exact ih (h.post k _)
      | changeState k t stale => exact ih (h.post k _)

theorem Fresh.supervise {a : Act} {es : List Event} (h : Fresh s)
    (hst : s.supervise a = some (s', es)) : Fresh s' := by
  obtain ⟨⟨p, es⟩, -, heq⟩ := Option.map_eq_some_iff.mp hst
  obtain ⟨rfl, rfl⟩ := heq
  exact Fresh.sends (s := { s with supervisor := p }) h es

theorem Fresh.step {es : List Event} (h : Fresh s) (hst : systemStep s a = some (s', es)) :
    Fresh s' := by
  -- what becomes of a call that is answered or fails
  have hset {k i id : Nat} {request : Request} {c : Completion (Reply Unit)}
      (hi : (s.wires k)[i]? = some ⟨id, request, none⟩) :
      Fresh (s.setWires k ((s.wires k).set i ⟨id, request, some c⟩)) := by
    refine h.setWires k fun w hw => ?_
    rcases List.mem_or_eq_of_mem_set hw with hw | rfl
    · exact h k w hw
    · exact h k ⟨id, request, none⟩ (List.mem_of_getElem? hi)
  cases a with
  | supervisor a =>
      rw [systemStep] at hst
      split at hst
      · exact h.supervise hst
      · cases hst
  | serve k i =>
      rw [systemStep] at hst
      split at hst
      · rename_i id request hi
        obtain ⟨rfl, rfl⟩ := hst
        exact hset hi
      · cases hst
  | fail k i raises =>
      rw [systemStep] at hst
      split at hst
      · rename_i id request hi
        obtain ⟨rfl, rfl⟩ := hst
        exact hset hi
      · cases hst
  | done k i ready =>
      rw [systemStep] at hst
      split at hst
      · split at hst
        · refine Fresh.supervise (h.setWires k fun w hw => ?_) hst
          exact h k w (List.mem_of_mem_eraseIdx hw)
        · cases hst
      · cases hst
  | move k id =>
      obtain ⟨rfl, rfl⟩ := hst
      exact h

/-- What has been sent meanwhile has later numbers. -/
theorem sends_mem {es : List Event} {w : Wire} (hw : w ∈ (es.foldl System.send s).wires k) :
    w ∈ s.wires k ∨ s.nextId ≤ w.id := by
  induction es generalizing s with
  | nil => exact Or.inl hw
  | cons e es ih =>
      have hpost (k' : Nat) (request : Request) (h : w ∈ (s.post k' request).wires k) :
          w ∈ s.wires k ∨ s.nextId ≤ w.id := by
        by_cases hk : k = k'
        · subst hk
          rw [System.post, setWires_self, List.mem_append] at h
          rcases h with h | h
          · exact Or.inl h
          · obtain rfl := List.mem_singleton.mp h
            exact Or.inr le_rfl
        · exact Or.inl (setWires_of_ne _ hk ▸ h)
      rcases ih hw with h | h
      · cases e with
        | getState k' => exact hpost k' _ h
        | changeState k' t stale => exact hpost k' _ h
      · rw [send_nextId] at h
        exact Or.inr (by omega)

theorem mem_sends {es : List Event} {w : Wire} (hw : w ∈ s.wires k) :
    w ∈ (es.foldl System.send s).wires k := by
  induction es generalizing s with
  | nil => exact hw
  | cons e es ih =>
      have hpost (k' : Nat) (request : Request) : w ∈ (s.post k' request).wires k := by
        by_cases hk : k = k'
        · subst hk
          rw [System.post, setWires_self]
          exact List.mem_append_left _ hw
        · rw [System.post, setWires_of_ne _ hk]
          exact hw
      cases e with
      | getState k' => exact ih (hpost k' _)
      | changeState k' t stale => exact ih (hpost k' _)

/-- The call has been made, with this request; as long as the server of skill `k` is in the state
`u`, it completes only with what the server then answers, and without leading it away. -/
structure Awaits (k id u : Nat) (request : Request) (s : System) : Prop where
  made : id < s.nextId
  wire : ∀ w ∈ s.wires k, w.id = id → w.request = request ∧
    ∀ c, w.completion = some c → c = .response (serve u request).2 ∧ (serve u request).1 = u

theorem Posts.outstanding (h : Posts k request s s') : Outstanding k s.nextId s' := by
  obtain ⟨ws, -, hwires, -⟩ := h
  exact ⟨⟨s.nextId, request, none⟩, by simp [hwires], rfl⟩

theorem Posts.awaits (h : Posts k request s s') (hfresh : Fresh s) :
    Awaits k s.nextId u request s' := by
  obtain ⟨ws, hws, hwires, hnext⟩ := h
  refine ⟨by omega, fun w hw hid => ?_⟩
  rw [hwires, List.mem_append] at hw
  rcases hw with hw | hw
  · have := hfresh k w (hws w hw)
    omega
  · obtain rfl := List.mem_singleton.mp hw
    refine ⟨rfl, fun c hc => ?_⟩
    cases hc

theorem Awaits.step (h : Awaits k id u request s) (hm : Move k s s' a) (hu : s.server k = u)
    (hu' : s'.server k = u) : Awaits k id u request s' := by
  refine ⟨h.made.trans_le hm.nextId, fun w hw hid => ?_⟩
  cases hm with
  | other hkeeps hkicks hdone => exact h.wire w (hkeeps.wires ▸ hw) hid
  | waits hkeeps hwait => exact h.wire w (hkeeps.wires ▸ hw) hid
  | serve hi hwires hserver hnext hsup =>
      rcases List.mem_or_eq_of_mem_set (hwires ▸ hw) with hw | rfl
      · exact h.wire w hw hid
      · obtain rfl := (h.wire _ (List.mem_of_getElem? hi) hid).1
        refine ⟨rfl, fun c hc => ?_⟩
        rw [hu] at hserver hc
        exact ⟨(Option.some.inj hc).symm, hserver.symm.trans hu'⟩
  | calls hposts hserver hkept hclock =>
      obtain ⟨ws, hws, hwires, -⟩ := hposts
      rw [hwires, List.mem_append] at hw
      rcases hw with hw | hw
      · exact h.wire w (hws w hw) hid
      · obtain rfl := List.mem_singleton.mp hw
        exact absurd hid (Nat.ne_of_gt h.made)
  | @done i id' request' c act p es hi hcallback hstep hs =>
      rw [hs] at hw
      rcases sends_mem hw with hw | hw
      · have hleft : w ∈ (s.setWires k ((s.wires k).eraseIdx i)).wires k := hw
        rw [setWires_self] at hleft
        exact h.wire w (List.mem_of_mem_eraseIdx hleft) hid
      · have hlater : s.nextId ≤ w.id := hw
        have := h.made
        omega

/-- Only its done callback takes a call off. -/
theorem Outstanding.step (h : Outstanding k id s) (hm : Move k s s' a) : Outstanding k id s' ∨
    ∃ i request c, a = .done k i true ∧ (s.wires k)[i]? = some ⟨id, request, some c⟩ := by
  obtain ⟨w, hw, hid⟩ := h
  cases hm with
  | other hkeeps hkicks hdone => exact Or.inl ⟨w, hkeeps.wires ▸ hw, hid⟩
  | waits hkeeps hwait => exact Or.inl ⟨w, hkeeps.wires ▸ hw, hid⟩
  | @serve i id' request' hi hwires hserver hnext hsup =>
      obtain ⟨j, hj⟩ := List.mem_iff_getElem?.mp hw
      rw [Outstanding, hwires]
      by_cases hij : i = j
      · subst hij
        obtain rfl := Option.some.inj (hi.symm.trans hj)
        exact Or.inl ⟨_, List.mem_of_getElem?
          (List.getElem?_set_self (List.getElem?_eq_some_iff.mp hj).1), hid⟩
      · exact Or.inl ⟨w, List.mem_of_getElem? ((List.getElem?_set_ne hij).trans hj), hid⟩
  | calls hposts hserver hkept hclock =>
      exact Or.inl ⟨w, hkept w hw, hid⟩
  | @done i id' request c act p es hi hcallback hstep hs =>
      obtain ⟨j, hj⟩ := List.mem_iff_getElem?.mp hw
      by_cases hij : j = i
      · subst hij
        obtain rfl := Option.some.inj (hi.symm.trans hj)
        exact Or.inr ⟨j, request, c, rfl, hid ▸ hi⟩
      · refine Or.inl ⟨w, hs ▸ mem_sends ?_, hid⟩
        show w ∈ (s.setWires k ((s.wires k).eraseIdx i)).wires k
        rw [setWires_self]
        exact List.mem_eraseIdx_iff_getElem?.mpr ⟨j, hij, hj⟩

end Calls

/-! ## Recovery -/

/-- Time goes on, skill `k` is polled over and over, and the calls for it that are made from now on
come to their done callbacks. -/
structure GoesOn (k : Nat) {s : System} (r : Infinite systemStep (Healthy k) s) : Prop where
  time : ∀ t, ∃ n, t ≤ (r.state n).supervisor.clock
  polled : ∀ n, ∃ m, n ≤ m ∧ Kicks k (r.state m) (r.act m)
  completes : ∀ n id, s.nextId ≤ id → Outstanding k id (r.state n) →
    ∃ m, n ≤ m ∧ ¬ Outstanding k id (r.state m)

/-- A `get_state` call may yet lead to a `change_state` call. -/
def Wire.weight (w : Wire) : Nat := if w.request = .getState then 2 else 1

def System.weight (s : System) (k : Nat) : Nat := ((s.wires k).map Wire.weight).sum

section Progress

variable {s : System} {k u t : Nat}

theorem weight_set {ws : List Wire} {i : Nat} {w : Wire} (h : ws[i]? = some w)
    (c : Option (Completion (Reply Unit))) :
    ((ws.set i { w with completion := c }).map Wire.weight).sum = (ws.map Wire.weight).sum := by
  obtain ⟨hi, rfl⟩ := List.getElem?_eq_some_iff.mp h
  congr 1
  refine List.ext_getElem (by simp) fun j hj hj' => ?_
  rw [List.getElem_map, List.getElem_map, List.getElem_set]
  split
  · subst j
    rfl
  · rfl

theorem weight_eraseIdx {ws : List Wire} {i : Nat} {w : Wire} (h : ws[i]? = some w) :
    w.weight + ((ws.eraseIdx i).map Wire.weight).sum = (ws.map Wire.weight).sum := by
  obtain ⟨hi, rfl⟩ := List.getElem?_eq_some_iff.mp h
  exact ((List.getElem_cons_eraseIdx_perm hi).map Wire.weight).sum_eq

/-- Without new `get_state` calls, each done callback leaves less to be done. -/
theorem Move.weight {s s' : System} {a : SystemAct} (h : Move k s s' a) :
    Posts k .getState s s' ∨
      s'.weight k ≤ s.weight k ∧ ∀ i, a = .done k i true → s'.weight k < s.weight k := by
  unfold System.weight
  cases h with
  | other hkeeps hkicks hdone =>
      rw [hkeeps.wires]
      exact Or.inr ⟨le_rfl, fun i hi => absurd hi (hdone i)⟩
  | serve hi hwires hserver hnext hsup =>
      rw [hwires]
      refine Or.inr ⟨(weight_set hi _).le, fun i hi => ?_⟩
      cases hi
  | waits hkeeps hwait =>
      rw [hkeeps.wires]
      refine Or.inr ⟨le_rfl, fun i hi => ?_⟩
      cases hi
  | calls hposts hserver hkept hclock => exact Or.inl hposts
  | @done i id request c act p es hi hcallback hstep hs =>
      have hless : ((s'.wires k).map Wire.weight).sum < ((s.wires k).map Wire.weight).sum := by
        rw [← weight_eraseIdx hi, hs]
        rcases done_events hcallback hstep with rfl | ⟨rfl, t, stale, rfl⟩
        · have hpos : 0 < (Wire.mk id request (some c)).weight := by
            unfold Wire.weight
            split <;> omega
          simpa using hpos
        · simp [System.send, System.post, Wire.weight]
          omega
      exact Or.inr ⟨hless.le, fun _ _ => hless⟩

theorem Move.deadline {s s' : System} {a : SystemAct} (h : Move k s s' a) :
    Posts k .getState s s' ∨ (∃ i, a = .done k i true) ∨ s'.deadline k = s.deadline k := by
  cases h with
  | other hkeeps hkicks hdone => exact Or.inr (Or.inr hkeeps.deadline)
  | serve hi hwires hserver hnext hsup => exact Or.inr (Or.inr (by rw [System.deadline, hsup]; rfl))
  | waits hkeeps hwait => exact Or.inr (Or.inr hkeeps.deadline)
  | calls hposts hserver hkept hclock => exact Or.inl hposts
  | done hi hcallback hstep hs => exact Or.inr (Or.inl ⟨_, rfl⟩)

theorem Move.kicks {s s' : System} {a : SystemAct} (h : Move k s s' a) (hk : Kicks k s a) :
    Posts k .getState s s' ∨ s.supervisor.clock ≤ s.deadline k := by
  cases h with
  | other hkeeps hkicks hdone => exact absurd hk hkicks
  | serve hi hwires hserver hnext hsup =>
      obtain ⟨-, ready, delay, hact⟩ := hk
      cases hact
  | waits hkeeps hwait => exact Or.inr hwait
  | calls hposts hserver hkept hclock => exact Or.inl hposts
  | done hi hcallback hstep hs =>
      obtain ⟨-, ready, delay, hact⟩ := hk
      cases hact

/-- `_on_state` is told `u` and asks for the transition. -/
theorem Move.fires {s s' : System} {i id : Nat} (h : Move k s s' (.done k i true))
    (hi : (s.wires k)[i]? = some ⟨id, .getState, some (.response (.state u))⟩)
    (hu : transitionFor u = some t) : Posts k (.changeState t) s s' := by
  cases h with
  | other hkeeps hkicks hdone => exact absurd rfl (hdone i)
  | @done _ id' request c act p es hi' hcallback hstep hs =>
      obtain ⟨rfl, rfl, rfl⟩ : id' = id ∧ request = .getState ∧ c = .response (.state u) := by
        simpa using hi'.symm.trans hi
      obtain rfl : .stateDone k i (.response u) true = act := Option.some.inj hcallback
      rcases step_cases hstep with ⟨d, h, -⟩ | ⟨h, -⟩ | ⟨ready, delay, k', slot, h, -⟩ |
        ⟨k', i', c', ready, slot, stale, h, -, -, -, -, rfl⟩ | ⟨k', i', c', slot, t, stale, h, -⟩
      · cases h
      · cases h
      · cases h
      · cases h
        have ht : (onState slot.skill s.supervisor.clock true (.response u)).2 = some t := by
          rw [onState_transition, if_pos rfl]
          exact hu
        refine ⟨(s.wires k).eraseIdx i, fun w => List.mem_of_mem_eraseIdx, ?_, ?_⟩
        · rw [hs, ht]
          simp [System.send, System.post]
        · rw [hs, ht]
          rfl
      · cases h

variable {r : Infinite systemStep (Healthy k) s}

theorem move (r : Infinite systemStep (Healthy k) s) (m : ℕ) :
    Move k (r.state m) (r.state (m + 1)) (r.act m) := .of_step (r.meets m) (r.valid m)

/-- **The supervisor keeps asking**: sooner or later the call in flight is done or given up. -/
theorem keeps_asking (h : GoesOn k r) (n : ℕ) :
    ∃ m, n ≤ m ∧ Posts k .getState (r.state m) (r.state (m + 1)) := by
  by_contra hnever
  have hnot (m : ℕ) (hm : n ≤ m) : ¬ Posts k .getState (r.state m) (r.state (m + 1)) :=
    fun hposts => hnever ⟨m, hm, hposts⟩
  have hless (m : ℕ) (hm : n ≤ m) := (move r m).weight.resolve_left (hnot m hm)
  -- from some step on no done callback runs, and so the deadline stays as it is
  obtain ⟨N, hN⟩ := (r.drop n).eventually_const (μ := fun s => s.weight k)
    fun j => (hless (n + j) (Nat.le_add_right n j)).1
  have hquiet (m : ℕ) (hm : n + N ≤ m) (i : ℕ) : r.act m ≠ .done k i true := by
    obtain ⟨j, rfl⟩ := Nat.exists_eq_add_of_le (show n ≤ m by omega)
    intro hi
    exact ((hless (n + j) (Nat.le_add_right n j)).2 i hi).ne (hN j (by omega))
  have hdeadline (m : ℕ) (hm : n + N ≤ m) :
      (r.state m).deadline k = (r.state (n + N)).deadline k := by
    induction m, hm using Nat.le_induction with
    | base => rfl
    | succ m hm ih =>
        rcases (move r m).deadline with hposts | ⟨i, hi⟩ | hsame
        · exact absurd hposts (hnot m (by omega))
        · exact absurd hi (hquiet m hm i)
        · exact hsame.trans ih
  have hclock : Monotone fun m => (r.state m).supervisor.clock :=
    monotone_nat_of_le_succ fun m => (move r m).clock
  obtain ⟨m₁, hm₁⟩ := h.time ((r.state (n + N)).deadline k + 1)
  obtain ⟨m, hm, hkicks⟩ := h.polled (max (n + N) m₁)
  rcases (move r m).kicks hkicks with hposts | hwait
  · exact hnot m (by omega) hposts
  · have hlate : (r.state m₁).supervisor.clock ≤ (r.state m).supervisor.clock :=
      hclock (by omega)
    rw [hdeadline m (by omega)] at hwait
    omega

/-- A call made while the server stays in the state `u` is answered by the server in this state. -/
theorem call_answered (h : GoesOn k r) {n id : ℕ} {request : Request}
    (hstay : ∀ m, n ≤ m → (r.state m).server k = u) (hid : s.nextId ≤ id)
    (haw : Awaits k id u request (r.state n)) (hout : Outstanding k id (r.state n)) :
    ∃ m, n ≤ m ∧ ∃ i, r.act m = .done k i true ∧ ((r.state m).wires k)[i]? =
      some ⟨id, request, some (.response (serve u request).2)⟩ ∧ (serve u request).1 = u := by
  by_contra hnever
  have hkeep (m : ℕ) (hm : n ≤ m) :
      Awaits k id u request (r.state m) ∧ Outstanding k id (r.state m) := by
    induction m, hm using Nat.le_induction with
    | base => exact ⟨haw, hout⟩
    | succ m hm ih =>
        obtain ⟨haw, hout⟩ := ih
        refine ⟨haw.step (move r m) (hstay m hm) (hstay (m + 1) (by omega)), ?_⟩
        rcases hout.step (move r m) with hout' | ⟨i, request', c, hact, hi⟩
        · exact hout'
        · obtain ⟨hreq, hanswer⟩ := haw.wire _ (List.mem_of_getElem? hi) rfl
          obtain rfl : request' = request := hreq
          obtain ⟨hc, hserve⟩ := hanswer c rfl
          obtain rfl : c = .response (serve u request').2 := hc
          exact absurd ⟨m, hm, i, hact, hi, hserve⟩ hnever
  obtain ⟨m, hm, hgone⟩ := h.completes n id hid hout
  exact hgone (hkeep m hm).2

theorem serve_transitionFor (hu : transitionFor u = some t) :
    (serve u (.changeState t)).1 ≠ u := by
  unfold transitionFor at hu
  split at hu
  · subst u
    cases hu
    decide
  · split at hu
    · subst u
      cases hu
      decide
    · cases hu

/-- **A server does not stay where the supervisor has a transition for it.** -/
theorem leaves (hfresh : ∀ m, Fresh (r.state m)) (h : GoesOn k r) (hu : transitionFor u = some t)
    (n : ℕ) : ∃ m, n ≤ m ∧ (r.state m).server k ≠ u := by
  by_contra hnever
  have hstay (m : ℕ) (hm : n ≤ m) : (r.state m).server k = u := by
    by_contra hne
    exact hnever ⟨m, hm, hne⟩
  have hnext : Monotone fun m => (r.state m).nextId :=
    monotone_nat_of_le_succ fun m => (move r m).nextId
  have hid (m : ℕ) : s.nextId ≤ (r.state m).nextId := by
    have hle : (r.state 0).nextId ≤ (r.state m).nextId := hnext (Nat.zero_le m)
    rwa [r.start] at hle
  -- the state is asked for
  obtain ⟨m₁, hm₁, hposts⟩ := keeps_asking h n
  obtain ⟨m₂, hm₂, i, hact, hi, -⟩ := call_answered h (u := u) (fun m hm => hstay m (by omega))
    (hid m₁) (hposts.awaits (hfresh m₁)) hposts.outstanding
  -- the answer leads to a transition
  have hfires : Posts k (.changeState t) (r.state m₂) (r.state (m₂ + 1)) :=
    Move.fires (hact ▸ move r m₂) hi hu
  obtain ⟨m₃, hm₃, j, -, -, hserve⟩ := call_answered h (u := u) (fun m hm => hstay m (by omega))
    (hid m₂) (hfires.awaits (hfresh m₂)) hfires.outstanding
  exact serve_transitionFor hu hserve

theorem Move.primary {s s' : System} {a : SystemAct} (h : Move k s s' a)
    (hs : Primary (s.server k)) : Primary (s'.server k) ∧ s.server k ≤ s'.server k := by
  rcases h.server with heq | ⟨request, heq⟩
  · rw [heq]
    exact ⟨hs, le_rfl⟩
  · rw [heq]
    refine ⟨serve_primary hs request, ?_⟩
    rcases serve_cases (s.server k) request with h' | ⟨hu, h'⟩ | ⟨hu, h'⟩
    · exact h'.ge
    · rw [h', hu]
      decide
    · rw [h', hu]
      decide

/-- **The supervisor brings a skill back.** Whatever has gone before, with calls lost, late and
given up, with restarts and with transitions by others: when from a state on, in which the server
is not finalized, the skill stays healthy and everything goes on, its server becomes `active` and
stays so. -/
theorem supervisor_recovers {managedNodes : List String} {clock : Nat} {server : Nat → Nat}
    {tr : List Event}
    (hpast : Run systemStep anyStep (System.start managedNodes clock server) tr s)
    (hs : Primary (s.server k)) (r : Infinite systemStep (Healthy k) s) (h : GoesOn k r) :
    ∃ n, ∀ m, n ≤ m → (r.state m).server k = primaryStateActive := by
  have hfresh (m : ℕ) : Fresh (r.state m) := by
    refine (hpast.append (r.run_upto m).any).invariant (fun _ _ _ _ hI _ hst => hI.step hst) ?_
    intro k w hw
    cases hw
  have hprimary (m : ℕ) : Primary ((r.state m).server k) := by
    induction m with
    | zero =>
        rw [r.start]
        exact hs
    | succ m ih => exact ((move r m).primary ih).1
  have hmono : Monotone fun m => (r.state m).server k :=
    monotone_nat_of_le_succ fun m => ((move r m).primary (hprimary m)).2
  -- a server that is not active gets on by one state at least
  have hfurther (n : ℕ) (hn : (r.state n).server k < primaryStateActive) :
      ∃ m, (r.state n).server k < (r.state m).server k := by
    obtain ⟨t, hu⟩ : ∃ t, transitionFor ((r.state n).server k) = some t := by
      rcases hprimary n with hu | hu | hu
      · rw [hu]
        exact ⟨_, rfl⟩
      · rw [hu]
        exact ⟨_, rfl⟩
      · omega
    obtain ⟨m, hnm, hne⟩ := leaves hfresh h hu n
    exact ⟨m, lt_of_le_of_ne (hmono hnm) (Ne.symm hne)⟩
  have hreaches (b : ℕ) (hb : b ≤ primaryStateActive) : ∃ n, b ≤ (r.state n).server k := by
    induction b with
    | zero => exact ⟨0, Nat.zero_le _⟩
    | succ b ih =>
        obtain ⟨n, hn⟩ := ih (by omega)
        rcases hn.lt_or_eq with hlt | heq
        · exact ⟨n, hlt⟩
        · obtain ⟨m, hm⟩ := hfurther n (by omega)
          exact ⟨m, by omega⟩
  obtain ⟨n, hn⟩ := hreaches primaryStateActive le_rfl
  refine ⟨n, fun m hm => ?_⟩
  have hge : primaryStateActive ≤ (r.state m).server k := hn.trans (hmono hm)
  rcases hprimary m with hu | hu | hu
  · rw [hu] at hge
    exact absurd hge (by decide)
  · rw [hu] at hge
    exact absurd hge (by decide)
  · exact hu

end Progress

/-! A server that goes away in the middle of a call and comes back. -/

/-- What one sees of a system with one skill. -/
def System.view (s : System) : State × List Wire × Nat × Nat :=
  (s.supervisor, s.wires 0, s.server 0, s.nextId)

/-- The reply of this call has been lost. -/
def lostCall : Wire := ⟨0, .getState, none⟩

/-- A poll of a server that is active. -/
def pollAct : ℕ → SystemAct
  | 0 => .supervisor .pollAll
  | 1 => .supervisor (.kick true 1)
  | 2 => .serve 0 1
  | _ => .done 0 1 true

/-- The skill between two polls, and while its state is asked for; `clock` is the time of the last
call. -/
def polledSlot (asking : Bool) (clock : Nat) : Slot :=
  ⟨⟨"lift", primaryStateActive, asking, clock + inFlightTimeoutSec⟩,
    ⟨.getState, true⟩ :: if asking then [⟨.getState, false⟩] else []⟩

/-- What one sees before the `j`th action of the poll. -/
def pollView (clock nextId : Nat) (j : ℕ) : State × List Wire × Nat × Nat :=
  match j with
  | 0 => (⟨clock, [polledSlot false clock], none⟩, [lostCall], primaryStateActive, nextId)
  | 1 => (⟨clock, [polledSlot false clock], some 0⟩, [lostCall], primaryStateActive, nextId)
  | 2 => (⟨clock + 1, [polledSlot true (clock + 1)], none⟩,
      [lostCall, ⟨nextId, .getState, none⟩], primaryStateActive, nextId + 1)
  | _ => (⟨clock + 1, [polledSlot true (clock + 1)], none⟩,
      [lostCall, ⟨nextId, .getState, some (.response (.state primaryStateActive))⟩],
      primaryStateActive, nextId + 1)

theorem pollView_step (clock nextId : Nat) {s : System} {j : ℕ} (hj : j < 4)
    (hs : s.view = pollView clock nextId j) : Healthy 0 s (pollAct j) ∧
      ∃ s' es, systemStep s (pollAct j) = some (s', es) ∧
        s'.view = if j = 3 then pollView (clock + 1) (nextId + 1) 0
          else pollView clock nextId (j + 1) := by
  obtain ⟨sup, server, wires, next⟩ := s
  match j with
  | 0 =>
      obtain ⟨rfl, hwires, hserver, rfl⟩ := by simpa [pollView, System.view] using hs
      exact ⟨trivial, _, _, rfl, by simp [pollView, System.view, hwires, hserver, State.pollFrom]⟩
  | 1 =>
      obtain ⟨rfl, hwires, hserver, rfl⟩ := by simpa [pollView, System.view] using hs
      refine ⟨fun _ => rfl, System.post ⟨⟨clock + 1, [polledSlot true (clock + 1)], none⟩, server,
        wires, next⟩ 0 .getState, [.getState 0], rfl, ?_⟩
      simp [System.post, System.setWires, pollView, System.view, hwires, hserver]
  | 2 =>
      obtain ⟨rfl, hwires, hserver, rfl⟩ := by simpa [pollView, System.view] using hs
      refine ⟨trivial, ?_⟩
      simp only [pollAct, systemStep, hwires, hserver]
      refine ⟨_, _, rfl, ?_⟩
      simp [pollView, System.view, System.setWires, serve]
  | 3 =>
      obtain ⟨rfl, hwires, hserver, rfl⟩ := by simpa [pollView, System.view] using hs
      refine ⟨fun _ => rfl, ?_⟩
      simp only [pollAct, systemStep, hwires]
      refine ⟨System.setWires ⟨⟨clock + 1, [polledSlot false (clock + 1)], none⟩, server,
        wires, nextId + 1⟩ 0 [lostCall], [], rfl, ?_⟩
      simp [pollView, System.view, System.setWires, hserver]

theorem schedules_pollAct (clock nextId : Nat) :
    Infinite.Schedules systemStep (Healthy 0) (fun n => pollAct (n % 4))
      fun n s => s.view = pollView (clock + n / 4) (nextId + n / 4) (n % 4) := by
  intro n s hs
  obtain ⟨hP, s', es, hst, hs'⟩ := pollView_step _ _ (Nat.mod_lt n (by decide)) hs
  refine ⟨hP, s', es, hst, ?_⟩
  show s'.view = pollView (clock + (n + 1) / 4) (nextId + (n + 1) / 4) ((n + 1) % 4)
  by_cases h : n % 4 = 3
  · have hdiv : (n + 1) / 4 = n / 4 + 1 := by omega
    have hmod : (n + 1) % 4 = 0 := by omega
    rw [if_pos h] at hs'
    rw [hdiv, hmod]
    exact hs'
  · have hdiv : (n + 1) / 4 = n / 4 := by omega
    have hmod : (n + 1) % 4 = n % 4 + 1 := by omega
    rw [if_neg h] at hs'
    rw [hdiv, hmod]
    exact hs'

/-- The server has been restarted while its state was asked for. -/
def lostState : System :=
  ⟨⟨4000000000, [⟨⟨"lift", primaryStateUnknown, true, inFlightTimeoutSec⟩, [⟨.getState, false⟩]⟩],
      none⟩,
    Function.update (fun _ => primaryStateActive) 0 primaryStateUnconfigured,
    Function.update (fun _ => []) 0 [lostCall], 1⟩

theorem lostState_reached : Run systemStep anyStep
    (System.start ["lift"] 0 fun _ => primaryStateActive) [.getState 0] lostState := by
  have h : runActs systemStep anyStep (System.start ["lift"] 0 fun _ => primaryStateActive)
      [.supervisor .pollAll, .supervisor (.kick true 0), .move 0 primaryStateUnconfigured,
        .supervisor (.advance 4000000000)] = some (lostState, [.getState 0]) := rfl
  exact .of_runActs h

/-- Two calls lead through a transition each, the third one finds the server active. -/
def recoveringRun : Infinite systemStep (Healthy 0) lostState :=
  .cons (a := .supervisor .pollAll) trivial rfl <|
  .cons (a := .supervisor (.kick true 0)) (fun _ => rfl) rfl <|
  .cons (a := .serve 0 1) trivial rfl <|
  .cons (a := .done 0 1 true) (fun _ => rfl) rfl <|
  .cons (a := .serve 0 1) trivial rfl <|
  .cons (a := .done 0 1 true) (fun _ => rfl) rfl <|
  .cons (a := .supervisor .pollAll) trivial rfl <|
  .cons (a := .supervisor (.kick true 0)) (fun _ => rfl) rfl <|
  .cons (a := .serve 0 1) trivial rfl <|
  .cons (a := .done 0 1 true) (fun _ => rfl) rfl <|
  .cons (a := .serve 0 1) trivial rfl <|
  .cons (a := .done 0 1 true) (fun _ => rfl) rfl <|
  .cons (a := .supervisor .pollAll) trivial rfl <|
  .cons (a := .supervisor (.kick true 0)) (fun _ => rfl) rfl <|
  .cons (a := .serve 0 1) trivial rfl <|
  .cons (a := .done 0 1 true) (fun _ => rfl) rfl <|
  .scheduled (schedules_pollAct 4000000000 6) rfl

theorem recoveringRun_view (n : ℕ) : (recoveringRun.state (n + 16)).view =
    pollView (4000000000 + n / 4) (6 + n / 4) (n % 4) :=
  Infinite.stateAt_keeps (schedules_pollAct 4000000000 6) rfl n

theorem recoveringRun_goesOn : GoesOn 0 recoveringRun where
  time t := by
    have hview := recoveringRun_view (4 * t)
    have hdiv : 4 * t / 4 = t := by omega
    have hmod : 4 * t % 4 = 0 := by omega
    rw [hdiv, hmod] at hview
    have hclock : (recoveringRun.state (4 * t + 16)).supervisor.clock = 4000000000 + t :=
      congrArg (·.1.clock) hview
    exact ⟨4 * t + 16, by omega⟩
  polled n := by
    have hview := recoveringRun_view (4 * n + 1)
    have hmod : (4 * n + 1) % 4 = 1 := by omega
    rw [hmod] at hview
    have hact : recoveringRun.act (4 * n + 1 + 16) = pollAct ((4 * n + 1) % 4) := rfl
    rw [hmod] at hact
    exact ⟨4 * n + 1 + 16, by omega, congrArg (·.1.polling) hview, true, 1, hact⟩
  completes n id hid hout := by
    have hview := recoveringRun_view (4 * n)
    have hmod : 4 * n % 4 = 0 := by omega
    rw [hmod] at hview
    have hwires : (recoveringRun.state (4 * n + 16)).wires 0 = [lostCall] :=
      congrArg (·.2.1) hview
    refine ⟨4 * n + 16, by omega, ?_⟩
    rintro ⟨w, hw, rfl⟩
    rw [hwires] at hw
    obtain rfl := List.mem_singleton.mp hw
    exact absurd hid (by decide)

/-- The call that was lost stays outstanding for ever; the server is brought back nevertheless. -/
theorem recoveringRun_recovers :
    ∃ n, ∀ m, n ≤ m → (recoveringRun.state m).server 0 = primaryStateActive :=
  supervisor_recovers lostState_reached (Or.inl rfl) recoveringRun recoveringRun_goesOn

end RobotTaskManager.Supervisor
