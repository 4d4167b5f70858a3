import RobotTaskManager.Supervisor.Node
import RobotTaskManager.Lib.Run

set_option autoImplicit false

/-! # Bringing a server to `active` from two sides

The supervisor and `_ensure_lifecycle_active` of an action state both read the state of a
lifecycle server and then ask for the next transition. Here one server, one supervisor that
manages it and one action state run together. The server handles one request at a time, at any
time between the call and its reply. No request times out: the supervisor never finds a deadline
passed, and `_wait_future` ends with the reply.

`_ensure_lifecycle_active` returns `True` exactly in the runs in which the supervisor does not
change the server's state while the action state relies on the state it has read.
-/

namespace RobotTaskManager.Supervisor

open Interleaving
open Ros (Exchange Reply Pc afterReply lifecycleError primaryStateUnconfigured
  primaryStateInactive primaryStateActive)

/-! ## The server -/

/-- What the server does with a request: its state afterwards, and the reply. -/
def serve (server : Nat) : Request → Nat × Reply Unit
  | .getState => (server, .state server)
  | .changeState transitionId =>
      if transitionId = transitionConfigure ∧ server = primaryStateUnconfigured then
        (primaryStateInactive, .changed true)
      else if transitionId = transitionActivate ∧ server = primaryStateInactive then
        (primaryStateActive, .changed true)
      else (server, .changed false)

/-- The states that the server may start in. -/
inductive StartState
  | unconfigured
  | inactive

def StartState.id : StartState → Nat
  | .unconfigured => primaryStateUnconfigured
  | .inactive => primaryStateInactive

/-- The request of an exchange of `_ensure_lifecycle_active`. -/
def request : Exchange → Option Request
  | .getState => some .getState
  | .stateAfterConfigure => some .getState
  | .stateAfterActivate => some .getState
  | .configure => some (.changeState transitionConfigure)
  | .activate => some (.changeState transitionActivate)
  | .sendGoal => none
  | .getResult => none

/-! ## Steps -/

structure Joint where
  server : Nat
  /-- The position of the action state, from the start of `_ensure_lifecycle_active` on. -/
  client : Pc
  /-- The reply of the server to the action state, once it has handled the request. -/
  clientReply : Option (Reply Unit)
  supervisor : State
  /-- The reply of the server to the supervisor's call, once it has handled the request. -/
  supervisorReply : Option (Reply Unit)

def Joint.start (name : String) (clock : Nat) (server : StartState) : Joint :=
  ⟨server.id, .waitForService, none, .init [name] clock, none⟩

inductive JointAct
  /-- The action state goes on: the service is there, or it makes its next call. -/
  | client
  /-- The server handles the request of the action state. -/
  | serveClient
  /-- `_wait_future` of the action state returns the reply. -/
  | replyClient
  /-- The clock goes on, the poll timer fires, or `_poll_all` goes on. -/
  | supervisor (a : Act)
  | serveSupervisor
  /-- The done callback of the supervisor's call runs. -/
  | replySupervisor (ready : Bool)

/-- The request of the supervisor that the server has not handled yet. -/
def Joint.supervisorRequest (s : Joint) : Option Request :=
  match s.supervisorReply, s.supervisor.callOf 0 0 with
  | none, some (_, call) => some call.request
  | _, _ => none

/-- The done callback that runs when a reply arrives. -/
def doneAct (ready : Bool) : Reply Unit → Option Act
  | .state id => some (.stateDone 0 0 (.response id) ready)
  | .changed success => some (.transitionDone 0 0 (.response success))
  | _ => none

/-- What the supervisor does by itself, without a call of its own timing out. -/
def Joint.supervisorMoves (s : Joint) : Act → Bool
  | .advance _ => true
  | .pollAll => true
  | .kick _ _ => s.supervisor.slots.all fun slot => !slot.skill.timedOut s.supervisor.clock
  | _ => false

def jointStep (s : Joint) : JointAct → Option (Joint × List Event)
  | .client =>
      match s.client with
      | .waitForService => some ({ s with client := .call .getState }, [])
      | .call x => some ({ s with client := .done x }, [])
      | _ => none
  | .serveClient =>
      match s.client, s.clientReply with
      | .done x, none =>
          (request x).map fun req =>
            ({ s with
                server := (serve s.server req).1
                clientReply := some (serve s.server req).2 },
              [])
      | _, _ => none
  | .replyClient =>
      match s.client, s.clientReply with
      | .done x, some r => some ({ s with client := afterReply x (some r), clientReply := none }, [])
      | _, _ => none
  | .supervisor a =>
      if s.supervisorMoves a then
        (step s.supervisor a).map fun p => ({ s with supervisor := p.1 }, p.2)
      else none
  | .serveSupervisor =>
      s.supervisorRequest.map fun req =>
        ({ s with
            server := (serve s.server req).1
            supervisorReply := some (serve s.server req).2 },
          [])
  | .replySupervisor ready =>
      match s.supervisorReply with
      | none => none
      | some r =>
          match doneAct ready r with
          | none => none
          | some a =>
              (step s.supervisor a).map fun p =>
                ({ s with supervisor := p.1, supervisorReply := none }, p.2)

/-- What `_ensure_lifecycle_active` has returned, once it has. -/
def ensureReturned : Pc → Option Bool
  | .waitForServer => some true
  | .ended _ => some false
  | _ => none

/-- The action state has been told a state other than `active` and its `ACTIVATE` has not been
handled yet, so what it does next depends on the server being in the state it believes. -/
def relies (pc : Pc) (reply : Option (Reply Unit)) : Bool :=
  match pc, reply with
  | .done .getState, some (.state id) => id ≠ primaryStateActive
  | .call x, _ => x = .configure || x = .stateAfterConfigure || x = .activate
  | .done x, none => x = .configure || x = .stateAfterConfigure || x = .activate
  | .done x, some _ => x = .configure || x = .stateAfterConfigure
  | _, _ => false

/-- The supervisor does not change the server's state while the action state relies on it. -/
def Undisturbed (s : Joint) : JointAct → Prop
  | .serveSupervisor =>
      ∀ req, s.supervisorRequest = some req → relies s.client s.clientReply = true →
        (serve s.server req).1 = s.server
  | _ => True

/-! ## What the server does -/

/-- The three states that the server goes through. -/
def Primary (server : Nat) : Prop :=
  server = primaryStateUnconfigured ∨ server = primaryStateInactive ∨ server = primaryStateActive

/-- A request leaves the state as it is, or leads it one further. -/
theorem serve_cases (server : Nat) (req : Request) :
    (serve server req).1 = server ∨
      (server = primaryStateUnconfigured ∧ (serve server req).1 = primaryStateInactive) ∨
      (server = primaryStateInactive ∧ (serve server req).1 = primaryStateActive) := by
  cases req with
  | getState => exact Or.inl rfl
  | changeState t =>
      rw [serve]
      split
      · rename_i hc
        exact Or.inr (Or.inl ⟨hc.2, rfl⟩)
      · split
        · rename_i ha
          exact Or.inr (Or.inr ⟨ha.2, rfl⟩)
        · exact Or.inl rfl

theorem serve_primary {server : Nat} (h : Primary server) (req : Request) :
    Primary (serve server req).1 := by
  rcases serve_cases server req with h' | ⟨-, h'⟩ | ⟨-, h'⟩
  · rw [h']
    exact h
  · exact Or.inr (Or.inl h')
  · exact Or.inr (Or.inr h')

/-! ## The two fates

`OnTrack`: whenever the action state relies on a state, the server is in it. `Lost`: the server
is already further, or has refused a request, or `_ensure_lifecycle_active` has returned
`False`. -/

inductive OnTrack : Nat → Pc → Option (Reply Unit) → Prop
  | start {server : Nat} {pc : Pc} : Primary server →
      pc = .waitForService ∨ pc = .call .getState ∨ pc = .done .getState → OnTrack server pc none
  | told {server : Nat} : Primary server →
      OnTrack server (.done .getState) (some (.state server))
  | configure {pc : Pc} : pc = .call .configure ∨ pc = .done .configure →
      OnTrack primaryStateUnconfigured pc none
  | configured : OnTrack primaryStateInactive (.done .configure) (some (.changed true))
  | reread {pc : Pc} : pc = .call .stateAfterConfigure ∨ pc = .done .stateAfterConfigure →
      OnTrack primaryStateInactive pc none
  | toldInactive : OnTrack primaryStateInactive (.done .stateAfterConfigure)
      (some (.state primaryStateInactive))
  | activate {pc : Pc} : pc = .call .activate ∨ pc = .done .activate →
      OnTrack primaryStateInactive pc none
  | activated : OnTrack primaryStateActive (.done .activate) (some (.changed true))
  | check {pc : Pc} : pc = .call .stateAfterActivate ∨ pc = .done .stateAfterActivate →
      OnTrack primaryStateActive pc none
  | toldActive : OnTrack primaryStateActive (.done .stateAfterActivate)
      (some (.state primaryStateActive))
  | returned {server : Nat} : Primary server → OnTrack server .waitForServer none

inductive Lost : Nat → Pc → Option (Reply Unit) → Prop
  | told {server id : Nat} : Primary server → Primary id → id < server →
      Lost server (.done .getState) (some (.state id))
  | configure {server : Nat} {pc : Pc} : Primary server → primaryStateUnconfigured < server →
      pc = .call .configure ∨ pc = .done .configure → Lost server pc none
  | configured : Lost primaryStateActive (.done .configure) (some (.changed true))
  | reread {pc : Pc} : pc = .call .stateAfterConfigure ∨ pc = .done .stateAfterConfigure →
      Lost primaryStateActive pc none
  | toldInactive : Lost primaryStateActive (.done .stateAfterConfigure)
      (some (.state primaryStateInactive))
  | toldOther {server id : Nat} : Primary server → id ≠ primaryStateInactive →
      Lost server (.done .stateAfterConfigure) (some (.state id))
  | activate {pc : Pc} : pc = .call .activate ∨ pc = .done .activate →
      Lost primaryStateActive pc none
  | refused {server : Nat} {x : Exchange} : Primary server → x = .configure ∨ x = .activate →
      Lost server (.done x) (some (.changed false))
  | returned {server : Nat} : Primary server → Lost server (.ended (.ok lifecycleError)) none

theorem OnTrack.primary {server : Nat} {pc : Pc} {r : Option (Reply Unit)}
    (h : OnTrack server pc r) : Primary server := by
  cases h <;> first
    | assumption
    | simp [Primary]

theorem Lost.primary {server : Nat} {pc : Pc} {r : Option (Reply Unit)}
    (h : Lost server pc r) : Primary server := by
  cases h <;> first
    | assumption
    | simp [Primary]

/-! ## Steps of the action state -/

section Client

variable {s s' : Joint} {es : List Event}

/-- A step on the side of the action state. -/
def JointAct.ofClient : JointAct → Bool
  | .client => true
  | .serveClient => true
  | .replyClient => true
  | _ => false

/-- What a step on the side of the action state does to the server and the action state. -/
inductive ClientMove : Nat → Pc → Option (Reply Unit) → Nat → Pc → Option (Reply Unit) → Prop
  | service {server : Nat} {r : Option (Reply Unit)} :
      ClientMove server .waitForService r server (.call .getState) r
  | call {server : Nat} {x : Exchange} {r : Option (Reply Unit)} :
      ClientMove server (.call x) r server (.done x) r
  | serve {server : Nat} {x : Exchange} {req : Request} : request x = some req →
      ClientMove server (.done x) none (serve server req).1 (.done x) (some (serve server req).2)
  | reply {server : Nat} {x : Exchange} {r : Reply Unit} :
      ClientMove server (.done x) (some r) server (afterReply x (some r)) none

theorem ClientMove.of_step {a : JointAct} (ha : a.ofClient = true)
    (h : jointStep s a = some (s', es)) :
    ClientMove s.server s.client s.clientReply s'.server s'.client s'.clientReply := by
  obtain ⟨server, pc, r, sup, supReply⟩ := s
  cases a with
  | client =>
      cases pc with
      | waitForService =>
          obtain ⟨rfl, rfl⟩ := h
          exact .service
      | call x =>
          obtain ⟨rfl, rfl⟩ := h
          exact .call
      | _ => cases h
  | serveClient =>
      cases pc with
      | done x =>
          cases r with
          | none =>
              obtain ⟨req, hreq, h⟩ := Option.map_eq_some_iff.mp h
              obtain ⟨rfl, rfl⟩ := h
              exact .serve hreq
          | some r => cases h
      | _ => cases h
  | replyClient =>
      cases pc with
      | done x =>
          cases r with
          | none => cases h
          | some r =>
              obtain ⟨rfl, rfl⟩ := h
              exact .reply
      | _ => cases h
  | _ => cases ha

variable {server server' : Nat} {pc pc' : Pc} {r r' : Option (Reply Unit)}

theorem OnTrack.client (h : OnTrack server pc r) (hm : ClientMove server pc r server' pc' r') :
    OnTrack server' pc' r' := by
  cases hm with
  | service =>
      cases h with
      | start hs _ => exact .start hs (by simp)
      | configure hp => simp at hp
      | reread hp => simp at hp
      | activate hp => simp at hp
      | check hp => simp at hp
  | @call x _ =>
      cases h with
      | start hs hp =>
          obtain rfl : x = .getState := by simpa using hp
          exact .start hs (by simp)
      | configure hp =>
          obtain rfl : x = .configure := by simpa using hp
          exact .configure (by simp)
      | reread hp =>
          obtain rfl : x = .stateAfterConfigure := by simpa using hp
          exact .reread (by simp)
      | activate hp =>
          obtain rfl : x = .activate := by simpa using hp
          exact .activate (by simp)
      | check hp =>
          obtain rfl : x = .stateAfterActivate := by simpa using hp
          exact .check (by simp)
  | @serve x req hreq =>
      cases h with
      | start hs hp =>
          obtain rfl : x = .getState := by simpa using hp
          obtain rfl := Option.some.inj hreq
          exact .told hs
      | configure hp =>
          obtain rfl : x = .configure := by simpa using hp
          obtain rfl := Option.some.inj hreq
          exact .configured
      | reread hp =>
          obtain rfl : x = .stateAfterConfigure := by simpa using hp
          obtain rfl := Option.some.inj hreq
          exact .toldInactive
      | activate hp =>
          obtain rfl : x = .activate := by simpa using hp
          obtain rfl := Option.some.inj hreq
          exact .activated
      | check hp =>
          obtain rfl : x = .stateAfterActivate := by simpa using hp
          obtain rfl := Option.some.inj hreq
          exact .toldActive
  | reply =>
      cases h with
      | told hs =>
          rcases hs with rfl | rfl | rfl
          · exact .configure (Or.inl rfl)
          · exact .activate (Or.inl rfl)
          · exact .returned (by simp [Primary])
      | configured => exact .reread (Or.inl rfl)
      | toldInactive => exact .activate (Or.inl rfl)
      | activated => exact .check (Or.inl rfl)
      | toldActive => exact .returned (by simp [Primary])

theorem Lost.client (h : Lost server pc r) (hm : ClientMove server pc r server' pc' r') :
    Lost server' pc' r' := by
  cases hm with
  | service =>
      cases h with
      | configure _ _ hp => simp at hp
      | reread hp => simp at hp
      | activate hp => simp at hp
  | @call x _ =>
      cases h with
      | configure hs hlt hp =>
          obtain rfl : x = .configure := by simpa using hp
          exact .configure hs hlt (by simp)
      | reread hp =>
          obtain rfl : x = .stateAfterConfigure := by simpa using hp
          exact .reread (by simp)
      | activate hp =>
          obtain rfl : x = .activate := by simpa using hp
          exact .activate (by simp)
  | @serve x req hreq =>
      cases h with
      | configure hs hlt hp =>
          obtain rfl : x = .configure := by simpa using hp
          obtain rfl := Option.some.inj hreq
          -- the server is no longer unconfigured
          have hne : server ≠ primaryStateUnconfigured := by omega
          have hrefuse : serve server (.changeState transitionConfigure) =
              (server, .changed false) := by
            rw [serve, if_neg fun h => hne h.2, if_neg fun h => absurd h.1 (by decide)]
          rw [hrefuse]
          exact .refused hs (by simp)
      | reread hp =>
          obtain rfl : x = .stateAfterConfigure := by simpa using hp
          obtain rfl := Option.some.inj hreq
          exact .toldOther (serve_primary (by simp [Primary]) _) (by decide)
      | activate hp =>
          obtain rfl : x = .activate := by simpa using hp
          obtain rfl := Option.some.inj hreq
          exact .refused (serve_primary (by simp [Primary]) _) (by simp)
  | reply =>
      cases h with
      | told hs hid hlt =>
          rcases hid with rfl | rfl | rfl
          · exact .configure hs hlt (Or.inl rfl)
          · obtain rfl : server = primaryStateActive := by
              rcases hs with rfl | rfl | rfl <;> first
                | rfl
                | (exact absurd hlt (by decide))
            exact .activate (Or.inl rfl)
          · rcases hs with rfl | rfl | rfl <;> exact absurd hlt (by decide)
      | configured => exact .reread (Or.inl rfl)
      | toldInactive => exact .activate (Or.inl rfl)
      | @toldOther _ id hs hne =>
          have hout : afterReply .stateAfterConfigure (some (.state id : Reply Unit)) =
              .ended (.ok lifecycleError) := by
            simp [afterReply, hne]
          rw [hout]
          exact .returned hs
      | refused hs hx =>
          rcases hx with rfl | rfl
          · exact .returned hs
          · exact .returned hs

end Client

/-! ## Requests of the supervisor -/

section Requests

variable {server : Nat} {pc : Pc} {r : Option (Reply Unit)}

theorem serve_active (req : Request) :
    (serve primaryStateActive req).1 = primaryStateActive := by
  rcases serve_cases primaryStateActive req with h | ⟨h, -⟩ | ⟨h, -⟩
  · exact h
  · cases h
  · cases h

theorem serve_inactive {req : Request}
    (h : (serve primaryStateInactive req).1 ≠ primaryStateInactive) :
    (serve primaryStateInactive req).1 = primaryStateActive := by
  rcases serve_cases primaryStateInactive req with h' | ⟨h', -⟩ | ⟨-, h'⟩
  · exact absurd h' h
  · cases h'
  · exact h'

theorem le_serve (server : Nat) (req : Request) : server ≤ (serve server req).1 := by
  rcases serve_cases server req with h | ⟨h, h'⟩ | ⟨h, h'⟩
  · exact h.ge
  · rw [h', h]
    decide
  · rw [h', h]
    decide

/-- What the server does for the supervisor does not matter as long as the action state does not
rely on the state. -/
theorem OnTrack.serve (h : OnTrack server pc r) (req : Request)
    (hP : relies pc r = true → (Supervisor.serve server req).1 = server) :
    OnTrack (Supervisor.serve server req).1 pc r := by
  -- where it relies on the state, the state is the same
  by_cases hrel : relies pc r = true
  · rw [hP hrel]
    exact h
  · have hprim := serve_primary h.primary req
    cases h with
    | start _ hp => exact .start hprim hp
    | returned _ => exact .returned hprim
    | @told server _ =>
        obtain rfl : server = primaryStateActive := by simpa [relies] using hrel
        rw [serve_active]
        exact .told (Or.inr (Or.inr rfl))
    | activated => rw [serve_active]; exact .activated
    | toldActive => rw [serve_active]; exact .toldActive
    | check hp => rw [serve_active]; exact .check hp
    | configure hp => rcases hp with rfl | rfl <;> exact absurd rfl hrel
    | reread hp => rcases hp with rfl | rfl <;> exact absurd rfl hrel
    | activate hp => rcases hp with rfl | rfl <;> exact absurd rfl hrel
    | configured => exact absurd rfl hrel
    | toldInactive => exact absurd rfl hrel

/-- A transition for the supervisor under a state that the action state relies on. -/
theorem OnTrack.lost (h : OnTrack server pc r) {req : Request} (hrel : relies pc r = true)
    (hne : (Supervisor.serve server req).1 ≠ server) : Lost (Supervisor.serve server req).1 pc r := by
  have hprim := serve_primary h.primary req
  have hlt : server < (Supervisor.serve server req).1 :=
    lt_of_le_of_ne (le_serve server req) (Ne.symm hne)
  cases h with
  | start _ hp => rcases hp with rfl | rfl | rfl <;> cases hrel
  | told hs => exact .told hprim hs hlt
  | configure hp => exact .configure hprim hlt hp
  | configured => rw [serve_inactive hne]; exact .configured
  | reread hp => rw [serve_inactive hne]; exact .reread hp
  | toldInactive => rw [serve_inactive hne]; exact .toldInactive
  | activate hp => rw [serve_inactive hne]; exact .activate hp
  | activated => cases hrel
  | check hp => rcases hp with rfl | rfl <;> cases hrel
  | toldActive => cases hrel
  | returned _ => cases hrel

theorem Lost.serve (h : Lost server pc r) (req : Request) :
    Lost (Supervisor.serve server req).1 pc r := by
  have hprim := serve_primary h.primary req
  have hle := le_serve server req
  cases h with
  | told _ hid hlt => exact .told hprim hid (lt_of_lt_of_le hlt hle)
  | configure _ hlt hp => exact .configure hprim (lt_of_lt_of_le hlt hle) hp
  | configured => rw [serve_active]; exact .configured
  | reread hp => rw [serve_active]; exact .reread hp
  | toldInactive => rw [serve_active]; exact .toldInactive
  | toldOther _ hne => exact .toldOther hprim hne
  | activate hp => rw [serve_active]; exact .activate hp
  | refused _ hx => exact .refused hprim hx
  | returned _ => exact .returned hprim

end Requests

/-! ## Runs -/

section Runs

variable {s s' : Joint} {a : JointAct} {es : List Event}

/-- The server and the action state, as `OnTrack` and `Lost` see them. -/
def Joint.OnTrack (s : Joint) : Prop := Supervisor.OnTrack s.server s.client s.clientReply

def Joint.Lost (s : Joint) : Prop := Supervisor.Lost s.server s.client s.clientReply

/-- **A step of the three** is on the side of the action state, handles a request of the
supervisor, or is one of the supervisor, which the other two do not see. -/
theorem jointStep_cases (h : jointStep s a = some (s', es)) :
    (a.ofClient = true ∧
      ClientMove s.server s.client s.clientReply s'.server s'.client s'.clientReply) ∨
    (∃ req, a = .serveSupervisor ∧ s.supervisorRequest = some req ∧
      s'.server = (serve s.server req).1 ∧ s'.client = s.client ∧
      s'.clientReply = s.clientReply) ∨
    (a.ofClient = false ∧ a ≠ .serveSupervisor ∧ s'.server = s.server ∧
      s'.client = s.client ∧ s'.clientReply = s.clientReply) := by
  cases a with
  | client => exact Or.inl ⟨rfl, .of_step rfl h⟩
  | serveClient => exact Or.inl ⟨rfl, .of_step rfl h⟩
  | replyClient => exact Or.inl ⟨rfl, .of_step rfl h⟩
  | serveSupervisor =>
      obtain ⟨req, hreq, h⟩ := Option.map_eq_some_iff.mp h
      obtain ⟨rfl, rfl⟩ := h
      exact Or.inr (Or.inl ⟨req, rfl, hreq, rfl, rfl, rfl⟩)
  | supervisor a =>
      rw [jointStep] at h
      split at h
      · obtain ⟨p, -, h⟩ := Option.map_eq_some_iff.mp h
        obtain ⟨rfl, rfl⟩ := h
        exact Or.inr (Or.inr ⟨rfl, nofun, rfl, rfl, rfl⟩)
      · cases h
  | replySupervisor ready =>
      rw [jointStep] at h
      split at h
      · cases h
      · split at h
        · cases h
        · obtain ⟨p, -, h⟩ := Option.map_eq_some_iff.mp h
          obtain ⟨rfl, rfl⟩ := h
          exact Or.inr (Or.inr ⟨rfl, nofun, rfl, rfl, rfl⟩)

theorem onTrack_step (h : s.OnTrack) (hP : Undisturbed s a)
    (hst : jointStep s a = some (s', es)) : s'.OnTrack := by
  rcases jointStep_cases hst with ⟨-, hm⟩ | ⟨req, rfl, hreq, h₁, h₂, h₃⟩ | ⟨-, -, h₁, h₂, h₃⟩
  · exact h.client hm
  · rw [Joint.OnTrack, h₁, h₂, h₃]
    exact h.serve req (hP req hreq)
  · rw [Joint.OnTrack, h₁, h₂, h₃]
    exact h

theorem lost_of_disturbed (h : s.OnTrack) (hP : ¬ Undisturbed s a)
    (hst : jointStep s a = some (s', es)) : s'.Lost := by
  rcases jointStep_cases hst with ⟨ha, -⟩ | ⟨req, rfl, hreq, h₁, h₂, h₃⟩ | ⟨-, ha, -⟩
  · cases a <;> first
      | exact absurd trivial hP
      | cases ha
  · rw [Joint.Lost, h₁, h₂, h₃]
    simp only [Undisturbed, hreq, Option.some.injEq, forall_eq', Classical.not_imp] at hP
    exact h.lost hP.1 hP.2
  · cases a <;> first
      | exact absurd trivial hP
      | exact absurd rfl ha

theorem lost_step (h : s.Lost) (hst : jointStep s a = some (s', es)) : s'.Lost := by
  rcases jointStep_cases hst with ⟨-, hm⟩ | ⟨req, -, -, h₁, h₂, h₃⟩ | ⟨-, -, h₁, h₂, h₃⟩
  · exact h.client hm
  · rw [Joint.Lost, h₁, h₂, h₃]
    exact h.serve req
  · rw [Joint.Lost, h₁, h₂, h₃]
    exact h

theorem onTrack_start (name : String) (clock : Nat) (server : StartState) :
    (Joint.start name clock server).OnTrack := by
  have hprim : Primary server.id := by
    cases server with
    | unconfigured => exact Or.inl rfl
    | inactive => exact Or.inr (Or.inl rfl)
  exact OnTrack.start hprim (Or.inl rfl)

theorem OnTrack.returned_eq {server : Nat} {pc : Pc} {r : Option (Reply Unit)} {b : Bool}
    (h : OnTrack server pc r) (hb : ensureReturned pc = some b) : b = true := by
  cases h with
  | start _ hp => rcases hp with rfl | rfl | rfl <;> cases hb
  | configure hp => rcases hp with rfl | rfl <;> cases hb
  | reread hp => rcases hp with rfl | rfl <;> cases hb
  | activate hp => rcases hp with rfl | rfl <;> cases hb
  | check hp => rcases hp with rfl | rfl <;> cases hb
  | returned _ => exact (Option.some.inj hb).symm
  | _ => cases hb

theorem Lost.returned_eq {server : Nat} {pc : Pc} {r : Option (Reply Unit)} {b : Bool}
    (h : Lost server pc r) (hb : ensureReturned pc = some b) : b = false := by
  cases h with
  | configure _ _ hp => rcases hp with rfl | rfl <;> cases hb
  | reread hp => rcases hp with rfl | rfl <;> cases hb
  | activate hp => rcases hp with rfl | rfl <;> cases hb
  | returned _ => exact (Option.some.inj hb).symm
  | _ => cases hb

end Runs

/-! ## It returns

Polling and waiting aside, each step on the side of the action state brings it closer to its
end. -/

/-- The number of steps that are left for the action state and its requests. -/
def rank : Pc → Option (Reply Unit) → Nat
  | .waitForService, _ => 16
  | .call .getState, _ => 15
  | .done .getState, none => 14
  | .done .getState, some _ => 13
  | .call .configure, _ => 12
  | .done .configure, none => 11
  | .done .configure, some _ => 10
  | .call .stateAfterConfigure, _ => 9
  | .done .stateAfterConfigure, none => 8
  | .done .stateAfterConfigure, some _ => 7
  | .call .activate, _ => 6
  | .done .activate, none => 5
  | .done .activate, some _ => 4
  | .call .stateAfterActivate, _ => 3
  | .done .stateAfterActivate, none => 2
  | .done .stateAfterActivate, some _ => 1
  | _, _ => 0

section Returns

variable {server server' : Nat} {pc pc' : Pc} {r r' : Option (Reply Unit)} {x : Exchange}

/-- The position belongs to `_ensure_lifecycle_active`. -/
def isLifecycle : Pc → Bool
  | .call x => x ≠ .sendGoal && x ≠ .getResult
  | .done x => x ≠ .sendGoal && x ≠ .getResult
  | _ => true

theorem isLifecycle_of_fate (h : OnTrack server pc r ∨ Lost server pc r) :
    isLifecycle pc = true := by
  rcases h with h | h
  · cases h with
    | start _ hp => rcases hp with rfl | rfl | rfl <;> rfl
    | configure hp => rcases hp with rfl | rfl <;> rfl
    | reread hp => rcases hp with rfl | rfl <;> rfl
    | activate hp => rcases hp with rfl | rfl <;> rfl
    | check hp => rcases hp with rfl | rfl <;> rfl
    | _ => rfl
  · cases h with
    | configure _ _ hp => rcases hp with rfl | rfl <;> rfl
    | reread hp => rcases hp with rfl | rfl <;> rfl
    | activate hp => rcases hp with rfl | rfl <;> rfl
    | refused _ hx => rcases hx with rfl | rfl <;> rfl
    | _ => rfl

/-- What follows on a reply comes later. -/
theorem rank_afterReply (hs : x ≠ .sendGoal) (hr : x ≠ .getResult) (rep : Reply Unit) :
    rank (afterReply x (some rep)) none < rank (.done x) (some rep) := by
  cases x with
  | sendGoal => exact absurd rfl hs
  | getResult => exact absurd rfl hr
  | _ =>
      simp only [afterReply]
      repeat' split
      all_goals simp [rank]

theorem rank_client (h : OnTrack server pc r ∨ Lost server pc r)
    (hm : ClientMove server pc r server' pc' r') : rank pc' r' < rank pc r := by
  cases hm with
  | service => simp [rank]
  | @call x _ =>
      have hlife := isLifecycle_of_fate h
      cases x with
      | sendGoal => cases hlife
      | getResult => cases hlife
      | _ => cases r <;> simp [rank]
  | @serve x req hreq =>
      cases x with
      | sendGoal => cases hreq
      | getResult => cases hreq
      | _ => simp [rank]
  | reply =>
      obtain ⟨hs, hr⟩ : _ ∧ _ := by simpa [isLifecycle] using isLifecycle_of_fate h
      exact rank_afterReply hs hr _

variable {s s' : Joint} {a : JointAct} {es : List Event}

theorem fate_step (h : s.OnTrack ∨ s.Lost) (hst : jointStep s a = some (s', es)) :
    s'.OnTrack ∨ s'.Lost := by
  rcases h with h | h
  · by_cases hP : Undisturbed s a
    · exact Or.inl (onTrack_step h hP hst)
    · exact Or.inr (lost_of_disturbed h hP hst)
  · exact Or.inr (lost_step h hst)

def Joint.rank (s : Joint) : Nat := Supervisor.rank s.client s.clientReply

/-- No step takes the action state further from its end, and its own steps bring it closer. -/
theorem rank_step (h : s.OnTrack ∨ s.Lost) (hst : jointStep s a = some (s', es)) :
    s'.rank ≤ s.rank ∧ (a.ofClient = true → s'.rank < s.rank) := by
  rcases jointStep_cases hst with ⟨-, hm⟩ | ⟨req, rfl, -, -, h₂, h₃⟩ | ⟨ha, -, -, h₂, h₃⟩
  · have hlt := rank_client h hm
    exact ⟨hlt.le, fun _ => hlt⟩
  · rw [Joint.rank, Joint.rank, h₂, h₃]
    exact ⟨le_rfl, nofun⟩
  · rw [Joint.rank, Joint.rank, h₂, h₃]
    exact ⟨le_rfl, fun h => by rw [ha] at h; cases h⟩

/-- Until `_ensure_lifecycle_active` has returned, the action state goes on: it takes its steps,
its requests are handled and its replies arrive. -/
def Fair {s₀ : Joint} (r : Infinite jointStep anyStep s₀) : Prop :=
  ∀ n, ∃ m, n ≤ m ∧
    ((r.act m).ofClient = true ∨ (ensureReturned (r.state m).client).isSome = true)

theorem fair_returns {s₀ : Joint} (r : Infinite jointStep anyStep s₀) (hfair : Fair r)
    (h : s₀.OnTrack) : ∃ n b, ensureReturned (r.state n).client = some b := by
  have hfate : ∀ n, (r.state n).OnTrack ∨ (r.state n).Lost := by
    intro n
    exact (r.run_upto n).invariant (I := fun s => s.OnTrack ∨ s.Lost)
      (fun _ _ _ _ h _ hst => fate_step h hst) (Or.inl h)
  have hrank := fun n => rank_step (hfate n) (r.valid n)
  obtain ⟨N, hN⟩ := r.eventually_const (μ := Joint.rank) fun n => (hrank n).1
  -- from `N` on the rank stays, so there is no further step of the action state
  obtain ⟨m, hm, hact | hret⟩ := hfair N
  · have hlt := (hrank m).2 hact
    have heq := hN m hm
    omega
  · obtain ⟨b, hb⟩ := Option.isSome_iff_exists.mp hret
    exact ⟨m, b, hb⟩

end Returns

/-! ## The action state of `Ros`

Without timeouts and cancels the action state of this module is that of `Ros.ActionState`, which
polls its future: when the reply comes, the future completes and the next look at it finds it. -/

section Simulation

variable {U G : Type} {k : Ros.Skill U G Unit} {t : Ros.State U G Unit} {s : Joint}
  {tr : List Event}

theorem fits_of_fate {server : Nat} {x : Exchange} {rep : Reply Unit}
    (h : OnTrack server (.done x) (some rep) ∨ Lost server (.done x) (some rep)) :
    rep.fits x = true ∧ ∀ accepted, rep ≠ .handle accepted := by
  rcases h with h | h
  · cases h <;> exact ⟨rfl, nofun⟩
  · cases h with
    | refused _ hx => rcases hx with rfl | rfl <;> exact ⟨rfl, nofun⟩
    | _ => exact ⟨rfl, nofun⟩

theorem execute_client {server server' : Nat} {pc pc' : Pc} {r r' : Option (Reply Unit)}
    (hfate : OnTrack server pc r ∨ Lost server pc r)
    (hm : ClientMove server pc r server' pc' r') (hpc : t.pc = pc) (hf : t.future = none) :
    ∃ tr t', Run (Ros.step k) anyStep t tr t' ∧ t'.pc = pc' ∧ t'.future = none := by
  cases hm with
  | service =>
      have hready : Run (Ros.step k) anyStep t [] { t with pc := .call .getState } :=
        Run.single (a := .available true) trivial (by simp [Ros.step, hpc])
      exact ⟨_, _, hready, rfl, hf⟩
  | @call x _ =>
      have hcall : Run (Ros.step k) anyStep t [.called x] { t with
          pc := .done x, future := none, sent := t.sent || x = .sendGoal } :=
        Run.single (a := .client) trivial (by simp only [Ros.step, Ros.clientStep, hpc])
      exact ⟨_, _, hcall, rfl, rfl⟩
  | serve _ => exact ⟨[], t, Run.nil t, hpc, hf⟩
  | @reply x rep =>
      obtain ⟨hfits, hno⟩ := fits_of_fate hfate
      have hcan : t.canComplete x (some rep) = true := by
        cases rep with
        | handle accepted => exact absurd rfl (hno accepted)
        | _ => exact hfits
      -- the future completes, and `future.done()` sees it
      have hcomplete : Run (Ros.step k) anyStep t [] { t with future := some (some rep) } :=
        Run.single (a := .complete (some rep)) trivial
          (by simp [Ros.step, hpc, hf, hcan, Pc.waitsFor])
      have hreturn : Run (Ros.step k) anyStep { t with future := some (some rep) }
          [.replied x (some rep)]
          (Ros.State.resume k { t with future := some (some rep) } x (some rep)) :=
        Run.single (a := .client) trivial (by simp only [Ros.step, Ros.clientStep, hpc])
      exact ⟨_, _, hcomplete.append hreturn, rfl, rfl⟩

/-- Every run of the three contains a run of `execute` up to the same position. -/
theorem run_execute (k : Ros.Skill U G Unit) (u : U) {s₀ : Joint} (h : s₀.OnTrack)
    (h₀ : s₀.client = .waitForService) (hrun : Run jointStep anyStep s₀ tr s) :
    ∃ tr' t, Run (Ros.step k) anyStep { Ros.State.start u with pc := .waitForService } tr' t ∧
      t.pc = s.client ∧ t.future = none := by
  let H : Joint → Prop := fun s => (s.OnTrack ∨ s.Lost) ∧ ∃ tr' t,
    Run (Ros.step k) anyStep { Ros.State.start u with pc := .waitForService } tr' t ∧
      t.pc = s.client ∧ t.future = none
  refine (hrun.invariant (I := H) ?_ ⟨Or.inl h, [], _, Run.nil _, h₀.symm, rfl⟩).2
  rintro s a s' es ⟨hfate, tr', t, hex, hpc, hf⟩ - hst
  refine ⟨fate_step hfate hst, ?_⟩
  rcases jointStep_cases hst with ⟨-, hm⟩ | ⟨req, -, -, -, h₂, -⟩ | ⟨-, -, -, h₂, -⟩
  · obtain ⟨tr'', t', hex', h'⟩ := execute_client (k := k) hfate hm hpc hf
    exact ⟨_, t', hex.append hex', h'⟩
  · exact ⟨tr', t, hex, hpc.trans h₂.symm, hf⟩
  · exact ⟨tr', t, hex, hpc.trans h₂.symm, hf⟩

end Simulation

/-- **`_ensure_lifecycle_active` next to the supervisor** returns, and it returns `True` exactly
if the supervisor does not change the server's state while the action state relies on it. -/
theorem ensure_lifecycle_active_iff (name : String) (clock : Nat) (server : StartState) :
    (∀ (as : List JointAct) (s : Joint) (tr : List Event) (b : Bool),
      runActs jointStep anyStep (.start name clock server) as = some (s, tr) →
      ensureReturned s.client = some b →
        (b = true ↔ Obeys jointStep Undisturbed (.start name clock server) as)) ∧
    ∀ r : Infinite jointStep anyStep (.start name clock server), Fair r →
      ∃ n b, ensureReturned (r.state n).client = some b := by
  have hstart := onTrack_start name clock server
  constructor
  · intro as s tr b hrun hb
    have hfate := obeys_fate (P := Undisturbed) (G := Joint.OnTrack) (B := Joint.Lost)
      (fun _ _ _ _ => onTrack_step) (fun _ _ _ _ => lost_of_disturbed)
      (fun _ _ _ _ => lost_step) hstart hrun
    rcases hfate with ⟨hobeys, htrack⟩ | ⟨hnot, hlost⟩
    · exact iff_of_true (htrack.returned_eq hb) hobeys
    · exact iff_of_false (by rw [hlost.returned_eq hb]; nofun) hnot
  · intro r hfair
    exact fair_returns r hfair hstart

/-- Both have read `unconfigured` when the supervisor's `CONFIGURE` is handled first. -/
def bothConfigure : List JointAct :=
  [.supervisor .pollAll, .supervisor (.kick true 0), .serveSupervisor, .client, .client,
    .serveClient, .replyClient, .client, .replySupervisor true, .serveSupervisor, .serveClient,
    .replyClient]

theorem not_always_active : ¬ ∀ (as : List JointAct) (s : Joint) (tr : List Event) (b : Bool),
    runActs jointStep anyStep (.start "move_motor_server" 0 .unconfigured) as = some (s, tr) →
      ensureReturned s.client = some b → b = true := by
  intro h
  have hacts : (runActs jointStep anyStep (.start "move_motor_server" 0 .unconfigured)
      bothConfigure).isSome := by
    decide
  have hfalse := h bothConfigure _ _ false (Option.some_get hacts).symm rfl
  cases hfalse

end RobotTaskManager.Supervisor
