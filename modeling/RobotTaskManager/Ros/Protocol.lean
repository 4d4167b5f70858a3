import RobotTaskManager.Ros.Orphan
import RobotTaskManager.Spec.SkillStates

set_option autoImplicit false

/-! # The protocol of `execute`

What one `execute` of a skill state sends and returns, against servers that answer anything, or
nothing, to each of its requests: the transitions it asks for follow from the states it has been
told, the goal goes to an active server only, and userdata changes only by the result of a goal
that has succeeded.
-/

namespace RobotTaskManager.Ros

open Interleaving
open Engine (Exc Result)
open Spec (SkillKind Conversions GoalError Message)

/-! ## The shipped states -/

/-- `outcomes` -/
def actionOutcomes : List String := [succeeded, failed, lifecycleError, timeout, rejected]

/-- `server_node_name` -/
def serverNodeName : SkillKind → Option String
  | .driveToPose => none
  | .moveMotor => some "move_motor_server"
  | .captureImage => some "capture_image_server"

/-- The fields of the result that `on_result` copies to userdata, under the same keys. -/
def resultKeys : SkillKind → List String
  | .driveToPose => ["final_x", "final_y", "final_yaw"]
  | .moveMotor => ["final_position"]
  | .captureImage => ["image_path"]

variable {P F : Type}

/-- `on_result`, for a result with the given attributes. -/
def onResult (k : SkillKind) (userdata : String → Option P) (result : String → P) :
    String → Option P :=
  (resultKeys k).foldl (fun u key => Function.update u key (some (result key))) userdata

/-- A shipped state that was constructed with the arguments `fixed`. -/
def shipped (py : Conversions P F) (raises : GoalError → Exc) (fixed : String → Option P)
    (k : SkillKind) : Skill (String → Option P) (Message F) (String → P) where
  serverNodeName := serverNodeName k
  buildGoal userdata :=
    match (k.cls py).buildGoal py fixed userdata with
    | .ok goal => .ok goal
    | .error e => .error (raises e)
  onResult := onResult k

/-- `on_result` writes its own keys only. -/
theorem onResult_of_not_mem {k : SkillKind} {key : String} (userdata : String → Option P)
    (result : String → P) (h : key ∉ resultKeys k) :
    onResult k userdata result key = userdata key := by
  unfold onResult
  generalize resultKeys k = keys at h
  induction keys generalizing userdata with
  | nil => rfl
  | cons key' rest ih =>
      rw [List.mem_cons, not_or] at h
      rw [List.foldl_cons, ih _ h.2]
      exact Function.update_of_ne h.1 ..

/-! ## What a trace shows -/

variable {U G R : Type}

/-- The exchange is a call of `get_state`. -/
def Exchange.asksState : Exchange → Bool
  | .getState => true
  | .stateAfterConfigure => true
  | .stateAfterActivate => true
  | _ => false

/-- The latest answer of `get_state`. -/
def latestState (tr : List (Event R)) : Option (Option (Reply R)) :=
  (tr.filterMap fun
    | .replied x r => if x.asksState then some r else none
    | _ => none).getLast?

/-- The goals that have been sent. -/
def goalsSent (tr : List (Event R)) : Nat :=
  (tr.filter fun
    | .called x => x = .sendGoal
    | _ => false).length

/-- `Transition.TRANSITION_…` -/
inductive Transition
  | configure
  | activate
  deriving DecidableEq

/-- The transitions that have been requested. -/
def transitions (tr : List (Event R)) : List Transition :=
  tr.filterMap fun
    | .called .configure => some .configure
    | .called .activate => some .activate
    | _ => none

theorem latestState_replied (tr : List (Event R)) (x : Exchange) (r : Option (Reply R)) :
    latestState (tr ++ [.replied x r]) = if x.asksState then some r else latestState tr := by
  unfold latestState
  rw [List.filterMap_append]
  cases h : x.asksState with
  | true => simp [h]
  | false => simp [h]

theorem goalsSent_append (tr tr' : List (Event R)) :
    goalsSent (tr ++ tr') = goalsSent tr + goalsSent tr' := by
  unfold goalsSent
  rw [List.filter_append, List.length_append]

theorem transitions_append (tr tr' : List (Event R)) :
    transitions (tr ++ tr') = transitions tr ++ transitions tr' :=
  List.filterMap_append

/-! ## The invariant -/

/-- The transitions that may have been requested. -/
def Exchange.requested : Exchange → List Transition
  | .getState => []
  | .configure => [.configure]
  | .stateAfterConfigure => [.configure]
  | _ => [.configure, .activate]

def Pc.requested : Pc → List Transition
  | .enter => []
  | .waitForService => []
  | .call .getState => []
  | .call .configure => []
  | .call .stateAfterConfigure => [.configure]
  | .call .activate => [.configure]
  | .done x => x.requested
  | .deadline x => x.requested
  | .token x => x.requested
  | _ => [.configure, .activate]

/-- The server is known to be active, if it has a lifecycle. -/
def Pc.ready : Pc → Bool
  | .waitForServer => true
  | .buildGoal => true
  | .call .sendGoal => true
  | _ => false

theorem Exchange.requested_sublist (x : Exchange) :
    x.requested.Sublist [.configure, .activate] := by
  cases x <;> decide

theorem Pc.requested_sublist (pc : Pc) : pc.requested.Sublist [.configure, .activate] := by
  cases pc with
  | call x => cases x <;> decide
  | done x => exact x.requested_sublist
  | deadline x => exact x.requested_sublist
  | token x => exact x.requested_sublist
  | enter => decide
  | waitForService => decide
  | _ => exact List.Sublist.refl _

/-- What the trace shows, by where `execute` is. -/
structure ProtocolInv (k : Skill U G R) (u : U) (tr : List (Event R)) (s : State U G R) :
    Prop where
  outcome : ∀ o, s.pc = .ended (.ok o) → o ∈ actionOutcomes
  before : s.pc.beforeSend = true → goalsSent tr = 0
  sent : goalsSent tr ≤ 1
  ready : k.serverNodeName.isSome = true → s.pc.ready = true →
    latestState tr = some (some (.state primaryStateActive))
  configure : s.pc = .call .configure →
    ∃ x, tr.getLast? = some (.replied x (some (.state primaryStateUnconfigured)))
  activate : s.pc = .call .activate →
    ∃ x, tr.getLast? = some (.replied x (some (.state primaryStateInactive)))
  requested : (transitions tr).Sublist s.pc.requested
  userdata : s.userdata = u ∨ s.pc = .ended (.ok succeeded) ∧
    ∃ status res, Event.replied .getResult (some (.result status (some res))) ∈ tr ∧
      s.userdata = k.onResult u res

/-! ## What a reply leads to -/

/-- The rows of `afterReply`. -/
inductive AfterReply : Exchange → Option (Reply R) → Pc → Prop
  | active {x : Exchange} : x.asksState = true →
      AfterReply x (some (.state primaryStateActive)) .waitForServer
  | unconfigured : AfterReply .getState (some (.state primaryStateUnconfigured)) (.call .configure)
  | inactive {x : Exchange} : x.requested.Sublist [.configure] →
      AfterReply x (some (.state primaryStateInactive)) (.call .activate)
  | configured : AfterReply .configure (some (.changed true)) (.call .stateAfterConfigure)
  | activated : AfterReply .activate (some (.changed true)) (.call .stateAfterActivate)
  | accepted : AfterReply .sendGoal (some (.handle true)) (.call .getResult)
  | done {x : Exchange} {r : Option (Reply R)} {o : String} : o ∈ actionOutcomes →
      AfterReply x r (.ended (.ok o))

theorem mapStatus_mem (status : Nat) : mapStatus status ∈ actionOutcomes := by
  unfold mapStatus
  split
  · decide
  · decide

theorem afterReply_row (x : Exchange) (r : Option (Reply R)) : AfterReply x r (afterReply x r) := by
  have herror : AfterReply x r (.ended (.ok lifecycleError)) := .done (by decide)
  have htimeout : AfterReply x r (.ended (.ok timeout)) := .done (by decide)
  cases x with
  | getState =>
      simp only [afterReply]
      split
      · rename_i id
        split
        · rename_i hid
          rw [hid]
          exact .active rfl
        · split
          · rename_i hid
            rw [hid]
            exact .unconfigured
          · split
            · rename_i hid
              rw [hid]
              exact .inactive (by decide)
            · exact herror
      · exact herror
  | configure =>
      simp only [afterReply]
      split
      · exact .configured
      · exact herror
  | stateAfterConfigure =>
      simp only [afterReply]
      split
      · split
        · rename_i hid
          rw [hid]
          exact .inactive (by decide)
        · exact herror
      · exact herror
  | activate =>
      simp only [afterReply]
      split
      · exact .activated
      · exact herror
  | stateAfterActivate =>
      simp only [afterReply]
      split
      · split
        · rename_i hid
          rw [hid]
          exact .active rfl
        · exact herror
      · exact herror
  | sendGoal =>
      simp only [afterReply]
      split
      · rename_i accepted
        cases accepted with
        | true => exact .accepted
        | false => exact .done (by decide)
      · exact htimeout
  | getResult =>
      simp only [afterReply]
      split
      · exact .done (mapStatus_mem _)
      · exact htimeout

section Rows

variable {x : Exchange} {r : Option (Reply R)} {pc : Pc}

theorem AfterReply.outcome (h : AfterReply x r pc) {o : String} (hpc : pc = .ended (.ok o)) :
    o ∈ actionOutcomes := by
  cases h with
  | done ho =>
      cases hpc
      exact ho
  | _ => cases hpc

theorem AfterReply.ready (h : AfterReply x r pc) (hpc : pc.ready = true) :
    x.asksState = true ∧ r = some (.state primaryStateActive) := by
  cases h with
  | active hx => exact ⟨hx, rfl⟩
  | _ => cases hpc

theorem AfterReply.configure (h : AfterReply x r pc) (hpc : pc = .call .configure) :
    r = some (.state primaryStateUnconfigured) := by
  cases h with
  | unconfigured => rfl
  | _ => cases hpc

theorem AfterReply.activate (h : AfterReply x r pc) (hpc : pc = .call .activate) :
    r = some (.state primaryStateInactive) := by
  cases h with
  | inactive => rfl
  | _ => cases hpc

theorem AfterReply.requested (h : AfterReply x r pc) : x.requested.Sublist pc.requested := by
  cases h with
  | unconfigured => exact List.Sublist.refl _
  | inactive hx => exact hx
  | configured => exact List.Sublist.refl _
  | _ => exact Exchange.requested_sublist _

/-- Before the goal only lifecycle exchanges have been made. -/
theorem AfterReply.beforeSend (h : AfterReply x r pc) (hx : x ≠ .getResult)
    (hpc : pc.beforeSend = true) : x ≠ .sendGoal := by
  rintro rfl
  cases h with
  | active hx => cases hx
  | inactive hx => exact absurd hx (by decide)
  | accepted => cases hpc
  | done => cases hpc

end Rows

/-! ## Steps -/

section Steps

variable {k : Skill U G R} {u : U} {s s' : State U G R} {a : Act R} {tr es : List (Event R)}

/-- Until `execute` is over userdata is as it was. -/
theorem ProtocolInv.userdata_eq (h : ProtocolInv k u tr s) (ho : s.pc.isOver = false) :
    s.userdata = u := by
  rcases h.userdata with heq | ⟨hpc, -⟩
  · exact heq
  · rw [hpc] at ho
    cases ho

/-- A step that only moves on to another position. -/
theorem ProtocolInv.goto (h : ProtocolInv k u tr s) {pc : Pc} {g : Option G}
    (ho : s.pc.isOver = false) (hout : ∀ o, pc = .ended (.ok o) → o ∈ actionOutcomes)
    (hb : pc.beforeSend = true → s.pc.beforeSend = true)
    (hready : k.serverNodeName.isSome = true → pc.ready = true → s.pc.ready = true)
    (hcall : ∀ x, pc = .call x → x ≠ .configure ∧ x ≠ .activate)
    (hreq : s.pc.requested.Sublist pc.requested) :
    ProtocolInv k u (tr ++ []) { s with pc := pc, goal := g } := by
  rw [List.append_nil]
  exact {
    outcome := hout
    before := fun hpc => h.before (hb hpc)
    sent := h.sent
    ready := fun hk hpc => h.ready hk (hready hk hpc)
    configure := fun hpc => absurd rfl (hcall _ hpc).1
    activate := fun hpc => absurd rfl (hcall _ hpc).2
    requested := h.requested.trans hreq
    userdata := Or.inl (h.userdata_eq ho) }

/-- A step from one test of `_wait_future` to the next. -/
theorem ProtocolInv.keepWaiting (h : ProtocolInv k u tr s) {x : Exchange} {pc : Pc}
    (hx : s.pc.waitsFor = some x) (hx' : pc.waitsFor = some x) :
    ProtocolInv k u (tr ++ []) { s with pc := pc } := by
  obtain ⟨ho, hbefore, -⟩ := waitsFor_cases hx
  obtain ⟨ho', hbefore', -⟩ := waitsFor_cases hx'
  have hreq : ∀ pc : Pc, pc.waitsFor = some x → pc.requested = x.requested := by
    intro pc hpc
    cases pc with
    | done y =>
        cases hpc
        rfl
    | deadline y =>
        cases hpc
        rfl
    | token y =>
        cases hpc
        rfl
    | _ => cases hpc
  have hready : ∀ pc : Pc, pc.waitsFor = some x → pc.ready = false := by
    intro pc hpc
    cases pc with
    | done y => rfl
    | deadline y => rfl
    | token y => rfl
    | _ => cases hpc
  refine h.goto (g := s.goal) ho ?_ ?_ ?_ ?_ ?_
  · rintro o rfl
    cases ho'
  · intro hb
    exact hbefore.mpr (hbefore'.mp hb)
  · intro _ hpc
    rw [hready pc hx'] at hpc
    cases hpc
  · rintro y rfl
    cases hx'
  · rw [hreq _ hx, hreq _ hx']

/-- A request is made. -/
theorem ProtocolInv.call (h : ProtocolInv k u tr s) {x : Exchange} {sent : Bool}
    (hpc : s.pc = .call x) :
    ProtocolInv k u (tr ++ [.called x]) { s with pc := .done x, future := none, sent := sent } := by
  have hbefore : x ≠ .getResult → goalsSent tr = 0 := by
    intro hx
    exact h.before (by rw [hpc]; simpa [Pc.beforeSend] using hx)
  have hsent := h.sent
  have hreq := h.requested
  rw [hpc] at hreq
  constructor
  · intro o hpc'
    cases hpc'
  · intro hb
    have hx : x ≠ .sendGoal ∧ x ≠ .getResult := by simpa [Pc.beforeSend] using hb
    rw [goalsSent_append, hbefore hx.2]
    simp [goalsSent, hx.1]
  · rw [goalsSent_append]
    by_cases hx : x = .sendGoal
    · subst hx
      have hzero := hbefore (by simp)
      simp [goalsSent] at hzero ⊢
      omega
    · have hzero : goalsSent [Event.called (R := R) x] = 0 := by simp [goalsSent, hx]
      omega
  · intro _ hready
    cases hready
  · intro hpc'
    cases hpc'
  · intro hpc'
    cases hpc'
  · rw [transitions_append]
    show ((transitions tr) ++ _).Sublist x.requested
    cases x with
    | configure => exact hreq.append (List.Sublist.refl [Transition.configure])
    | activate => exact hreq.append (List.Sublist.refl [Transition.activate])
    | getState => exact hreq.append (List.Sublist.refl [])
    | stateAfterConfigure => exact hreq.append (List.Sublist.refl [])
    | stateAfterActivate => exact hreq.append (List.Sublist.refl [])
    | sendGoal => exact hreq.append (List.Sublist.refl [])
    | getResult => exact hreq.append (List.Sublist.refl [])
  · exact Or.inl (h.userdata_eq (by rw [hpc]; rfl))

/-- `_wait_future` returns. -/
theorem ProtocolInv.resume (h : ProtocolInv k u tr s) {x : Exchange} {r : Option (Reply R)}
    (hx : s.pc.waitsFor = some x) (hreq : s.pc.requested = x.requested) :
    ProtocolInv k u (tr ++ [.replied x r]) (s.resume k x r) := by
  obtain ⟨ho, hbefore, -⟩ := waitsFor_cases hx
  have hrow : AfterReply x r (s.resume k x r).pc := afterReply_row x r
  have hlast : (tr ++ [Event.replied x r]).getLast? = some (.replied x r) := List.getLast?_concat
  have hsent : goalsSent (tr ++ [Event.replied x r]) = goalsSent tr := by
    rw [goalsSent_append]
    rfl
  constructor
  · exact fun o hpc => hrow.outcome hpc
  · intro hb
    rw [hsent]
    -- after the result nothing is sent any more
    have hresult : x ≠ .getResult := by
      rintro rfl
      obtain ⟨o, hover⟩ := afterReply_getResult r
      have hb : (afterReply .getResult r).beforeSend = true := hb
      rw [hover] at hb
      cases hb
    exact h.before (hbefore.mpr ⟨hrow.beforeSend hresult hb, hresult⟩)
  · rw [hsent]
    exact h.sent
  · intro _ hpc
    obtain ⟨hasks, rfl⟩ := hrow.ready hpc
    rw [latestState_replied, if_pos hasks]
  · intro hpc
    exact ⟨x, by rw [hlast, hrow.configure hpc]⟩
  · intro hpc
    exact ⟨x, by rw [hlast, hrow.activate hpc]⟩
  · rw [transitions_append]
    have hnone : transitions [Event.replied x r] = [] := rfl
    rw [hnone, List.append_nil]
    exact (hreq ▸ h.requested).trans hrow.requested
  · have hu := h.userdata_eq ho
    by_cases hsucc : ∃ status res, x = .getResult ∧ r = some (.result status (some res)) ∧
        mapStatus status = succeeded
    · obtain ⟨status, res, rfl, rfl, hstatus⟩ := hsucc
      refine Or.inr ⟨?_, status, res, List.mem_append_right _ List.mem_cons_self, ?_⟩
      · exact congrArg (fun o => Pc.ended (.ok o)) hstatus
      · simp [State.resume, userdataAfter, hstatus, hu]
    · refine Or.inl ?_
      show userdataAfter k s.userdata x r = u
      unfold userdataAfter
      split
      · rename_i status res
        rw [if_neg fun hstatus => hsucc ⟨status, res, rfl, rfl, hstatus⟩, hu]
      · exact hu

theorem ProtocolInv.step (h : ProtocolInv k u tr s) (hst : Ros.step k s a = some (s', es)) :
    ProtocolInv k u (tr ++ es) s' := by
  cases Move.of_step hst with
  | enter hpc =>
      cases hk : k.serverNodeName.isSome with
      | true =>
          refine h.goto (by rw [hpc]; rfl) nofun (fun _ => by rw [hpc]; rfl) ?_ nofun ?_
          · intro _ hready
            cases hready
          · rw [hpc]
            exact List.nil_sublist _
      | false =>
          refine h.goto (by rw [hpc]; rfl) nofun (fun _ => by rw [hpc]; rfl) ?_ nofun ?_
          · intro hsome
            rw [hk] at hsome
            cases hsome
          · rw [hpc]
            exact List.nil_sublist _
  | call hpc => exact h.call hpc
  | replied hpc hf => exact h.resume (by rw [hpc]; rfl) (by rw [hpc]; rfl)
  | notDone hpc hf => exact h.keepWaiting (by rw [hpc]; rfl) rfl
  | cancelled hpc hc =>
      refine h.goto (by rw [hpc]; rfl) nofun nofun (fun _ => nofun) nofun ?_
      rw [hpc]
      exact Exchange.requested_sublist _
  | notCancelled hpc hc => exact h.keepWaiting (by rw [hpc]; rfl) rfl
  | goalFails hpc hg =>
      refine h.goto (by rw [hpc]; rfl) nofun nofun (fun _ => nofun) nofun ?_
      rw [hpc]
      exact List.Sublist.refl _
  | goalBuilt hpc hg =>
      refine h.goto (by rw [hpc]; rfl) nofun (fun _ => by rw [hpc]; rfl)
        (fun _ _ => by rw [hpc]; rfl) ?_ ?_
      · rintro x ⟨⟩
        exact ⟨nofun, nofun⟩
      · rw [hpc]
        exact List.Sublist.refl _
  | @service b hpc =>
      cases b with
      | true =>
          refine h.goto (by rw [hpc]; rfl) nofun (fun _ => by rw [hpc]; rfl) (fun _ => nofun) ?_ ?_
          · rintro x ⟨⟩
            exact ⟨nofun, nofun⟩
          · rw [hpc]
            exact List.Sublist.refl _
      | false =>
          refine h.goto (by rw [hpc]; rfl) ?_ nofun (fun _ => nofun) nofun ?_
          · rintro o ⟨⟩
            decide
          · rw [hpc]
            exact List.nil_sublist _
  | @server b hpc =>
      cases b with
      | true =>
          refine h.goto (by rw [hpc]; rfl) nofun (fun _ => by rw [hpc]; rfl)
            (fun _ _ => by rw [hpc]; rfl) nofun ?_
          rw [hpc]
          exact List.Sublist.refl _
      | false =>
          refine h.goto (by rw [hpc]; rfl) ?_ nofun (fun _ => nofun) nofun ?_
          · rintro o ⟨⟩
            decide
          · rw [hpc]
            exact List.Sublist.refl _
  | expired hpc => exact h.resume (by rw [hpc]; rfl) (by rw [hpc]; rfl)
  | notExpired hpc => exact h.keepWaiting (by rw [hpc]; rfl) rfl
  | complete hx hf hc =>
      rw [List.append_nil]
      exact ⟨h.outcome, h.before, h.sent, h.ready, h.configure, h.activate, h.requested, h.userdata⟩
  | decide hsent hd =>
      rw [List.append_nil]
      exact ⟨h.outcome, h.before, h.sent, h.ready, h.configure, h.activate, h.requested, h.userdata⟩
  | request =>
      rw [List.append_nil]
      exact ⟨h.outcome, h.before, h.sent, h.ready, h.configure, h.activate, h.requested, h.userdata⟩

theorem ProtocolInv.start (k : Skill U G R) (u : U) : ProtocolInv k u [] (State.start u) where
  outcome := nofun
  before _ := rfl
  sent := Nat.zero_le 1
  ready _ h := by cases h
  configure := nofun
  activate := nofun
  requested := List.Sublist.refl _
  userdata := Or.inl rfl

theorem protocolInv_of_run {P : State U G R → Act R → Prop}
    (h : Run (Ros.step k) P (.start u) tr s) : ProtocolInv k u tr s := by
  have hinv := h.history (H := ProtocolInv k u) (fun _ _ _ _ _ hI _ hst => hI.step hst)
    (ProtocolInv.start k u)
  exact hinv

/-- A step that makes a request emits nothing else. -/
theorem called_of_step {x : Exchange} {es₁ es₂ : List (Event R)}
    (hst : Ros.step k s a = some (s', es₁ ++ .called x :: es₂)) : es₁ = [] ∧ s.pc = .call x := by
  generalize hes : es₁ ++ Event.called x :: es₂ = es at hst
  have hsingle : ∀ e : Event R, es₁ ++ .called x :: es₂ = [e] → es₁ = [] ∧ e = .called x := by
    intro e he
    rcases List.append_eq_singleton_iff.mp he with ⟨rfl, heq⟩ | ⟨-, heq⟩
    · exact ⟨rfl, (List.cons.inj heq).1.symm⟩
    · cases heq
  cases Move.of_step hst with
  | call hpc =>
      obtain ⟨rfl, heq⟩ := hsingle _ hes
      cases heq
      exact ⟨rfl, hpc⟩
  | replied hpc hf => cases (hsingle _ hes).2
  | expired hpc => cases (hsingle _ hes).2
  | _ => simp at hes

end Steps

/-! ## The protocol -/

/-- **The protocol of `execute`**, for every shipped state, every userdata and every run against
the servers, the clock and the cancel token:
* an outcome that is returned is declared;
* at most one goal is sent, and where there is a lifecycle node, only if the latest answer of
  `get_state` was `active`;
* the transitions requested are a subsequence of `configure`, `activate`, each requested directly
  after the answer that asks for it;
* userdata is as it was, also when `execute` raises, unless the outcome is `succeeded` with a
  result: then only the keys of `on_result` differ. -/
theorem execute_protocol (py : Conversions P F) (raises : GoalError → Exc)
    (fixed : String → Option P) (k : SkillKind) (u : String → Option P)
    (tr : List (Event (String → P))) (s : State (String → Option P) (Message F) (String → P))
    (h : Run (step (shipped py raises fixed k)) anyStep (.start u) tr s) :
    (∀ o, s.pc = .ended (.ok o) → o ∈ actionOutcomes) ∧
    goalsSent tr ≤ 1 ∧
    (∀ tr₁ tr₂, tr = tr₁ ++ .called .sendGoal :: tr₂ → (serverNodeName k).isSome = true →
      latestState tr₁ = some (some (.state primaryStateActive))) ∧
    (transitions tr).Sublist [.configure, .activate] ∧
    (∀ tr₁ tr₂, tr = tr₁ ++ .called .configure :: tr₂ →
      ∃ x, tr₁.getLast? = some (.replied x (some (.state primaryStateUnconfigured)))) ∧
    (∀ tr₁ tr₂, tr = tr₁ ++ .called .activate :: tr₂ →
      ∃ x, tr₁.getLast? = some (.replied x (some (.state primaryStateInactive)))) ∧
    (s.userdata = u ∨ s.pc = .ended (.ok succeeded) ∧
      (∃ status res, Event.replied .getResult (some (.result status (some res))) ∈ tr) ∧
        ∀ key, key ∉ resultKeys k → s.userdata key = u key) := by
  have hinv := protocolInv_of_run h
  -- the state in which a request is made, with what had been shown until then
  have hcalled : ∀ x tr₁ tr₂, tr = tr₁ ++ .called x :: tr₂ → ∃ s₁ : State _ _ _, s₁.pc = .call x ∧
      ProtocolInv (shipped py raises fixed k) u tr₁ s₁ := by
    intro x tr₁ tr₂ htr
    rw [htr] at h
    obtain ⟨tr₀, s₁, a, s₂, es₁, es₂, tr₃, h₀, -, hst, -, rfl, -⟩ := h.exists_step_of_split
    obtain ⟨rfl, hpc⟩ := called_of_step hst
    refine ⟨s₁, hpc, ?_⟩
    rw [List.append_nil]
    exact protocolInv_of_run h₀
  refine ⟨hinv.outcome, hinv.sent, ?_, ?_, ?_, ?_, ?_⟩
  · intro tr₁ tr₂ htr hk
    obtain ⟨s₁, hpc, hinv₁⟩ := hcalled _ tr₁ tr₂ htr
    exact hinv₁.ready hk (by rw [hpc]; rfl)
  · exact hinv.requested.trans (Pc.requested_sublist _)
  · intro tr₁ tr₂ htr
    obtain ⟨s₁, hpc, hinv₁⟩ := hcalled _ tr₁ tr₂ htr
    exact hinv₁.configure hpc
  · intro tr₁ tr₂ htr
    obtain ⟨s₁, hpc, hinv₁⟩ := hcalled _ tr₁ tr₂ htr
    exact hinv₁.activate hpc
  · rcases hinv.userdata with heq | ⟨hpc, status, res, hmem, hu⟩
    · exact Or.inl heq
    · refine Or.inr ⟨hpc, ⟨status, res, hmem⟩, fun key hkey => ?_⟩
      rw [hu]
      exact onResult_of_not_mem u res hkey

/-- Strings as objects. -/
def strings : Conversions String ℚ where
  float _ := .error (.conversion "ValueError")
  str s := .ok s
  literal q := q

/-- The server is brought up, the image is captured, and its path comes back. -/
def captured : List (Act (String → String)) :=
  [.client, .available true, .client, .complete (some (.state 1)), .client,
    .client, .complete (some (.changed true)), .client,
    .client, .complete (some (.state 2)), .client,
    .client, .complete (some (.changed true)), .client,
    .client, .complete (some (.state 3)), .client, .available true, .client,
    .client, .decide true, .complete (some (.handle true)), .client,
    .client, .complete (some (.result statusSucceeded (some fun _ => "cup.jpg"))), .client]

/-- `CaptureImageState(node, camera_id='head', save_path='head')` -/
def capture : Skill (String → Option String) (Message ℚ) (String → String) :=
  shipped strings (fun _ => .other "KeyError") (fun _ => some "head") .captureImage

theorem captured_isSome :
    (runActs (step capture) anyStep (.start fun _ => none) captured).isSome := by decide +kernel

theorem execute_protocol_captured : ∃ tr s,
    Run (step capture) anyStep (.start fun _ => none) tr s ∧ goalsSent tr ≤ 1 ∧
      transitions tr = [.configure, .activate] ∧
      (transitions tr).Sublist [.configure, .activate] ∧
      s.userdata "image_path" = some "cup.jpg" ∧ s.userdata "final_x" = none := by
  have hrun := Run.of_isSome captured_isSome
  have h := execute_protocol strings (fun _ => .other "KeyError") (fun _ => some "head")
    .captureImage (fun _ => none) _ _ hrun
  have hpath : ((runActs _ _ _ _).get captured_isSome).1.userdata "image_path" =
      some "cup.jpg" := by decide +kernel
  refine ⟨_, _, hrun, h.2.1, by decide +kernel, h.2.2.2.1, hpath, ?_⟩
  rcases h.2.2.2.2.2.2 with hsame | ⟨-, -, hframe⟩
  · rw [hsame] at hpath
    cases hpath
  · exact hframe "final_x" (by decide)

end RobotTaskManager.Ros
