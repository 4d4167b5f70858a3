import RobotTaskManager.SkillLibrary.MotorSystem

set_option autoImplicit false

/-! # What the move-motor server tells of the robot

A result of the server repeats what it has heard from the robot: the response to the request of the
goal, and the last status message that has arrived. `outcomes_truthful` traces both back to the
events they come from. The response belongs to the goal, so it is younger than the goal; the status
message may be as old as it likes.
-/

namespace RobotTaskManager.MotorSystem

open Interleaving Emulator
open DriveToPose (TerminalCall)
open MoveMotor (Floats Request Result Status Pc Goal ThreadMove sent sent_cases step_request)

variable {F : Type} [Zero F] [One F] [Add F] [Sub F] [Mul F] [IntCast F] [LT F] [LE F]
  [DecidableLT F] [DecidableLE F] [PyFloat F]

/-! ## What has happened -/

section Facts

variable (env : Env F) (now : ℤ) (g : Nat) (request : Request F) (tr : List (Event F))

/-- The state of the robot after the events. -/
def robotAfter : RobotState F := ((VirtualRobot.init now).after env (robotActs tr)).1.state

/-- The goal has been accepted, and its request has been sent. -/
def Commanded : Prop :=
  .server (.accepted g) ∈ tr ∧ .server (.commanded g request) ∈ tr

/-- The robot has served the request of the goal, after it was sent, and that was its answer. -/
def Answered (accepted : Bool) (message : String) : Prop :=
  ∃ tr₁ tr₂, tr = tr₁ ++ .served g request [.setMotorTarget accepted message] :: tr₂ ∧
    Commanded g request tr₁ ∧
    (setTargetCb (robotAfter env now tr₁) request.motorId request.targetPosition
      request.maxVelocity).2 = .setMotorTarget accepted message

/-- The robot has published the status of the motor, and the motor was so. -/
def Published (id : String) (st : Status F) : Prop :=
  ∃ tr₁ motors tr₂, tr = tr₁ ++ .published motors :: tr₂ ∧ (id, st) ∈ motors ∧
    ∃ m, (robotAfter env now tr₁).motors id = some m ∧ m.position = st.position ∧
      m.status = st.status

/-- **What a result says is so**: where it comes from in what has happened before. -/
inductive Truth (φ : Floats F) : TerminalCall → Result F → Prop
  | reached {message : String} {st : Status F} : Answered env now g request tr true message →
      Published env now tr request.motorId st → st.status ≠ .dead → st.status ≠ .unreachable →
      φ.le (φ.error request st.position) φ.tolerance = true →
      Truth φ .succeed ⟨st.position, true, "ok"⟩
  | fault {message : String} {st : Status F} : Answered env now g request tr true message →
      Published env now tr request.motorId st → (st.status = .dead ∨ st.status = .unreachable) →
      Truth φ .abort ⟨st.position, false, "motor in fault state"⟩
  | stuck {message : String} {st : Status F} : Answered env now g request tr true message →
      Published env now tr request.motorId st → st.status = .stuck →
      φ.lt φ.tolerance (φ.error request st.position) = true →
      Truth φ .abort ⟨st.position, false, "motor stuck"⟩
  | rejected {message : String} : Answered env now g request tr false message →
      Truth φ .abort (φ.failure ("emulator rejected target: " ++ message))
  | unavailable : (∀ request', .server (.commanded g request') ∉ tr) →
      Truth φ .abort (φ.failure "emulator set_motor_target service unavailable")
  | noReply : Commanded g request tr → Truth φ .abort (φ.failure "set_motor_target timed out")
  | timeout {message : String} : Answered env now g request tr true message →
      Truth φ .abort (φ.failure "timeout waiting for motor to reach target")
  | canceled {message : String} : Answered env now g request tr true message →
      Truth φ .canceled (φ.failure "canceled")

/-- What a thread knows, by where it is. -/
def Known (φ : Floats F) : Pc F → Prop
  | .waitReply _ none => Commanded g request tr
  | .waitReply _ (some (accepted, message)) => Answered env now g request tr accepted message
  | .loop _ => ∃ message, Answered env now g request tr true message
  | .readStatus _ => ∃ message, Answered env now g request tr true message
  | .judge _ st => (∃ message, Answered env now g request tr true message) ∧
      Published env now tr request.motorId st ∧ st.status ≠ .dead ∧ st.status ≠ .unreachable
  | .closing call result => Truth env now g request tr φ call result
  | .returned => True
  -- before `async_send_request`
  | _ => ∀ request', .server (.commanded g request') ∉ tr

end Facts

/-! ## What has happened stays so -/

section Later

variable {φ : Floats F} {env : Env F} {now : ℤ} {g : Nat} {request : Request F}
  {tr es : List (Event F)} {pc : Pc F}

omit [Zero F] [One F] [Add F] [Sub F] [Mul F] [IntCast F] [LT F] [LE F] [DecidableLT F]
  [DecidableLE F] [PyFloat F] in
theorem Commanded.later (h : Commanded g request tr) : Commanded g request (tr ++ es) :=
  ⟨List.mem_append_left es h.1, List.mem_append_left es h.2⟩

theorem Answered.later {accepted : Bool} {message : String}
    (h : Answered env now g request tr accepted message) :
    Answered env now g request (tr ++ es) accepted message := by
  obtain ⟨tr₁, tr₂, rfl, h⟩ := h
  exact ⟨tr₁, tr₂ ++ es, by simp, h⟩

theorem Published.later {id : String} {st : Status F} (h : Published env now tr id st) :
    Published env now (tr ++ es) id st := by
  obtain ⟨tr₁, motors, tr₂, rfl, h⟩ := h
  exact ⟨tr₁, motors, tr₂ ++ es, by simp, h⟩

/-- The events do not send the request of goal `g`. -/
def Unsent (g : Nat) (es : List (Event F)) : Prop :=
  ∀ request, .server (.commanded g request) ∉ es

omit [Zero F] [One F] [Add F] [Sub F] [Mul F] [IntCast F] [LT F] [LE F] [DecidableLT F]
  [DecidableLE F] [PyFloat F] in
theorem Unsent.append (h : Unsent g tr) (h' : Unsent g es) : Unsent g (tr ++ es) :=
  fun request hmem => (List.mem_append.mp hmem).elim (h request) (h' request)

theorem Truth.later {call : TerminalCall} {result : Result F}
    (h : Truth env now g request tr φ call result) (hes : Unsent g es) :
    Truth env now g request (tr ++ es) φ call result := by
  cases h with
  | reached ha hp hdead hunreachable hnear =>
      exact .reached ha.later hp.later hdead hunreachable hnear
  | fault ha hp hfault => exact .fault ha.later hp.later hfault
  | stuck ha hp hstuck hfar => exact .stuck ha.later hp.later hstuck hfar
  | rejected ha => exact .rejected ha.later
  | unavailable hnot => exact .unavailable (Unsent.append hnot hes)
  | noReply hc => exact .noReply hc.later
  | timeout ha => exact .timeout ha.later
  | canceled ha => exact .canceled ha.later

theorem Known.later (h : Known env now g request tr φ pc) (hes : Unsent g es) :
    Known env now g request (tr ++ es) φ pc := by
  cases pc with
  | started => exact Unsent.append h hes
  | waitService c => exact Unsent.append h hes
  | send => exact Unsent.append h hes
  | waitReply c response =>
      cases response with
      | none => exact Commanded.later h
      | some response => exact Answered.later h
  | loop start => exact h.imp fun _ => Answered.later
  | readStatus start => exact h.imp fun _ => Answered.later
  | judge start st => exact ⟨h.1.imp fun _ => Answered.later, h.2.1.later, h.2.2⟩
  | closing call result => exact Truth.later h hes
  | returned => trivial

/-- **A pass of a thread** tells what the thread knows, and the statuses it reads. -/
theorem known_of_move {s : MoveMotor.State F} {goal : Goal F} {terminal : Option TerminalCall}
    {es : List (MoveMotor.Event F)} (haccepted : .server (.accepted g) ∈ tr)
    (hknown : Known env now g goal.request tr φ goal.pc)
    (hlatest : ∀ id st, s.latest id = some st → Published env now tr id st)
    (h : ThreadMove φ s g goal pc terminal es) :
    Known env now g goal.request (tr ++ es.map .server) φ pc := by
  cases h with
  | noClient hpc =>
      rw [hpc] at hknown
      exact Known.later (Truth.unavailable hknown) (by simp [Unsent])
  | start hpc =>
      rw [hpc] at hknown
      exact Unsent.append hknown (by simp [Unsent])
  | noService hpc =>
      rw [hpc] at hknown
      exact Known.later (Truth.unavailable hknown) (by simp [Unsent])
  | service hpc =>
      rw [hpc] at hknown
      exact Unsent.append hknown (by simp [Unsent])
  | command => exact ⟨List.mem_append_left _ haccepted, by simp⟩
  | enter hpc =>
      rw [hpc] at hknown
      exact ⟨_, Answered.later hknown⟩
  | rejected hpc =>
      rw [hpc] at hknown
      exact .rejected (Answered.later hknown)
  | noReply hpc =>
      rw [hpc] at hknown
      exact .noReply (Commanded.later hknown)
  | shutDown => trivial
  | canceled hpc =>
      rw [hpc] at hknown
      obtain ⟨message, ha⟩ := hknown
      exact .canceled ha.later
  | timeout hpc =>
      rw [hpc] at hknown
      obtain ⟨message, ha⟩ := hknown
      exact .timeout ha.later
  | goOn hpc =>
      rw [hpc] at hknown
      exact hknown.imp fun _ => Answered.later
  | noStatus hpc =>
      rw [hpc] at hknown
      exact hknown.imp fun _ => Answered.later
  | fault hpc hst hfault =>
      rw [hpc] at hknown
      obtain ⟨message, ha⟩ := hknown
      exact .fault ha.later (hlatest _ _ hst).later hfault
  | found hpc hst hdead hunreachable =>
      rw [hpc] at hknown
      exact ⟨hknown.imp fun _ => Answered.later, (hlatest _ _ hst).later, hdead, hunreachable⟩
  | stuck hpc hstuck _ hfar =>
      rw [hpc] at hknown
      obtain ⟨⟨message, ha⟩, hp, -⟩ := hknown
      exact .stuck ha.later hp.later hstuck hfar
  | arrive hpc hnear =>
      rw [hpc] at hknown
      obtain ⟨⟨message, ha⟩, hp, hdead, hunreachable⟩ := hknown
      exact .reached ha.later hp.later hdead hunreachable hnear
  | again hpc =>
      rw [hpc] at hknown
      exact hknown.1.imp fun _ => Answered.later
  | close => trivial

end Later

/-! ## What is in flight -/

section System

variable {φ : Floats F} {env : Env F} {clock : Nat} {now : ℤ} {s s' : State F} {a : Act F}
  {tr es : List (Event F)}

/-- What the threads know, and what is in flight, has happened. -/
structure Inv (φ : Floats F) (env : Env F) (now : ℤ) (tr : List (Event F)) (s : State F) :
    Prop where
  robot : s.robot = ((VirtualRobot.init now).after env (robotActs tr)).1
  accepted : ∀ g, g < s.server.goals.length → .server (.accepted g) ∈ tr
  unsent : ∀ g, s.server.goals.length ≤ g → Unsent g tr
  goals : ∀ (g : Nat) (goal : Goal F), s.server.goals[g]? = some goal →
    Known env now g goal.request tr φ goal.pc
  latest : ∀ id st, s.server.latest id = some st → Published env now tr id st
  requests : ∀ p ∈ s.requests, (∃ goal, s.server.goals[p.1]? = some goal ∧ goal.request = p.2) ∧
    Commanded p.1 p.2 tr
  replies : ∀ p ∈ s.replies, ∃ goal, s.server.goals[p.1]? = some goal ∧
    Answered env now p.1 goal.request tr p.2.1 p.2.2
  statuses : ∀ motors ∈ s.statuses, ∀ p ∈ motors, Published env now tr p.1 p.2

theorem Inv.init : Inv φ env now [] (State.init clock now) where
  robot := rfl
  accepted := by simp [State.init, MoveMotor.State.init]
  unsent := by simp [Unsent]
  goals := by simp [State.init, MoveMotor.State.init]
  latest := by simp [State.init, MoveMotor.State.init]
  requests := by simp [State.init]
  replies := by simp [State.init]
  statuses := by simp [State.init]

/-- The goals of the server, what is new of them in its step. -/
theorem Inv.goalsStep {a : MoveMotor.Act F} {server : MoveMotor.State F}
    {es : List (MoveMotor.Event F)} (hI : Inv φ env now tr s)
    (hst : MoveMotor.step φ s.server a = some (server, es))
    (hrespond : ∀ g accepted message, a = .respond g accepted message →
      (g, accepted, message) ∈ s.replies) {g : Nat} {goal' : Goal F}
    (hg' : server.goals[g]? = some goal') :
    Known env now g goal'.request (tr ++ es.map .server) φ goal'.pc := by
  -- only a goal that is at `async_send_request` sends its request
  have hunsent : (∀ goal, s.server.goals[g]? = some goal → goal.pc ≠ .send ∨ goal'.pc = .send) →
      Unsent g (es.map Event.server) := by
    intro hpc request hmem
    obtain ⟨e, he, heq⟩ := List.mem_map.mp hmem
    cases heq
    rcases sent_cases hst with hsent | ⟨g₁, goal₁, goal₂, hg₁, hpc₁, hg₂, hpast, rfl⟩
    · have hin : (g, request) ∈ sent es := List.mem_filterMap.mpr ⟨_, he, rfl⟩
      rw [hsent] at hin
      cases hin
    · cases List.mem_singleton.mp he
      obtain rfl := Option.some.inj (hg₂.symm.trans hg')
      rcases hpc goal₁ hg₁ with hne | hsend
      · exact hne hpc₁
      · rw [hsend] at hpast
        exact hpast
  cases hg : s.server.goals[g]? with
  | none =>
      have hpc := ((MoveMotor.step_unknown hst hg).2 goal' hg').1
      rw [hpc]
      refine (hI.unsent g (List.getElem?_eq_none_iff.mp hg)).append (hunsent ?_)
      rintro goal hgoal
      rw [hg] at hgoal
      cases hgoal
  | some goal =>
      have hknown := hI.goals g goal hg
      obtain ⟨goal₁, hg₁, hgoal⟩ := MoveMotor.step_goal hst hg
      obtain rfl := Option.some.inj (hg₁.symm.trans hg')
      rcases hgoal with ⟨rfl, -⟩ | hmove
      · refine hknown.later (hunsent fun goal hgoal => ?_)
        obtain rfl := Option.some.inj (hgoal.symm.trans hg)
        exact (em (goal.pc = .send)).symm
      · cases hmove with
        | pass _ ht =>
            have hmove := MoveMotor.threadStep_moves ht
            have haccepted := hI.accepted g (List.getElem?_eq_some_iff.mp hg).1
            have hafter := known_of_move haccepted hknown hI.latest hmove
            exact hafter
        | cancel => exact hknown.later (by simp [Unsent])
        | response =>
            obtain ⟨goal₂, hg₂, ha⟩ := hI.replies _ (hrespond g _ _ rfl)
            obtain rfl := Option.some.inj (hg₂.symm.trans hg)
            exact Answered.later ha

omit [Add F] [DecidableLT F] [DecidableLE F] in
theorem published_publishStatus {id : String} {st : Status F} {r : RobotState F}
    {ids : List String} (h : (id, st) ∈ publishStatus r ids) :
    ∃ m, r.motors id = some m ∧ m.position = st.position ∧ m.status = st.status := by
  obtain ⟨id', -, h⟩ := List.mem_filterMap.mp h
  obtain ⟨m, hm, heq⟩ := Option.map_eq_some_iff.mp h
  cases heq
  exact ⟨m, hm, rfl, rfl⟩

theorem replies_asAct {r : VirtualRobot F} {request : Request F} :
    (r.act env (asAct request)).2 = [(setTargetCb r.state request.motorId request.targetPosition
      request.maxVelocity).2] := rfl

theorem mem_responses {g : Nat} {reply : Reply} {p : Nat × Bool × String}
    (h : p ∈ responses g [reply]) : p.1 = g ∧ reply = .setMotorTarget p.2.1 p.2.2 := by
  obtain ⟨reply', hmem, hsome⟩ := List.mem_filterMap.mp h
  obtain rfl := List.mem_singleton.mp hmem
  cases reply' with
  | setMotorTarget accepted message =>
      cases hsome
      exact ⟨rfl, rfl⟩
  | _ => cases hsome

/-- A step that leaves the server alone keeps what is known, if what is new in flight has
happened. -/
theorem Inv.robotStep (hI : Inv φ env now tr s) (hserver : s'.server = s.server)
    (hrobot : s'.robot = (s.robot.after env (robotActs es)).1) (hes : ∀ e, .server e ∉ es)
    (hrequests : s'.requests ⊆ s.requests)
    (hreplies : ∀ p ∈ s'.replies, p ∈ s.replies ∨ ∃ goal, s.server.goals[p.1]? = some goal ∧
      Answered env now p.1 goal.request (tr ++ es) p.2.1 p.2.2)
    (hstatuses : ∀ motors ∈ s'.statuses, motors ∈ s.statuses ∨
      ∀ p ∈ motors, Published env now (tr ++ es) p.1 p.2) :
    Inv φ env now (tr ++ es) s' := by
  have hunsent (g : Nat) : Unsent g es := fun request hmem => hes _ hmem
  refine ⟨?_, ?_, ?_, ?_, ?_, ?_, ?_, ?_⟩
  · have hacts : robotActs (tr ++ es) = robotActs tr ++ robotActs es := List.filterMap_append
    rw [hacts, after_append, ← hI.robot, hrobot]
  · rw [hserver]
    exact fun g hg => List.mem_append_left es (hI.accepted g hg)
  · rw [hserver]
    exact fun g hg => (hI.unsent g hg).append (hunsent g)
  · rw [hserver]
    exact fun g goal hg => (hI.goals g goal hg).later (hunsent g)
  · rw [hserver]
    exact fun id st hst => (hI.latest id st hst).later
  · rw [hserver]
    exact fun p hp => (hI.requests p (hrequests hp)).imp_right Commanded.later
  · rw [hserver]
    intro p hp
    rcases hreplies p hp with hp | hnew
    · obtain ⟨goal, hg, ha⟩ := hI.replies p hp
      exact ⟨goal, hg, ha.later⟩
    · exact hnew
  · intro motors hm p hp
    rcases hstatuses motors hm with hm | hnew
    · exact (hI.statuses motors hm p hp).later
    · exact hnew p hp

/-- A step of the server. -/
theorem Inv.serverStep {a : MoveMotor.Act F} {server : MoveMotor.State F}
    {es : List (MoveMotor.Event F)} {replies : List (Nat × Bool × String)}
    {statuses : List (List (String × Status F))} (hI : Inv φ env now tr s)
    (hst : MoveMotor.step φ s.server a = some (server, es))
    (hstatus : ∀ motors, a = .status motors → motors ∈ s.statuses)
    (hrespond : ∀ g accepted message, a = .respond g accepted message →
      (g, accepted, message) ∈ s.replies)
    (hreplies : replies ⊆ s.replies) (hstatuses : statuses ⊆ s.statuses) :
    Inv φ env now (tr ++ es.map .server)
      ⟨server, s.robot, s.requests ++ sent es, replies, statuses⟩ where
  robot := by
    have hacts : robotActs (tr ++ es.map .server) = robotActs tr := by
      rw [robotActs, List.filterMap_append]
      exact (congrArg (robotActs tr ++ ·) (robotActs_server es)).trans (List.append_nil _)
    rw [hacts]
    exact hI.robot
  accepted g hg := by
    rcases Nat.lt_or_ge g s.server.goals.length with hlt | hge
    · exact List.mem_append_left _ (hI.accepted g hlt)
    · exact List.mem_append_right _ (List.mem_map_of_mem (MoveMotor.accepted_of_step hst hge hg))
  unsent g hg := by
    have hold : s.server.goals.length ≤ g := by
      by_contra hlt
      obtain ⟨goal, hgoal, -⟩ := step_request hst (List.getElem?_eq_getElem (not_le.mp hlt))
      exact absurd (List.getElem?_eq_some_iff.mp hgoal).1 (not_lt.mpr hg)
    refine (hI.unsent g hold).append fun request hmem => ?_
    obtain ⟨e, he, heq⟩ := List.mem_map.mp hmem
    cases heq
    rcases sent_cases hst with hsent | ⟨g₁, goal₁, goal₂, -, -, hg₂, -, rfl⟩
    · have hin : (g, request) ∈ sent es := List.mem_filterMap.mpr ⟨_, he, rfl⟩
      rw [hsent] at hin
      cases hin
    · cases List.mem_singleton.mp he
      exact absurd (List.getElem?_eq_some_iff.mp hg₂).1 (not_lt.mpr hg)
  goals g goal hg := hI.goalsStep hst hrespond hg
  latest id st hid := by
    rcases MoveMotor.latest_of_step hst hid with hold | ⟨motors, ha, hmem⟩
    · exact (hI.latest id st hold).later
    · exact (hI.statuses motors (hstatus motors ha) _ hmem).later
  requests p hp := by
    rcases List.mem_append.mp hp with hp | hp
    · obtain ⟨⟨goal, hg, hreq⟩, hc⟩ := hI.requests p hp
      obtain ⟨goal', hg', hreq'⟩ := step_request hst hg
      exact ⟨⟨goal', hg', hreq'.trans hreq⟩, hc.later⟩
    · rcases sent_cases hst with hsent | ⟨g, goal, goal', hg, -, -, -, rfl⟩
      · rw [hsent] at hp
        cases hp
      · cases List.mem_singleton.mp hp
        obtain ⟨goal', hg', hreq'⟩ := step_request hst hg
        refine ⟨⟨goal', hg', hreq'⟩, List.mem_append_left _ (hI.accepted g ?_), by simp⟩
        exact (List.getElem?_eq_some_iff.mp hg).1
  replies p hp := by
    obtain ⟨goal, hg, ha⟩ := hI.replies p (hreplies hp)
    obtain ⟨goal', hg', hreq'⟩ := step_request hst hg
    exact ⟨goal', hg', hreq' ▸ ha.later⟩
  statuses motors hm p hp := (hI.statuses motors (hstatuses hm) p hp).later

theorem Inv.step (hI : Inv φ env now tr s) (hst : MotorSystem.step φ env s a = some (s', es)) :
    Inv φ env now (tr ++ es) s' := by
  have hnow : robotAfter env now tr = s.robot.state := by
    rw [robotAfter, ← hI.robot]
  cases Move.of_step hst with
  | server hserver hstatus hrespond hreplies hstatuses =>
      exact hI.serverStep hserver hstatus hrespond hreplies hstatuses
  | @serve i g request hreq =>
      have hmem := List.mem_of_getElem? hreq
      refine hI.robotStep rfl rfl (by simp) (List.eraseIdx_subset) (fun p hp => ?_)
        fun _ => Or.inl
      rcases List.mem_append.mp hp with hp | hp
      · exact Or.inl hp
      · rw [replies_asAct] at hp
        obtain ⟨rfl, hreply⟩ := mem_responses hp
        obtain ⟨⟨goal, hg, hreq'⟩, hc⟩ := hI.requests _ hmem
        refine Or.inr ⟨goal, hg, tr, [], ?_, ?_, ?_⟩
        · rw [hreq', replies_asAct, hreply]
        · exact hreq' ▸ hc
        · rw [hnow, hreq']
          exact hreply
  | robot =>
      exact hI.robotStep rfl rfl (by simp) (List.Subset.refl _) (fun _ => Or.inl) fun _ => Or.inl
  | publishStatus =>
      refine hI.robotStep rfl rfl (by simp) (List.Subset.refl _) (fun _ => Or.inl)
        fun motors hm => ?_
      rcases List.mem_append.mp hm with hm | hm
      · exact Or.inl hm
      · obtain rfl := List.mem_singleton.mp hm
        refine Or.inr fun p hp => ⟨tr, _, [], rfl, hp, ?_⟩
        rw [hnow]
        exact published_publishStatus hp
  | lost hreplies hstatuses =>
      exact hI.robotStep rfl rfl (by simp) (List.Subset.refl _)
        (fun p hp => Or.inl (hreplies hp)) fun motors hm => Or.inl (hstatuses hm)

theorem inv_of_run (h : Run (step φ env) anyStep (State.init clock now) tr s) :
    Inv φ env now tr s :=
  h.history (fun _ _ _ _ _ hI _ hst => hI.step hst) Inv.init

/-- The goals keep their requests. -/
theorem request_of_run {g : Nat} {request : Request F} (h : Run (step φ env) anyStep s tr s')
    (hg : ∃ goal, s.server.goals[g]? = some goal ∧ goal.request = request) :
    ∃ goal, s'.server.goals[g]? = some goal ∧ goal.request = request := by
  refine h.invariant (I := fun s => ∃ goal, s.server.goals[g]? = some goal ∧
    goal.request = request) (fun s a s' es hgoal _ hst => ?_) hg
  cases Move.of_step hst with
  | server hserver =>
      obtain ⟨goal, hg, hreq⟩ := hgoal
      obtain ⟨goal', hg', hreq'⟩ := step_request hserver hg
      exact ⟨goal', hg', hreq'.trans hreq⟩
  | _ => exact hgoal

/-- **What the server tells of a goal is true.** Whatever is delayed, reordered or lost, and whoever
else commands the robot: the response that a result goes back to was the robot's own response to the
request of this goal, after the goal was accepted and its request was sent, and the status that a
result goes back to was published, and so, at some time before. -/
theorem outcomes_truthful {g : Nat} {call : TerminalCall} {result : Result F}
    {tr₁ tr₂ : List (Event F)} (h : Run (step φ env) anyStep (State.init clock now)
      (tr₁ ++ .server (.terminal g call result) :: tr₂) s) :
    ∃ goal : Goal F, s.server.goals[g]? = some goal ∧
      Truth env now g goal.request tr₁ φ call result := by
  obtain ⟨tr₀, s₁, a, s₂, es₁, es₂, tr₃, h₀, -, hst, h₂, rfl, rfl⟩ := h.exists_step_of_split
  generalize hes : es₁ ++ .server (.terminal g call result) :: es₂ = es at hst
  have hmem : .server (.terminal g call result) ∈ es := by
    rw [← hes]
    simp
  cases Move.of_step hst with
  | server hserver =>
      obtain ⟨e, he, heq⟩ := List.mem_map.mp hmem
      cases heq
      obtain ⟨goal, hg, hpc, rfl⟩ := MoveMotor.terminal_of_step hserver he
      obtain rfl : es₁ = [] := by
        cases es₁ with
        | nil => rfl
        | cons e es₁ => simp at hes
      obtain ⟨goal', hg', hreq⟩ := request_of_run h₂ (step_request hserver hg)
      have hknown := (inv_of_run h₀).goals g goal hg
      rw [hpc] at hknown
      rw [List.append_nil]
      exact ⟨goal', hg', hreq ▸ hknown⟩
  | _ => simp at hmem

end System

/-- A goal for a motor that has some way to go. Its last status message overtakes the others. -/
def reachedGoal : List (Act ℚ) :=
  [.server (.transition .configure), .server (.transition .activate), .publishStatus ["base_x"],
    .server (.goal ⟨"base_x", 1, 1⟩), .server (.thread 0 true), .server (.thread 0 true),
    .server (.thread 0 true), .serve 0, .respond 0, .server (.thread 0 true),
    .robot (.tick 600000000), .publishStatus ["base_x"], .onStatus 1, .server (.thread 0 true),
    .server (.thread 0 true), .server (.thread 0 true), .robot (.tick 600000000),
    .publishStatus ["base_x"], .onStatus 1, .server (.thread 0 true), .server (.thread 0 true),
    .server (.thread 0 true), .server (.thread 0 true)]

theorem reachedGoal_isSome : (runActs (step MoveMotor.ratFloats plainEnv) anyStep (State.init 0 0)
    reachedGoal).isSome := by
  decide +kernel

/-- The event is the success of goal 0 at the position 1. -/
def isSuccess : Event ℚ → Bool
  | .server (.terminal 0 .succeed result) => decide (result.finalPosition = 1)
  | _ => false

theorem reachedGoal_truthful : ∃ (tr : List (Event ℚ)) (s : State ℚ) (goal : Goal ℚ)
    (result : Result ℚ), s.server.goals[0]? = some goal ∧ result.finalPosition = 1 ∧
      Truth plainEnv 0 0 goal.request tr MoveMotor.ratFloats .succeed result := by
  have hrun := Run.of_isSome reachedGoal_isSome
  have hlast : ((Option.get _ reachedGoal_isSome).2.getLast?.any isSuccess) = true := by
    decide +kernel
  obtain ⟨e, he, hsuccess⟩ := (Option.any_eq_true _ _).mp hlast
  obtain ⟨tr, htr⟩ := List.getLast?_eq_some_iff.mp he
  unfold isSuccess at hsuccess
  split at hsuccess
  · rename_i result
    rw [htr] at hrun
    obtain ⟨goal, hg, htruth⟩ := outcomes_truthful hrun
    exact ⟨tr, _, goal, result, hg, of_decide_eq_true hsuccess, htruth⟩
  · cases hsuccess

end RobotTaskManager.MotorSystem
