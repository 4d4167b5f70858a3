import RobotTaskManager.Lib.LeadsTo
import RobotTaskManager.SkillLibrary.MoveMotor

set_option autoImplicit false

/-! # What becomes of a motor goal

A goal of the move-motor server ends at most once, and if its thread is not forgotten and time goes
on, `execute` returns: the loop gives up once `overall_timeout_sec` has passed, and everything else
`execute` waits for has a timeout. Only `rclcpp::shutdown` lets it return without ending the goal.

The service client is shared without a lock. `dangling_iff` tells when a thread is left with a
client that is not there.
-/

namespace RobotTaskManager.MoveMotor

open Interleaving
open DriveToPose (TerminalCall)

variable {F : Type} {φ : Floats F}

/-- The calls that have ended the goal. -/
def terminalCalls (g : Nat) (tr : List (Event F)) : List TerminalCall :=
  tr.filterMap fun
    | .terminal g' call _ => if g' = g then some call else none
    | _ => none

theorem terminalCalls_append (g : Nat) (tr tr' : List (Event F)) :
    terminalCalls g (tr ++ tr') = terminalCalls g tr ++ terminalCalls g tr' :=
  List.filterMap_append

/-- The requests that are sent to the robot, with their goals. -/
def sent (es : List (Event F)) : List (Nat × Request F) :=
  es.filterMap fun
    | .commanded g request => some (g, request)
    | _ => none

/-- `execute` has come past `async_send_request`. -/
def Pc.PastSend : Pc F → Prop
  | .started => False
  | .waitService _ => False
  | .send => False
  | _ => True

/-- What is known of a motor was known before, or is in the message. -/
theorem mem_latestAfter {latest : String → Option (Status F)} {motors : List (String × Status F)}
    {id : String} {st : Status F} (h : MoveMotor.latestAfter latest motors id = some st) :
    latest id = some st ∨ (id, st) ∈ motors := by
  induction motors generalizing latest with
  | nil => exact Or.inl h
  | cons p motors ih =>
      rcases ih h with hst | hmem
      · have hst : Function.update latest p.1 (some p.2) id = some st := hst
        by_cases heq : id = p.1
        · subst heq
          rw [Function.update_self] at hst
          exact Or.inr (List.mem_cons.mpr (Or.inl (Option.some.inj hst ▸ rfl)))
        · rw [Function.update_of_ne heq] at hst
          exact Or.inl hst
      · exact Or.inr (List.mem_cons_of_mem p hmem)

/-! ## One goal through one step -/

section Steps

variable {s s' : State F} {a : Act F} {es : List (Event F)} {g : Nat} {goal : Goal F}

/-- The callbacks of the lifecycle touch neither goals nor clock, and learn no status. -/
theorem transition_frame {t : Transition} (h : s.transition t = some s') :
    s'.goals = s.goals ∧ s'.clock = s.clock ∧ s'.ok = s.ok ∧ s'.crashed = s.crashed ∧
      ∀ id st, s'.latest id = some st → s.latest id = some st := by
  cases TransitionMove.of_transition h with
  | cleanup => exact ⟨rfl, rfl, rfl, rfl, by simp⟩
  | _ => exact ⟨rfl, rfl, rfl, rfl, fun _ _ => id⟩

/-- A goal that moves ends by the call it was before, or not at all. -/
theorem GoalMove.ends {goal' : Goal F} (h : GoalMove φ s g goal a goal' es) :
    (∃ call result, goal.pc = .closing call result ∧ goal'.pc = .returned ∧
      goal'.terminal = some call ∧ es = [.terminal g call result]) ∨
    (goal'.terminal = goal.terminal ∧ (∀ g', terminalCalls g' es = []) ∧
      (goal'.pc = .returned → goal.pc = .returned ∨ s.ok = false) ∧
      (goal.pc = .returned → goal'.pc = .returned)) := by
  cases h with
  | pass _ ht =>
      cases threadStep_moves ht with
      | close hpc => exact Or.inl ⟨_, _, hpc, rfl, rfl, rfl⟩
      | shutDown _ hok => exact Or.inr ⟨rfl, fun _ => rfl, fun _ => Or.inr hok, fun _ => rfl⟩
      | _ => exact Or.inr ⟨rfl, fun _ => rfl, by simp, by simp_all⟩
  | cancel => exact Or.inr ⟨rfl, fun _ => rfl, Or.inl, id⟩
  | response hpc => exact Or.inr ⟨rfl, fun _ => rfl, by simp, by simp [hpc]⟩

theorem GoalMove.request {goal' : Goal F} (h : GoalMove φ s g goal a goal' es) :
    goal'.request = goal.request := by
  cases h <;> rfl

/-- A goal that moves shows no end of another one, and only its own thread makes its passes. -/
theorem GoalMove.others {goal' : Goal F} {g' : Nat} (h : GoalMove φ s g goal a goal' es)
    (hne : g' ≠ g) : terminalCalls g' es = [] ∧ ∀ available, a ≠ .thread g' available := by
  constructor
  · rcases h.ends with ⟨call, result, -, -, -, rfl⟩ | ⟨-, hes, -⟩
    · exact List.filterMap_eq_nil_iff.mpr (by simpa using Ne.symm hne)
    · exact hes g'
  · intro available heq
    subst heq
    cases h
    exact hne rfl

/-- **What a step does to a goal that is there**: it stays, or it moves. -/
theorem step_goal (h : step φ s a = some (s', es)) (hg : s.goals[g]? = some goal) :
    ∃ goal', s'.goals[g]? = some goal' ∧
      ((goal' = goal ∧ terminalCalls g es = [] ∧
        ((∀ available, a ≠ .thread g available) ∨ s'.crashed = true)) ∨
          GoalMove φ s g goal a goal' es) := by
  obtain ⟨hlt, -⟩ := List.getElem?_eq_some_iff.mp hg
  cases (Move.of_step h).2 with
  | accept =>
      refine ⟨goal, ?_, Or.inl ⟨rfl, rfl, Or.inl (by simp)⟩⟩
      rwa [List.getElem?_append_left hlt]
  | @goal _ g₁ goal₁ goal' _ hg₁ hmove =>
      by_cases heq : g₁ = g
      · subst heq
        obtain rfl := Option.some.inj (hg₁.symm.trans hg)
        exact ⟨goal', List.getElem?_set_self hlt, Or.inr hmove⟩
      · obtain ⟨hes, ha⟩ := hmove.others (Ne.symm heq)
        exact ⟨goal, by rwa [List.getElem?_set_ne heq], Or.inl ⟨rfl, hes, Or.inl ha⟩⟩
  | crash => exact ⟨goal, hg, Or.inl ⟨rfl, rfl, Or.inr rfl⟩⟩
  | transition _ ht =>
      exact ⟨goal, by rwa [(transition_frame ht).1], Or.inl ⟨rfl, rfl, Or.inl (by simp)⟩⟩
  | status => exact ⟨goal, hg, Or.inl ⟨rfl, rfl, Or.inl (by simp)⟩⟩
  | advance => exact ⟨goal, hg, Or.inl ⟨rfl, rfl, Or.inl (by simp)⟩⟩
  | shutdown => exact ⟨goal, hg, Or.inl ⟨rfl, rfl, Or.inl (by simp)⟩⟩

/-- **What a step does to a goal that is not there**: nothing, or the goal is accepted. -/
theorem step_unknown (h : step φ s a = some (s', es)) (hg : s.goals[g]? = none) :
    terminalCalls g es = [] ∧ ∀ goal', s'.goals[g]? = some goal' →
      goal'.pc = .started ∧ goal'.terminal = none := by
  have hlen : s.goals.length ≤ g := List.getElem?_eq_none_iff.mp hg
  cases (Move.of_step h).2 with
  | accept =>
      refine ⟨rfl, fun goal' hg' => ?_⟩
      rw [List.getElem?_append_right hlen] at hg'
      obtain rfl := List.mem_singleton.mp (List.mem_of_getElem? hg')
      exact ⟨rfl, rfl⟩
  | @goal _ g₁ goal₁ goal' _ hg₁ hmove =>
      have hlt : g₁ < s.goals.length := (List.getElem?_eq_some_iff.mp hg₁).1
      have hne : g ≠ g₁ := by omega
      refine ⟨(hmove.others hne).1, fun goal' hg' => ?_⟩
      rw [List.getElem?_set_ne (by omega), hg] at hg'
      cases hg'
  | transition _ ht =>
      refine ⟨rfl, fun goal' hg' => ?_⟩
      rw [(transition_frame ht).1, hg] at hg'
      cases hg'
  | _ =>
      refine ⟨rfl, fun goal' hg' => ?_⟩
      rw [hg] at hg'
      cases hg'

/-- The goals keep their requests. -/
theorem step_request (h : step φ s a = some (s', es)) (hg : s.goals[g]? = some goal) :
    ∃ goal', s'.goals[g]? = some goal' ∧ goal'.request = goal.request := by
  obtain ⟨goal', hg', ⟨rfl, -⟩ | hmove⟩ := step_goal h hg
  · exact ⟨goal', hg', rfl⟩
  · exact ⟨goal', hg', hmove.request⟩

/-- **What a step sends to the robot**: nothing, or the request of a goal that comes to
`async_send_request`. -/
theorem sent_cases (h : step φ s a = some (s', es)) : sent es = [] ∨
    ∃ g goal goal', s.goals[g]? = some goal ∧ goal.pc = .send ∧ s'.goals[g]? = some goal' ∧
      goal'.pc.PastSend ∧ es = [.commanded g goal.request] := by
  cases (Move.of_step h).2 with
  | @goal _ g goal goal' _ hg hmove =>
      cases hmove with
      | pass _ ht =>
          cases threadStep_moves ht with
          | command hpc =>
              exact Or.inr ⟨g, goal, _, hg, hpc,
                List.getElem?_set_self (List.getElem?_eq_some_iff.mp hg).1, trivial, rfl⟩
          | _ => exact Or.inl rfl
      | _ => exact Or.inl rfl
  | _ => exact Or.inl rfl

/-- A goal does not come back to `async_send_request`. -/
theorem GoalMove.pastSend {goal' : Goal F} (h : GoalMove φ s g goal a goal' es)
    (hpast : goal.pc.PastSend) : goal'.pc.PastSend := by
  cases h with
  | pass _ ht =>
      cases threadStep_moves ht with
      | start hpc => rw [hpc] at hpast; exact hpast.elim
      | service hpc => rw [hpc] at hpast; exact hpast.elim
      | _ => trivial
  | cancel => exact hpast
  | response => trivial

/-- The goal has sent its request, or never will. -/
def State.PastSend (s : State F) (g : Nat) : Prop :=
  ∃ goal, s.goals[g]? = some goal ∧ goal.pc.PastSend

theorem State.PastSend.step (h : s.PastSend g) (hst : MoveMotor.step φ s a = some (s', es)) :
    s'.PastSend g := by
  obtain ⟨goal, hg, hpast⟩ := h
  obtain ⟨goal', hg', ⟨rfl, -⟩ | hmove⟩ := step_goal hst hg
  · exact ⟨goal', hg', hpast⟩
  · exact ⟨goal', hg', hmove.pastSend hpast⟩

/-- A goal that is new has been accepted in the step. -/
theorem accepted_of_step (h : step φ s a = some (s', es)) (hold : s.goals.length ≤ g)
    (hnew : g < s'.goals.length) : .accepted g ∈ es := by
  cases (Move.of_step h).2 with
  | accept =>
      obtain rfl : g = s.goals.length := by
        simp only [List.length_append, List.length_singleton] at hnew
        omega
      exact List.mem_singleton_self _
  | goal => simp only [List.length_set] at hnew; omega
  | transition _ ht => rw [(transition_frame ht).1] at hnew; omega
  | _ => exact absurd hnew (not_lt.mpr hold)

/-- What is known of a motor after a step was known before, or has just arrived. -/
theorem latest_of_step {id : String} {st : Status F} (h : step φ s a = some (s', es))
    (hid : s'.latest id = some st) :
    s.latest id = some st ∨ ∃ motors, a = .status motors ∧ (id, st) ∈ motors := by
  cases (Move.of_step h).2 with
  | transition _ ht => exact Or.inl ((transition_frame ht).2.2.2.2 id st hid)
  | status => exact (mem_latestAfter hid).imp_right fun hmem => ⟨_, rfl, hmem⟩
  | _ => exact Or.inl hid

/-- A goal that ends was before the call that ends it. -/
theorem terminal_of_step {call : TerminalCall} {result : Result F}
    (h : step φ s a = some (s', es)) (he : .terminal g call result ∈ es) :
    ∃ goal, s.goals[g]? = some goal ∧ goal.pc = .closing call result ∧
      es = [.terminal g call result] := by
  cases (Move.of_step h).2 with
  | goal hg hmove =>
      cases hmove with
      | pass _ ht =>
          cases threadStep_moves ht with
          | close hpc =>
              cases List.mem_singleton.mp he
              exact ⟨_, hg, hpc, rfl⟩
          | _ => simp at he
      | _ => simp at he
  | _ => simp at he

/-- The clock does not go back, and `rclcpp::ok()` does not become true again. -/
theorem step_clock (h : step φ s a = some (s', es)) :
    s.clock ≤ s'.clock ∧ (s.ok = false → s'.ok = false) := by
  cases (Move.of_step h).2 with
  | transition _ ht =>
      obtain ⟨-, hclock, hok, -, -⟩ := transition_frame ht
      exact ⟨hclock.ge, fun h => hok.trans h⟩
  | advance => exact ⟨Nat.le_add_right _ _, id⟩
  | shutdown => exact ⟨le_rfl, fun _ => rfl⟩
  | _ => exact ⟨le_rfl, id⟩

end Steps

/-! ## A goal ends at most once -/

/-- What the handle of a goal knows about its end agrees with the trace and with where its thread
is. -/
structure EndInv (tr : List (Event F)) (s : State F) : Prop where
  recorded : ∀ g, terminalCalls g tr = (s.goals[g]?.bind Goal.terminal).toList
  returned : ∀ (g : Nat) (goal : Goal F), s.goals[g]? = some goal → goal.pc = .returned →
    goal.terminal ≠ none ∨ s.ok = false
  running : ∀ (g : Nat) (goal : Goal F), s.goals[g]? = some goal → goal.pc ≠ .returned →
    goal.terminal = none

theorem EndInv.init (clock : Nat) : EndInv [] (State.init clock : State F) :=
  ⟨fun _ => rfl, by simp [State.init], by simp [State.init]⟩

/-- Whatever the step does to the goal, its end is recorded. -/
theorem EndInv.goal {s s' : State F} {a : Act F} {tr es : List (Event F)} {g : Nat}
    (hI : EndInv tr s) (h : step φ s a = some (s', es)) :
    terminalCalls g (tr ++ es) = (s'.goals[g]?.bind Goal.terminal).toList ∧
      ∀ goal', s'.goals[g]? = some goal' →
        (goal'.pc = .returned → goal'.terminal ≠ none ∨ s'.ok = false) ∧
          (goal'.pc ≠ .returned → goal'.terminal = none) := by
  rw [terminalCalls_append, hI.recorded]
  cases hg : s.goals[g]? with
  | none =>
      obtain ⟨hes, hnew⟩ := step_unknown h hg
      rw [hes]
      constructor
      · cases hg' : s'.goals[g]? with
        | none => rfl
        | some goal' => simp [(hnew goal' hg').2]
      · intro goal' hg'
        obtain ⟨hpc, hterminal⟩ := hnew goal' hg'
        exact ⟨fun hr => by simp [hpc] at hr, fun _ => hterminal⟩
  | some goal =>
      obtain ⟨goal', hg', hmove⟩ := step_goal h hg
      rw [hg']
      have hok := (step_clock h).2
      rcases hmove with ⟨rfl, hes, -⟩ | hmove
      · rw [hes]
        refine ⟨List.append_nil _, fun goal₁ h₁ => ?_⟩
        obtain rfl := Option.some.inj h₁
        exact ⟨fun hr => (hI.returned g goal' hg hr).imp_right hok, hI.running g goal' hg⟩
      · rcases hmove.ends with ⟨call, result, hpc, hpc', hterminal, rfl⟩ |
          ⟨hterminal, hes, hreturn, hstay⟩
        -- the goal has been running until now
        · have hnone := hI.running g goal hg (by simp [hpc])
          refine ⟨by simp [terminalCalls, hnone, hterminal], fun goal₁ h₁ => ?_⟩
          obtain rfl := Option.some.inj h₁
          exact ⟨fun _ => Or.inl (by simp [hterminal]), fun hr => absurd hpc' hr⟩
        · rw [hes]
          refine ⟨by simp [hterminal], fun goal₁ h₁ => ?_⟩
          obtain rfl := Option.some.inj h₁
          rw [hterminal]
          constructor
          · intro hr
            rcases hreturn hr with hpc | hoff
            · exact (hI.returned g goal hg hpc).imp_right hok
            · exact Or.inr (hok hoff)
          · exact fun hr => hI.running g goal hg fun hpc => hr (hstay hpc)

theorem EndInv.step {s s' : State F} {a : Act F} {tr es : List (Event F)} (hI : EndInv tr s)
    (h : step φ s a = some (s', es)) : EndInv (tr ++ es) s' where
  recorded _ := (hI.goal h).1
  returned _ goal' hg' := ((hI.goal h).2 goal' hg').1
  running _ goal' hg' := ((hI.goal h).2 goal' hg').2

theorem EndInv.of_run {clock : Nat} {tr : List (Event F)} {s : State F}
    (h : Run (MoveMotor.step φ) anyStep (State.init clock) tr s) : EndInv tr s :=
  h.history (fun _ _ _ _ _ hI _ hst => hI.step hst) (EndInv.init clock)

/-! ## A goal ends -/

/-- `execute` has not come to its loop. -/
def Pc.Committing : Pc F → Prop
  | .started => True
  | .waitService _ => True
  | .send => True
  | .waitReply _ _ => True
  | _ => False

/-- The loop, entered at `start`. -/
def Pc.InLoop (start : Nat) : Pc F → Prop
  | .loop start' => start' = start
  | .readStatus start' => start' = start
  | .judge start' _ => start' = start
  | _ => False

/-- The loop has been left. -/
def Pc.Ending : Pc F → Prop
  | .closing _ _ => True
  | .returned => True
  | _ => False

/-- How many passes the thread is away from its loop, from the top of the loop, or from its
return. -/
def Pc.rank : Pc F → Nat
  | .started => 4
  | .waitService _ => 3
  | .send => 2
  | .waitReply _ _ => 1
  | .readStatus _ => 3
  | .judge _ _ => 2
  | .loop _ => 1
  | .closing _ _ => 1
  | .returned => 0

/-- The goal is there and `p` holds of its position. -/
def At (g : Nat) (p : Pc F → Prop) (s : State F) : Prop :=
  ∃ goal, s.goals[g]? = some goal ∧ p goal.pc

section Progress

variable {s : State F} {g : Nat} {goal : Goal F} {pc : Pc F} {terminal : Option TerminalCall}
  {es : List (Event F)} {start : Nat}

theorem ThreadMove.committing (h : ThreadMove φ s g goal pc terminal es)
    (hpc : goal.pc.Committing) :
    ((∃ start, pc.InLoop start) ∨ pc.Ending) ∨ pc.Committing ∧ pc.rank < goal.pc.rank := by
  cases h with
  | noClient => exact Or.inl (Or.inr trivial)
  | start hpc' =>
      rw [hpc']
      exact Or.inr ⟨trivial, by simp [Pc.rank]⟩
  | noService => exact Or.inl (Or.inr trivial)
  | service hpc' =>
      rw [hpc']
      exact Or.inr ⟨trivial, by simp [Pc.rank]⟩
  | command hpc' =>
      rw [hpc']
      exact Or.inr ⟨trivial, by simp [Pc.rank]⟩
  | enter => exact Or.inl (Or.inl ⟨_, rfl⟩)
  | rejected => exact Or.inl (Or.inr trivial)
  | noReply => exact Or.inl (Or.inr trivial)
  -- the others start in the loop or after it
  | _ => simp_all [Pc.Committing]

/-- The loop, once its time is over, is left within two passes from its body. -/
theorem ThreadMove.inLoop (h : ThreadMove φ s g goal pc terminal es) (hpc : goal.pc.InLoop start) :
    pc.Ending ∨ pc.InLoop start ∧ (s.clock - start > overallTimeout → pc.rank < goal.pc.rank) := by
  cases h with
  | shutDown => exact Or.inl trivial
  | canceled => exact Or.inl trivial
  | timeout => exact Or.inl trivial
  | goOn hpc' hle =>
      rw [hpc'] at hpc
      exact Or.inr ⟨hpc, fun hlate => absurd hlate (not_lt.mpr (hpc ▸ hle))⟩
  | noStatus hpc' =>
      rw [hpc'] at hpc ⊢
      exact Or.inr ⟨hpc, fun _ => by simp [Pc.rank]⟩
  | fault => exact Or.inl trivial
  | found hpc' =>
      rw [hpc'] at hpc ⊢
      exact Or.inr ⟨hpc, fun _ => by simp [Pc.rank]⟩
  | stuck => exact Or.inl trivial
  | arrive => exact Or.inl trivial
  | again hpc' =>
      rw [hpc'] at hpc ⊢
      exact Or.inr ⟨hpc, fun _ => by simp [Pc.rank]⟩
  | close => exact Or.inl trivial
  -- the others start before the loop
  | _ => simp_all [Pc.InLoop]

/-- **What a step does to the position of a goal**: the thread makes a pass, or it stays, up to the
arrival of a response. -/
theorem step_pc {s' : State F} {a : Act F} (h : step φ s a = some (s', es))
    (hg : s.goals[g]? = some goal) :
    ∃ goal', s'.goals[g]? = some goal' ∧
      ((∃ available, a = .thread g available ∧
          ThreadMove φ s g goal goal'.pc goal'.terminal es) ∨
        ((∀ available, a ≠ .thread g available) ∨ s'.crashed = true) ∧
          (goal'.pc = goal.pc ∨ ∃ c response, goal.pc = .waitReply c none ∧
            goal'.pc = .waitReply c (some response))) := by
  obtain ⟨goal', hg', ⟨rfl, -, hout⟩ | hmove⟩ := step_goal h hg
  · exact ⟨goal', hg', Or.inr ⟨hout, Or.inl rfl⟩⟩
  · refine ⟨goal', hg', ?_⟩
    cases hmove with
    | pass _ ht => exact Or.inl ⟨_, rfl, threadStep_moves ht⟩
    | cancel => exact Or.inr ⟨Or.inl (by simp), Or.inl rfl⟩
    | response hpc => exact Or.inr ⟨Or.inl (by simp), Or.inr ⟨_, _, hpc, rfl⟩⟩

variable {clock : Nat} {r : Infinite (step φ) anyStep (State.init clock)}

/-- The thread of the goal goes on as long as `execute` has not returned. -/
def Scheduled (r : Infinite (step φ) anyStep (State.init clock)) (g : Nat) : Prop :=
  ∀ n, At g (· ≠ .returned) (r.state n) → ∃ m, n ≤ m ∧ ∃ available, r.act m = .thread g available

/-- An infinite run is not the run of a process that has crashed. -/
theorem not_crashed (r : Infinite (step φ) anyStep (State.init clock)) (n : Nat) :
    (r.state n).crashed = false :=
  (Move.of_step (r.valid n)).1

/-- **Passes make progress.** If every pass from `p` comes to `q` or keeps `p`, and comes nearer to
`q` once the clock has reached `t`, then `q` is reached. -/
theorem leadsTo_of_moves (htime : ∀ t, ∃ n, t ≤ (r.state n).clock) (hsched : Scheduled r g)
    {p q : Pc F → Prop} (t : Nat) (hp : ∀ pc, p pc → pc ≠ .returned)
    (hreply : ∀ c response, p (.waitReply c none) → p (.waitReply c (some response)))
    (hmove : ∀ {s goal pc terminal es}, ThreadMove φ s g goal pc terminal es → p goal.pc →
      q pc ∨ p pc ∧ (t ≤ s.clock → pc.rank < goal.pc.rank)) :
    LeadsTo r (At g p) (At g q) := by
  have hclock : Monotone fun n => (r.state n).clock :=
    monotone_nat_of_le_succ fun n => (step_clock (r.valid n)).1
  refine LeadsTo.of_component (fun s => s.goals[g]?) (fun goal => goal.pc.rank)
    (L := fun s : State F => t ≤ s.clock)
    (A := fun a : Act F => ∃ available, a = .thread g available) ?_ ?_ ?_ ?_ ?_
  · exact fun n h => h.trans (step_clock (r.valid n)).1
  · intro n
    obtain ⟨m, hm⟩ := htime t
    exact ⟨max n m, le_max_left n m, hm.trans (hclock (le_max_right n m))⟩
  · rintro n goal hg hpc ⟨available, ha⟩
    obtain ⟨goal', hg', ⟨-, -, ht⟩ | ⟨hother | hcrash, -⟩⟩ := step_pc (r.valid n) hg
    · exact ⟨goal', hg', hmove ht hpc⟩
    · exact absurd ha (hother available)
    · rw [not_crashed r (n + 1)] at hcrash
      cases hcrash
  · intro n goal hg hpc hnot
    obtain ⟨goal', hg', ⟨available, ha, -⟩ | ⟨-, heq | ⟨c, response, hw, hw'⟩⟩⟩ :=
      step_pc (r.valid n) hg
    · exact absurd ⟨available, ha⟩ hnot
    · exact ⟨goal', hg', heq ▸ hpc, (congrArg Pc.rank heq).le⟩
    · rw [hw] at hpc
      refine ⟨goal', hg', ?_, ?_⟩
      · rw [hw']
        exact hreply c response hpc
      · rw [hw, hw']
        exact le_rfl
  · exact fun n goal hg hpc => hsched n ⟨goal, hg, hp _ hpc⟩

theorem ThreadMove.ending (h : ThreadMove φ s g goal pc terminal es) (hpc : goal.pc.Ending) :
    pc = .returned := by
  cases h with
  | shutDown => rfl
  | close => rfl
  -- the others start before the end
  | _ => simp_all [Pc.Ending]

/-- From wherever it is, a goal comes to the end of `execute`. -/
theorem leadsTo_returned (htime : ∀ t, ∃ n, t ≤ (r.state n).clock) (hsched : Scheduled r g) :
    LeadsTo r (At g fun _ => True) (At g (· = .returned)) := by
  have hclosing : LeadsTo r (At g Pc.Ending) (At g (· = .returned)) := by
    have hclose := leadsTo_of_moves htime hsched (p := fun pc => pc.Ending ∧ pc ≠ .returned)
      (q := (· = .returned)) 0 (fun _ h => h.2) (by simp [Pc.Ending])
      fun ht hpc => Or.inl (ht.ending hpc.1)
    rintro n ⟨goal, hg, hpc⟩
    by_cases hr : goal.pc = .returned
    · exact ⟨n, le_rfl, goal, hg, hr⟩
    · exact hclose n ⟨goal, hg, hpc, hr⟩
  have hleave (start : Nat) : LeadsTo r (At g (Pc.InLoop start)) (At g Pc.Ending) := by
    refine leadsTo_of_moves htime hsched (start + overallTimeout + 1) ?_ (by simp [Pc.InLoop])
      fun ht hpc => ?_
    · rintro pc hpc rfl
      exact hpc
    · refine (ht.inLoop hpc).imp_right (And.imp_right fun h hclock => h ?_)
      omega
  have hcommit : LeadsTo r (At g Pc.Committing)
      (At g fun pc => (∃ start, pc.InLoop start) ∨ pc.Ending) :=
    leadsTo_of_moves htime hsched 0 (by rintro pc hpc rfl; exact hpc) (by simp [Pc.Committing])
      fun ht hpc => (ht.committing hpc).imp_right (And.imp_right fun hlt _ => hlt)
  have hloop : LeadsTo r (At g fun pc => (∃ start, pc.InLoop start) ∨ pc.Ending)
      (At g (· = .returned)) := by
    rintro n ⟨goal, hg, ⟨start, hpc⟩ | hpc⟩
    · exact (hleave start).trans hclosing n ⟨goal, hg, hpc⟩
    · exact hclosing n ⟨goal, hg, hpc⟩
  rintro n ⟨goal, hg, -⟩
  cases hpc : goal.pc with
  | started => exact hcommit.trans hloop n ⟨goal, hg, hpc ▸ trivial⟩
  | waitService c => exact hcommit.trans hloop n ⟨goal, hg, hpc ▸ trivial⟩
  | send => exact hcommit.trans hloop n ⟨goal, hg, hpc ▸ trivial⟩
  | waitReply c response => exact hcommit.trans hloop n ⟨goal, hg, hpc ▸ trivial⟩
  | loop start => exact hloop n ⟨goal, hg, Or.inl ⟨start, hpc ▸ rfl⟩⟩
  | readStatus start => exact hloop n ⟨goal, hg, Or.inl ⟨start, hpc ▸ rfl⟩⟩
  | judge start st => exact hloop n ⟨goal, hg, Or.inl ⟨start, hpc ▸ rfl⟩⟩
  | closing call result => exact hloop n ⟨goal, hg, Or.inr (hpc ▸ trivial)⟩
  | returned => exact ⟨n, le_rfl, goal, hg, hpc⟩

/-- **Every goal ends, and once.** However the callbacks, the other threads and the responses come
in between: if time goes on and the thread of the goal is not forgotten, `execute` returns, and
unless the process has been shut down it has ended its goal by exactly one call. -/
theorem every_goal_ends (htime : ∀ t, ∃ n, t ≤ (r.state n).clock) (hsched : Scheduled r g) {n : Nat}
    (hg : g < (r.state n).goals.length) :
    (∀ k, (terminalCalls g (r.trace k)).length ≤ 1) ∧
      ∃ m, n ≤ m ∧ At g (· = .returned) (r.state m) ∧
        ((r.state m).ok = true → (terminalCalls g (r.trace m)).length = 1) := by
  have hinv (k : Nat) : EndInv (r.trace k) (r.state k) := EndInv.of_run (r.run_upto k)
  refine ⟨fun k => ?_, ?_⟩
  · rw [(hinv k).recorded]
    cases (r.state k).goals[g]?.bind Goal.terminal with
    | none => exact Nat.zero_le 1
    | some call => exact le_rfl
  · obtain ⟨m, hnm, goal, hgm, hpc⟩ := leadsTo_returned htime hsched n
      ⟨_, List.getElem?_eq_getElem hg, trivial⟩
    refine ⟨m, hnm, ⟨goal, hgm, hpc⟩, fun hok => ?_⟩
    rw [(hinv m).recorded, hgm, Option.bind_some]
    rcases (hinv m).returned g goal hgm hpc with hend | hoff
    · obtain ⟨call, hcall⟩ := Option.ne_none_iff_exists'.mp hend
      rw [hcall]
      rfl
    · rw [hoff] at hok
      cases hok

end Progress

/-- The arithmetic of the rational numbers. -/
def ratFloats : Floats ℚ where
  lit q := q
  sub a b := a - b
  div a b := a / b
  abs a := |a|
  lt a b := decide (a < b)
  le a b := decide (a ≤ b)
  eq a b := decide (a = b)

/-- A goal whose motor gets to its target in two messages. -/
def wholeMotion : List (Act ℚ) :=
  [.transition .configure, .transition .activate, .goal ⟨"lift", 1, 1⟩, .thread 0 true,
    .thread 0 true, .thread 0 true, .respond 0 true "ok", .thread 0 true,
    .status [("lift", ⟨1 / 2, .ok⟩)], .thread 0 true, .thread 0 true, .thread 0 true,
    .status [("lift", ⟨1, .ok⟩)], .thread 0 true, .thread 0 true, .thread 0 true, .thread 0 true]

/-- `execute` has returned. -/
def Pc.isReturned : Pc F → Bool
  | .returned => true
  | _ => false

theorem Pc.eq_returned {pc : Pc F} (h : pc.isReturned = true) : pc = .returned := by
  cases pc with
  | returned => rfl
  | _ => cases h

theorem wholeMotion_isSome :
    (runActs (step ratFloats) anyStep (State.init 0) wholeMotion).isSome := by decide +kernel

theorem wholeMotion_crashed :
    (Option.get _ wholeMotion_isSome).1.crashed = false := by decide +kernel

/-- From a state on, time goes on and nothing else happens. -/
def timePasses (s : State ℚ) (h : s.crashed = false) : Infinite (step ratFloats) anyStep s :=
  .forever (.advance 1) (fun s => { s with clock := s.clock + 1 }) (I := fun s => s.crashed = false)
    h (fun _ h => h) (fun _ _ => trivial) fun s h => by rw [step, if_neg (by simp [h])]

theorem timePasses_state (s : State ℚ) (h : s.crashed = false) (k : Nat) :
    ((timePasses s h).state k).goals = s.goals ∧
      ((timePasses s h).state k).clock = s.clock + k := by
  induction k with
  | zero => exact ⟨rfl, rfl⟩
  | succ k ih =>
      have hnext : (timePasses s h).state (k + 1) =
          { (timePasses s h).state k with clock := ((timePasses s h).state k).clock + 1 } :=
        Function.iterate_succ_apply' _ k _
      rw [hnext]
      exact ⟨ih.1, congrArg (· + 1) ih.2⟩

theorem wholeMotion_ends : ∃ (r : Infinite (step ratFloats) anyStep (State.init 0)) (m : Nat),
    wholeMotion.length ≤ m ∧ At 0 (· = .returned) (r.state m) ∧
      ((r.state m).ok = true → (terminalCalls 0 (r.trace m)).length = 1) := by
  obtain ⟨r, hstate, hact⟩ := Infinite.exists_prepend wholeMotion_isSome
    (timePasses _ wholeMotion_crashed)
  have hreturned :
      ((Option.get _ wholeMotion_isSome).1.goals[0]?).any (·.pc.isReturned) := by
    decide +kernel
  obtain ⟨goal, hg, hpc⟩ := (Option.any_eq_true _ _).mp hreturned
  have hgoals (k : Nat) : (r.state (wholeMotion.length + k)).goals[0]? = some goal := by
    rw [hstate, (timePasses_state _ _ k).1]
    exact hg
  have htime (t : Nat) : ∃ n, t ≤ (r.state n).clock := by
    refine ⟨wholeMotion.length + t, ?_⟩
    rw [hstate, (timePasses_state _ _ t).2]
    exact Nat.le_add_left t _
  -- the last of the actions is a pass, and it lets `execute` return
  have hsched : Scheduled r 0 := by
    rintro n ⟨goal', hg', hne⟩
    rcases Nat.lt_or_ge n wholeMotion.length with hlt | hge
    · have hlt : n < 17 := hlt
      exact ⟨16, by omega, true, hact 16 _ rfl⟩
    · obtain ⟨k, rfl⟩ := Nat.exists_eq_add_of_le hge
      obtain rfl := Option.some.inj (hg'.symm.trans (hgoals k))
      exact absurd (Pc.eq_returned hpc) hne
  have hlen : 0 < (r.state (wholeMotion.length + 0)).goals.length :=
    (List.getElem?_eq_some_iff.mp (hgoals 0)).1
  obtain ⟨m, hm⟩ := (every_goal_ends htime hsched hlen).2
  exact ⟨r, m, hm⟩

/-! ## The shared client -/

/-- The thread is in the part of `commitTarget` that uses the client or waits for its response. -/
def Pc.Commanding : Pc F → Prop
  | .waitService _ => True
  | .send => True
  | .waitReply _ none => True
  | _ => False

/-- No thread crashes the process with its next pass. -/
def Safe (φ : Floats F) (s : State F) : Prop :=
  s.crashed = false ∧ ∀ g available s' es, step φ s (.thread g available) = some (s', es) →
    s'.crashed = false

/-- The step does not release the client of a thread that is commanding its motor. -/
def KeepsClient (s : State F) (a : Act F) : Prop :=
  a = .transition .cleanup ∨ a = .transition .shutdown → ∀ goal ∈ s.goals, ¬ goal.pc.Commanding

section Client

variable {s s' : State F} {a : Act F} {es : List (Event F)} {g : Nat} {goal goal' : Goal F}

/-- Only a thread that is commanding its motor can be left without a client. -/
theorem Goal.dangling_commanding (h : goal.dangling s = true) : goal.pc.Commanding := by
  unfold Goal.dangling at h
  split at h
  · rename_i hpc
    rw [hpc]
    trivial
  · rename_i hpc
    rw [hpc]
    trivial
  · rename_i hpc
    rw [hpc]
    trivial
  · cases h

/-- Without a client, every thread that is commanding its motor is left without one. -/
theorem Goal.dangling_of_none (hclient : s.client = none) (h : goal.pc.Commanding) :
    goal.dangling s = true := by
  unfold Goal.dangling
  split
  · simp [hclient]
  · simp [hclient]
  · simp [hclient]
  · rename_i h₁ h₂ h₃
    cases hpc : goal.pc with
    | waitService c => exact absurd hpc (h₁ c)
    | send => exact absurd hpc h₂
    | waitReply c response =>
        cases response with
        | none => exact absurd hpc (h₃ c)
        | some response =>
            rw [hpc] at h
            cases h
    | _ =>
        rw [hpc] at h
        cases h

/-- Whether a thread is left without a client depends on the client only. -/
theorem Goal.dangling_congr (goal : Goal F) (h : s'.client = s.client) :
    goal.dangling s' = goal.dangling s := by
  unfold Goal.dangling
  rw [h]

theorem safe_iff (φ : Floats F) (hcrash : s.crashed = false) :
    Safe φ s ↔ ∀ goal ∈ s.goals, goal.dangling s = false := by
  constructor
  · rintro ⟨-, h⟩ goal hmem
    obtain ⟨g, hg⟩ := List.getElem?_of_mem hmem
    by_contra hd
    have hd : goal.dangling s = true := by simpa using hd
    have := h g true { s with crashed := true } [.crashed g] (by simp [step, hcrash, hg, hd])
    cases this
  · intro h
    refine ⟨hcrash, fun g available s' es hst => ?_⟩
    cases (Move.of_step hst).2 with
    | goal => exact hcrash
    | crash hg hd =>
        rw [h _ (List.mem_of_getElem? hg)] at hd
        cases hd

/-- A goal that moves while it has its client has it afterwards. -/
theorem GoalMove.dangling (h : GoalMove φ s g goal a goal' es) (hd : goal.dangling s = false) :
    goal'.dangling s = false := by
  cases h with
  | pass _ ht =>
      cases threadStep_moves ht with
      | start _ hc => simp [Goal.dangling, hc]
      | service hpc =>
          rw [Goal.dangling, hpc] at hd
          rw [Goal.dangling, Option.isNone_eq_false_iff]
          rw [decide_eq_false_iff_not, not_not] at hd
          simp [hd]
      | command _ hc => simp [Goal.dangling, hc]
      | _ => rfl
  | cancel => exact hd
  | response => rfl

/-- A node that is not configured has no client. -/
def Unconfigured (s : State F) : Prop := s.lifecycle = .unconfigured → s.client = none

theorem Unconfigured.step (hI : Unconfigured s) (h : MoveMotor.step φ s a = some (s', es)) :
    Unconfigured s' := by
  cases (Move.of_step h).2 with
  | transition _ ht =>
      intro hu
      cases TransitionMove.of_transition ht with
      | cleanup => rfl
      | shutdown => rfl
      | _ => cases hu
  | _ => exact hI

/-- **What a transition does to the client**: it is released, it is made where there was none, or
it stays. -/
theorem transition_client {t : Transition} (hI : Unconfigured s) (h : s.transition t = some s') :
    ((t = .cleanup ∨ t = .shutdown) ∧ s'.client = none) ∨
      ((t ≠ .cleanup ∧ t ≠ .shutdown) ∧ (s.client = none ∨ s'.client = s.client)) := by
  cases TransitionMove.of_transition h with
  | configure hl => exact Or.inr ⟨by simp, Or.inl (hI hl)⟩
  | activate => exact Or.inr ⟨by simp, Or.inr rfl⟩
  | deactivate => exact Or.inr ⟨by simp, Or.inr rfl⟩
  | cleanup => exact Or.inl ⟨Or.inl rfl, rfl⟩
  | shutdown => exact Or.inl ⟨Or.inr rfl, rfl⟩

/-- **The step**: from a state in which every thread has its client, the step leaves each of them
its client if and only if it keeps the client. -/
theorem step_safe_iff (hI : Unconfigured s) (hs : Safe φ s)
    (h : step φ s a = some (s', es)) : Safe φ s' ↔ KeepsClient s a := by
  have hd := (safe_iff φ hs.1).mp hs
  have hsafe (s' : State F) (hc : s'.crashed = false)
      (h : ∀ goal ∈ s'.goals, goal.dangling s' = false) : Safe φ s' := (safe_iff φ hc).mpr h
  have hkeeps (ha : ∀ t, a ≠ .transition t) : KeepsClient s a := by
    rintro (rfl | rfl)
    · exact absurd rfl (ha _)
    · exact absurd rfl (ha _)
  cases (Move.of_step h).2 with
  | accept =>
      refine iff_of_true (hsafe _ hs.1 fun goal hmem => ?_) (hkeeps (by simp))
      rcases List.mem_append.mp hmem with hmem | hmem
      · exact hd goal hmem
      · rw [List.mem_singleton.mp hmem]
        rfl
  | goal hg hmove =>
      refine iff_of_true (hsafe _ hs.1 fun goal hmem => ?_) (hkeeps ?_)
      · rcases List.mem_or_eq_of_mem_set hmem with hmem | rfl
        · exact hd goal hmem
        · exact hmove.dangling (hd _ (List.mem_of_getElem? hg))
      · rintro t rfl
        cases hmove
  | crash hg hdangling =>
      rw [hd _ (List.mem_of_getElem? hg)] at hdangling
      cases hdangling
  | @transition t _ _ ht =>
      obtain ⟨hgoals, -, -, hcrash, -⟩ := transition_frame ht
      rw [safe_iff φ (hcrash.trans hs.1), hgoals]
      rcases transition_client hI ht with ⟨ht, hnone⟩ | ⟨ht, hclient⟩
      -- the client is released
      · have ha : Act.transition t = (.transition .cleanup : Act F) ∨
            Act.transition t = (.transition .shutdown : Act F) := by simpa using ht
        constructor
        · intro hall _ goal hmem hc
          have := hall goal hmem
          rw [Goal.dangling_of_none hnone hc] at this
          cases this
        · intro hkeep goal hmem
          by_contra hd'
          exact hkeep ha goal hmem (Goal.dangling_commanding (by simpa using hd'))
      · refine iff_of_true (fun goal hmem => ?_) (by simp [KeepsClient, ht])
        rcases hclient with hnone | heq
        · by_contra hd'
          have hc := Goal.dangling_commanding (by simpa using hd')
          have := hd goal hmem
          rw [Goal.dangling_of_none hnone hc] at this
          cases this
        · rw [goal.dangling_congr heq]
          exact hd goal hmem
  | status => exact iff_of_true (hsafe _ hs.1 hd) (hkeeps (by simp))
  | advance => exact iff_of_true (hsafe _ hs.1 hd) (hkeeps (by simp))
  | shutdown => exact iff_of_true (hsafe _ hs.1 hd) (hkeeps (by simp))

end Client

/-- **When the process cannot crash**: no thread comes to use a client that has been released if and
only if no `on_cleanup` and no `on_shutdown` comes while a thread is commanding its motor. -/
theorem safe_iff_keepsClient (φ : Floats F) (clock : Nat) (as : List (Act F)) :
    Throughout (step φ) (Safe φ) (State.init clock) as ↔
      Obeys (step φ) KeepsClient (State.init clock) as := by
  refine throughout_iff_obeys (J := Unconfigured) (fun _ _ _ _ hI _ h => hI.step h)
    (fun _ _ _ _ hI hs h => step_safe_iff hI hs h) (fun _ => rfl) ?_
  exact (safe_iff φ rfl).mpr (by simp [State.init])

end RobotTaskManager.MoveMotor
