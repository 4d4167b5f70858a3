import Mathlib.Algebra.Order.Ring.Unbundled.Rat
import RobotTaskManager.SkillLibrary.DriveToPose

set_option autoImplicit false

/-! # Who owns `cmd_vel`

A goal is active from its acceptance to its terminal transition. Only the threads of active
goals publish a velocity other than zero, so as long as at most one goal is active it owns the
robot. `handleGoal` accepts every goal, so this is so exactly when no goal arrives while another
one is active.
-/

namespace RobotTaskManager.DriveToPose

open Interleaving

variable {F : Type}

/-! ## The property -/

/-- The goal is accepted and without a terminal transition. -/
def State.Active (s : State F) (g : Nat) : Prop :=
  ∃ goal, s.goals[g]? = some goal ∧ goal.terminal = none

/-- At most one goal's execute loop is active. -/
def AtMostOneActive (s : State F) : Prop := ∀ g g', s.Active g → s.Active g' → g = g'

/-- After these events the goal is accepted and has not ended. -/
def ActiveAfter (tr : List (Event F)) (g : Nat) : Prop :=
  Event.accepted g ∈ tr ∧ ∀ call result, Event.terminal g call result ∉ tr

/-- Every velocity command other than zero comes from the thread of the only active goal. -/
def Owned (φ : Floats F) (tr : List (Event F)) : Prop :=
  ∀ tr₁ owner stamped cmd tr₂, tr = tr₁ ++ .published owner stamped cmd :: tr₂ → cmd ≠ φ.stop →
    ∃ g, owner = .thread g ∧ ∀ g', ActiveAfter tr₁ g' ↔ g' = g

/-- After the terminal transition of a goal only zero is published until another one has been
accepted. -/
def Silent (φ : Floats F) (tr : List (Event F)) : Prop :=
  ∀ tr₁ g call result tr₂, tr = tr₁ ++ .terminal g call result :: tr₂ →
    (∀ g', Event.accepted g' ∉ tr₂) →
      ∀ owner stamped cmd, Event.published owner stamped cmd ∈ tr₂ → cmd = φ.stop

/-- A goal arrives only when no other one is active. -/
def ArrivesAlone (s : State F) : Act F → Prop
  | .goal _ => ∀ g, ¬ s.Active g
  | _ => True

/-! ## What a step can do -/

section Steps

variable {φ : Floats F} {cfg : Config} {s s' : State F} {a : Act F} {es : List (Event F)}

theorem mem_publishCmd {owner : Owner} {cmd : Twist F} {e : Event F}
    (h : e ∈ cfg.publishCmd owner cmd) : ∃ stamped, e = .published owner stamped cmd := by
  rw [Config.publishCmd, List.mem_append] at h
  rcases h with h | h
  · split at h
    · exact ⟨false, List.mem_singleton.mp h⟩
    · cases h
  · split at h
    · exact ⟨true, List.mem_singleton.mp h⟩
    · cases h

/-- An event of the goal's thread that neither accepts nor ends a goal, and publishes only the
command that is due. -/
def Event.isOutput (φ : Floats F) (g : Nat) (pc : Pc F) (e : Event F) : Prop :=
  match e with
  | .published owner _ cmd => owner = .thread g ∧
      (cmd ≠ φ.stop → ∃ phase startTime pose dist, pc = .publish cmd phase startTime pose dist)
  | .feedback _ _ _ => True
  | _ => False

theorem isOutput_stop {g : Nat} {pc : Pc F} {e : Event F}
    (h : e ∈ cfg.publishCmd (.thread g) φ.stop) : e.isOutput φ g pc := by
  obtain ⟨stamped, rfl⟩ := mem_publishCmd h
  exact ⟨rfl, fun hne => absurd rfl hne⟩

/-- **A step of a thread** ends the goal, or it lets it go on and emits outputs. -/
theorem threadStep_cases {g fuel : Nat} {goal : Goal F} {pc : Pc F}
    {terminal : Option TerminalCall}
    (h : threadStep φ cfg s g goal fuel = some (pc, terminal, es)) :
    (∃ call result, goal.pc = .closing call result ∧ pc = .returned ∧ terminal = some call ∧
      es = [.terminal g call result]) ∨
    (goal.pc ≠ .returned ∧ (∀ call result, goal.pc ≠ .closing call result) ∧
      terminal = goal.terminal ∧ ∀ e ∈ es, e.isOutput φ g goal.pc) := by
  unfold threadStep at h
  split at h
  · rename_i hpc
    obtain ⟨rfl, rfl, rfl⟩ := h
    exact Or.inr ⟨by rw [hpc]; nofun, by rw [hpc]; nofun, rfl, nofun⟩
  · rename_i deadline hpc
    split at h
    all_goals
      obtain ⟨rfl, rfl, rfl⟩ := h
      exact Or.inr ⟨by rw [hpc]; nofun, by rw [hpc]; nofun, rfl, nofun⟩
  · rename_i hpc
    split at h
    all_goals
      obtain ⟨rfl, rfl, rfl⟩ := h
      exact Or.inr ⟨by rw [hpc]; nofun, by rw [hpc]; nofun, rfl, nofun⟩
  · rename_i phase startTime hpc
    obtain ⟨rfl, rfl, rfl⟩ := h
    refine Or.inr ⟨by rw [hpc]; nofun, by rw [hpc]; nofun, rfl, fun e he => ?_⟩
    simp only [topStep] at he
    split at he
    · exact isOutput_stop he
    · split at he
      · exact isOutput_stop he
      · split at he
        · exact isOutput_stop he
        · cases he
  · rename_i phase startTime hpc
    obtain ⟨⟨pc', es'⟩, hr, h⟩ := Option.map_eq_some_iff.mp h
    obtain ⟨rfl, rfl, rfl⟩ := h
    refine Or.inr ⟨by rw [hpc]; nofun, by rw [hpc]; nofun, rfl, fun e he => ?_⟩
    rw [readStep] at hr
    split at hr
    · cases hr
      cases he
    · obtain ⟨control, -, hr⟩ := Option.map_eq_some_iff.mp hr
      cases control with
      | command cmd phase dist =>
          cases hr
          cases he
      | arrived =>
          cases hr
          exact isOutput_stop he
  · rename_i cmd phase startTime pose dist hpc
    obtain ⟨rfl, rfl, rfl⟩ := h
    refine Or.inr ⟨by rw [hpc]; nofun, by rw [hpc]; nofun, rfl, fun e he => ?_⟩
    rcases List.mem_append.mp he with he | he
    · obtain ⟨stamped, rfl⟩ := mem_publishCmd he
      exact ⟨rfl, fun _ => ⟨phase, startTime, pose, dist, hpc⟩⟩
    · obtain rfl := List.mem_singleton.mp he
      trivial
  · rename_i call result hpc
    obtain ⟨rfl, rfl, rfl⟩ := h
    exact Or.inl ⟨call, result, hpc, rfl, rfl, rfl⟩
  · cases h

/-- **A step of the server** accepts a goal, is one of a goal's thread, or ends and moves
nothing. -/
theorem step_cases (h : step φ cfg s a = some (s', es)) :
    (∃ request, a = .goal request ∧ es = [.accepted s.goals.length] ∧
      s'.goals = s.goals ++ [⟨request, .started, false, none⟩]) ∨
    (∃ g fuel goal pc terminal, a = .thread g fuel ∧ s.goals[g]? = some goal ∧
      threadStep φ cfg s g goal fuel = some (pc, terminal, es) ∧
      s'.goals = s.goals.set g { goal with pc, terminal }) ∨
    ((∀ request, a ≠ .goal request) ∧ (∀ g fuel, a ≠ .thread g fuel) ∧
      (∀ e ∈ es, ∃ stamped, e = .published .handleCancel stamped φ.stop) ∧
      (s'.goals = s.goals ∨ ∃ g goal, s.goals[g]? = some goal ∧
        s'.goals = s.goals.set g { goal with canceling := true })) := by
  cases a with
  | goal request =>
      rw [step] at h
      split at h
      · obtain ⟨rfl, rfl⟩ := h
        exact Or.inl ⟨request, rfl, rfl, rfl⟩
      · cases h
  | cancel g =>
      rw [step] at h
      split at h
      · cases h
      · rename_i goal hg
        split at h
        · obtain ⟨rfl, rfl⟩ := h
          exact Or.inr (Or.inr
            ⟨by simp, by simp, fun e he => mem_publishCmd he, Or.inr ⟨g, goal, hg, rfl⟩⟩)
        · cases h
  | odom msg =>
      rw [step] at h
      split at h
      · obtain ⟨rfl, rfl⟩ := h
        exact Or.inr (Or.inr ⟨by simp, by simp, by simp, Or.inl rfl⟩)
      · cases h
  | advance d =>
      obtain ⟨rfl, rfl⟩ := h
      exact Or.inr (Or.inr ⟨by simp, by simp, by simp, Or.inl rfl⟩)
  | shutdown =>
      obtain ⟨rfl, rfl⟩ := h
      exact Or.inr (Or.inr ⟨by simp, by simp, by simp, Or.inl rfl⟩)
  | thread g fuel =>
      rw [step] at h
      split at h
      · cases h
      · rename_i goal hg
        split at h
        · cases h
        · rename_i pc terminal es' ht
          obtain ⟨rfl, rfl⟩ := h
          exact Or.inr (Or.inl ⟨g, fuel, goal, pc, terminal, rfl, hg, ht, rfl⟩)

/-! ## Which goals are active -/

/-- A goal that has ended has left `execute`. -/
def EndedReturned (s : State F) : Prop :=
  ∀ (g : Nat) (goal : Goal F), s.goals[g]? = some goal → goal.terminal ≠ none →
    goal.pc = .returned

/-- `EndedReturned` after an update of one goal. -/
theorem EndedReturned.set (h : EndedReturned s) {g : Nat} {goal : Goal F}
    (hs : s'.goals = s.goals.set g goal) (hgoal : goal.terminal ≠ none → goal.pc = .returned) :
    EndedReturned s' := by
  intro g' goal' hg' ht
  rw [hs, List.getElem?_set] at hg'
  split at hg'
  · split at hg'
    · obtain rfl := Option.some.inj hg'
      exact hgoal ht
    · cases hg'
  · exact h g' goal' hg' ht

theorem EndedReturned.step (h : EndedReturned s) (hst : step φ cfg s a = some (s', es)) :
    EndedReturned s' := by
  rcases step_cases hst with ⟨request, -, -, hs⟩ | ⟨g, fuel, goal, pc, terminal, -, hg, ht, hs⟩ |
    ⟨-, -, -, hs | ⟨g, goal, hg, hs⟩⟩
  · intro g goal hg hterm
    rw [hs, List.getElem?_append] at hg
    split at hg
    · exact h g goal hg hterm
    · obtain rfl := List.mem_singleton.mp (List.mem_of_getElem? hg)
      exact absurd rfl hterm
  · refine h.set hs fun hterm => ?_
    rcases threadStep_cases ht with ⟨call, result, -, rfl, -, -⟩ | ⟨hpc, -, rfl, -⟩
    · rfl
    · exact absurd (h g goal hg hterm) hpc
  · rw [EndedReturned, hs]
    exact h
  · exact h.set hs fun hterm => h g goal hg hterm

/-- Setting a goal only changes whether that goal is active. -/
theorem active_set {g : Nat} {old goal : Goal F} (hg : s.goals[g]? = some old)
    (hs : s'.goals = s.goals.set g goal) (g' : Nat) :
    s'.Active g' ↔ if g' = g then goal.terminal = none else s.Active g' := by
  obtain ⟨hlt, -⟩ := List.getElem?_eq_some_iff.mp hg
  rw [State.Active, hs]
  split
  · rename_i heq
    rw [heq, List.getElem?_set_self hlt]
    simp
  · rename_i hne
    rw [List.getElem?_set_ne (Ne.symm hne)]
    exact Iff.rfl

/-- **What a step does to the active goals**: one more is accepted, one ends, or they stay the
same and only their threads publish anything but zero. -/
theorem step_active (hinv : EndedReturned s) (hst : step φ cfg s a = some (s', es)) :
    (∃ request, a = .goal request ∧ es = [.accepted s.goals.length] ∧
      s'.goals.length = s.goals.length + 1 ∧
      ∀ g, s'.Active g ↔ s.Active g ∨ g = s.goals.length) ∨
    ((∀ request, a ≠ .goal request) ∧ s'.goals.length = s.goals.length ∧
      ∃ g call result, es = [.terminal g call result] ∧ s.Active g ∧
        ∀ g', s'.Active g' ↔ s.Active g' ∧ g' ≠ g) ∨
    ((∀ request, a ≠ .goal request) ∧ s'.goals.length = s.goals.length ∧
      (∀ g, s'.Active g ↔ s.Active g) ∧
      ∀ e ∈ es, (∃ owner stamped cmd, e = .published owner stamped cmd ∧
          (cmd ≠ φ.stop → ∃ g, owner = .thread g ∧ s.Active g)) ∨
        ∃ g pose dist, e = .feedback g pose dist) := by
  rcases step_cases hst with ⟨request, rfl, rfl, hs⟩ |
    ⟨g, fuel, goal, pc, terminal, rfl, hg, ht, hs⟩ | ⟨hno, -, hes, hs⟩
  · refine Or.inl ⟨request, rfl, rfl, by simp [hs], fun g => ?_⟩
    · rw [State.Active, hs]
      constructor
      · rintro ⟨goal, hg, hterm⟩
        rw [List.getElem?_append] at hg
        split at hg
        · exact Or.inl ⟨goal, hg, hterm⟩
        · obtain ⟨hlt, -⟩ := List.getElem?_eq_some_iff.mp hg
          rw [List.length_singleton] at hlt
          exact Or.inr (by omega)
      · rintro (⟨goal, hg, hterm⟩ | rfl)
        · obtain ⟨hlt, -⟩ := List.getElem?_eq_some_iff.mp hg
          exact ⟨goal, by rw [List.getElem?_append_left hlt]; exact hg, hterm⟩
        · exact ⟨_, List.getElem?_concat_length .., rfl⟩
  · have hset := active_set hg hs
    rcases threadStep_cases ht with ⟨call, result, hpc, rfl, rfl, rfl⟩ | ⟨hpc, -, rfl, hes⟩
    · refine Or.inr (Or.inl
        ⟨nofun, by simp [hs], g, call, result, rfl, ⟨goal, hg, ?_⟩, fun g' => ?_⟩)
      -- a goal that had ended would have returned
      · by_contra hterm
        rw [hinv g goal hg hterm] at hpc
        cases hpc
      · rw [hset g']
        by_cases heq : g' = g
        · simp [heq]
        · simp [heq]
    · have hactive : s.Active g := by
        refine ⟨goal, hg, ?_⟩
        by_contra hterm
        exact hpc (hinv g goal hg hterm)
      refine Or.inr (Or.inr ⟨nofun, by simp [hs], fun g' => ?_, fun e he => ?_⟩)
      · rw [hset g']
        split
        · rename_i heq
          obtain ⟨goal', hg', hterm⟩ := hactive
          obtain rfl := Option.some.inj (hg.symm.trans hg')
          rw [heq]
          exact iff_of_true hterm ⟨goal, hg, hterm⟩
        · exact Iff.rfl
      · have hout := hes e he
        cases e with
        | published owner stamped cmd =>
            exact Or.inl ⟨owner, stamped, cmd, rfl, fun _ => ⟨g, hout.1, hactive⟩⟩
        | feedback g' pose dist => exact Or.inr ⟨g', pose, dist, rfl⟩
        | accepted g' => exact hout.elim
        | terminal g' call result => exact hout.elim
  · refine Or.inr (Or.inr ⟨hno, ?_, fun g' => ?_, fun e he => ?_⟩)
    · rcases hs with hs | ⟨g, goal, -, hs⟩ <;> simp [hs]
    · rcases hs with hs | ⟨g, goal, hg, hs⟩
      · rw [State.Active, hs]
        exact Iff.rfl
      · rw [active_set hg hs g']
        split
        · rename_i heq
          rw [heq, State.Active, hg]
          simp
        · exact Iff.rfl
    · obtain ⟨stamped, rfl⟩ := hes e he
      exact Or.inl ⟨_, stamped, _, rfl, fun hne => absurd rfl hne⟩

/-! ## Runs -/

/-- The active goals can be read off the trace. -/
structure TraceInv (tr : List (Event F)) (s : State F) : Prop where
  ended : EndedReturned s
  numbered : ∀ g, (Event.accepted g ∈ tr ∨ ∃ call result, Event.terminal g call result ∈ tr) →
    g < s.goals.length
  active : ∀ g, ActiveAfter tr g ↔ s.Active g

theorem TraceInv.init (clock : Nat) : TraceInv [] (State.init clock : State F) where
  ended g goal hg := by simp [State.init] at hg
  numbered g h := by simp at h
  active g := by simp [ActiveAfter, State.Active, State.init]

/-- The events are messages and feedback. -/
def IsOutputs (es : List (Event F)) : Prop :=
  ∀ e ∈ es, (∃ owner stamped cmd, e = .published owner stamped cmd) ∨
    ∃ g pose dist, e = .feedback g pose dist

theorem IsOutputs.not_accepted (h : IsOutputs es) (g : Nat) : Event.accepted g ∉ es := by
  intro hm
  rcases h _ hm with ⟨_, _, _, he⟩ | ⟨_, _, _, he⟩ <;> cases he

theorem IsOutputs.not_terminal (h : IsOutputs es) (g : Nat) (call : TerminalCall)
    (result : Result F) : Event.terminal g call result ∉ es := by
  intro hm
  rcases h _ hm with ⟨_, _, _, he⟩ | ⟨_, _, _, he⟩ <;> cases he

theorem isOutputs_of_step (h : ∀ e ∈ es, (∃ owner stamped cmd, e = .published owner stamped cmd ∧
      (cmd ≠ φ.stop → ∃ g, owner = .thread g ∧ s.Active g)) ∨
      ∃ g pose dist, e = .feedback g pose dist) : IsOutputs es := by
  intro e he
  rcases h e he with ⟨owner, stamped, cmd, rfl, -⟩ | h
  · exact Or.inl ⟨owner, stamped, cmd, rfl⟩
  · exact Or.inr h

theorem activeAfter_outputs {tr : List (Event F)} (h : IsOutputs es) (g : Nat) :
    ActiveAfter (tr ++ es) g ↔ ActiveAfter tr g := by
  simp [ActiveAfter, h.not_accepted, h.not_terminal]

theorem TraceInv.step {tr : List (Event F)} (h : TraceInv tr s)
    (hst : step φ cfg s a = some (s', es)) : TraceInv (tr ++ es) s' := by
  have hended := h.ended.step hst
  rcases step_active h.ended hst with ⟨request, -, rfl, hlen, hact⟩ |
    ⟨-, hlen, g, call, result, rfl, hg, hact⟩ | ⟨-, hlen, hact, hes⟩
  · refine ⟨hended, fun g hg => ?_, fun g => ?_⟩
    · rcases hg with hg | ⟨call, result, hg⟩
      · rcases List.mem_append.mp hg with hg | hg
        · have := h.numbered g (Or.inl hg)
          omega
        · obtain rfl : g = s.goals.length := by simpa using hg
          omega
      · have := h.numbered g (Or.inr ⟨call, result, by simpa using hg⟩)
        omega
    · rw [hact, ← h.active]
      constructor
      · rintro ⟨hacc, hterm⟩
        have hterm' : ∀ call result, Event.terminal g call result ∉ tr :=
          fun call result hm => hterm call result (List.mem_append_left _ hm)
        rcases List.mem_append.mp hacc with hacc | hacc
        · exact Or.inl ⟨hacc, hterm'⟩
        · exact Or.inr (by simpa using hacc)
      · rintro (⟨hacc, hterm⟩ | rfl)
        · exact ⟨List.mem_append_left _ hacc, by simpa using hterm⟩
        -- a goal that has not been accepted cannot have ended
        · refine ⟨by simp, fun call result hm => ?_⟩
          have := h.numbered s.goals.length (Or.inr ⟨call, result, by simpa using hm⟩)
          omega
  · refine ⟨hended, fun g' hg' => ?_, fun g' => ?_⟩
    · rw [hlen]
      rcases hg' with hg' | ⟨call', result', hg'⟩
      · exact h.numbered g' (Or.inl (by simpa using hg'))
      · rcases List.mem_append.mp hg' with hg' | hg'
        · exact h.numbered g' (Or.inr ⟨call', result', hg'⟩)
        · obtain ⟨rfl, -⟩ : g' = g ∧ _ := by simpa using hg'
          obtain ⟨goal, hg, -⟩ := hg
          exact (List.getElem?_eq_some_iff.mp hg).1
    · rw [hact, ← h.active]
      constructor
      · rintro ⟨hacc, hterm⟩
        refine ⟨⟨by simpa using hacc, fun c r hm => hterm c r (List.mem_append_left _ hm)⟩, ?_⟩
        rintro rfl
        exact hterm call result (by simp)
      · rintro ⟨⟨hacc, hterm⟩, hne⟩
        refine ⟨List.mem_append_left _ hacc, fun c r hm => ?_⟩
        rcases List.mem_append.mp hm with hm | hm
        · exact hterm c r hm
        · obtain ⟨rfl, -, -⟩ := Event.terminal.inj (List.mem_singleton.mp hm)
          exact hne rfl
  · have hout : IsOutputs es := isOutputs_of_step hes
    refine ⟨hended, fun g hg => ?_, fun g => ?_⟩
    · rw [hlen]
      refine h.numbered g ?_
      simpa [hout.not_accepted, hout.not_terminal] using hg
    · rw [activeAfter_outputs hout, hact]
      exact h.active g

theorem atMostOneActive_init (clock : Nat) : AtMostOneActive (State.init clock : State F) := by
  rintro g g' ⟨goal, hg, -⟩
  simp [State.init] at hg

/-- A step keeps at most one goal active exactly if no goal arrives next to an active one. -/
theorem atMostOneActive_step (hinv : EndedReturned s) (h : AtMostOneActive s)
    (hst : step φ cfg s a = some (s', es)) : AtMostOneActive s' ↔ ArrivesAlone s a := by
  rcases step_active hinv hst with ⟨request, rfl, -, -, hact⟩ |
    ⟨hno, -, g, call, result, -, -, hact⟩ | ⟨hno, -, hact, -⟩
  · constructor
    · intro h' g hg
      have heq := h' g s.goals.length ((hact g).mpr (Or.inl hg)) ((hact _).mpr (Or.inr rfl))
      obtain ⟨goal, hget, -⟩ := hg
      have := (List.getElem?_eq_some_iff.mp hget).1
      omega
    · intro halone g g' hg hg'
      rcases (hact g).mp hg with hg | hg
      · exact absurd hg (halone g)
      · rcases (hact g').mp hg' with hg' | hg'
        · exact absurd hg' (halone g')
        · rw [hg, hg']
  · refine iff_of_true (fun g₁ g₂ h₁ h₂ => ?_) ?_
    · exact h g₁ g₂ ((hact g₁).mp h₁).1 ((hact g₂).mp h₂).1
    · cases a with
      | goal request => exact absurd rfl (hno request)
      | _ => trivial
  · refine iff_of_true (fun g₁ g₂ h₁ h₂ => ?_) ?_
    · exact h g₁ g₂ ((hact g₁).mp h₁) ((hact g₂).mp h₂)
    · cases a with
      | goal request => exact absurd rfl (hno request)
      | _ => trivial

end Steps

section Runs

variable {φ : Floats F} {cfg : Config} {clock : Nat} {s : State F} {tr : List (Event F)}

theorem traceInv_of_run {P : State F → Act F → Prop}
    (h : Run (step φ cfg) P (.init clock) tr s) : TraceInv tr s := by
  have := h.history (H := TraceInv) (fun _ _ _ _ _ hinv _ hst => hinv.step hst) (.init clock)
  simpa using this

theorem atMostOneActive_of_run (h : Run (step φ cfg) ArrivesAlone (.init clock) tr s) :
    AtMostOneActive s := by
  have hboth : EndedReturned s ∧ AtMostOneActive s := by
    refine h.invariant (I := fun s => EndedReturned s ∧ AtMostOneActive s) ?_
      ⟨(TraceInv.init clock).ended, atMostOneActive_init clock⟩
    rintro s a s' es ⟨hended, hone⟩ hP hst
    exact ⟨hended.step hst, (atMostOneActive_step hended hone hst).mpr hP⟩
  exact hboth.2

theorem owned_of_run (h : Run (step φ cfg) ArrivesAlone (.init clock) tr s) : Owned φ tr := by
  intro tr₁ owner stamped cmd tr₂ htr hne
  rw [htr] at h
  obtain ⟨tr₀, s₁, a, s₂, es₁, es₂, tr₃, h₀, -, hst, -, rfl, -⟩ := h.exists_step_of_split
  have hinv := traceInv_of_run h₀
  have hone := atMostOneActive_of_run h₀
  rcases step_active hinv.ended hst with ⟨request, -, hes, -⟩ | ⟨-, -, g, call, result, hes, -⟩ |
    ⟨-, -, -, hes⟩
  -- the event is a message, so the step accepts and ends no goal
  · have : Event.published owner stamped cmd ∈ [Event.accepted s₁.goals.length] := by
      rw [← hes]
      simp
    simp at this
  · have : Event.published owner stamped cmd ∈ [Event.terminal g call result] := by
      rw [← hes]
      simp
    simp at this
  · have hpre : IsOutputs es₁ := fun e he =>
      isOutputs_of_step hes e (List.mem_append_left _ he)
    rcases hes (.published owner stamped cmd) (by simp) with ⟨_, _, _, he, hown⟩ | ⟨_, _, _, he⟩
    · obtain ⟨rfl, rfl, rfl⟩ := Event.published.inj he
      obtain ⟨g, hg, hactive⟩ := hown hne
      refine ⟨g, hg, fun g' => ?_⟩
      rw [activeAfter_outputs hpre, hinv.active]
      exact ⟨fun h' => hone g' g h' hactive, fun h' => h' ▸ hactive⟩
    · cases he

/-- Without an active goal, and until one is accepted, only zero is published. -/
theorem stop_of_no_active {P : State F → Act F → Prop} {s₀ : State F}
    (h : Run (step φ cfg) P s₀ tr s) (hended : EndedReturned s₀) (hno : ∀ g, ¬ s₀.Active g)
    (hacc : ∀ g, Event.accepted g ∉ tr) {owner : Owner} {stamped : Bool} {cmd : Twist F}
    (hm : Event.published owner stamped cmd ∈ tr) : cmd = φ.stop := by
  by_contra hne
  obtain ⟨u, v, rfl⟩ := List.append_of_mem hm
  obtain ⟨tr₀, s₁, a, s₂, es₁, es₂, tr₃, h₀, -, hst, -, rfl, -⟩ := h.exists_step_of_split
  let H : List (Event F) → State F → Prop := fun tr s =>
    EndedReturned s ∧ ((∀ g, Event.accepted g ∉ tr) → ∀ g, ¬ s.Active g)
  have hquiet : H ([] ++ tr₀) s₁ := by
    refine h₀.history (H := H) ?_ ⟨hended, fun _ => hno⟩
    rintro tr s a s' es ⟨hended, hno⟩ - hst
    refine ⟨hended.step hst, fun hacc g => ?_⟩
    have hno' := hno fun g hm => hacc g (List.mem_append_left _ hm)
    rcases step_active hended hst with ⟨request, -, rfl, -⟩ |
      ⟨-, -, g', call, result, -, -, hact⟩ | ⟨-, -, hact, -⟩
    · exact absurd (by simp) (hacc s.goals.length)
    · exact fun h' => hno' g ((hact g).mp h').1
    · exact fun h' => hno' g ((hact g).mp h')
  have hno₁ := hquiet.2 fun g hm => hacc g (by simp at hm; simp [hm])
  rcases step_active hquiet.1 hst with ⟨request, -, hes, -⟩ |
    ⟨-, -, g, call, result, -, hg, -⟩ | ⟨-, -, -, hes⟩
  · have : Event.accepted s₁.goals.length ∈ es₁ ++ .published owner stamped cmd :: es₂ := by
      rw [hes]
      exact List.mem_singleton.mpr rfl
    have : Event.published owner stamped cmd ∈ [Event.accepted s₁.goals.length] := by
      rw [← hes]
      simp
    simp at this
  · exact hno₁ g hg
  · rcases hes (.published owner stamped cmd) (by simp) with ⟨_, _, _, he, hown⟩ | ⟨_, _, _, he⟩
    · obtain ⟨rfl, rfl, rfl⟩ := Event.published.inj he
      obtain ⟨g, -, hactive⟩ := hown hne
      exact hno₁ g hactive
    · cases he

theorem silent_of_run (h : Run (step φ cfg) ArrivesAlone (.init clock) tr s) : Silent φ tr := by
  intro tr₁ g call result tr₂ htr hacc owner stamped cmd hm
  rw [htr] at h
  obtain ⟨tr₀, s₁, a, s₂, es₁, es₂, tr₃, h₀, -, hst, h₂, rfl, rfl⟩ := h.exists_step_of_split
  have hended := (traceInv_of_run h₀).ended
  have hone := atMostOneActive_of_run h₀
  rcases step_active hended hst with ⟨request, -, hes, -⟩ |
    ⟨-, -, g', call', result', hes, hg', hact⟩ | ⟨-, -, -, hes⟩
  · have : Event.terminal g call result ∈ [Event.accepted s₁.goals.length] := by
      rw [← hes]
      simp
    simp at this
  -- the goal that ends was the only one
  · have hno : ∀ g, ¬ s₂.Active g := by
      intro g₂ h₂
      obtain ⟨h₁, hne⟩ := (hact g₂).mp h₂
      exact hne (hone g₂ g' h₁ hg')
    have hes₂ : es₂ = [] := by
      have hlen := congrArg List.length hes
      simp at hlen
      exact List.eq_nil_of_length_eq_zero (by omega)
    rw [hes₂, List.nil_append] at hm hacc
    exact stop_of_no_active h₂ (hended.step hst) hno hacc hm
  · exact absurd (by simp) ((isOutputs_of_step hes).not_terminal g call result)

end Runs

/-- **One owner of `cmd_vel`.** Of a schedule of goals, cancels, odometry, time and threads: at
most one goal is active in every state, all velocities belong to it and there are none after its
end, exactly if every goal arrives when no other one is active. -/
theorem one_owner_iff (φ : Floats F) (cfg : Config) (clock : Nat) (as : List (Act F))
    (s : State F) (tr : List (Event F))
    (h : runActs (step φ cfg) anyStep (.init clock) as = some (s, tr)) :
    (Throughout (step φ cfg) AtMostOneActive (.init clock) as ∧ Owned φ tr ∧ Silent φ tr) ↔
      Obeys (step φ cfg) ArrivesAlone (.init clock) as := by
  have hexact : Throughout (step φ cfg) AtMostOneActive (.init clock) as ↔
      Obeys (step φ cfg) ArrivesAlone (.init clock) as :=
    throughout_iff_obeys (J := EndedReturned) (fun _ _ _ _ hended _ hst => hended.step hst)
      (fun _ _ _ _ hended hone hst => atMostOneActive_step hended hone hst)
      (TraceInv.init clock).ended (atMostOneActive_init clock)
  constructor
  · exact fun hall => hexact.mp hall.1
  · intro hobeys
    have hrun := Run.of_obeys h hobeys
    exact ⟨hexact.mpr hobeys, owned_of_run hrun, silent_of_run hrun⟩

/-- The numbers of a robot on the x axis, where `hypot` and `atan2` need no roots. -/
def onAxis : Floats ℚ where
  lit q := q
  pi := 355 / 113
  add := (· + ·)
  sub := (· - ·)
  mul := (· * ·)
  neg := (- ·)
  lt a b := decide (a < b)
  abs a := max a (-a)
  hypot x y := max x (-x) + max y (-y)
  atan2 _ x := if x < 0 then 355 / 113 else 0
  misclamp _ _ hi := hi

/-- One metre ahead, with the tolerances and velocities of the action's defaults. -/
def ahead : Request ℚ := ⟨1, 0, 0, 15 / 100, 1 / 10, 22 / 100, 8 / 10⟩

/-- The robot turns, drives and arrives one metre ahead. -/
def driveAhead : List (Act ℚ) :=
  [.goal ahead, .odom ⟨0, 0, 0, 0, 0, 1⟩] ++ List.replicate 8 (.thread 0 1) ++
    [.odom ⟨1, 0, 0, 0, 0, 1⟩] ++ List.replicate 7 (.thread 0 1)

theorem driveAhead_isSome :
    (runActs (step onAxis ⟨"twist"⟩) anyStep (.init 0) driveAhead).isSome := by decide +kernel

/-- The event is a command that drives the robot forward. -/
def isForward : Event ℚ → Bool
  | .published (.thread 0) _ cmd => decide (0 < cmd.linearX)
  | _ => false

/-- The only goal drives the robot and stops it. -/
theorem one_owner_iff_ahead : ∃ s tr,
    runActs (step onAxis ⟨"twist"⟩) anyStep (.init 0) driveAhead = some (s, tr) ∧
      tr.any isForward = true ∧
      ((Throughout (step onAxis ⟨"twist"⟩) AtMostOneActive (.init 0) driveAhead ∧ Owned onAxis tr ∧
          Silent onAxis tr) ↔
        Obeys (step onAxis ⟨"twist"⟩) ArrivesAlone (.init 0) driveAhead) := by
  have hrun := (Option.some_get driveAhead_isSome).symm
  have hforward : (Option.get _ driveAhead_isSome).2.any isForward = true := by decide +kernel
  exact ⟨_, _, hrun, hforward, one_owner_iff onAxis ⟨"twist"⟩ 0 driveAhead _ _ hrun⟩

/-- The second goal arrives while the first one drives. -/
theorem not_always_one_owner : ¬ ∀ (as : List (Act ℚ)) (s : State ℚ) (tr : List (Event ℚ)),
    runActs (step onAxis ⟨"both"⟩) anyStep (.init 0) as = some (s, tr) →
      Throughout (step onAxis ⟨"both"⟩) AtMostOneActive (.init 0) as ∧ Owned onAxis tr ∧
        Silent onAxis tr := by
  intro h
  have hone := (h [.goal ahead, .goal ahead] _ _ rfl).1.2.2
  have := hone 0 1 ⟨_, rfl, rfl⟩ ⟨_, rfl, rfl⟩
  cases this

end RobotTaskManager.DriveToPose
