import RobotTaskManager.SkillLibrary.CmdVel

set_option autoImplicit false

/-! # The drive loop goes forward and stops the robot

`execute` passes through its three phases in one direction, drives forward only from
`DRIVE_TO_POINT`, ends its goal at most once and leaves the robot stopped. This holds for the
thread of every goal, whatever the clock, the cancel flag, the odometry, `rclcpp::ok()` and the
other threads do in between.
-/

namespace RobotTaskManager.DriveToPose

open Interleaving

variable {F : Type}

/-! ## What is observed of a goal -/

/-- The commands that the thread of the goal has published. -/
def commands (g : Nat) (tr : List (Event F)) : List (Twist F) :=
  tr.filterMap fun
    | .published (.thread g') _ cmd => if g' = g then some cmd else none
    | _ => none

/-- The calls that have ended the goal. -/
def terminalCalls (g : Nat) (tr : List (Event F)) : List TerminalCall :=
  tr.filterMap fun
    | .terminal g' call _ => if g' = g then some call else none
    | _ => none

theorem commands_append (g : Nat) (tr tr' : List (Event F)) :
    commands g (tr ++ tr') = commands g tr ++ commands g tr' :=
  List.filterMap_append

theorem terminalCalls_append (g : Nat) (tr tr' : List (Event F)) :
    terminalCalls g (tr ++ tr') = terminalCalls g tr ++ terminalCalls g tr' :=
  List.filterMap_append

theorem mem_commands {g : Nat} {tr : List (Event F)} {cmd : Twist F} :
    cmd ∈ commands g tr ↔ ∃ stamped, Event.published (.thread g) stamped cmd ∈ tr := by
  unfold commands
  rw [List.mem_filterMap]
  constructor
  · rintro ⟨e, he, h⟩
    split at h
    · rename_i g' stamped cmd'
      split at h
      · rename_i hg
        obtain rfl := Option.some.inj h
        exact ⟨stamped, hg ▸ he⟩
      · cases h
    · cases h
  · rintro ⟨stamped, he⟩
    exact ⟨_, he, if_pos rfl⟩

theorem mem_terminalCalls {g : Nat} {tr : List (Event F)} {call : TerminalCall} {result : Result F}
    (h : Event.terminal g call result ∈ tr) : call ∈ terminalCalls g tr :=
  List.mem_filterMap.mpr ⟨_, h, if_pos rfl⟩

/-- A command is published at least once. -/
theorem commands_publishCmd (cfg : Config) (g : Nat) (cmd : Twist F) :
    ∃ n, commands g (cfg.publishCmd (.thread g) cmd) = List.replicate (n + 1) cmd := by
  unfold Config.publishCmd commands
  by_cases h : cfg.cmdVelFormat = "twist"
  · exact ⟨0, by simp [h]⟩
  · by_cases h' : cfg.cmdVelFormat = "twist_stamped"
    · exact ⟨0, by simp [h']⟩
    · exact ⟨1, by simp [h, h']⟩

theorem commands_publishCmd_ne (cfg : Config) {g : Nat} {owner : Owner} (cmd : Twist F)
    (h : owner ≠ .thread g) : commands g (cfg.publishCmd owner cmd) = [] := by
  rw [List.eq_nil_iff_forall_not_mem]
  intro c hc
  obtain ⟨stamped, hc⟩ := mem_commands.mp hc
  obtain ⟨stamped', hc⟩ := mem_publishCmd hc
  cases hc
  exact h rfl

theorem terminalCalls_publishCmd (cfg : Config) (g : Nat) (owner : Owner) (cmd : Twist F) :
    terminalCalls g (cfg.publishCmd owner cmd) = [] := by
  unfold Config.publishCmd terminalCalls
  split <;> split <;> rfl

/-! ## What a pass of a thread can do -/

/-- The passes of a thread, by where it was: the position afterwards, whether the goal has ended,
and the events. -/
inductive ThreadMove (φ : Floats F) (cfg : Config) (s : State F) (g fuel : Nat)
    (goal : Goal F) : Pc F → Option TerminalCall → List (Event F) → Prop
  | start : goal.pc = .started →
      ThreadMove φ cfg s g fuel goal (.waitOdom (s.clock + odomWait)) goal.terminal []
  | wait {deadline : Nat} : goal.pc = .waitOdom deadline →
      ThreadMove φ cfg s g fuel goal (.waitOdom deadline) goal.terminal []
  | waited {deadline : Nat} : goal.pc = .waitOdom deadline →
      ThreadMove φ cfg s g fuel goal .checkPose goal.terminal []
  | noOdom : goal.pc = .checkPose →
      ThreadMove φ cfg s g fuel goal (.closing .abort (φ.failure "no odom received"))
        goal.terminal []
  | enter : goal.pc = .checkPose →
      ThreadMove φ cfg s g fuel goal (.top .rotateToHeading s.clock) goal.terminal []
  | shutDown {phase : Phase} {startTime : Nat} : goal.pc = .top phase startTime → s.ok = false →
      ThreadMove φ cfg s g fuel goal .returned goal.terminal (cfg.publishCmd (.thread g) φ.stop)
  | giveUp {phase : Phase} {startTime : Nat} (call : TerminalCall) (message : String) :
      goal.pc = .top phase startTime → call ≠ .succeed →
      ThreadMove φ cfg s g fuel goal (.closing call (φ.failure message)) goal.terminal
        (cfg.publishCmd (.thread g) φ.stop)
  | goOn {phase : Phase} {startTime : Nat} : goal.pc = .top phase startTime →
      ThreadMove φ cfg s g fuel goal (.readPose phase startTime) goal.terminal []
  | skip {phase : Phase} {startTime : Nat} : goal.pc = .readPose phase startTime → s.pose = none →
      ThreadMove φ cfg s g fuel goal (.top phase startTime) goal.terminal []
  | command {phase phase' : Phase} {startTime : Nat} {pose : Pose F} {cmd : Twist F}
      {dist : F} : goal.pc = .readPose phase startTime → s.pose = some pose →
      φ.control fuel goal.request phase pose = some (.command cmd phase' dist) →
      ThreadMove φ cfg s g fuel goal (.publish cmd phase' startTime pose dist) goal.terminal []
  | arrive {phase : Phase} {startTime : Nat} {pose : Pose F} :
      goal.pc = .readPose phase startTime → s.pose = some pose →
      φ.control fuel goal.request phase pose = some .arrived →
      ThreadMove φ cfg s g fuel goal (.closing .succeed ⟨pose.x, pose.y, pose.yaw, true, "arrived"⟩)
        goal.terminal (cfg.publishCmd (.thread g) φ.stop)
  | publish {cmd : Twist F} {phase : Phase} {startTime : Nat} {pose : Pose F} {dist : F} :
      goal.pc = .publish cmd phase startTime pose dist →
      ThreadMove φ cfg s g fuel goal (.top phase startTime) goal.terminal
        (cfg.publishCmd (.thread g) cmd ++ [.feedback g pose dist])
  | close {call : TerminalCall} {result : Result F} : goal.pc = .closing call result →
      ThreadMove φ cfg s g fuel goal .returned (some call) [.terminal g call result]

section Steps

variable {φ : Floats F} {cfg : Config} {s s' : State F} {a : Act F} {es : List (Event F)} {g : Nat}

theorem threadStep_moves {fuel : Nat} {goal : Goal F} {pc : Pc F} {terminal : Option TerminalCall}
    (h : threadStep φ cfg s g goal fuel = some (pc, terminal, es)) :
    ThreadMove φ cfg s g fuel goal pc terminal es := by
  unfold threadStep at h
  split at h
  · rename_i hpc
    cases h
    exact .start hpc
  · rename_i deadline hpc
    split at h
    · cases h
      exact .wait hpc
    · cases h
      exact .waited hpc
  · rename_i hpc
    split at h
    · cases h
      exact .noOdom hpc
    · cases h
      exact .enter hpc
  · rename_i phase startTime hpc
    cases h
    unfold topStep
    split
    · rename_i hok
      exact .shutDown hpc (by simpa using hok)
    · split
      · exact .giveUp _ _ hpc nofun
      · split
        · exact .giveUp _ _ hpc nofun
        · exact .goOn hpc
  · rename_i phase startTime hpc
    obtain ⟨⟨pc', es'⟩, hr, h⟩ := Option.map_eq_some_iff.mp h
    cases h
    unfold readStep at hr
    split at hr
    · rename_i hpose
      cases hr
      exact .skip hpc hpose
    · rename_i pose hpose
      obtain ⟨control, hc, hr⟩ := Option.map_eq_some_iff.mp hr
      cases control with
      | command cmd phase' dist =>
          cases hr
          exact .command hpc hpose hc
      | arrived =>
          cases hr
          exact .arrive hpc hpose hc
  · rename_i cmd phase startTime pose dist hpc
    cases h
    exact .publish hpc
  · rename_i call result hpc
    cases h
    exact .close hpc
  · cases h

/-- The step shows nothing of the goal. -/
def Silence (g : Nat) (es : List (Event F)) : Prop := commands g es = [] ∧ terminalCalls g es = []

theorem silence_publishCmd {owner : Owner} (cmd : Twist F) (h : owner ≠ .thread g) :
    Silence g (cfg.publishCmd owner cmd) :=
  ⟨commands_publishCmd_ne cfg cmd h, terminalCalls_publishCmd cfg g owner cmd⟩

/-- A cancel only publishes zero, and not from the goal's thread. -/
theorem silence_of_zero (h : ∀ e ∈ es, ∃ stamped, e = .published .handleCancel stamped φ.stop) :
    Silence g es := by
  refine ⟨List.eq_nil_iff_forall_not_mem.mpr fun cmd hcmd => ?_, ?_⟩
  · obtain ⟨stamped, he⟩ := mem_commands.mp hcmd
    obtain ⟨stamped', he⟩ := h _ he
    cases he
  · refine List.filterMap_eq_nil_iff.mpr fun e he => ?_
    obtain ⟨stamped, rfl⟩ := h e he
    rfl

/-- A pass of the thread of another goal. -/
theorem ThreadMove.silence {fuel g' : Nat} {goal : Goal F} {pc : Pc F}
    {terminal : Option TerminalCall} (h : ThreadMove φ cfg s g' fuel goal pc terminal es)
    (hne : g' ≠ g) : Silence g es := by
  have hstop (cmd : Twist F) : Silence g (cfg.publishCmd (.thread g') cmd) :=
    silence_publishCmd cmd (by simpa using hne)
  cases h with
  | shutDown => exact hstop _
  | giveUp => exact hstop _
  | arrive => exact hstop _
  | @publish cmd =>
      rw [Silence, commands_append, terminalCalls_append, (hstop cmd).1, (hstop cmd).2]
      exact ⟨rfl, rfl⟩
  | close => exact ⟨rfl, by simp [terminalCalls, hne]⟩
  | _ => exact ⟨rfl, rfl⟩

/-- The pass that ends the goal. -/
theorem ThreadMove.close_of {fuel : Nat} {goal : Goal F} {pc : Pc F}
    {terminal : Option TerminalCall} {call : TerminalCall} {result : Result F}
    (h : ThreadMove φ cfg s g fuel goal pc terminal es) (hpc : goal.pc = .closing call result) :
    es = [.terminal g call result] := by
  cases h with
  | close hpc' =>
      cases hpc'.symm.trans hpc
      rfl
  -- the others start at another place
  | _ => simp_all

/-- **What a step does to a goal**: its thread makes a pass, it is accepted, or it stays where it
is and the step shows nothing of it. -/
theorem step_goal (hst : step φ cfg s a = some (s', es)) {goal' : Goal F}
    (hg' : s'.goals[g]? = some goal') :
    (∃ goal fuel, a = .thread g fuel ∧ s.goals[g]? = some goal ∧ goal'.request = goal.request ∧
      ThreadMove φ cfg s g fuel goal goal'.pc goal'.terminal es) ∨
    (s.goals[g]? = none ∧ goal'.pc = .started ∧ Silence g es) ∨
    ((∀ fuel, a ≠ .thread g fuel) ∧ Silence g es ∧ ∃ goal, s.goals[g]? = some goal ∧
      goal'.request = goal.request ∧ goal'.pc = goal.pc) := by
  rcases step_cases hst with ⟨request, rfl, rfl, hs⟩ |
    ⟨g₁, fuel, goal₁, pc, terminal, rfl, hg₁, ht, hs⟩ | ⟨-, ha, hes, hs⟩
  · rw [hs] at hg'
    rcases Nat.lt_trichotomy g s.goals.length with hlt | heq | hgt
    · refine Or.inr (Or.inr ⟨by simp, ⟨rfl, rfl⟩, goal', ?_, rfl, rfl⟩)
      rwa [List.getElem?_append_left hlt] at hg'
    · subst heq
      rw [List.getElem?_concat_length] at hg'
      cases hg'
      exact Or.inr (Or.inl ⟨List.getElem?_eq_none le_rfl, rfl, rfl, rfl⟩)
    · rw [List.getElem?_eq_none (by simp; omega)] at hg'
      cases hg'
  · have hmove := threadStep_moves ht
    by_cases heq : g₁ = g
    · subst heq
      rw [hs, List.getElem?_set_self (List.getElem?_eq_some_iff.mp hg₁).1] at hg'
      cases hg'
      exact Or.inl ⟨goal₁, fuel, rfl, hg₁, rfl, hmove⟩
    · rw [hs, List.getElem?_set_ne heq] at hg'
      exact Or.inr (Or.inr ⟨by simpa using heq, hmove.silence heq, goal', hg', rfl, rfl⟩)
  · refine Or.inr (Or.inr ⟨ha g, silence_of_zero hes, ?_⟩)
    rcases hs with hs | ⟨g₁, goal₁, hg₁, hs⟩
    · exact ⟨goal', hs ▸ hg', rfl, rfl⟩
    · by_cases heq : g₁ = g
      · subst heq
        rw [hs, List.getElem?_set_self (List.getElem?_eq_some_iff.mp hg₁).1] at hg'
        cases hg'
        exact ⟨goal₁, hg₁, rfl, rfl⟩
      · rw [hs, List.getElem?_set_ne heq] at hg'
        exact ⟨goal', hg', rfl, rfl⟩

/-- A goal that is there stays there. -/
theorem step_goals_length (hst : step φ cfg s a = some (s', es)) :
    s.goals.length ≤ s'.goals.length := by
  rcases step_cases hst with ⟨request, -, -, hs⟩ | ⟨g, fuel, goal, pc, terminal, -, -, -, hs⟩ |
    ⟨-, -, -, hs | ⟨g, goal, -, hs⟩⟩
  all_goals simp [hs]

/-- A goal stays, and unless its thread makes a pass it stays where it is. -/
theorem step_goal_stays (hst : step φ cfg s a = some (s', es)) {goal : Goal F}
    (hg : s.goals[g]? = some goal) :
    ∃ goal', s'.goals[g]? = some goal' ∧ goal'.request = goal.request ∧
      ((∃ fuel, a = .thread g fuel ∧ ThreadMove φ cfg s g fuel goal goal'.pc goal'.terminal es) ∨
        ((∀ fuel, a ≠ .thread g fuel) ∧ goal'.pc = goal.pc)) := by
  have hlt : g < s'.goals.length :=
    lt_of_lt_of_le (List.getElem?_eq_some_iff.mp hg).1 (step_goals_length hst)
  have hg' : s'.goals[g]? = some s'.goals[g] := List.getElem?_eq_getElem hlt
  refine ⟨_, hg', ?_⟩
  rcases step_goal hst hg' with ⟨goal₁, fuel, ha, hg₁, hreq, hmove⟩ | ⟨hnone, -, -⟩ |
    ⟨ha, -, goal₁, hg₁, hreq, hpc⟩
  · obtain rfl := Option.some.inj (hg.symm.trans hg₁)
    exact ⟨hreq, Or.inl ⟨fuel, ha, hmove⟩⟩
  · rw [hnone] at hg
    cases hg
  · obtain rfl := Option.some.inj (hg.symm.trans hg₁)
    exact ⟨hreq, Or.inr ⟨ha, hpc⟩⟩

/-- A step shows nothing of a goal that is not there yet. -/
theorem step_unknown (hst : step φ cfg s a = some (s', es)) (hg : s'.goals[g]? = none) :
    Silence g es := by
  rcases step_cases hst with ⟨request, -, rfl, -⟩ | ⟨g', fuel, goal, pc, terminal, -, hg', ht, -⟩ |
    ⟨-, -, hes, -⟩
  · exact ⟨rfl, rfl⟩
  · refine (threadStep_moves ht).silence ?_
    rintro rfl
    have hlt : g' < s.goals.length := (List.getElem?_eq_some_iff.mp hg').1
    have hle : s'.goals.length ≤ g' := List.getElem?_eq_none_iff.mp hg
    have := step_goals_length hst
    omega
  · exact silence_of_zero hes

/-- `rclcpp::ok()` does not become true again. -/
theorem step_ok (hst : step φ cfg s a = some (s', es)) (hok : s.ok = false) : s'.ok = false := by
  cases a with
  | goal request => simp [step, hok] at hst
  | cancel g =>
      rw [step] at hst
      split at hst
      · cases hst
      · simp [hok] at hst
  | odom msg => simp [step, hok] at hst
  | advance d =>
      cases hst
      exact hok
  | shutdown =>
      cases hst
      rfl
  | thread g fuel =>
      rw [step] at hst
      split at hst
      · cases hst
      · split at hst
        · cases hst
        · cases hst
          exact hok

end Steps

/-! ## The phases -/

/-- The order of the phases. -/
def Phase.rank : Phase → Nat
  | .rotateToHeading => 0
  | .driveToPoint => 1
  | .rotateToYaw => 2

/-- The value of `phase`, while the loop runs. -/
def Pc.phase? : Pc F → Option Phase
  | .top phase _ => some phase
  | .readPose phase _ => some phase
  | .publish _ phase _ _ _ => some phase
  | _ => none

/-- The loop has come to the phase: it is there or further on, or it has been left. -/
def Pc.Past (pc : Pc F) (phase : Phase) : Prop :=
  match pc with
  | .top phase' _ => phase.rank ≤ phase'.rank
  | .readPose phase' _ => phase.rank ≤ phase'.rank
  | .publish _ phase' _ _ _ => phase.rank ≤ phase'.rank
  | .closing _ _ => True
  | .returned => True
  | _ => False

theorem Pc.past_of_phase? {pc : Pc F} {phase : Phase} (h : pc.phase? = some phase) :
    pc.Past phase := by
  cases pc with
  | top phase' startTime =>
      cases h
      exact le_rfl
  | readPose phase' startTime =>
      cases h
      exact le_rfl
  | publish cmd phase' startTime pose dist =>
      cases h
      exact le_rfl
  | _ => cases h

theorem Pc.Past.rank_le {pc : Pc F} {phase phase' : Phase} (h : pc.Past phase)
    (h' : pc.phase? = some phase') : phase.rank ≤ phase'.rank := by
  cases pc with
  | top phase₁ startTime =>
      cases h'
      exact h
  | readPose phase₁ startTime =>
      cases h'
      exact h
  | publish cmd phase₁ startTime pose dist =>
      cases h'
      exact h
  | _ => cases h'

/-- **The `switch`** leaves the phase or goes on to a later one, and drives forward only from
`DRIVE_TO_POINT`. -/
theorem control_command {φ : Floats F} {fuel : Nat} {request : Request F} {phase phase' : Phase}
    {pose : Pose F} {cmd : Twist F} {dist : F}
    (h : φ.control fuel request phase pose = some (.command cmd phase' dist)) :
    phase.rank ≤ phase'.rank ∧ (cmd.linearX ≠ φ.lit 0 → phase = .driveToPoint) := by
  cases phase with
  | rotateToHeading =>
      refine ⟨Nat.zero_le _, fun hne => absurd ?_ hne⟩
      simp only [Floats.control] at h
      split at h
      · cases h
        rfl
      · obtain ⟨err, -, h⟩ := Option.map_eq_some_iff.mp h
        split at h
        · cases h
          rfl
        · cases h
          rfl
  | driveToPoint =>
      refine ⟨?_, fun _ => rfl⟩
      simp only [Floats.control] at h
      split at h
      · cases h
        decide
      · obtain ⟨err, -, h⟩ := Option.map_eq_some_iff.mp h
        cases h
        exact le_rfl
  | rotateToYaw =>
      simp only [Floats.control] at h
      obtain ⟨err, -, h⟩ := Option.map_eq_some_iff.mp h
      split at h
      · cases h
      · cases h
        exact ⟨le_rfl, fun hne => absurd rfl hne⟩

section Runs

variable {φ : Floats F} {cfg : Config} {s s' : State F} {a : Act F} {es : List (Event F)} {g : Nat}

theorem ThreadMove.past {fuel : Nat} {goal : Goal F} {pc : Pc F} {terminal : Option TerminalCall}
    {phase : Phase} (h : ThreadMove φ cfg s g fuel goal pc terminal es)
    (hpast : goal.pc.Past phase) : pc.Past phase := by
  cases h with
  | start hpc =>
      rw [hpc] at hpast
      exact hpast.elim
  | wait hpc =>
      rw [hpc] at hpast
      exact hpast.elim
  | waited hpc =>
      rw [hpc] at hpast
      exact hpast.elim
  | noOdom hpc => trivial
  | enter hpc =>
      rw [hpc] at hpast
      exact hpast.elim
  | shutDown hpc hok => trivial
  | giveUp call message hpc hcall => trivial
  | goOn hpc =>
      rw [hpc] at hpast
      exact hpast
  | skip hpc hpose =>
      rw [hpc] at hpast
      exact hpast
  | command hpc hpose hc =>
      rw [hpc] at hpast
      exact le_trans hpast (control_command hc).1
  | arrive hpc hpose hc => trivial
  | publish hpc =>
      rw [hpc] at hpast
      exact hpast
  | close hpc => trivial

/-- The goal is accepted, and its loop has come to the phase. -/
def State.Past (s : State F) (g : Nat) (phase : Phase) : Prop :=
  ∃ goal, s.goals[g]? = some goal ∧ goal.pc.Past phase

theorem State.Past.step {phase : Phase} (h : s.Past g phase)
    (hst : step φ cfg s a = some (s', es)) : s'.Past g phase := by
  obtain ⟨goal, hg, hpast⟩ := h
  obtain ⟨goal', hg', -, ⟨fuel, -, hmove⟩ | ⟨-, hpc⟩⟩ := step_goal_stays hst hg
  · exact ⟨goal', hg', hmove.past hpast⟩
  · refine ⟨goal', hg', ?_⟩
    rwa [hpc]

/-! ## Iterations -/

/-- At the end of the run `tr` the thread of the goal is in an iteration that it began in the
given phase: it has read the pose then, and made no pass since. -/
def IterationFrom (φ : Floats F) (cfg : Config) (clock g : Nat) (phase : Phase)
    (tr : List (Event F)) (s : State F) : Prop :=
  ∃ tr₁ s₁ goal startTime fuel s₂ es tr₂,
    Run (step φ cfg) anyStep (State.init clock) tr₁ s₁ ∧
    s₁.goals[g]? = some goal ∧ goal.pc = .readPose phase startTime ∧
    step φ cfg s₁ (.thread g fuel) = some (s₂, es) ∧
    Run (step φ cfg) (fun _ a => ∀ fuel, a ≠ .thread g fuel) s₂ tr₂ s ∧ tr = tr₁ ++ es ++ tr₂

theorem IterationFrom.step {clock : Nat} {phase : Phase} {tr : List (Event F)}
    (h : IterationFrom φ cfg clock g phase tr s) (hst : step φ cfg s a = some (s', es))
    (ha : ∀ fuel, a ≠ .thread g fuel) : IterationFrom φ cfg clock g phase (tr ++ es) s' := by
  obtain ⟨tr₁, s₁, goal, startTime, fuel, s₂, es₁, tr₂, h1, hg, hpc, h2, h3, rfl⟩ := h
  refine ⟨tr₁, s₁, goal, startTime, fuel, s₂, es₁, tr₂ ++ es, h1, hg, hpc, h2, ?_, ?_⟩
  · exact h3.append (Run.single ha hst)
  · simp only [List.append_assoc]

/-- A thread that is to publish a command is in an iteration, and to drive forward in one that it
began in `DRIVE_TO_POINT`. -/
structure Iterating (φ : Floats F) (cfg : Config) (clock g : Nat) (tr : List (Event F))
    (s : State F) : Prop where
  run : Run (step φ cfg) anyStep (State.init clock) tr s
  drives : ∀ goal cmd phase startTime pose dist, s.goals[g]? = some goal →
    goal.pc = .publish cmd phase startTime pose dist → cmd.linearX ≠ φ.lit 0 →
      IterationFrom φ cfg clock g .driveToPoint tr s

theorem Iterating.step {clock : Nat} {tr : List (Event F)} (h : Iterating φ cfg clock g tr s)
    (hst : step φ cfg s a = some (s', es)) : Iterating φ cfg clock g (tr ++ es) s' := by
  refine ⟨h.run.append (Run.single trivial hst), ?_⟩
  intro goal' cmd phase startTime pose dist hg' hpc' hne
  rcases step_goal hst hg' with ⟨goal, fuel, rfl, hg, -, hmove⟩ | ⟨-, hstarted, -⟩ |
    ⟨ha, -, goal, hg, -, hpc⟩
  · -- the pass that prepares the command is the one that reads the pose
    rw [hpc'] at hmove
    generalize goal'.terminal = terminal at hmove
    cases hmove with
    | command hpc hpose hc =>
        obtain rfl := (control_command hc).2 hne
        refine ⟨tr, s, goal, startTime, fuel, s', [], [], h.run, hg, hpc, hst, .nil s', ?_⟩
        simp only [List.append_nil]
  · rw [hpc'] at hstarted
    cases hstarted
  · exact (h.drives goal cmd phase startTime pose dist hg (hpc ▸ hpc') hne).step hst ha

/-- A pass that publishes a command other than zero is the one that has it prepared. -/
theorem ThreadMove.published {fuel : Nat} {goal : Goal F} {pc : Pc F}
    {terminal : Option TerminalCall} {stamped : Bool} {cmd : Twist F}
    (h : ThreadMove φ cfg s g fuel goal pc terminal es)
    (he : Event.published (.thread g) stamped cmd ∈ es) (hne : cmd ≠ φ.stop) :
    ∃ phase startTime pose dist, goal.pc = .publish cmd phase startTime pose dist := by
  have hstop (he : Event.published (.thread g) stamped cmd ∈ cfg.publishCmd (.thread g) φ.stop) :
      cmd = φ.stop := by
    obtain ⟨stamped', he⟩ := mem_publishCmd he
    cases he
    rfl
  cases h with
  | shutDown hpc hoff => exact absurd (hstop he) hne
  | giveUp call message hpc hcall => exact absurd (hstop he) hne
  | arrive hpc hpose hc => exact absurd (hstop he) hne
  | publish hpc =>
      rcases List.mem_append.mp he with he | he
      · obtain ⟨stamped', he⟩ := mem_publishCmd he
        cases he
        exact ⟨_, _, _, _, hpc⟩
      · cases List.mem_singleton.mp he
  | close hpc => cases List.mem_singleton.mp he
  | _ => cases he

/-- A step that publishes a command other than zero for the thread of a goal is a pass of it. -/
theorem step_published {stamped : Bool} {cmd : Twist F} (hst : step φ cfg s a = some (s', es))
    (he : Event.published (.thread g) stamped cmd ∈ es) (hne : cmd ≠ φ.stop) :
    ∃ goal phase startTime pose dist, s.goals[g]? = some goal ∧
      goal.pc = .publish cmd phase startTime pose dist := by
  have hmem : cmd ∈ commands g es := mem_commands.mpr ⟨stamped, he⟩
  cases hg' : s'.goals[g]? with
  | none =>
      rw [(step_unknown hst hg').1] at hmem
      cases hmem
  | some goal' =>
      rcases step_goal hst hg' with ⟨goal, fuel, -, hg, -, hmove⟩ | ⟨-, -, hes⟩ | ⟨-, hes, -⟩
      · obtain ⟨phase, startTime, pose, dist, hpc⟩ := hmove.published he hne
        exact ⟨goal, phase, startTime, pose, dist, hg, hpc⟩
      · rw [hes.1] at hmem
        cases hmem
      · rw [hes.1] at hmem
        cases hmem

/-! ## What has been shown of a goal -/

/-- What the trace shows of a goal, by where its thread is. -/
def Shown (φ : Floats F) (ok : Bool) (pc : Pc F) (calls : List TerminalCall)
    (cmds : List (Twist F)) : Prop :=
  match pc with
  | .started => calls = [] ∧ cmds = []
  | .waitOdom _ => calls = [] ∧ cmds = []
  | .checkPose => calls = [] ∧ cmds = []
  | .closing _ _ => calls = [] ∧ ∀ cmd, cmds.getLast? = some cmd → cmd = φ.stop
  | .returned => calls.length ≤ 1 ∧ (ok = true → calls.length = 1) ∧
      ∀ cmd, cmds.getLast? = some cmd → cmd = φ.stop
  | _ => calls = []

theorem Shown.calls_le {ok : Bool} {pc : Pc F} {calls : List TerminalCall} {cmds : List (Twist F)}
    (h : Shown φ ok pc calls cmds) : calls.length ≤ 1 := by
  cases pc with
  | returned => exact h.1
  | top phase startTime =>
      have hnil : calls = [] := h
      rw [hnil]
      decide
  | readPose phase startTime =>
      have hnil : calls = [] := h
      rw [hnil]
      decide
  | publish cmd phase startTime pose dist =>
      have hnil : calls = [] := h
      rw [hnil]
      decide
  | _ => rw [h.1]; decide

/-- After `publishStop` the last command is zero. -/
theorem getLast_publishStop (cmds : List (Twist F)) {cmd : Twist F}
    (h : (cmds ++ commands g (cfg.publishCmd (.thread g) φ.stop)).getLast? = some cmd) :
    cmd = φ.stop := by
  obtain ⟨n, hn⟩ := commands_publishCmd cfg g φ.stop
  rw [hn, List.replicate_succ', ← List.append_assoc, List.getLast?_concat] at h
  exact (Option.some.inj h).symm

theorem ThreadMove.shown {fuel : Nat} {goal : Goal F} {pc : Pc F} {terminal : Option TerminalCall}
    {ok : Bool} {calls : List TerminalCall} {cmds : List (Twist F)}
    (h : ThreadMove φ cfg s g fuel goal pc terminal es) (hok : s.ok = false → ok = false)
    (hshown : Shown φ s.ok goal.pc calls cmds) :
    Shown φ ok pc (calls ++ terminalCalls g es) (cmds ++ commands g es) := by
  cases h with
  | start hpc =>
      rw [hpc] at hshown
      simpa [Shown, terminalCalls, commands] using hshown
  | wait hpc =>
      rw [hpc] at hshown
      simpa [Shown, terminalCalls, commands] using hshown
  | waited hpc =>
      rw [hpc] at hshown
      simpa [Shown, terminalCalls, commands] using hshown
  | noOdom hpc =>
      rw [hpc] at hshown
      obtain ⟨rfl, rfl⟩ := hshown
      exact ⟨rfl, nofun⟩
  | enter hpc =>
      rw [hpc] at hshown
      exact hshown.1 ▸ rfl
  | shutDown hpc hoff =>
      rw [hpc] at hshown
      have hnil : calls = [] := hshown
      rw [hnil, terminalCalls_publishCmd, hok hoff]
      exact ⟨Nat.zero_le 1, nofun, fun cmd => getLast_publishStop cmds⟩
  | giveUp call message hpc hcall =>
      rw [hpc] at hshown
      have hnil : calls = [] := hshown
      rw [hnil, terminalCalls_publishCmd]
      exact ⟨rfl, fun cmd => getLast_publishStop cmds⟩
  | goOn hpc =>
      rw [hpc] at hshown
      simpa [Shown, terminalCalls] using hshown
  | skip hpc hpose =>
      rw [hpc] at hshown
      simpa [Shown, terminalCalls] using hshown
  | command hpc hpose hc =>
      rw [hpc] at hshown
      simpa [Shown, terminalCalls] using hshown
  | arrive hpc hpose hc =>
      rw [hpc] at hshown
      have hnil : calls = [] := hshown
      rw [hnil, terminalCalls_publishCmd]
      exact ⟨rfl, fun cmd => getLast_publishStop cmds⟩
  | @publish cmd phase startTime pose dist hpc =>
      rw [hpc] at hshown
      have hnil : calls = [] := hshown
      rw [hnil, terminalCalls_append, terminalCalls_publishCmd]
      rfl
  | @close call result hpc =>
      rw [hpc] at hshown
      obtain ⟨rfl, hlast⟩ := hshown
      have hcmds : commands g [Event.terminal g call result] = [] := rfl
      have hcalls : terminalCalls g [Event.terminal g call result] = [call] := by
        simp [terminalCalls]
      rw [hcmds, hcalls, List.append_nil]
      exact ⟨le_rfl, fun _ => rfl, hlast⟩

/-- What a run shows of each goal. -/
structure ShownInv (φ : Floats F) (tr : List (Event F)) (s : State F) : Prop where
  shown : ∀ g goal, s.goals[g]? = some goal →
    Shown φ s.ok goal.pc (terminalCalls g tr) (commands g tr)
  unknown : ∀ g, s.goals[g]? = none → Silence g tr

theorem Silence.append {tr : List (Event F)} (h : Silence g tr) (h' : Silence g es) :
    Silence g (tr ++ es) := by
  rw [Silence, commands_append, terminalCalls_append, h.1, h.2, h'.1, h'.2]
  exact ⟨rfl, rfl⟩

theorem Shown.of_ok {ok ok' : Bool} {pc : Pc F} {calls : List TerminalCall} {cmds : List (Twist F)}
    (h : Shown φ ok pc calls cmds) (hok : ok = false → ok' = false) :
    Shown φ ok' pc calls cmds := by
  cases pc with
  | returned =>
      refine ⟨h.1, fun hok' => h.2.1 ?_, h.2.2⟩
      by_contra hne
      rw [hok (by simpa using hne)] at hok'
      cases hok'
  | _ => exact h

theorem ShownInv.init (clock : Nat) : ShownInv φ [] (State.init clock : State F) where
  shown g goal hg := by cases hg
  unknown _ _ := ⟨rfl, rfl⟩

theorem ShownInv.step {tr : List (Event F)} (h : ShownInv φ tr s)
    (hst : step φ cfg s a = some (s', es)) : ShownInv φ (tr ++ es) s' := by
  constructor
  · intro g goal' hg'
    rw [terminalCalls_append, commands_append]
    rcases step_goal hst hg' with ⟨goal, fuel, -, hg, -, hmove⟩ | ⟨hnone, hstarted, hes⟩ |
      ⟨-, hes, goal, hg, -, hpc⟩
    · exact hmove.shown (step_ok hst) (h.shown g goal hg)
    · rw [hstarted, (h.unknown g hnone).1, (h.unknown g hnone).2, hes.1, hes.2]
      exact ⟨rfl, rfl⟩
    · rw [hes.1, hes.2, List.append_nil, List.append_nil, hpc]
      exact (h.shown g goal hg).of_ok (step_ok hst)
  · intro g hg
    have hle : s'.goals.length ≤ g := List.getElem?_eq_none_iff.mp hg
    have hnone : s.goals[g]? = none :=
      List.getElem?_eq_none (le_trans (step_goals_length hst) hle)
    exact (h.unknown g hnone).append (step_unknown hst hg)

/-! ## The drive loop -/

/-- **The drive loop goes forward and stops the robot.** At every moment of every run, for the
thread of every goal:
* its phase never goes back from here on;
* a command with a non-zero linear velocity comes from an iteration that began in
  `DRIVE_TO_POINT`;
* at most one of `succeed`, `abort` and `canceled` has been called, and exactly one if the thread
  has returned without a shutdown;
* if it has returned, the last command it published, if any, is zero. -/
theorem drive_loop_forward_and_stops {clock : Nat} {tr : List (Event F)}
    (h : Run (step φ cfg) anyStep (State.init clock) tr s) (g : Nat) :
    (∀ tr' s' goal goal' phase phase', Run (step φ cfg) anyStep s tr' s' →
      s.goals[g]? = some goal → s'.goals[g]? = some goal' →
      goal.pc.phase? = some phase → goal'.pc.phase? = some phase' → phase.rank ≤ phase'.rank) ∧
    (∀ a s' es stamped cmd, step φ cfg s a = some (s', es) →
      Event.published (.thread g) stamped cmd ∈ es → cmd.linearX ≠ φ.lit 0 →
        IterationFrom φ cfg clock g .driveToPoint tr s) ∧
    (terminalCalls g tr).length ≤ 1 ∧
    (∀ goal, s.goals[g]? = some goal → goal.pc = .returned →
      (s.ok = true → (terminalCalls g tr).length = 1) ∧
      ∀ cmd, (commands g tr).getLast? = some cmd → cmd = φ.stop) := by
  have hshown : ShownInv φ tr s := by
    have := h.history (fun tr s a s' es hI _ hst => hI.step hst) (ShownInv.init (φ := φ) clock)
    exact this
  refine ⟨?_, ?_, ?_, ?_⟩
  · intro tr' s' goal goal' phase phase' hrun hg hg' hphase hphase'
    have hpast : s.Past g phase := ⟨goal, hg, Pc.past_of_phase? hphase⟩
    obtain ⟨goal₁, hg₁, hpast'⟩ :=
      hrun.invariant (I := fun s => s.Past g phase) (fun _ _ _ _ hI _ hst => hI.step hst) hpast
    obtain rfl := Option.some.inj (hg'.symm.trans hg₁)
    exact hpast'.rank_le hphase'
  · intro a s' es stamped cmd hst he hne
    have hiter : Iterating φ cfg clock g tr s :=
      h.history (H := Iterating φ cfg clock g) (fun _ _ _ _ _ hI _ hst => hI.step hst)
        ⟨.nil _, fun goal cmd phase startTime pose dist hg => by cases hg⟩
    have hstop : cmd ≠ φ.stop := by
      rintro rfl
      exact hne rfl
    obtain ⟨goal, phase, startTime, pose, dist, hg, hpc⟩ := step_published hst he hstop
    exact hiter.drives goal cmd phase startTime pose dist hg hpc hne
  · cases hg : s.goals[g]? with
    | none =>
        rw [(hshown.unknown g hg).2]
        decide
    | some goal => exact (hshown.shown g goal hg).calls_le
  · intro goal hg hpc
    have hs := hshown.shown g goal hg
    rw [hpc] at hs
    exact hs.2

end Runs

/-- `execute` has returned. -/
def Pc.isReturned : Pc F → Bool
  | .returned => true
  | _ => false

theorem Pc.eq_returned {pc : Pc F} (h : pc.isReturned = true) : pc = .returned := by
  cases pc with
  | returned => rfl
  | _ => cases h

theorem drive_loop_forward_and_stops_ahead : ∃ tr s,
    Run (step onAxis ⟨"twist"⟩) anyStep (.init 0) tr s ∧
      (commands 0 tr).map (·.linearX) = [0, 22 / 100, 0, 0] ∧ (terminalCalls 0 tr).length = 1 ∧
        ∀ cmd, (commands 0 tr).getLast? = some cmd → cmd = onAxis.stop := by
  have hreturned :
      (((runActs _ _ _ _).get driveAhead_isSome).1.goals[0]?).any (·.pc.isReturned) := by
    decide +kernel
  have hrun := Run.of_isSome driveAhead_isSome
  obtain ⟨goal, hg, hpc⟩ := (Option.any_eq_true _ _).mp hreturned
  have h := (drive_loop_forward_and_stops hrun 0).2.2.2 goal hg (Pc.eq_returned hpc)
  exact ⟨_, _, hrun, by decide +kernel, h.1 (by decide +kernel), h.2⟩

end RobotTaskManager.DriveToPose
