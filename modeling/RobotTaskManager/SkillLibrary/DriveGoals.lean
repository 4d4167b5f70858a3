import RobotTaskManager.Lib.LeadsTo
import RobotTaskManager.SkillLibrary.Angles
import RobotTaskManager.SkillLibrary.Phases

set_option autoImplicit false

/-! # A drive ends

The drive loop gives up once `overall_timeout` has passed, and the wait for the first odometry has a
deadline. So `execute` returns, whatever the odometry shows and whatever the other threads do, if
time goes on, the scheduler is fair and no pass is stuck in `normalizeAngle`. The last is so for
every goal whose target yaw is not too large (`pass_possible`); a goal with a huge one is never
ended.
-/

namespace RobotTaskManager.DriveToPose

open Interleaving

variable {F : Type}

/-! ## Parts of `execute` -/

/-- The loop, entered at `startTime`. -/
def Pc.InLoop (startTime : Nat) : Pc F → Prop
  | .top _ startTime' => startTime' = startTime
  | .readPose _ startTime' => startTime' = startTime
  | .publish _ _ startTime' _ _ => startTime' = startTime
  | _ => False

/-- The loop has been left, or will not be entered. -/
def Pc.Ending : Pc F → Prop
  | .closing _ _ => True
  | .returned => True
  | _ => False

/-- How many passes the thread is away from the top of the loop, or from the next part. -/
def Pc.passes : Pc F → Nat
  | .started => 1
  | .waitOdom _ => 1
  | .checkPose => 1
  | .readPose _ _ => 3
  | .publish _ _ _ _ _ => 2
  | .top _ _ => 1
  | .closing _ _ => 1
  | .returned => 0

/-- The goal is there and `p` holds of its position. -/
def At (g : Nat) (p : Pc F → Prop) (s : State F) : Prop :=
  ∃ goal, s.goals[g]? = some goal ∧ p goal.pc

section Passes

variable {φ : Floats F} {cfg : Config} {s s' : State F} {a : Act F} {es : List (Event F)}
  {g fuel startTime : Nat} {goal : Goal F} {pc : Pc F} {terminal : Option TerminalCall}

/-- The pass that a thread makes. -/
theorem step_pass (h : step φ cfg s (.thread g fuel) = some (s', es))
    (hg : s.goals[g]? = some goal) : ∃ goal' terminal, s'.goals[g]? = some goal' ∧
      threadStep φ cfg s g goal fuel = some (goal'.pc, terminal, es) := by
  rw [step, hg] at h
  dsimp only at h
  split at h
  · cases h
  · rename_i pc terminal es' ht
    obtain ⟨rfl, rfl⟩ := h
    exact ⟨_, terminal, List.getElem?_set_self (List.getElem?_eq_some_iff.mp hg).1, ht⟩

/-- The clock does not go back. -/
theorem step_clock (h : step φ cfg s a = some (s', es)) : s.clock ≤ s'.clock := by
  cases a with
  | goal request =>
      rw [step, Option.ite_none_right_eq_some] at h
      obtain ⟨-, h⟩ := h
      cases h
      exact le_rfl
  | cancel g =>
      rw [step] at h
      split at h
      · cases h
      · rw [Option.ite_none_right_eq_some] at h
        obtain ⟨-, h⟩ := h
        cases h
        exact le_rfl
  | odom msg =>
      rw [step, Option.ite_none_right_eq_some] at h
      obtain ⟨-, h⟩ := h
      cases h
      exact le_rfl
  | advance d =>
      cases h
      exact Nat.le_add_right _ _
  | shutdown =>
      cases h
      exact le_rfl
  | thread g fuel =>
      rw [step] at h
      split at h
      · cases h
      · split at h
        · cases h
        · cases h
          exact le_rfl

/-- After its deadline, the wait for the odometry is over. -/
theorem wait_over {deadline : Nat} (h : threadStep φ cfg s g goal fuel = some (pc, terminal, es))
    (hpc : goal.pc = .waitOdom deadline) :
    pc = .checkPose ∨ pc = .waitOdom deadline ∧ s.clock < deadline := by
  rw [threadStep, hpc] at h
  dsimp only at h
  split at h
  · rename_i hwait
    obtain ⟨rfl, rfl, rfl⟩ := h
    refine Or.inr ⟨rfl, ?_⟩
    simp only [Bool.and_eq_true, decide_eq_true_eq] at hwait
    exact hwait.1.2
  · obtain ⟨rfl, rfl, rfl⟩ := h
    exact Or.inl rfl

/-- At the top of the loop the thread goes on only as long as its time is not over. -/
theorem top_late {phase : Phase} (h : threadStep φ cfg s g goal fuel = some (pc, terminal, es))
    (hpc : goal.pc = .top phase startTime) (hlate : s.clock - startTime > overallTimeout) :
    pc.Ending := by
  rw [threadStep, hpc] at h
  obtain ⟨rfl, rfl, rfl⟩ := h
  unfold topStep
  split
  · trivial
  · split
    · trivial
    · trivial

theorem threadStep_inLoop (h : threadStep φ cfg s g goal fuel = some (pc, terminal, es))
    (hpc : goal.pc.InLoop startTime) :
    pc.Ending ∨ pc.InLoop startTime ∧
      (s.clock - startTime > overallTimeout → pc.passes < goal.pc.passes) := by
  cases threadStep_moves h with
  | shutDown => exact Or.inl trivial
  | giveUp => exact Or.inl trivial
  | goOn htop =>
      by_cases hlate : s.clock - startTime > overallTimeout
      · rw [htop] at hpc
        exact Or.inl (top_late h htop (hpc ▸ hlate))
      · rw [htop] at hpc
        exact Or.inr ⟨hpc, fun h => absurd h hlate⟩
  | skip hread =>
      rw [hread] at hpc ⊢
      exact Or.inr ⟨hpc, fun _ => by simp [Pc.passes]⟩
  | command hread =>
      rw [hread] at hpc ⊢
      exact Or.inr ⟨hpc, fun _ => by simp [Pc.passes]⟩
  | arrive => exact Or.inl trivial
  | publish hpub =>
      rw [hpub] at hpc ⊢
      exact Or.inr ⟨hpc, fun _ => by simp [Pc.passes]⟩
  | close => exact Or.inl trivial
  -- the others start before the loop
  | _ => simp_all [Pc.InLoop]

theorem ThreadMove.ending (h : ThreadMove φ cfg s g fuel goal pc terminal es)
    (hpc : goal.pc.Ending) : pc = .returned := by
  cases h with
  | shutDown => rfl
  | close => rfl
  -- the others start before the end
  | _ => simp_all [Pc.Ending]

theorem ThreadMove.checked (h : ThreadMove φ cfg s g fuel goal pc terminal es)
    (hpc : goal.pc = .checkPose) : (∃ startTime, pc.InLoop startTime) ∨ pc.Ending := by
  cases h with
  | noOdom => exact Or.inr trivial
  | enter => exact Or.inl ⟨_, rfl⟩
  -- the others start at another place
  | _ => simp_all

end Passes

/-! ## Infinite runs -/

section Progress

variable {φ : Floats F} {cfg : Config} {clock g : Nat}
  {r : Infinite (step φ cfg) anyStep (State.init clock)}

/-- The passes of the thread of the goal. -/
def PassOf (g : Nat) (a : Act F) : Prop := ∃ fuel, a = .thread g fuel

/-- The thread of the goal goes on as long as `execute` has not returned. -/
def Scheduled (r : Infinite (step φ cfg) anyStep (State.init clock)) (g : Nat) : Prop :=
  ∀ n, At g (· ≠ .returned) (r.state n) → ∃ m, n ≤ m ∧ PassOf g (r.act m)

/-- The yaw that the robot has comes from `atan2`. -/
theorem atMost_pose {val : F → Option EReal} (hφ : φ.Doubles val) {s s' : State F} {a : Act F}
    {es : List (Event F)} (h : step φ cfg s a = some (s', es))
    (hpose : ∀ pose, s.pose = some pose → AtMost val 4 pose.yaw) :
    ∀ pose, s'.pose = some pose → AtMost val 4 pose.yaw := by
  cases a with
  | goal request =>
      obtain ⟨-, h⟩ := Option.ite_none_right_eq_some.mp h
      cases h
      exact hpose
  | cancel g =>
      rw [step] at h
      split at h
      · cases h
      · obtain ⟨-, h⟩ := Option.ite_none_right_eq_some.mp h
        cases h
        exact hpose
  | odom msg =>
      obtain ⟨-, h⟩ := Option.ite_none_right_eq_some.mp h
      cases h
      rintro pose hp
      obtain rfl := Option.some.inj hp
      exact fun x hx => hφ.atan2 _ _ x hx
  | advance d =>
      cases h
      exact hpose
  | shutdown =>
      cases h
      exact hpose
  | thread g fuel =>
      rw [step] at h
      split at h
      · cases h
      · split at h
        · cases h
        · cases h
          exact hpose

/-- **A pass is possible** as long as `execute` has not returned. -/
theorem pass_possible {val : F → Option EReal} (hφ : φ.Doubles val) {s : State F} {goal : Goal F}
    (hpose : ∀ pose, s.pose = some pose → AtMost val 4 pose.yaw) (hg : s.goals[g]? = some goal)
    (hyaw : AtMost val (2 ^ 50) goal.request.targetYaw) (hne : goal.pc ≠ .returned) :
    ∃ a, PassOf g a ∧ (step φ cfg s a).isSome := by
  have hpass : ∃ fuel, (threadStep φ cfg s g goal fuel).isSome := by
    cases hpc : goal.pc with
    | started => exact ⟨0, by rw [threadStep, hpc]; rfl⟩
    | waitOdom deadline =>
        refine ⟨0, ?_⟩
        rw [threadStep, hpc]
        dsimp only
        split <;> rfl
    | checkPose =>
        refine ⟨0, ?_⟩
        rw [threadStep, hpc]
        dsimp only
        split <;> rfl
    | top phase startTime => exact ⟨0, by rw [threadStep, hpc]; rfl⟩
    | readPose phase startTime =>
        cases hp : s.pose with
        | none =>
            refine ⟨0, ?_⟩
            rw [threadStep, hpc]
            simp only [readStep, hp, Option.map_some, Option.isSome_some]
        | some pose =>
            obtain ⟨fuel, out, hout⟩ := control_returns hφ phase (hpose pose hp) hyaw
            refine ⟨fuel, ?_⟩
            rw [threadStep, hpc]
            simp only [readStep, hp, hout, Option.map_some, Option.isSome_some]
    | publish cmd phase startTime pose dist => exact ⟨0, by rw [threadStep, hpc]; rfl⟩
    | closing call result => exact ⟨0, by rw [threadStep, hpc]; rfl⟩
    | returned => exact absurd hpc hne
  obtain ⟨fuel, hsome⟩ := hpass
  refine ⟨.thread g fuel, ⟨fuel, rfl⟩, ?_⟩
  obtain ⟨after, hafter⟩ := Option.isSome_iff_exists.mp hsome
  rw [step, hg]
  simp only [hafter]
  rfl

/-- A goal that is there stays, with its request. -/
theorem request_stays {k m : Nat} (hkm : k ≤ m) {goal : Goal F}
    (hg : (r.state k).goals[g]? = some goal) :
    ∃ goal', (r.state m).goals[g]? = some goal' ∧ goal'.request = goal.request := by
  induction m, hkm using Nat.le_induction with
  | base => exact ⟨goal, hg, rfl⟩
  | succ m hkm ih =>
      obtain ⟨goal', hg', hreq⟩ := ih
      obtain ⟨goal'', hg'', hreq', -⟩ := step_goal_stays (r.valid m) hg'
      exact ⟨goal'', hg'', hreq'.trans hreq⟩

/-- **A fair scheduler does not forget the goal**, since none of its passes is stuck. -/
theorem scheduled_of_fair {val : F → Option EReal} (hφ : φ.Doubles val)
    (hfair : r.WeaklyFair (PassOf g)) {n : Nat} {goal : Goal F}
    (hg : (r.state n).goals[g]? = some goal)
    (hyaw : AtMost val (2 ^ 50) goal.request.targetYaw) : Scheduled r g := by
  have hpose (k : Nat) : ∀ pose, (r.state k).pose = some pose → AtMost val 4 pose.yaw :=
    (r.run_upto k).invariant (I := fun s => ∀ pose, s.pose = some pose → AtMost val 4 pose.yaw)
      (fun _ _ _ _ hI _ hst => atMost_pose hφ hst hI) (by simp [State.init])
  rintro k ⟨goal₁, hg₁, hne⟩
  -- the goal has the same request whether it is looked at before or after `n`
  have hreq : goal₁.request = goal.request := by
    rcases Nat.le_total k n with hle | hle
    · obtain ⟨goal', hg', hreq⟩ := request_stays hle hg₁
      obtain rfl := Option.some.inj (hg'.symm.trans hg)
      exact hreq.symm
    · obtain ⟨goal', hg', hreq⟩ := request_stays hle hg
      obtain rfl := Option.some.inj (hg'.symm.trans hg₁)
      exact hreq
  refine hfair.comes (Q := fun s => (∀ pose, s.pose = some pose → AtMost val 4 pose.yaw) ∧
    ∃ goal', s.goals[g]? = some goal' ∧ goal'.request = goal.request ∧ goal'.pc ≠ .returned)
    ?_ ?_ ⟨hpose k, goal₁, hg₁, hreq, hne⟩
  · rintro m ⟨hp, goal', hg', hreq', hne'⟩
    exact pass_possible hφ hp hg' (hreq' ▸ hyaw) hne'
  · rintro m ⟨-, goal', hg', hreq', hne'⟩ hother
    obtain ⟨goal'', hg'', hreq'', ⟨fuel, ha, -⟩ | ⟨-, hpc⟩⟩ := step_goal_stays (r.valid m) hg'
    · exact absurd ⟨fuel, ha⟩ hother
    · exact ⟨hpose (m + 1), goal'', hg'', hreq''.trans hreq', hpc ▸ hne'⟩

/-- **Passes make progress.** If every pass from `p` comes to `q` or keeps `p`, and comes nearer to
`q` once the clock has reached `t`, then `q` is reached. -/
theorem leadsTo_of_passes (htime : ∀ t, ∃ n, t ≤ (r.state n).clock) (hsched : Scheduled r g)
    {p q : Pc F → Prop} (t : Nat) (hp : ∀ pc, p pc → pc ≠ .returned)
    (hpass : ∀ {s goal fuel pc terminal es}, threadStep φ cfg s g goal fuel =
      some (pc, terminal, es) → p goal.pc →
        q pc ∨ p pc ∧ (t ≤ s.clock → pc.passes < goal.pc.passes)) :
    LeadsTo r (At g p) (At g q) := by
  have hclock : Monotone fun n => (r.state n).clock :=
    monotone_nat_of_le_succ fun n => step_clock (r.valid n)
  refine LeadsTo.of_component (fun s => s.goals[g]?) (fun goal => goal.pc.passes)
    (L := fun s : State F => t ≤ s.clock) (A := fun a : Act F => ∃ fuel, a = .thread g fuel)
    ?_ ?_ ?_ ?_ ?_
  · exact fun n h => h.trans (step_clock (r.valid n))
  · intro n
    obtain ⟨m, hm⟩ := htime t
    exact ⟨max n m, le_max_left n m, hm.trans (hclock (le_max_right n m))⟩
  · rintro n goal hg hpc ⟨fuel, ha⟩
    obtain ⟨goal', terminal, hg', ht⟩ := step_pass (ha ▸ r.valid n) hg
    exact ⟨goal', hg', hpass ht hpc⟩
  · intro n goal hg hpc hnot
    obtain ⟨goal', hg', -, ⟨fuel, ha, -⟩ | ⟨-, heq⟩⟩ := step_goal_stays (r.valid n) hg
    · exact absurd ⟨fuel, ha⟩ hnot
    · exact ⟨goal', hg', heq ▸ hpc, (congrArg Pc.passes heq).le⟩
  · exact fun n goal hg hpc => hsched n ⟨goal, hg, hp _ hpc⟩

/-- From wherever it is, a goal comes to the end of `execute`. -/
theorem leadsTo_returned (htime : ∀ t, ∃ n, t ≤ (r.state n).clock) (hsched : Scheduled r g) :
    LeadsTo r (At g fun _ => True) (At g (· = .returned)) := by
  have hclosing : LeadsTo r (At g Pc.Ending) (At g (· = .returned)) := by
    have hclose := leadsTo_of_passes htime hsched (p := fun pc => pc.Ending ∧ pc ≠ .returned)
      (q := (· = .returned)) 0 (fun _ h => h.2)
      fun ht hpc => Or.inl ((threadStep_moves ht).ending hpc.1)
    rintro n ⟨goal, hg, hpc⟩
    by_cases hr : goal.pc = .returned
    · exact ⟨n, le_rfl, goal, hg, hr⟩
    · exact hclose n ⟨goal, hg, hpc, hr⟩
  have hloop (startTime : Nat) : LeadsTo r (At g (Pc.InLoop startTime)) (At g (· = .returned)) := by
    refine LeadsTo.trans ?_ hclosing
    refine leadsTo_of_passes htime hsched (startTime + overallTimeout + 1) ?_ fun ht hpc => ?_
    · rintro pc hpc rfl
      exact hpc
    · refine (threadStep_inLoop ht hpc).imp_right (And.imp_right fun h hclock => h ?_)
      omega
  have hcheck : LeadsTo r (At g (· = .checkPose)) (At g (· = .returned)) := by
    have h := leadsTo_of_passes htime hsched (p := (· = .checkPose))
      (q := fun pc => (∃ startTime, pc.InLoop startTime) ∨ pc.Ending) 0 (by simp)
      fun ht hpc => Or.inl ((threadStep_moves ht).checked hpc)
    refine h.trans ?_
    rintro n ⟨goal, hg, ⟨startTime, hpc⟩ | hpc⟩
    · exact hloop startTime n ⟨goal, hg, hpc⟩
    · exact hclosing n ⟨goal, hg, hpc⟩
  have hwait (deadline : Nat) :
      LeadsTo r (At g (· = .waitOdom deadline)) (At g (· = .returned)) := by
    refine LeadsTo.trans ?_ hcheck
    refine leadsTo_of_passes htime hsched deadline (by simp) fun ht hpc => ?_
    exact (wait_over ht hpc).imp_right (And.imp_right fun h hle => absurd hle h.not_ge)
  have hstart : LeadsTo r (At g (· = .started)) (At g (· = .returned)) := by
    have h := leadsTo_of_passes htime hsched (p := (· = .started))
      (q := fun pc => ∃ deadline, pc = .waitOdom deadline) 0 (by simp) fun ht hpc => by
        rw [threadStep, hpc] at ht
        obtain ⟨rfl, -, -⟩ := ht
        exact Or.inl ⟨_, rfl⟩
    refine h.trans ?_
    rintro n ⟨goal, hg, deadline, hpc⟩
    exact hwait deadline n ⟨goal, hg, hpc⟩
  rintro n ⟨goal, hg, -⟩
  cases hpc : goal.pc with
  | started => exact hstart n ⟨goal, hg, hpc⟩
  | waitOdom deadline => exact hwait deadline n ⟨goal, hg, hpc⟩
  | checkPose => exact hcheck n ⟨goal, hg, hpc⟩
  | top phase startTime => exact hloop startTime n ⟨goal, hg, hpc ▸ rfl⟩
  | readPose phase startTime => exact hloop startTime n ⟨goal, hg, hpc ▸ rfl⟩
  | publish cmd phase startTime pose dist => exact hloop startTime n ⟨goal, hg, hpc ▸ rfl⟩
  | closing call result => exact hclosing n ⟨goal, hg, hpc ▸ trivial⟩
  | returned => exact ⟨n, le_rfl, goal, hg, hpc⟩

/-- **Every drive ends, at rest.** However the odometry, the cancel requests and the other threads
come in between: if time goes on, the scheduler is fair to the thread of the goal and its target yaw
is a NaN or at most `2^50`, `execute` returns; the last command it has published then, if any, is
zero, and unless the process has been shut down it has ended its goal by exactly one call. -/
theorem every_drive_ends {val : F → Option EReal} (hφ : φ.Doubles val)
    (htime : ∀ t, ∃ n, t ≤ (r.state n).clock) (hfair : r.WeaklyFair (PassOf g)) {n : Nat}
    {goal : Goal F} (hg : (r.state n).goals[g]? = some goal)
    (hyaw : AtMost val (2 ^ 50) goal.request.targetYaw) :
    ∃ m, n ≤ m ∧ At g (· = .returned) (r.state m) ∧
      ((r.state m).ok = true → (terminalCalls g (r.trace m)).length = 1) ∧
      ∀ cmd, (commands g (r.trace m)).getLast? = some cmd → cmd = φ.stop := by
  obtain ⟨m, hnm, goal', hgm, hpc⟩ := leadsTo_returned htime (scheduled_of_fair hφ hfair hg hyaw) n
    ⟨goal, hg, trivial⟩
  have hshown : ShownInv φ (r.trace m) (r.state m) := by
    have := (r.run_upto m).history (fun tr s a s' es hI _ hst => hI.step hst)
      (ShownInv.init (φ := φ) clock)
    exact this
  have hs := hshown.shown g goal' hgm
  rw [hpc] at hs
  exact ⟨m, hnm, ⟨goal', hgm, hpc⟩, hs.2⟩

end Progress

/-- The rational numbers are exact, and so is the robot on the axis. -/
theorem doubles_onAxis : onAxis.Doubles fun q : ℚ => some (((q : ℝ) : EReal)) where
  lt a b := by simp [onAxis]
  sub_nan a b h := by simp at h
  sub a b x y hx hy _ := by
    simp only [Option.some.injEq, EReal.coe_eq_coe_iff] at hx hy
    exact ⟨x - y, by simp [onAxis, hx, hy], by simp⟩
  add a b x y hx hy _ := by
    simp only [Option.some.injEq, EReal.coe_eq_coe_iff] at hx hy
    exact ⟨x + y, by simp [onAxis, hx, hy], by simp⟩
  pi := ⟨355 / 113, by norm_num, by norm_num, by simp [onAxis], by simp [onAxis], by simp [onAxis]⟩
  atan2 a b x hx := by
    obtain rfl := Option.some.inj hx
    refine ⟨_, rfl, ?_⟩
    by_cases h : b < 0
    · simp only [onAxis, if_pos h]
      norm_num
    · simp only [onAxis, if_neg h]
      norm_num

/-- From a state on, time goes on and nothing else happens. -/
def timePasses (s : State ℚ) : Infinite (step onAxis ⟨"twist"⟩) anyStep s :=
  .forever (.advance 1) (fun s => { s with clock := s.clock + 1 }) (I := fun _ => True) trivial
    (fun _ _ => trivial) (fun _ _ => trivial) fun _ _ => rfl

theorem timePasses_state (s : State ℚ) (k : Nat) :
    (timePasses s).state k = { s with clock := s.clock + k } := by
  induction k with
  | zero => rfl
  | succ k ih =>
      have hnext : (timePasses s).state (k + 1) =
          { (timePasses s).state k with clock := ((timePasses s).state k).clock + 1 } :=
        Function.iterate_succ_apply' _ k _
      rw [hnext, ih]
      rfl

/-- The robot drives to its target, and then time goes on. -/
theorem driveAhead_ends : ∃ (r : Infinite (step onAxis ⟨"twist"⟩) anyStep (State.init 0)) (m : Nat),
    driveAhead.length ≤ m ∧ At 0 (· = .returned) (r.state m) ∧
      ((r.state m).ok = true → (terminalCalls 0 (r.trace m)).length = 1) ∧
      ∀ cmd, (commands 0 (r.trace m)).getLast? = some cmd → cmd = onAxis.stop := by
  obtain ⟨r, hstate, -⟩ := Infinite.exists_prepend driveAhead_isSome
    (timePasses _)
  have hreturned : ((Option.get _ driveAhead_isSome).1.goals[0]?).any fun goal =>
      goal.pc.isReturned && decide (goal.request.targetYaw = 0) := by
    decide +kernel
  obtain ⟨goal, hg, htest⟩ := (Option.any_eq_true _ _).mp hreturned
  obtain ⟨hpc, hyaw⟩ := Bool.and_eq_true_iff.mp htest
  have hpc := Pc.eq_returned hpc
  have hyaw : goal.request.targetYaw = 0 := of_decide_eq_true hyaw
  have hgoals (k : Nat) : (r.state (driveAhead.length + k)).goals[0]? = some goal := by
    rw [hstate, timePasses_state]
    exact hg
  have htime (t : Nat) : ∃ n, t ≤ (r.state n).clock := by
    refine ⟨driveAhead.length + t, ?_⟩
    rw [hstate, timePasses_state]
    exact Nat.le_add_left t _
  -- a thread that has returned makes no pass
  have hfair : r.WeaklyFair (PassOf 0) := by
    intro n h
    obtain ⟨a, ⟨fuel, rfl⟩, hsome⟩ := h (driveAhead.length + n) (Nat.le_add_left n _)
    rw [step, hgoals n] at hsome
    simp [threadStep, hpc] at hsome
  have hsmall : AtMost (fun q : ℚ => some ((q : ℝ) : EReal)) (2 ^ 50) goal.request.targetYaw := by
    intro x hx
    obtain rfl := Option.some.inj hx
    exact ⟨_, rfl, by rw [hyaw]; norm_num⟩
  obtain ⟨m, hm⟩ := every_drive_ends doubles_onAxis htime hfair (hgoals 0) hsmall
  exact ⟨r, m, hm⟩

end RobotTaskManager.DriveToPose
