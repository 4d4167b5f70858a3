import RobotTaskManager.Executor.Step

set_option autoImplicit false

/-! # Single flight

`_goal_callback` rejects a goal while `_busy` is set, but `_busy` is set only when
`_execute_goal` takes the lock, so a second goal can be accepted in between. The executor runs
one goal at a time (`single_flight`) in the runs in which that does not happen: no goal is
accepted while another one has been accepted and has not started (`NoPendingAccept`).

An `_execute_goal` is *open* from its `_busy = True` to its `_busy = False`. The invariant
`OneOpen` says that an open one keeps the node busy and leaves no accepted goal waiting.
-/

namespace RobotTaskManager.Executor

open Interleaving

variable {Dict : Type}

/-- Between `_busy = True` and `_busy = False` of the `_execute_goal` of `g`. -/
def Open (tr : List Event) (g : Nat) : Prop := .busySet g ∈ tr ∧ .busyCleared g ∉ tr

def GoalPc.isAccepted : GoalPc Dict → Bool
  | .accepted => true
  | _ => false

/-- `_execute_goal` has set `_busy` and is not over. -/
def GoalPc.executing : GoalPc Dict → Bool
  | .building _ _ => true
  | .specReady _ _ _ _ => true
  | .running _ _ _ => true
  | .cancelling _ => true
  | .failing _ _ => true
  | .returned _ _ _ _ _ => true
  | _ => false

/-- Accepted, and not started yet. -/
def Pending (s : State Dict) (g : Nat) : Prop :=
  ∃ goal, s.goals[g]? = some goal ∧ goal.pc.isAccepted = true

/-- No goal is accepted while another one is waiting to be started. -/
def NoPendingAccept (s : State Dict) : Act → Prop
  | .goalRequest _ => s.node.busy = true ∨ ∀ goal ∈ s.goals, goal.pc.isAccepted = false
  | _ => True

instance (s : State Dict) : (a : Act) → Decidable (NoPendingAccept s a)
  | .goalRequest _ => inferInstanceAs (Decidable (_ ∨ _))
  | .goal _ _ => isTrue trivial
  | .cancelRead _ => isTrue trivial
  | .cancelRequest _ => isTrue trivial

structure OneOpen (tr : List Event) (s : State Dict) : Prop where
  busy : ∀ g, Open tr g → s.node.busy = true
  one : ∀ g h, Open tr g → Open tr h → g = h
  executing : ∀ (g : Nat) (goal : Goal Dict), s.goals[g]? = some goal →
    goal.pc.executing = true → Open tr g
  pending : ∀ g h, Pending s g → ¬ Open tr h
  onePending : ∀ g h, Pending s g → Pending s h → g = h
  unstarted : ∀ g, Pending s g ∨ s.goals.length ≤ g → .busyCleared g ∉ tr

section Steps

variable {J : JsonModule Dict} {s s' : State Dict} {n n' : NodeState} {g h : Nat}
  {req : GoalRequest} {pc pc' : GoalPc Dict} {a : GoalAct} {act : Act} {tr es : List Event}

/-- A step that does not set or clear `_busy`. -/
def Quiet (es : List Event) : Prop := ∀ g, .busySet g ∉ es ∧ .busyCleared g ∉ es

theorem Quiet.open_iff (hq : Quiet es) : Open (tr ++ es) g ↔ Open tr g := by
  simp [Open, hq g]

/-- What a step of `_execute_goal` does to `_busy`: it sets it when it starts, clears it when
it is no longer executing, and otherwise leaves it alone. -/
theorem GoalStep.busy_cases (hs : GoalStep J n g req pc a n' pc' es) :
    (pc.isAccepted = true ∧ pc'.isAccepted = false ∧ es = [.busySet g] ∧ n'.busy = true) ∨
    (pc.executing = true ∧ pc'.executing = false ∧ pc'.isAccepted = false ∧
      ∃ rest, es = .busyCleared g :: rest ∧ Quiet rest) ∨
    (pc'.isAccepted = false ∧ (pc'.executing = true → pc.executing = true) ∧ Quiet es ∧
      n'.busy = n.busy) := by
  have hnil : Quiet [] := fun _ => ⟨nofun, nofun⟩
  have hraised : ∀ e, Quiet [.raised g e] := fun e _ => ⟨by simp, by simp⟩
  cases hs with
  | start hp hu => exact Or.inl ⟨rfl, rfl, rfl, rfl⟩
  | startRaises he => exact Or.inr (Or.inr ⟨rfl, nofun, hraised _, rfl⟩)
  | buildFailed => exact Or.inr (Or.inr ⟨rfl, fun _ => rfl, hnil, rfl⟩)
  | buildRaises hb => exact Or.inr (Or.inr ⟨rfl, nofun, hraised _, rfl⟩)
  | built hspec => exact Or.inr (Or.inr ⟨rfl, fun _ => rfl, hnil, rfl⟩)
  | publishSpec => exact Or.inr (Or.inr ⟨rfl, fun _ => rfl, hnil, rfl⟩)
  | runCancelled => exact Or.inr (Or.inr ⟨rfl, fun _ => rfl, hnil, rfl⟩)
  | runRaised => exact Or.inr (Or.inr ⟨rfl, fun _ => rfl, hnil, rfl⟩)
  | runRaises he => exact Or.inr (Or.inr ⟨rfl, nofun, hraised _, rfl⟩)
  | runReturned ho => exact Or.inr (Or.inr ⟨rfl, fun _ => rfl, hnil, rfl⟩)
  | finishCancelled => exact Or.inr (Or.inl ⟨rfl, rfl, rfl, [], rfl, hnil⟩)
  | finishFailure => exact Or.inr (Or.inl ⟨rfl, rfl, rfl, [], rfl, hnil⟩)
  | finishReturned hr => exact Or.inr (Or.inl ⟨rfl, rfl, rfl, [], rfl, hnil⟩)
  | finishRaises hr => exact Or.inr (Or.inl ⟨rfl, rfl, rfl, _, rfl, hraised _⟩)
  | close => exact Or.inr (Or.inr ⟨rfl, nofun, fun _ => ⟨by simp, by simp⟩, rfl⟩)

/-- The invariant is about `_busy`, the goals and the openings and closings in the trace. -/
theorem OneOpen.congr (hinv : OneOpen tr s) (hgoals : s'.goals = s.goals)
    (hbusy : s'.node.busy = s.node.busy) (hq : Quiet es) : OneOpen (tr ++ es) s' where
  busy g ho := by
    rw [hbusy]
    exact hinv.busy g (hq.open_iff.mp ho)
  one g h hg hh := hinv.one g h (hq.open_iff.mp hg) (hq.open_iff.mp hh)
  executing g goal hg he := by
    rw [hgoals] at hg
    exact hq.open_iff.mpr (hinv.executing g goal hg he)
  pending g h hp ho := by
    rw [Pending, hgoals] at hp
    exact hinv.pending g h hp (hq.open_iff.mp ho)
  onePending g h hg hh := by
    rw [Pending, hgoals] at hg hh
    exact hinv.onePending g h hg hh
  unstarted g hg := by
    rw [Pending, hgoals] at hg
    rw [List.mem_append, not_or]
    exact ⟨hinv.unstarted g hg, (hq g).2⟩

/-- A goal is accepted: nothing is open, and no other goal waits. -/
theorem OneOpen.accept (hinv : OneOpen tr s) (req : GoalRequest) (hb : s.node.busy = false)
    (hP : NoPendingAccept s (.goalRequest req)) :
    OneOpen (tr ++ [.accepted s.goals.length])
      { s with goals := s.goals ++ [⟨req, .accepted⟩] } := by
  have hq : Quiet [.accepted s.goals.length] := fun _ => ⟨by simp, by simp⟩
  have hnone : ∀ g, ¬ Open tr g := by
    intro g ho
    rw [hinv.busy g ho] at hb
    cases hb
  -- the new goal is the only one that waits
  have hpending : ∀ g, Pending { s with goals := s.goals ++ [⟨req, .accepted⟩] } g →
      g = s.goals.length := by
    rintro g ⟨goal, hg, ha⟩
    rw [List.getElem?_append] at hg
    split at hg
    · rcases hP with hP | hP
      · rw [hb] at hP
        cases hP
      · rw [hP goal (List.mem_of_getElem? hg)] at ha
        cases ha
    · rw [List.getElem?_singleton] at hg
      split at hg
      · omega
      · cases hg
  refine ⟨fun g ho => absurd (hq.open_iff.mp ho) (hnone g),
    fun g h ho => absurd (hq.open_iff.mp ho) (hnone g), fun g goal hg he => ?_,
    fun g h _ ho => hnone h (hq.open_iff.mp ho),
    fun g h hg hh => (hpending g hg).trans (hpending h hh).symm, fun g hg => ?_⟩
  · rw [List.getElem?_append] at hg
    split at hg
    · exact absurd (hinv.executing g goal hg he) (hnone g)
    · rw [List.getElem?_singleton] at hg
      split at hg
      · cases hg
        cases he
      · cases hg
  · have hle : s.goals.length ≤ g := by
      rcases hg with hg | hg
      · exact (hpending g hg).ge
      · rw [List.length_append, List.length_singleton] at hg
        omega
    rw [List.mem_append, not_or]
    exact ⟨hinv.unstarted g (Or.inr hle), (hq g).2⟩

/-- What a goal looks like after a step of goal `g`. -/
theorem getElem?_set_goal {goals : List (Goal Dict)} {goal goal' u : Goal Dict}
    (hg : goals[g]? = some goal) (h' : (goals.set g goal')[h]? = some u) :
    (h = g ∧ u = goal') ∨ (h ≠ g ∧ goals[h]? = some u) := by
  by_cases hgh : h = g
  · subst hgh
    rw [List.getElem?_set_self (List.getElem?_eq_some_iff.mp hg).1] at h'
    exact Or.inl ⟨rfl, (Option.some.inj h').symm⟩
  · rw [List.getElem?_set_ne (Ne.symm hgh)] at h'
    exact Or.inr ⟨hgh, h'⟩

/-- After a step of goal `g` no goal waits that did not wait before, and `g` does not. -/
theorem pending_after {goal goal' : Goal Dict} (hg : s.goals[g]? = some goal)
    (hacc : goal'.pc.isAccepted = false)
    (h' : Pending { s with node := n', goals := s.goals.set g goal' } h) :
    h ≠ g ∧ Pending s h := by
  obtain ⟨u, hu, ha⟩ := h'
  rcases getElem?_set_goal hg hu with ⟨rfl, rfl⟩ | ⟨hne, hu'⟩
  · rw [hacc] at ha
    cases ha
  · exact ⟨hne, u, hu', ha⟩

/-- What has not been started after a step of goal `g` had not been started before it. -/
theorem unstarted_after {goal goal' : Goal Dict} (hg : s.goals[g]? = some goal)
    (hacc : goal'.pc.isAccepted = false)
    (h' : Pending { s with node := n', goals := s.goals.set g goal' } h ∨
      (s.goals.set g goal').length ≤ h) :
    h ≠ g ∧ (Pending s h ∨ s.goals.length ≤ h) := by
  have hlen : g < s.goals.length := (List.getElem?_eq_some_iff.mp hg).1
  rcases h' with h' | h'
  · obtain ⟨hne, hp⟩ := pending_after hg hacc h'
    exact ⟨hne, Or.inl hp⟩
  · rw [List.length_set] at h'
    exact ⟨by omega, Or.inr h'⟩

/-- A goal that was waiting starts: nothing else is open, since it was waiting until now. -/
theorem OneOpen.started {goal goal' : Goal Dict} (hinv : OneOpen tr s)
    (hg : s.goals[g]? = some goal) (hacc : goal.pc.isAccepted = true)
    (hacc' : goal'.pc.isAccepted = false) (hbusy : n'.busy = true) :
    OneOpen (tr ++ [.busySet g]) { s with node := n', goals := s.goals.set g goal' } := by
  have hwait : Pending s g := ⟨goal, hg, hacc⟩
  have honly : ∀ h, Open (tr ++ [.busySet g]) h → h = g := by
    rintro h ⟨hset, hclear⟩
    rcases List.mem_append.mp hset with hset | hset
    · have hopen : Open tr h := ⟨hset, fun hc => hclear (List.mem_append_left _ hc)⟩
      exact absurd hopen (hinv.pending g h hwait)
    · simpa using hset
  have hopen : Open (tr ++ [.busySet g]) g :=
    ⟨by simp, by simpa using hinv.unstarted g (Or.inl hwait)⟩
  -- it was the only one that waited, so none waits now
  have hnone : ∀ h, ¬ Pending { s with node := n', goals := s.goals.set g goal' } h := by
    intro h hh
    obtain ⟨hne, hp⟩ := pending_after hg hacc' hh
    exact hne (hinv.onePending h g hp hwait)
  refine ⟨fun _ _ => hbusy, ?_, ?_, ?_, ?_, ?_⟩
  · intro h k hh hk
    exact (honly h hh).trans (honly k hk).symm
  · intro h u hu he
    rcases getElem?_set_goal hg hu with ⟨rfl, -⟩ | ⟨hne, hu'⟩
    · exact hopen
    · exact absurd (hinv.executing h u hu' he) (hinv.pending g h hwait)
  · intro h k hh
    exact absurd hh (hnone h)
  · intro h k hh
    exact absurd hh (hnone h)
  · intro h hh
    simpa using hinv.unstarted h (unstarted_after hg hacc' hh).2

/-- An executing goal clears `_busy`: it was the one that is open, so nothing is open now. -/
theorem OneOpen.cleared {goal goal' : Goal Dict} (hinv : OneOpen tr s)
    (hg : s.goals[g]? = some goal) (hex : goal.pc.executing = true)
    (hex' : goal'.pc.executing = false) (hacc' : goal'.pc.isAccepted = false) (hq : Quiet es) :
    OneOpen (tr ++ .busyCleared g :: es)
      { s with node := n', goals := s.goals.set g goal' } := by
  have hopen : Open tr g := hinv.executing g goal hg hex
  have hnone : ∀ h, ¬ Open (tr ++ .busyCleared g :: es) h := by
    rintro h ⟨hset, hclear⟩
    have hset' : .busySet h ∈ tr := by simpa [hq h] using hset
    simp only [List.mem_append, List.mem_cons, not_or] at hclear
    have hhg : h = g := hinv.one h g ⟨hset', hclear.1⟩ hopen
    exact hclear.2.1 (by rw [hhg])
  -- while `g` was open, nothing waited
  have hwait : ∀ h, ¬ Pending { s with node := n', goals := s.goals.set g goal' } h := by
    intro h hh
    exact hinv.pending h g (pending_after hg hacc' hh).2 hopen
  refine ⟨fun h ho => absurd ho (hnone h), fun h k ho => absurd ho (hnone h), ?_, ?_, ?_, ?_⟩
  · intro h u hu he
    rcases getElem?_set_goal hg hu with ⟨rfl, rfl⟩ | ⟨hne, hu'⟩
    · rw [hex'] at he
      cases he
    · exact absurd (hinv.one h g (hinv.executing h u hu' he) hopen) hne
  · intro h k hh
    exact absurd hh (hwait h)
  · intro h k hh
    exact absurd hh (hwait h)
  · intro h hh
    obtain ⟨hne, hh'⟩ := unstarted_after hg hacc' hh
    simpa [hq h, hne] using hinv.unstarted h hh'

/-- Every other step leaves `_busy` and the openings alone. -/
theorem OneOpen.quiet {goal goal' : Goal Dict} (hinv : OneOpen tr s)
    (hg : s.goals[g]? = some goal) (hex : goal'.pc.executing = true → goal.pc.executing = true)
    (hacc' : goal'.pc.isAccepted = false) (hbusy : n'.busy = s.node.busy) (hq : Quiet es) :
    OneOpen (tr ++ es) { s with node := n', goals := s.goals.set g goal' } := by
  refine ⟨?_, ?_, ?_, ?_, ?_, ?_⟩
  · intro h ho
    show n'.busy = true
    rw [hbusy]
    exact hinv.busy h (hq.open_iff.mp ho)
  · intro h k ho hk
    exact hinv.one h k (hq.open_iff.mp ho) (hq.open_iff.mp hk)
  · intro h u hu he
    apply hq.open_iff.mpr
    rcases getElem?_set_goal hg hu with ⟨rfl, rfl⟩ | ⟨-, hu'⟩
    · exact hinv.executing h goal hg (hex he)
    · exact hinv.executing h u hu' he
  · intro h k hh ho
    exact hinv.pending h k (pending_after hg hacc' hh).2 (hq.open_iff.mp ho)
  · intro h k hh hk
    exact hinv.onePending h k (pending_after hg hacc' hh).2 (pending_after hg hacc' hk).2
  · intro h hh
    simpa [hq h] using hinv.unstarted h (unstarted_after hg hacc' hh).2

theorem OneOpen.goalStep {goal : Goal Dict} (hinv : OneOpen tr s)
    (hg : s.goals[g]? = some goal) (hs : GoalStep J s.node g goal.request goal.pc a n' pc' es) :
    OneOpen (tr ++ es) { s with node := n', goals := s.goals.set g { goal with pc := pc' } } := by
  rcases hs.busy_cases with ⟨hacc, hacc', rfl, hbusy⟩ | ⟨hex, hex', hacc', rest, rfl, hq⟩ |
    ⟨hacc', hex, hq, hbusy⟩
  · exact hinv.started hg hacc hacc' hbusy
  · exact hinv.cleared hg hex hex' hacc' hq
  · exact hinv.quiet hg hex hacc' hbusy hq

theorem OneOpen.step (hinv : OneOpen tr s) (hP : NoPendingAccept s act)
    (hst : step J s act = some (s', es)) : OneOpen (tr ++ es) s' := by
  rcases step_cases hst with ⟨req, rfl, -, rfl, rfl⟩ | ⟨req, rfl, hb, rfl, rfl⟩ |
    ⟨g, a, goal, n', pc', rfl, hg, hs, rfl⟩ | ⟨g, rfl, -, rfl, rfl⟩ |
    ⟨k, g, token, rfl, -, rfl, rfl⟩
  · exact hinv.congr rfl rfl fun _ => ⟨by simp, by simp⟩
  · exact hinv.accept req hb hP
  · exact hinv.goalStep hg hs
  · exact hinv.congr rfl rfl fun _ => ⟨nofun, nofun⟩
  · exact hinv.congr rfl rfl fun _ => ⟨by simp, by simp⟩

theorem OneOpen.init (now : Nat) : OneOpen [] (State.init now : State Dict) where
  busy g ho := by cases ho.1
  one g h ho := by cases ho.1
  executing g goal hg := by simp [State.init] at hg
  pending g h hp ho := by cases ho.1
  onePending g h hp := by
    obtain ⟨goal, hg, -⟩ := hp
    simp [State.init] at hg
  unstarted g _ := nofun

end Steps

/-- **One goal at a time**, in every run in which no goal is accepted while another one waits
to be started: at most one `_execute_goal` is between its `_busy = True` and its
`_busy = False`, and at most one SubJob runs. -/
theorem single_flight {J : JsonModule Dict} {now : Nat} {tr : List Event} {s : State Dict}
    (hrun : Run (step J) NoPendingAccept (.init now) tr s) :
    (∀ g h, Open tr g → Open tr h → g = h) ∧
    ∀ (g h : Nat) (goal goal' : Goal Dict), s.goals[g]? = some goal →
      s.goals[h]? = some goal' → goal.pc.executing = true → goal'.pc.executing = true →
      g = h := by
  have hinv : OneOpen ([] ++ tr) s :=
    hrun.history (fun _ _ _ _ _ h hP hs => h.step hP hs) (OneOpen.init now)
  refine ⟨hinv.one, fun g h goal goal' hg hh he he' => ?_⟩
  exact hinv.one g h (hinv.executing g goal hg he) (hinv.executing h goal' hh he')

/-- Two goals one after the other, and a third that comes too early. -/
def twoGoals : List Act :=
  [.goalRequest (plainRequest "Patrol"), .goal 0 (.start 5), .goalRequest (plainRequest "Dock"),
    .goal 0 (.build (.built "Patrol" (.ok "{}"))), .goal 0 .publishSpec,
    .goal 0 (.runEnds (.returned (.str "done") (.ok "{}") (.ok "{}") (.ok "{}"))), .goal 0 .finish,
    .goal 0 .close, .goalRequest (plainRequest "Dock"), .goal 1 (.start 9)]

theorem single_flight_twoGoals : ∃ (tr : List Event) (s : State Unit),
    Run (step noParameters) NoPendingAccept (.init 0) tr s ∧ .rejected ∈ tr ∧ Open tr 1 ∧
      ∀ g, Open tr g → g = 1 := by
  have hacts : (runActs (step noParameters) NoPendingAccept (.init 0) twoGoals).isSome := by
    decide
  have hrun := Run.of_isSome hacts
  have htr : ((runActs (step noParameters) NoPendingAccept (.init 0) twoGoals).get hacts).2
      = [.accepted 0, .busySet 0, .rejected, .busyCleared 0, .terminal 0 .succeed, .accepted 1,
        .busySet 1] := rfl
  rw [htr] at hrun
  have hopen : Open [.accepted 0, .busySet 0, .rejected, .busyCleared 0, .terminal 0 .succeed,
      .accepted 1, .busySet 1] 1 := ⟨by decide, by decide⟩
  exact ⟨_, _, hrun, by decide, hopen, fun g hg => (single_flight hrun).1 g 1 hg hopen⟩

/-- Two goals that arrive before the first is started are both accepted, and both run. -/
theorem not_always_single_flight : ¬ ∀ (now : Nat) (tr : List Event) (s : State Unit),
    Run (step noParameters) anyStep (.init now) tr s →
      ∀ g h, Open tr g → Open tr h → g = h := by
  intro h
  have hacts : (runActs (step noParameters) anyStep (.init 0)
      [.goalRequest (plainRequest "Patrol"), .goalRequest (plainRequest "Dock"),
        .goal 0 (.start 5), .goal 1 (.start 6)]).isSome := by decide
  have hsame : 0 = 1 := h 0 [.accepted 0, .accepted 1, .busySet 0, .busySet 1] _
    (Run.of_isSome hacts) 0 1 ⟨by decide, by decide⟩ ⟨by decide, by decide⟩
  cases hsame

end RobotTaskManager.Executor
