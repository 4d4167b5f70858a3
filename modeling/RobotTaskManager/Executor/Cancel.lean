import RobotTaskManager.Executor.Admission

set_option autoImplicit false

/-! # Cancelling a goal

`_cancel_callback` does not look at the goal handle it is given: it calls `request()` on
whatever token the shared slot holds. `CancelExact` says what a cancel is to do. It holds in
the runs in which the slot is right whenever a callback reads it (`SlotHolds`): it holds the
token of the goal the cancel is for, or it is empty and the run of that goal is over.

That `sm.run` raises `CancelledError` only when its token is set (`HonestRun`) is what the
engine does with a tree whose leaves raise it only when they see the token.
-/

namespace RobotTaskManager.Executor

open Interleaving

variable {Dict : Type}

/-- The run of the SubJob has finished, or will never start. -/
def GoalPc.runOver : GoalPc Dict → Bool
  | .accepted => false
  | .building _ _ => false
  | .specReady _ _ _ _ => false
  | .running _ _ _ => false
  | _ => true

/-- The goal is to be reported as canceled. -/
def GoalPc.reportsCanceled : GoalPc Dict → Bool
  | .cancelling _ => true
  | .closing .canceled _ => true
  | _ => false

def RunOver (s : State Dict) (g : Nat) : Prop :=
  ∃ goal ∈ s.goals[g]?, goal.pc.runOver = true

instance (s : State Dict) (g : Nat) : Decidable (RunOver s g) :=
  match h : s.goals[g]? with
  | none => isFalse fun ⟨_, hg, _⟩ => by simp [h] at hg
  | some goal =>
      decidable_of_iff (goal.pc.runOver = true)
        ⟨fun ho => ⟨goal, h, ho⟩, fun ⟨u, hu, ho⟩ => Option.some.inj (h.symm.trans hu) ▸ ho⟩

/-- A run raises `CancelledError` only when its token is set. -/
def HonestRun (s : State Dict) : Act → Prop
  | .goal g (.runEnds .cancelled) => g ∈ s.requested
  | _ => True

/-- When `_cancel_callback` reads the slot for goal `g`, it holds the token of `g`, or it is
empty and the run of `g` is over. -/
def SlotHolds (s : State Dict) : Act → Prop
  | .cancelRead g => s.node.currentCancelToken = some g ∨
      (s.node.currentCancelToken = none ∧ RunOver s g)
  | _ => True

instance (s : State Dict) : (a : Act) → Decidable (HonestRun s a)
  | .goal g (.runEnds .cancelled) => inferInstanceAs (Decidable (g ∈ s.requested))
  | .goal _ (.runEnds (.raised _)) => isTrue trivial
  | .goal _ (.runEnds (.returned _ _ _ _)) => isTrue trivial
  | .goal _ (.start _) => isTrue trivial
  | .goal _ (.build _) => isTrue trivial
  | .goal _ .publishSpec => isTrue trivial
  | .goal _ .finish => isTrue trivial
  | .goal _ .close => isTrue trivial
  | .goalRequest _ => isTrue trivial
  | .cancelRead _ => isTrue trivial
  | .cancelRequest _ => isTrue trivial

instance (s : State Dict) : (a : Act) → Decidable (SlotHolds s a)
  | .cancelRead _ => inferInstanceAs (Decidable (_ ∨ _))
  | .goal _ _ => isTrue trivial
  | .goalRequest _ => isTrue trivial
  | .cancelRequest _ => isTrue trivial

/-- What the cancels accepted so far have done: the token of a goal whose run is not over is
set, no cancel has touched the token of another goal, no token is set without a cancel of its
goal, and only canceled goals are reported so. -/
structure CancelExact (tr : List Event) (s : State Dict) : Prop where
  reached : ∀ (g : Nat) (token : Option Nat) (goal : Goal Dict), .cancelAccepted g token ∈ tr →
    s.goals[g]? = some goal → goal.pc.runOver = false → g ∈ s.requested
  own : ∀ g h : Nat, .cancelAccepted g (some h) ∈ tr → h = g
  set : ∀ g : Nat, g ∈ s.requested → .cancelAccepted g (some g) ∈ tr
  canceled : ∀ g : Nat, .terminal g .canceled ∈ tr → ∃ token, .cancelAccepted g token ∈ tr

/-- The token a callback for `g` has read is the right one. -/
def ReadOk (s : State Dict) (g : Nat) (token : Option Nat) : Prop :=
  token = some g ∨ (token = none ∧ RunOver s g)

structure CancelInv (tr : List Event) (s : State Dict) : Prop where
  reading : ∀ c ∈ s.cancels, ReadOk s c.1 c.2
  accepted : ∀ (g : Nat) (token : Option Nat), .cancelAccepted g token ∈ tr →
    ReadOk s g token ∧ ∀ h, token = some h → h ∈ s.requested
  set : ∀ g : Nat, g ∈ s.requested → .cancelAccepted g (some g) ∈ tr
  reports : ∀ (g : Nat) (goal : Goal Dict), s.goals[g]? = some goal →
    goal.pc.reportsCanceled = true → g ∈ s.requested
  canceled : ∀ g : Nat, .terminal g .canceled ∈ tr → g ∈ s.requested

section Steps

variable {J : JsonModule Dict} {s s' : State Dict} {n n' : NodeState} {g h : Nat}
  {req : GoalRequest} {pc pc' : GoalPc Dict} {a : GoalAct} {act : Act} {tr es : List Event}

/-- A run that is over stays over. -/
theorem GoalStep.runOver (hs : GoalStep J n g req pc a n' pc' es) (h : pc.runOver = true) :
    pc'.runOver = true := by
  cases hs with
  | start _ _ => cases h
  | built _ => cases h
  | publishSpec => cases h
  | _ => rfl

/-- A goal is to be reported as canceled only after its run has raised `CancelledError`. -/
theorem GoalStep.reportsCanceled (hs : GoalStep J n g req pc a n' pc' es)
    (h : pc'.reportsCanceled = true) :
    pc.reportsCanceled = true ∨ a = .runEnds .cancelled := by
  cases hs with
  | runCancelled => exact Or.inr rfl
  | finishCancelled => exact Or.inl rfl
  | finishReturned =>
      unfold returnedCall at h
      split at h <;> cases h
  | _ => cases h

/-- Only a goal that is to be reported as canceled is. -/
theorem GoalStep.terminal_canceled (hs : GoalStep J n g req pc a n' pc' es)
    (hm : .terminal h .canceled ∈ es) : h = g ∧ pc.reportsCanceled = true := by
  cases hs with
  | @close call result =>
      obtain ⟨rfl, rfl⟩ : h = g ∧ .canceled = call := by simpa using hm
      exact ⟨rfl, rfl⟩
  | _ => simp at hm

theorem GoalStep.not_cancelAccepted (hs : GoalStep J n g req pc a n' pc' es)
    (token : Option Nat) : .cancelAccepted h token ∉ es := by
  cases hs <;> simp

/-- The run of a goal stays over in every step. -/
theorem RunOver.step (ho : RunOver s g) (hst : step J s act = some (s', es)) : RunOver s' g := by
  obtain ⟨goal, hg, ho⟩ := ho
  rcases step_cases hst with ⟨req, rfl, -, rfl, -⟩ | ⟨req, rfl, -, rfl, -⟩ |
    ⟨k, a, goal', n', pc', rfl, hk, hs, rfl⟩ | ⟨k, rfl, -, -, rfl⟩ | ⟨k, h, token, rfl, -, -, rfl⟩
  · exact ⟨goal, hg, ho⟩
  · exact ⟨goal, by rwa [List.getElem?_append_left (List.getElem?_eq_some_iff.mp hg).1], ho⟩
  · by_cases hkg : k = g
    · subst hkg
      obtain rfl : goal' = goal := Option.some.inj (hk.symm.trans hg)
      exact ⟨_, List.getElem?_set_self (List.getElem?_eq_some_iff.mp hg).1, hs.runOver ho⟩
    · exact ⟨goal, by rwa [Option.mem_def, List.getElem?_set_ne hkg], ho⟩
  · exact ⟨goal, hg, ho⟩
  · exact ⟨goal, hg, ho⟩

theorem ReadOk.step {token : Option Nat} (hr : ReadOk s g token)
    (hst : Executor.step J s act = some (s', es)) : ReadOk s' g token :=
  hr.imp_right fun ⟨hn, ho⟩ => ⟨hn, ho.step hst⟩

/-- An answer to a goal request, or a look at the slot: no token is set, and no goal gets to be
reported as canceled. -/
theorem CancelInv.congr (hinv : CancelInv tr s)
    (hes : ∀ e ∈ es, ∃ g, e = .accepted g ∨ e = .rejected)
    (hread : ∀ g token, ReadOk s g token → ReadOk s' g token)
    (hcancels : ∀ c ∈ s'.cancels, ReadOk s' c.1 c.2) (hrequested : s'.requested = s.requested)
    (hreports : ∀ (g : Nat) (goal : Goal Dict), s'.goals[g]? = some goal →
      goal.pc.reportsCanceled = true → g ∈ s.requested) : CancelInv (tr ++ es) s' where
  reading := hcancels
  accepted g token hm := by
    rcases List.mem_append.mp hm with hm | hm
    · obtain ⟨hok, hreq⟩ := hinv.accepted g token hm
      exact ⟨hread g token hok, fun h hh => hrequested ▸ hreq h hh⟩
    · obtain ⟨k, hk | hk⟩ := hes _ hm <;> cases hk
  set g hg := List.mem_append_left _ (hinv.set g (hrequested ▸ hg))
  reports g goal hg hr := hrequested ▸ hreports g goal hg hr
  canceled g hm := by
    rcases List.mem_append.mp hm with hm | hm
    · exact hrequested ▸ hinv.canceled g hm
    · obtain ⟨k, hk | hk⟩ := hes _ hm <;> cases hk

/-- A step of the `_execute_goal` of `g`. -/
theorem CancelInv.goalStep {goal : Goal Dict} (hinv : CancelInv tr s)
    (hrun : HonestRun s (.goal g a)) (hg : s.goals[g]? = some goal)
    (hs : GoalStep J s.node g goal.request goal.pc a n' pc' es)
    (hread : ∀ h token, ReadOk s h token →
      ReadOk { s with node := n', goals := s.goals.set g { goal with pc := pc' } } h token) :
    CancelInv (tr ++ es) { s with node := n', goals := s.goals.set g { goal with pc := pc' } }
    where
  reading c hc := hread c.1 c.2 (hinv.reading c hc)
  accepted h token hm := by
    rcases List.mem_append.mp hm with hm | hm
    · obtain ⟨hok, hreq⟩ := hinv.accepted h token hm
      exact ⟨hread h token hok, hreq⟩
    · exact absurd hm (hs.not_cancelAccepted token)
  set h hh := List.mem_append_left _ (hinv.set h hh)
  reports h u hu hr := by
    rcases getElem?_set_goal hg hu with ⟨rfl, rfl⟩ | ⟨-, hu'⟩
    · -- the run has raised `CancelledError`, so its token is set
      rcases hs.reportsCanceled hr with hr' | rfl
      · exact hinv.reports h goal hg hr'
      · exact hrun
    · exact hinv.reports h u hu' hr
  canceled h hm := by
    rcases List.mem_append.mp hm with hm | hm
    · exact hinv.canceled h hm
    · obtain ⟨rfl, hr⟩ := hs.terminal_canceled hm
      exact hinv.reports h goal hg hr

/-- A `_cancel_callback` for `g` calls `request()` on the token it has read. -/
theorem CancelInv.cancelRequest {k : Nat} {token : Option Nat} (hinv : CancelInv tr s)
    (hk : s.cancels[k]? = some (g, token)) : CancelInv (tr ++ [.cancelAccepted g token])
      { s with cancels := s.cancels.eraseIdx k, requested := s.requested ++ token.toList } where
  reading c hc := hinv.reading c (List.mem_of_mem_eraseIdx hc)
  accepted h token' hm := by
    rcases List.mem_append.mp hm with hm | hm
    · obtain ⟨hok', hreq⟩ := hinv.accepted h token' hm
      exact ⟨hok', fun l hl => List.mem_append_left _ (hreq l hl)⟩
    · obtain ⟨rfl, rfl⟩ : h = g ∧ token' = token := by simpa using hm
      refine ⟨hinv.reading (h, token') (List.mem_of_getElem? hk), fun l hl => ?_⟩
      rw [hl]
      exact List.mem_append_right _ (List.mem_singleton.mpr rfl)
  set h hh := by
    rcases List.mem_append.mp hh with hh | hh
    · exact List.mem_append_left _ (hinv.set h hh)
    · -- the token that was read is the token of `g`
      obtain rfl : token = some h := by simpa using hh
      rcases hinv.reading (g, some h) (List.mem_of_getElem? hk) with hg | ⟨hn, -⟩
      · obtain rfl : h = g := Option.some.inj hg
        exact List.mem_append_right _ (List.mem_singleton.mpr rfl)
      · cases hn
  reports h u hu hr := List.mem_append_left _ (hinv.reports h u hu hr)
  canceled h hm := List.mem_append_left _ (hinv.canceled h (by simpa using hm))

theorem CancelInv.step (hinv : CancelInv tr s) (hP : HonestRun s act ∧ SlotHolds s act)
    (hst : Executor.step J s act = some (s', es)) : CancelInv (tr ++ es) s' := by
  obtain ⟨hrun, hslot⟩ := hP
  have hread : ∀ g token, ReadOk s g token → ReadOk s' g token := fun g token h => h.step hst
  rcases step_cases hst with ⟨req, rfl, -, rfl, rfl⟩ | ⟨req, rfl, -, rfl, rfl⟩ |
    ⟨g, a, goal, n', pc', rfl, hg, hs, rfl⟩ | ⟨g, rfl, -, rfl, rfl⟩ |
    ⟨k, g, token, rfl, hk, rfl, rfl⟩
  · exact hinv.congr (by simp) hread hinv.reading rfl hinv.reports
  · refine hinv.congr (by simp) hread (fun c hc => hread _ _ (hinv.reading c hc)) rfl ?_
    intro g goal hg hr
    rw [List.getElem?_append] at hg
    split at hg
    · exact hinv.reports g goal hg hr
    · -- the new goal has not run yet
      rw [List.getElem?_singleton] at hg
      split at hg
      · cases hg
        cases hr
      · cases hg
  · exact hinv.goalStep hrun hg hs hread
  · refine hinv.congr nofun hread ?_ rfl hinv.reports
    intro c hc
    rcases List.mem_append.mp hc with hc | hc
    · exact hread _ _ (hinv.reading c hc)
    · -- what the new callback has read is what the slot holds
      obtain rfl := List.mem_singleton.mp hc
      exact hslot
  · exact hinv.cancelRequest hk

end Steps

/-- **A cancel reaches its goal and no other**, in every run in which the slot is right
whenever a callback reads it. -/
theorem cancel_exact {J : JsonModule Dict} {now : Nat} {tr : List Event} {s : State Dict}
    (hrun : Run (step J) (fun s a => HonestRun s a ∧ SlotHolds s a) (.init now) tr s) :
    CancelExact tr s := by
  have hinit : CancelInv [] (State.init now : State Dict) :=
    ⟨nofun, nofun, nofun, fun g goal hg => by simp [State.init] at hg, nofun⟩
  have hinv : CancelInv ([] ++ tr) s :=
    hrun.history (fun _ _ _ _ _ h hP hs => h.step hP hs) hinit
  refine ⟨fun g token goal hm hg ho => ?_, fun g h hm => ?_, hinv.set, fun g hm => ?_⟩
  · obtain ⟨rfl | ⟨-, goal', hg', ho'⟩, hreq⟩ := hinv.accepted g token hm
    · exact hreq g rfl
    -- no token was read, so the run of the goal is over
    · obtain rfl : goal = goal' := Option.some.inj (hg.symm.trans hg')
      rw [ho] at ho'
      cases ho'
  · obtain ⟨hg | ⟨hn, -⟩, -⟩ := hinv.accepted g (some h) hm
    · exact Option.some.inj hg
    · cases hn
  · exact ⟨_, hinv.set g (hinv.canceled g hm)⟩

/-- A goal is canceled while it runs. -/
def canceledGoal : List Act :=
  [.goalRequest (plainRequest "Patrol"), .goal 0 (.start 5),
    .goal 0 (.build (.built "Patrol" (.ok "{}"))), .goal 0 .publishSpec, .cancelRead 0,
    .cancelRequest 0, .goal 0 (.runEnds .cancelled), .goal 0 .finish, .goal 0 .close]

theorem cancel_exact_canceledGoal : ∃ (tr : List Event) (s : State Unit),
    Run (step noParameters) (fun s a => HonestRun s a ∧ SlotHolds s a) (.init 0) tr s ∧
      .terminal 0 .canceled ∈ tr ∧ CancelExact tr s := by
  have hacts : (runActs (step noParameters) (fun s a => HonestRun s a ∧ SlotHolds s a) (.init 0)
      canceledGoal).isSome := by decide
  have hrun := Run.of_isSome hacts
  have hmem : Event.terminal 0 .canceled ∈ ([.accepted 0, .busySet 0,
      .cancelAccepted 0 (some 0), .busyCleared 0, .terminal 0 .canceled] : List Event) := by
    decide
  exact ⟨_, _, hrun, hmem, cancel_exact hrun⟩

/-- A cancel that comes after the goal was accepted and before it is started is accepted and
lost: the SubJob runs with a token that is not set. -/
theorem not_always_cancel_exact : ¬ ∀ (now : Nat) (tr : List Event) (s : State Unit),
    Run (step noParameters) HonestRun (.init now) tr s → CancelExact tr s := by
  intro h
  have hacts : (runActs (step noParameters) HonestRun (.init 0)
      [.goalRequest (plainRequest "Patrol"), .cancelRead 0, .cancelRequest 0, .goal 0 (.start 5),
        .goal 0 (.build (.built "Patrol" (.ok "{}"))), .goal 0 .publishSpec]).isSome := by decide
  have hexact := h 0 [.accepted 0, .cancelAccepted 0 none, .busySet 0] _ (Run.of_isSome hacts)
  exact absurd (hexact.reached 0 none ⟨plainRequest "Patrol", .running "Patrol" () ()⟩
    (by decide) rfl rfl) (List.not_mem_nil)

end RobotTaskManager.Executor
