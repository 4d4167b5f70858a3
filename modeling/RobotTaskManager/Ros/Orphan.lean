import RobotTaskManager.Ros.ActionState

set_option autoImplicit false

/-! # Orphaned goals

A goal is orphaned when `execute` is over, the action server has accepted it, and neither has
its result been received nor a cancel been requested (`NoOrphan` says there is none). Since
nothing requests a cancel, a goal is orphaned exactly by the steps that `KeepsGoal` excludes:
a wait that is given up, by a timeout, a cancel or a future that fails, while the server has
accepted the goal, and an acceptance that comes after `execute` is over.
-/

namespace RobotTaskManager.Ros

open Interleaving

variable {U G R : Type}

/-- The result of the goal has been received. -/
def Received (tr : List (Event R)) : Prop :=
  ∃ status res, Event.replied .getResult (some (.result status res)) ∈ tr

/-- No goal is left moving the robot. -/
def NoOrphan (tr : List (Event R)) (s : State U G R) : Prop :=
  ∀ r, s.pc = .ended r → s.decision = some true → Received tr ∨ Event.cancelGoal ∈ tr

/-- The action makes `execute` give up the wait it is in: its future has failed, its token is
set or its deadline has passed. -/
def State.givesUp (s : State U G R) : Act R → Bool
  | .client =>
      match s.pc, s.future with
      | .done _, some none => true
      | .token _, _ => s.cancelled
      | _, _ => false
  | .clock expired => expired
  | _ => false

def Pc.isOver : Pc → Bool
  | .ended _ => true
  | _ => false

/-- No wait is given up while the server has accepted the goal, and the server does not accept
the goal after `execute` is over. -/
def KeepsGoal (s : State U G R) (a : Act R) : Prop :=
  (s.givesUp a = true → s.decision ≠ some true) ∧
    match a with
    | .decide true => s.pc.isOver = false
    | _ => True

instance (s : State U G R) (a : Act R) : Decidable (KeepsGoal s a) :=
  match a with
  | .decide true => inferInstanceAs (Decidable (_ ∧ _ = _))
  | .decide false => inferInstanceAs (Decidable (_ ∧ True))
  | .client => inferInstanceAs (Decidable (_ ∧ True))
  | .available _ => inferInstanceAs (Decidable (_ ∧ True))
  | .clock _ => inferInstanceAs (Decidable (_ ∧ True))
  | .complete _ => inferInstanceAs (Decidable (_ ∧ True))
  | .request => inferInstanceAs (Decidable (_ ∧ True))

/-! ## The invariant -/

/-- The goal has not been sent yet. -/
def Pc.beforeSend : Pc → Bool
  | .enter => true
  | .waitForService => true
  | .call x => x ≠ .getResult
  | .done x => x ≠ .sendGoal && x ≠ .getResult
  | .deadline x => x ≠ .sendGoal && x ≠ .getResult
  | .token x => x ≠ .sendGoal && x ≠ .getResult
  | .waitForServer => true
  | .buildGoal => true
  | .ended _ => false

/-- The result of the goal is being waited for. -/
def Pc.atResult : Pc → Bool
  | .call x => x = .getResult
  | .done x => x = .getResult
  | .deadline x => x = .getResult
  | .token x => x = .getResult
  | _ => false

structure GoalInv (tr : List (Event R)) (s : State U G R) : Prop where
  before : s.pc.beforeSend = true → s.sent = false
  decided : s.decision ≠ none → s.sent = true
  atResult : s.pc.atResult = true → s.decision = some true
  future : ∀ x r, s.pc.waitsFor = some x → s.future = some (some r) → r.fits x = true ∧
    ∀ accepted, r = .handle accepted → s.decision = some accepted
  received : Received tr → s.decision = some true ∧ s.pc.isOver = true
  noCancel : Event.cancelGoal ∉ tr

section Steps

variable {k : Skill U G R} {s s' : State U G R} {a : Act R} {tr es : List (Event R)}

theorem not_received_append (h : ¬ Received tr)
    (hes : ∀ status res, Event.replied .getResult (some (.result status res)) ∉ es) :
    ¬ Received (tr ++ es) := by
  rintro ⟨status, res, hm⟩
  rcases List.mem_append.mp hm with hm | hm
  · exact h ⟨status, res, hm⟩
  · exact hes status res hm

/-- Before the end nothing has been received. -/
theorem GoalInv.not_received (h : GoalInv tr s) (ho : s.pc.isOver = false) : ¬ Received tr := by
  intro hr
  rw [(h.received hr).2] at ho
  cases ho

/-- A step that only moves on to another position. -/
theorem GoalInv.goto (h : GoalInv tr s) {pc : Pc} {g : Option G} (ho : s.pc.isOver = false)
    (hb : pc.beforeSend = true → s.pc.beforeSend = true)
    (ha : pc.atResult = true → s.pc.atResult = true)
    (hw : ∀ x, pc.waitsFor = some x → s.pc.waitsFor = some x) :
    GoalInv (tr ++ []) { s with pc := pc, goal := g } where
  before hpc := h.before (hb hpc)
  decided := h.decided
  atResult hpc := h.atResult (ha hpc)
  future x r hx hf := h.future x r (hw x hx) hf
  received hr := absurd hr (by rw [List.append_nil]; exact h.not_received ho)
  noCancel := by simpa using h.noCancel

/-- The exchange that is waited for tells how far the goal has come. -/
theorem waitsFor_cases {pc : Pc} {x : Exchange} (h : pc.waitsFor = some x) :
    pc.isOver = false ∧ (pc.beforeSend = true ↔ x ≠ .sendGoal ∧ x ≠ .getResult) ∧
      (pc.atResult = true ↔ x = .getResult) := by
  cases pc with
  | done y =>
      obtain rfl : y = x := Option.some.inj h
      exact ⟨rfl, by simp [Pc.beforeSend], by simp [Pc.atResult]⟩
  | deadline y =>
      obtain rfl : y = x := Option.some.inj h
      exact ⟨rfl, by simp [Pc.beforeSend], by simp [Pc.atResult]⟩
  | token y =>
      obtain rfl : y = x := Option.some.inj h
      exact ⟨rfl, by simp [Pc.beforeSend], by simp [Pc.atResult]⟩
  | _ => cases h

/-- A step from one test of `_wait_future` to the next. -/
theorem GoalInv.keepWaiting (h : GoalInv tr s) {x : Exchange} (hx : s.pc.waitsFor = some x)
    {pc : Pc} (hx' : pc.waitsFor = some x) : GoalInv (tr ++ []) { s with pc := pc } := by
  obtain ⟨ho, hbefore, hresult⟩ := waitsFor_cases hx
  obtain ⟨-, hbefore', hresult'⟩ := waitsFor_cases hx'
  apply h.goto (g := s.goal) ho
  · intro hb
    exact hbefore.mpr (hbefore'.mp hb)
  · intro ha
    exact hresult.mpr (hresult'.mp ha)
  · intro y hy
    rw [hx, ← hx', hy]

/-- `_wait_future` returns. -/
theorem GoalInv.resume (h : GoalInv tr s) {x : Exchange} {r : Option (Reply R)}
    (hx : s.pc.waitsFor = some x)
    (hr : ∀ accepted, r = some (.handle accepted) → s.decision = some accepted) :
    GoalInv (tr ++ [.replied x r]) (s.resume k x r) := by
  obtain ⟨ho, hbefore, hresult⟩ := waitsFor_cases hx
  refine ⟨fun hb => ?_, h.decided, fun ha => ?_, nofun, fun hrec => ?_, ?_⟩
  · have hb : (afterReply x r).beforeSend = true := hb
    -- after the goal or its result no exchange before the goal follows
    by_cases hs : x = .sendGoal
    · subst hs
      rcases afterReply_sendGoal r with ⟨-, h'⟩ | ⟨-, o, h'⟩
      · rw [h'] at hb
        cases hb
      · rw [h'] at hb
        cases hb
    · by_cases hg : x = .getResult
      · subst hg
        obtain ⟨o, h'⟩ := afterReply_getResult r
        rw [h'] at hb
        cases hb
      · exact h.before (hbefore.mpr ⟨hs, hg⟩)
  · have ha : (afterReply x r).atResult = true := ha
    by_cases hs : x = .sendGoal
    · subst hs
      rcases afterReply_sendGoal r with ⟨hacc, -⟩ | ⟨-, o, h'⟩
      · exact hr true hacc
      · rw [h'] at ha
        cases ha
    · by_cases hg : x = .getResult
      · exact h.atResult (hresult.mpr hg)
      · rcases afterReply_lifecycle hs hg r with h' | ⟨y, -, hy, h'⟩ | h'
        · rw [h'] at ha
          cases ha
        · rw [h'] at ha
          exact absurd (of_decide_eq_true ha) hy
        · rw [h'] at ha
          cases ha
  · obtain ⟨status, res, hm⟩ := hrec
    rcases List.mem_append.mp hm with hm | hm
    · exact absurd ⟨status, res, hm⟩ (h.not_received ho)
    · obtain ⟨rfl, rfl⟩ : .getResult = x ∧ some (.result status res) = r := by simpa using hm
      exact ⟨h.atResult (hresult.mpr rfl), rfl⟩
  · simpa using h.noCancel

theorem GoalInv.step (h : GoalInv tr s) (hst : Ros.step k s a = some (s', es)) :
    GoalInv (tr ++ es) s' := by
  cases Move.of_step hst with
  | enter hpc =>
      refine h.goto (by rw [hpc]; rfl) (fun _ => by rw [hpc]; rfl) ?_ ?_
      · split <;> nofun
      · split <;> nofun
  | @call x hpc =>
      refine ⟨fun hb => ?_, fun hd => ?_, fun ha => h.atResult (by rw [hpc]; exact ha), nofun,
        fun hr => ?_, by simpa using h.noCancel⟩
      · have hx : x ≠ .sendGoal ∧ x ≠ .getResult := by simpa [Pc.beforeSend] using hb
        simpa [hx.1] using h.before (by simp [hpc, Pc.beforeSend, hx.2])
      · simp [h.decided hd]
      · refine absurd hr (not_received_append (h.not_received (by rw [hpc]; rfl)) ?_)
        simp
  | @replied x r hpc hf =>
      refine h.resume (by rw [hpc]; rfl) fun accepted hr => ?_
      exact (h.future x _ (by rw [hpc]; rfl) (hf.trans (congrArg some hr))).2 accepted rfl
  | @notDone x hpc hf => exact h.keepWaiting (x := x) (by rw [hpc]; rfl) rfl
  | cancelled hpc hc => exact h.goto (by rw [hpc]; rfl) nofun nofun nofun
  | @notCancelled x hpc hc => exact h.keepWaiting (x := x) (by rw [hpc]; rfl) rfl
  | goalFails hpc hg => exact h.goto (by rw [hpc]; rfl) nofun nofun nofun
  | goalBuilt hpc hg =>
      exact h.goto (by rw [hpc]; rfl) (fun _ => by rw [hpc]; rfl) nofun nofun
  | @service b hpc =>
      refine h.goto (by rw [hpc]; rfl) (fun _ => by rw [hpc]; rfl) ?_ ?_
      · split <;> nofun
      · split <;> nofun
  | @server b hpc =>
      refine h.goto (by rw [hpc]; rfl) (fun _ => by rw [hpc]; rfl) ?_ ?_
      · split <;> nofun
      · split <;> nofun
  | expired hpc => exact h.resume (by rw [hpc]; rfl) nofun
  | @notExpired x hpc => exact h.keepWaiting (x := x) (by rw [hpc]; rfl) rfl
  | @complete x r hx hf hc =>
      refine ⟨h.before, h.decided, h.atResult, fun y r' hy hf' => ?_, fun hr => ?_,
        by simpa using h.noCancel⟩
      · obtain rfl : x = y := Option.some.inj (hx.symm.trans hy)
        obtain rfl : r = some r' := Option.some.inj hf'
        cases r' with
        | handle accepted =>
            obtain ⟨hxs, hd⟩ : x = .sendGoal ∧ s.decision = some accepted := by
              simpa [State.canComplete] using hc
            refine ⟨by simp [Reply.fits, hxs], fun accepted' hacc => ?_⟩
            obtain rfl : accepted = accepted' := by simpa using hacc
            exact hd
        | state id => exact ⟨hc, nofun⟩
        | changed success => exact ⟨hc, nofun⟩
        | result status res => exact ⟨hc, nofun⟩
      · rw [List.append_nil] at hr
        exact h.received hr
  | @decide accept hsent hd =>
      refine ⟨fun hb => h.before hb, fun _ => hsent, fun ha => ?_, fun x r hx hf => ?_,
        fun hr => ?_, by simpa using h.noCancel⟩
      · have := h.atResult ha
        rw [hd] at this
        cases this
      · obtain ⟨hfit, hacc⟩ := h.future x r hx hf
        refine ⟨hfit, fun accepted hr => ?_⟩
        have := hacc accepted hr
        rw [hd] at this
        cases this
      · rw [List.append_nil] at hr
        have := (h.received hr).1
        rw [hd] at this
        cases this
  | request =>
      exact ⟨h.before, h.decided, h.atResult, h.future,
        fun hr => h.received (by rwa [List.append_nil] at hr), by simpa using h.noCancel⟩

theorem GoalInv.start (u : U) : GoalInv [] (State.start u : State U G R) where
  before _ := rfl
  decided h := absurd rfl h
  atResult h := by cases h
  future x r hx := by cases hx
  received h := by
    obtain ⟨status, res, hm⟩ := h
    cases hm
  noCancel := nofun

/-! ## Orphans -/

theorem GoalInv.not_accepted (h : GoalInv tr s) (hb : s.pc.beforeSend = true) :
    s.decision ≠ some true := by
  intro hd
  have hsent := h.decided (by rw [hd]; nofun)
  rw [h.before hb] at hsent
  cases hsent

theorem NoOrphan.step (hinv : GoalInv tr s) (h : NoOrphan tr s) (hP : KeepsGoal s a)
    (hst : Ros.step k s a = some (s', es)) : NoOrphan (tr ++ es) s' := by
  intro res hpc' hd
  cases Move.of_step hst with
  | enter hpc => exact absurd hd (hinv.not_accepted (by rw [hpc]; rfl))
  | call hpc => cases hpc'
  | @replied x r hpc hf =>
      have hx : s.pc.waitsFor = some x := by rw [hpc]; rfl
      cases r with
      | none => exact absurd hd (hP.1 (by simp [State.givesUp, hpc, hf]))
      | some r =>
          obtain ⟨hfit, hacc⟩ := hinv.future x r hx hf
          cases r with
          -- the reply is the decision, so it is positive and `execute` goes on
          | handle accepted =>
              have hda := hacc accepted rfl
              have hd' : s.decision = some true := hd
              obtain rfl : accepted = true := Option.some.inj (hda.symm.trans hd')
              obtain rfl : x = .sendGoal := by simpa [Reply.fits] using hfit
              cases hpc'
          -- the result has been received
          | result status result =>
              obtain rfl : x = .getResult := by simpa [Reply.fits] using hfit
              exact Or.inl ⟨status, result, List.mem_append_right _ List.mem_cons_self⟩
          | state id =>
              have hlife : x ≠ .sendGoal ∧ x ≠ .getResult := by
                constructor <;> rintro rfl <;> cases hfit
              exact absurd hd (hinv.not_accepted ((waitsFor_cases hx).2.1.mpr hlife))
          | changed success =>
              have hlife : x ≠ .sendGoal ∧ x ≠ .getResult := by
                constructor <;> rintro rfl <;> cases hfit
              exact absurd hd (hinv.not_accepted ((waitsFor_cases hx).2.1.mpr hlife))
  | notDone hpc hf => cases hpc'
  | cancelled hpc hc => exact absurd hd (hP.1 (by simp [State.givesUp, hpc, hc]))
  | notCancelled hpc hc => cases hpc'
  | goalFails hpc hg => exact absurd hd (hinv.not_accepted (by rw [hpc]; rfl))
  | goalBuilt hpc hg => cases hpc'
  | service hpc => exact absurd hd (hinv.not_accepted (by rw [hpc]; rfl))
  | server hpc => exact absurd hd (hinv.not_accepted (by rw [hpc]; rfl))
  -- the deadline passes with an accepted goal
  | expired hpc => exact absurd hd (hP.1 rfl)
  | notExpired hpc => cases hpc'
  | complete hx hf hc =>
      rw [List.append_nil]
      exact h res hpc' hd
  | @decide accept hsent hnone =>
      obtain rfl : accept = true := Option.some.inj hd
      -- a decision after the end is excluded
      have hover : s.pc.isOver = false := hP.2
      have hpc : s.pc = .ended res := hpc'
      rw [hpc] at hover
      cases hover
  | request =>
      rw [List.append_nil]
      exact h res hpc' hd

theorem afterReply_none (x : Exchange) : ∃ o, afterReply (R := R) x none = .ended (.ok o) := by
  cases x <;> exact ⟨_, rfl⟩

/-- A step that `KeepsGoal` excludes orphans the goal. -/
theorem GoalInv.orphan (hinv : GoalInv tr s) (hP : ¬ KeepsGoal s a)
    (hst : Ros.step k s a = some (s', es)) : ¬ NoOrphan (tr ++ es) s' := by
  intro h
  -- the goal is accepted, and its result has not been received
  have hno : ∀ res, s'.pc = .ended res → s'.decision = some true →
      ¬ Received (tr ++ es) → Event.cancelGoal ∉ es → False := by
    intro res hpc hd hrec hes
    rcases h res hpc hd with hr | hc
    · exact hrec hr
    · rcases List.mem_append.mp hc with hc | hc
      · exact hinv.noCancel hc
      · exact hes hc
  -- `KeepsGoal` fails in the decision of the server, or because `execute` gives up
  by_cases hg : s.givesUp a = true → s.decision ≠ some true
  · cases Move.of_step hst with
    | @decide accept hsent hnone =>
        have hrec : ¬ Received tr := by
          intro hr
          have := (hinv.received hr).1
          rw [hnone] at this
          cases this
        cases accept with
        | false => exact hP ⟨hg, trivial⟩
        | true =>
            cases hpc : s.pc with
            | ended res =>
                exact hno res hpc rfl (by rwa [List.append_nil]) nofun
            | _ => exact hP ⟨hg, by simp [hpc, Pc.isOver]⟩
    | _ => exact hP ⟨hg, trivial⟩
  · simp only [not_forall, not_not] at hg
    obtain ⟨hgive, hd⟩ := hg
    cases Move.of_step hst with
    | @replied x r hpc hf =>
        obtain rfl : r = none := by
          cases r with
          | none => rfl
          | some r => simp [State.givesUp, hpc, hf] at hgive
        obtain ⟨o, ho⟩ := afterReply_none (R := R) x
        refine hno _ ho hd (not_received_append (hinv.not_received (by rw [hpc]; rfl)) ?_) ?_
        · simp
        · simp
    | @expired x hpc =>
        obtain ⟨o, ho⟩ := afterReply_none (R := R) x
        refine hno _ ho hd (not_received_append (hinv.not_received (by rw [hpc]; rfl)) ?_) ?_
        · simp
        · simp
    | cancelled hpc hc =>
        refine hno _ rfl hd ?_ nofun
        rw [List.append_nil]
        exact hinv.not_received (by rw [hpc]; rfl)
    | enter hpc => simp [State.givesUp, hpc] at hgive
    | call hpc => simp [State.givesUp, hpc] at hgive
    | notDone hpc hf => simp [State.givesUp, hpc, hf] at hgive
    | notCancelled hpc hc => simp [State.givesUp, hpc, hc] at hgive
    | goalFails hpc hb => simp [State.givesUp, hpc] at hgive
    | goalBuilt hpc hb => simp [State.givesUp, hpc] at hgive
    | _ => cases hgive

end Steps

/-- **No goal is orphaned** in the runs whose steps all meet `KeepsGoal`, and the first step of
a run that does not meet it orphans the goal. -/
theorem no_orphan (k : Skill U G R) (u : U) :
    (∀ (tr : List (Event R)) (s : State U G R), Run (step k) KeepsGoal (.start u) tr s →
      NoOrphan tr s) ∧
    ∀ (tr es : List (Event R)) (s s' : State U G R) (a : Act R),
      Run (step k) anyStep (.start u) tr s → step k s a = some (s', es) →
        ¬ KeepsGoal s a → ¬ NoOrphan (tr ++ es) s' := by
  constructor
  · intro tr s hrun
    have hinv : GoalInv ([] ++ tr) s ∧ NoOrphan ([] ++ tr) s := by
      refine hrun.history (H := fun tr s => GoalInv tr s ∧ NoOrphan tr s) ?_
        ⟨GoalInv.start u, nofun⟩
      exact fun _ _ _ _ _ h hP hst => ⟨h.1.step hst, h.2.step h.1 hP hst⟩
    exact hinv.2
  · intro tr es s s' a hrun hst hP
    have hinv : GoalInv ([] ++ tr) s :=
      hrun.history (fun _ _ _ _ _ h _ hst => h.step hst) (GoalInv.start u)
    exact hinv.orphan hP hst

/-- A skill without a lifecycle node. -/
def openLoop : Skill Unit Unit Unit := ⟨none, fun _ => .ok (), fun u _ => u⟩

/-- The goal is accepted, and its result does not come within `goal_complete_timeout_sec`. -/
def lateResult : List (Act Unit) :=
  [.client, .available true, .client, .client, .decide true, .complete (some (.handle true)),
    .client, .client, .client, .clock true]

theorem not_always_no_orphan : ¬ ∀ (tr : List (Event Unit)) (s : State Unit Unit Unit),
    Run (step openLoop) anyStep (.start ()) tr s → NoOrphan tr s := by
  intro h
  have hacts : (runActs (step openLoop) anyStep (.start ()) lateResult).isSome := by decide
  have hlost := h [.called .sendGoal, .replied .sendGoal (some (.handle true)),
    .called .getResult, .replied .getResult none] _ (Run.of_isSome hacts)
  rcases hlost (.ok timeout) rfl rfl with ⟨status, res, hm⟩ | hm
  · simp at hm
  · simp at hm

/-- A goal whose result comes in time is not lost, and its steps all meet `KeepsGoal`. -/
example : (runActs (step openLoop) KeepsGoal (.start ())
    [.client, .available true, .client, .client, .decide true, .complete (some (.handle true)),
      .client, .client, .complete (some (.result statusSucceeded none)), .client]).isSome := by
  decide

end RobotTaskManager.Ros
