import RobotTaskManager.Rcs.Bridge

set_option autoImplicit false

/-! # Whose state a snapshot shows

A snapshot puts together the id of the order that was submitted last and the status message that
was received last. Nothing links the two: a submission changes the order under a message that was
there before, and a message may be about any goal of the executor. The snapshots of a schedule
are attributed to the right order exactly when each of the two meets the other one's order when
it comes (`MeetsOrder`).
-/

namespace RobotTaskManager.Rcs

open Interleaving Executor

variable {Dict : Type}

/-- Goal `g` was submitted under `orderId`, and accepted. -/
def OwnGoal (s : State Dict) (orderId : String) (g : Nat) : Prop :=
  ∃ sub ∈ s.submissions, sub.orderId = orderId ∧ sub.decision = some (.accepted g)

/-- A snapshot with an order id shows data of that order's goals only. A status other than `idle`
is the status of a goal, and a subjob id is the one that was submitted. -/
def Attributed (J : JsonModule Dict) (s : State Dict) : Prop :=
  let shown := s.bridge.snapshot J
  shown.orderId ≠ "" →
    (∀ g ∈ shown.goals, OwnGoal s shown.orderId g) ∧
    (shown.status ≠ "idle" → ∃ g ∈ shown.goals, OwnGoal s shown.orderId g) ∧
    (shown.subjobId ≠ "" → ∃ sub ∈ s.submissions, sub.orderId = shown.orderId ∧
      sub.request.subjobId = shown.subjobId ∧
      ∃ g ∈ shown.goals, sub.decision = some (.accepted g))

/-- The condition on a step: an order is submitted when the last message is about its own goals
or none, and while there is an order, the message that is received is about its own goals or
none. -/
def MeetsOrder (s : State Dict) : Act Dict → Prop
  | .submitOrder req uuid true =>
      ∀ r, s.bridge.lastState = some r → ∀ g ∈ r.goals, OwnGoal s (req.effectiveId uuid) g
  | .onStatus => s.bridge.lastOrderId ≠ "" →
      ∀ r, s.queue.head? = some r → ∀ g ∈ r.goals, OwnGoal s s.bridge.lastOrderId g
  | _ => True

/-! ## What a message says is said of its goals -/

/-- A status in a message is the status of a goal, and the subjob id that of a goal. -/
structure Sourced (executor : Executor.State Dict) (r : Report) : Prop where
  status : r.msg.status ≠ .idle → r.goals ≠ []
  subjobId : r.msg.subjobId ≠ "" → ∃ g ∈ r.goals, ∃ goal : Goal Dict,
    executor.goals[g]? = some goal ∧ goal.request.subjobId = r.msg.subjobId

/-- What holds in every state: the owners of the status fields are right, the messages are
sourced, and an accepted submission is the goal it says it is. -/
structure Honest (s : State Dict) : Prop where
  status : s.executor.node.currentStatus ≠ .idle → ∃ g, s.owner .status = some g
  subjobId : s.executor.node.currentSubjobId ≠ "" → ∃ g, s.owner .subjobId = some g ∧
    ∃ goal : Goal Dict, s.executor.goals[g]? = some goal ∧
      goal.request.subjobId = s.executor.node.currentSubjobId
  last : ∀ r, s.bridge.lastState = some r → Sourced s.executor r
  queue : ∀ r ∈ s.queue, Sourced s.executor r
  goal : ∀ sub ∈ s.submissions, ∀ g, sub.decision = some (.accepted g) →
    ∃ goal : Goal Dict, s.executor.goals[g]? = some goal ∧ goal.request = sub.request

section Steps

variable {J : JsonModule Dict} {s s' : State Dict} {act : Act Dict} {es : List (Event Dict)}

/-- The goals of `e` are goals of `e'`, with the same requests. -/
def Extends (e e' : Executor.State Dict) : Prop :=
  ∀ (g : Nat) (goal : Goal Dict), e.goals[g]? = some goal →
    ∃ goal' : Goal Dict, e'.goals[g]? = some goal' ∧ goal'.request = goal.request

theorem Sourced.extends {e e' : Executor.State Dict} {r : Report} (h : Sourced e r)
    (he : Extends e e') : Sourced e' r where
  status := h.status
  subjobId hid := by
    obtain ⟨g, hg, goal, hgoal, heq⟩ := h.subjobId hid
    obtain ⟨goal', hgoal', hreq⟩ := he g goal hgoal
    exact ⟨g, hg, goal', hgoal', by rw [hreq, heq]⟩

theorem Honest.init (now : Nat) : Honest (State.init now : State Dict) where
  status h := absurd rfl h
  subjobId h := absurd rfl h
  last _ h := nomatch h
  queue _ h := nomatch h
  goal _ h := nomatch h

/-- A message that is formed in an honest state is sourced. -/
theorem Honest.report (hinv : Honest s) (live : LivePath) (now : Nat) :
    Sourced s.executor (s.report live now) where
  status h := by
    obtain ⟨g, hg⟩ := hinv.status h
    apply List.append_ne_nil_of_left_ne_nil
    apply List.ne_nil_of_mem (a := g)
    exact List.mem_filterMap.mpr ⟨.status, by simp, hg⟩
  subjobId h := by
    obtain ⟨g, hg, goal, hgoal, heq⟩ := hinv.subjobId h
    refine ⟨g, ?_, goal, hgoal, heq⟩
    apply List.mem_append_left
    exact List.mem_filterMap.mpr ⟨.subjobId, by simp, hg⟩

theorem returnedFields_mem (o : Outcome) (snapshot : Except String String) :
    .status ∈ returnedFields o snapshot ∧ .subjobId ∉ returnedFields o snapshot := by
  unfold returnedFields
  split <;> simp

/-- A step of an `_execute_goal` owns the status and the subjob id it sets. -/
theorem owner_of_goalStep {n n' : NodeState} {g : Nat} {req : GoalRequest} {pc pc' : GoalPc Dict}
    {a : GoalAct} {es : List Executor.Event} (h : GoalStep J n g req pc a n' pc' es) :
    (.status ∈ written J req pc a ∨ n'.currentStatus = n.currentStatus) ∧
    ((.subjobId ∈ written J req pc a ∧ n'.currentSubjobId = req.subjobId) ∨
      (.subjobId ∉ written J req pc a ∧ n'.currentSubjobId = n.currentSubjobId)) := by
  cases h with
  | start hp hu => simp [written, hp, hu, NodeState.startSection]
  | startRaises hp =>
      rcases hp with hp | ⟨_, hp, hu⟩
      · simp [written, hp]
      · simp [written, hp, hu]
  | @finishRaises o _ _ snapshot => simp [written, returnedFields_mem o snapshot]
  | @finishReturned o _ _ snapshot => simp [written, returnedFields_mem o snapshot]
  | finishCancelled => simp [written, NodeState.cancelledSection]
  | finishFailure => simp [written, NodeState.failureSection]
  | publishSpec => simp [written, NodeState.specSection]
  | _ => simp [written]

/-- The goals of the executor have moved on, and the owners of the status fields are right. -/
theorem Honest.extend (hinv : Honest s) {e : Executor.State Dict} {owner : Field → Option Nat}
    (hext : Extends s.executor e)
    (hstatus : e.node.currentStatus ≠ .idle → ∃ g, owner .status = some g)
    (hsubjobId : e.node.currentSubjobId ≠ "" → ∃ g, owner .subjobId = some g ∧
      ∃ goal : Goal Dict, e.goals[g]? = some goal ∧
        goal.request.subjobId = e.node.currentSubjobId) :
    Honest { s with executor := e, owner } where
  status := hstatus
  subjobId := hsubjobId
  last r hr := (hinv.last r hr).extends hext
  queue r hr := (hinv.queue r hr).extends hext
  goal sub hsub g hd := by
    obtain ⟨goal, hgoal, heq⟩ := hinv.goal sub hsub g hd
    obtain ⟨goal', hgoal', hreq⟩ := hext g goal hgoal
    exact ⟨goal', hgoal', hreq.trans heq⟩

/-- The status fields are as they were. -/
theorem Honest.frame (hinv : Honest s) {e : Executor.State Dict} (hext : Extends s.executor e)
    (hnode : e.node = s.executor.node) : Honest { s with executor := e, owner := s.owner } := by
  apply hinv.extend hext
  · rw [hnode]
    exact hinv.status
  · rw [hnode]
    intro h
    obtain ⟨g, hg, goal, hgoal, heq⟩ := hinv.subjobId h
    obtain ⟨goal', hgoal', hreq⟩ := hext g goal hgoal
    exact ⟨g, hg, goal', hgoal', by rw [hreq, heq]⟩

theorem Honest.executor (hinv : Honest s) {a : Executor.Act} {e : Executor.State Dict}
    {es : List Executor.Event} (hst : Executor.step J s.executor a = some (e, es)) :
    Honest { s with executor := e, owner := s.ownerAfter J a } := by
  have hext : Extends s.executor e := fun g goal hg => Executor.step_request hst hg
  rcases Executor.step_cases hst with ⟨_, rfl, -, rfl, -⟩ | ⟨_, rfl, -, rfl, -⟩ |
    ⟨g, b, goal, node, pc, rfl, hg, hs, rfl⟩ | ⟨_, rfl, -, -, rfl⟩ | ⟨_, _, _, rfl, -, -, rfl⟩
  · exact hinv.frame hext rfl
  · exact hinv.frame hext rfl
  · obtain ⟨hstatus, hsubjobId⟩ := owner_of_goalStep hs
    apply hinv.extend hext
    · intro h
      by_cases hw : Field.status ∈ written J goal.request goal.pc b
      · exact ⟨g, by simp [State.ownerAfter, hg, hw]⟩
      · obtain ⟨o, ho⟩ := hinv.status (by rwa [hstatus.resolve_left hw] at h)
        exact ⟨o, by simp [State.ownerAfter, hg, hw, ho]⟩
    · intro h
      rcases hsubjobId with ⟨hw, heq⟩ | ⟨hw, heq⟩
      · obtain ⟨goal', hgoal', hreq⟩ := hext g goal hg
        exact ⟨g, by simp [State.ownerAfter, hg, hw], goal', hgoal', by rw [hreq, heq]⟩
      · obtain ⟨o, ho, u, hu, huid⟩ := hinv.subjobId (by rwa [heq] at h)
        obtain ⟨u', hu', hreq⟩ := hext o u hu
        exact ⟨o, by simp [State.ownerAfter, hg, hw, ho], u', hu', by rw [hreq, huid, heq]⟩
  · exact hinv.frame hext rfl
  · exact hinv.frame hext rfl

/-- A submission that has been replaced by one with the same request. -/
theorem Honest.setSubmission (hinv : Honest s) {k : Nat} {sub' : Submission}
    (hgoal : ∀ g, sub'.decision = some (.accepted g) →
      ∃ goal : Goal Dict, s.executor.goals[g]? = some goal ∧ goal.request = sub'.request) :
    Honest { s with submissions := s.submissions.set k sub' } := by
  refine { hinv with goal := fun u hu g hd => ?_ }
  rcases List.mem_or_eq_of_mem_set hu with hu | rfl
  · exact hinv.goal u hu g hd
  · exact hgoal g hd

theorem Honest.step (hinv : Honest s) (hst : Rcs.step J s act = some (s', es)) : Honest s' := by
  cases step_cases hst with
  | unavailable => exact hinv
  | canceled => exact hinv
  | snapshot => exact hinv
  | submitted =>
      refine { hinv with goal := fun u hu g hd => ?_ }
      rcases List.mem_append.mp hu with hu | hu
      · exact hinv.goal u hu g hd
      · obtain rfl := List.mem_singleton.mp hu
        cases hd
  | rejected _ _ _ => exact hinv.setSubmission nofun
  | @accepted k sub _ _ _ =>
      have hext : Extends s.executor
          { s.executor with goals := s.executor.goals ++ [⟨sub.request, .accepted⟩] } := by
        intro g goal hg
        have hlt := (List.getElem?_eq_some_iff.mp hg).choose
        exact ⟨goal, (List.getElem?_append_left hlt).trans hg, rfl⟩
      refine (hinv.frame hext rfl).setSubmission fun g hd => ?_
      cases hd
      exact ⟨⟨sub.request, .accepted⟩, List.getElem?_concat_length, rfl⟩
  | @answered k sub d hk hd =>
      exact hinv.setSubmission (hinv.goal sub (List.mem_of_getElem? hk))
  | executor hex => exact hinv.executor hex
  | publish =>
      refine { hinv with queue := fun r hr => ?_ }
      rcases List.mem_append.mp hr with hr | hr
      · exact hinv.queue r hr
      · obtain rfl := List.mem_singleton.mp hr
        exact hinv.report _ _
  | @onStatus r rest hq =>
      have hmem : ∀ u ∈ r :: rest, Sourced s.executor u := hq ▸ hinv.queue
      exact { hinv with
        last := fun u hu => hmem u (Option.some.inj hu ▸ List.mem_cons_self)
        queue := fun u hu => hmem u (List.mem_cons_of_mem r hu) }

/-! ## The condition is exact -/

/-- An acceptance stands. -/
theorem OwnGoal.step {orderId : String} {g : Nat} (h : OwnGoal s orderId g)
    (hst : Rcs.step J s act = some (s', es)) : OwnGoal s' orderId g := by
  obtain ⟨u, hu, hid, hd⟩ := h
  -- a submission that is replaced had no decision yet, or keeps the one it had
  have hset (k : Nat) (sub sub' : Submission) (hk : s.submissions[k]? = some sub)
      (hsub : sub.decision = some (.accepted g) →
        sub'.orderId = sub.orderId ∧ sub'.decision = sub.decision) :
      ∃ u ∈ s.submissions.set k sub', u.orderId = orderId ∧ u.decision = some (.accepted g) := by
    obtain ⟨i, hi⟩ := List.mem_iff_getElem?.mp hu
    by_cases hki : k = i
    · subst hki
      obtain rfl := Option.some.inj (hi.symm.trans hk)
      obtain ⟨h1, h2⟩ := hsub hd
      have hlt := (List.getElem?_eq_some_iff.mp hk).choose
      exact ⟨sub', List.mem_iff_getElem?.mpr ⟨k, List.getElem?_set_self hlt⟩, h1.trans hid,
        h2.trans hd⟩
    · exact ⟨u, List.mem_iff_getElem?.mpr ⟨i, (List.getElem?_set_ne hki).trans hi⟩, hid, hd⟩
  cases step_cases hst with
  | submitted => exact ⟨u, List.mem_append_left _ hu, hid, hd⟩
  | rejected hk hn _ => exact hset _ _ _ hk fun h => absurd (hn.symm.trans h) nofun
  | accepted hk hn _ => exact hset _ _ _ hk fun h => absurd (hn.symm.trans h) nofun
  | answered hk hd => exact hset _ _ _ hk fun _ => ⟨rfl, rfl⟩
  | _ => exact ⟨u, hu, hid, hd⟩

/-- In an honest state, the goals of the last message are all there is to check. -/
theorem attributed_iff (hinv : Honest s) : Attributed J s ↔ (s.bridge.lastOrderId ≠ "" →
    ∀ r, s.bridge.lastState = some r → ∀ g ∈ r.goals, OwnGoal s s.bridge.lastOrderId g) := by
  unfold Attributed Bridge.snapshot
  cases hlast : s.bridge.lastState with
  | none => simp
  | some r =>
      have hsourced := hinv.last r hlast
      constructor
      · intro h hid u hu
        obtain rfl := Option.some.inj hu
        exact (h hid).1
      · intro h shown hid
        have hown := h hid r rfl
        refine ⟨hown, fun hstatus => ?_, fun hsubjobId => ?_⟩
        · have hne : r.goals ≠ [] := hsourced.status fun heq => hstatus (congrArg statusLabel heq)
          obtain ⟨g, hg⟩ := List.exists_mem_of_ne_nil r.goals hne
          exact ⟨g, hg, hown g hg⟩
        · obtain ⟨g, hg, goal, hgoal, heq⟩ := hsourced.subjobId hsubjobId
          obtain ⟨sub, hsub, hsubId, hd⟩ := hown g hg
          obtain ⟨goal', hgoal', hreq⟩ := hinv.goal sub hsub g hd
          obtain rfl := Option.some.inj (hgoal.symm.trans hgoal')
          exact ⟨sub, hsub, hsubId, by rw [← hreq, heq], g, hg, hd⟩

theorem effectiveId_ne (req : OrderRequest Dict) (uuid : Uuid) : req.effectiveId uuid ≠ "" := by
  unfold OrderRequest.effectiveId
  split
  · exact uuid.ne
  · assumption

/-- A step that changes neither the order nor the message of the bridge keeps an attributed
snapshot attributed. -/
theorem Attributed.frame (hinv : Honest s) (hatt : Attributed J s)
    (hst : Rcs.step J s act = some (s', es)) (hbridge : s'.bridge = s.bridge) :
    Attributed J s' := by
  rw [attributed_iff hinv] at hatt
  rw [attributed_iff (hinv.step hst), hbridge]
  intro hid r hr g hg
  exact (hatt hid r hr g hg).step hst

theorem attributed_step_iff (hinv : Honest s) (hatt : Attributed J s)
    (hst : Rcs.step J s act = some (s', es)) : Attributed J s' ↔ MeetsOrder s act := by
  have hframe : s'.bridge = s.bridge → Attributed J s' := hatt.frame hinv hst
  have hiff := attributed_iff (J := J) (hinv.step hst)
  cases step_cases hst with
  | @submitted req uuid =>
      rw [hiff]
      -- the new submission has no decision, so it owns no goal
      have hown (g : Nat) : OwnGoal
          { s with
            bridge := (s.bridge.submitOrder s.submissions.length (req.effectiveId uuid)).1
            submissions := s.submissions ++ [⟨req.effectiveId uuid, req.goal J, none, false⟩] }
          (req.effectiveId uuid) g ↔ OwnGoal s (req.effectiveId uuid) g := by
        simp [OwnGoal]
      constructor
      · intro h r hr g hg
        exact (hown g).mp (h (effectiveId_ne req uuid) r hr g hg)
      · intro h _ r hr g hg
        exact (hown g).mpr (h r hr g hg)
  | @onStatus r rest hq =>
      rw [hiff]
      show _ ↔ (s.bridge.lastOrderId ≠ "" →
        ∀ u, s.queue.head? = some u → ∀ g ∈ u.goals, OwnGoal s s.bridge.lastOrderId g)
      rw [hq]
      exact Iff.rfl
  | _ => exact iff_of_true (hframe rfl) trivial

end Steps

/-- **State attribution.** All snapshots that can be taken in the course of a schedule show the
state of their own order exactly when every submission and every message meets the other one's
order. -/
theorem snapshots_attributed_iff (J : JsonModule Dict) (now : Nat) (as : List (Act Dict)) :
    Throughout (step J) (Attributed J) (State.init now) as ↔
      Obeys (step J) MeetsOrder (State.init now) as := by
  apply throughout_iff_obeys (J := Honest)
  · intro s a s' es hinv _ hst
    exact hinv.step hst
  · intro s a s' es hinv hatt hst
    exact attributed_step_iff hinv hatt hst
  · exact Honest.init now
  · exact (attributed_iff (Honest.init now)).mpr fun h => absurd rfl h

/-! ## A running order under another order's id -/

/-- The goal of order `o1` runs, and the bridge has received its status. -/
def runningOrder : List (Act Unit) :=
  [.submitOrder (plainOrder "Patrol" "o1") anyUuid true, .arrive 0, .executor (.goal 0 (.start 0)),
    .publish ⟨"", none⟩ 0, .onStatus]

/-- Order `o2` is submitted meanwhile. -/
def secondOrder : List (Act Unit) :=
  runningOrder ++ [.submitOrder (plainOrder "Survey" "o2") anyUuid true]

instance (s : State Dict) (orderId : String) (g : Nat) : Decidable (OwnGoal s orderId g) :=
  inferInstanceAs (Decidable (∃ sub ∈ s.submissions, _))

/-- A snapshot reports `o2` as running when it is `o1` that runs. -/
theorem not_always_attributed : ¬ ∀ (now : Nat) (as : List (Act Unit)),
    Throughout (step emptyDicts) (Attributed emptyDicts) (State.init now) as := by
  intro h
  have hrun : (runActs (step emptyDicts) anyStep (State.init 0) secondOrder).isSome := by decide
  have hatt := (h 0 secondOrder).of_runActs (Option.some_get hrun).symm
  exact absurd (hatt (by decide)).1 (by decide)

end RobotTaskManager.Rcs
