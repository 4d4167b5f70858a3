import RobotTaskManager.Ros.Protocol

set_option autoImplicit false

/-! # What one invocation leaves behind

An `execute` of a skill state that nobody cancels, seen from the state machine that invokes it: its
result, the goal that it has sent, if any, and userdata (`Invocation`). The goal is the one that
`build_goal` makes of userdata at the start, and `execute` raises only what `build_goal` raises.
-/

namespace RobotTaskManager.Ros

open Interleaving
open Engine (Exc Result)

variable {U G R : Type} {k : Skill U G R} {u : U}

/-- Nobody requests the token. -/
def Uncancelled (_ : State U G R) : Act R → Prop
  | .request => False
  | _ => True

/-- The goal has been sent and is not done with. -/
def Pc.awaitsServer : Pc → Bool
  | .call x => x = .getResult
  | .done x => x = .sendGoal || x = .getResult
  | .deadline x => x = .sendGoal || x = .getResult
  | .token x => x = .sendGoal || x = .getResult
  | _ => false

/-- Where the goal comes from, and which ends of `execute` go with it. -/
structure SentInv (k : Skill U G R) (u : U) (s : State U G R) : Prop where
  cancelled : s.cancelled = false
  userdata : s.pc.isOver = false → s.userdata = u
  goal : ∀ g, s.goal = some g → k.buildGoal u = .ok g
  built : s.pc = .call .sendGoal → s.goal.isSome = true
  sent : s.sent = true → s.goal.isSome = true
  awaits : s.pc.awaitsServer = true → s.sent = true
  success : s.pc = .ended (.ok succeeded) → s.sent = true
  raised : ∀ e, s.pc = .ended (.error e) → k.buildGoal u = .error e

theorem SentInv.start (k : Skill U G R) (u : U) : SentInv k u (.start u) where
  cancelled := rfl
  userdata _ := rfl
  goal g h := by cases h
  built h := by cases h
  sent h := by cases h
  awaits h := by cases h
  success h := by cases h
  raised e h := by cases h

/-- Where `execute` goes after a reply. -/
theorem afterReply_next (x : Exchange) (r : Option (Reply R)) : afterReply x r = .waitForServer ∨
    (∃ y, y ≠ .sendGoal ∧ (y = .getResult → x = .sendGoal) ∧ afterReply x r = .call y) ∨
    ∃ o, (o = succeeded → x = .getResult) ∧ afterReply x r = .ended (.ok o) := by
  by_cases hs : x = .sendGoal
  · subst hs
    simp only [afterReply]
    split
    · split
      · exact Or.inr (Or.inl ⟨.getResult, by decide, fun _ => trivial, rfl⟩)
      · exact Or.inr (Or.inr ⟨rejected, fun h => absurd h (by decide), rfl⟩)
    · exact Or.inr (Or.inr ⟨timeout, fun h => absurd h (by decide), rfl⟩)
  · by_cases hr : x = .getResult
    · subst hr
      obtain ⟨o, h⟩ := afterReply_getResult r
      exact Or.inr (Or.inr ⟨o, fun _ => rfl, h⟩)
    · rcases afterReply_lifecycle hs hr r with h | ⟨y, hy, hy', h⟩ | h
      · exact Or.inl h
      · exact Or.inr (Or.inl ⟨y, hy, fun heq => absurd heq hy', h⟩)
      · exact Or.inr (Or.inr ⟨lifecycleError, fun h => absurd h (by decide), h⟩)

section Steps

variable {s s' : State U G R} {a : Act R} {es : List (Event R)}

/-- A step that only moves on to another position. -/
theorem SentInv.goto (h : SentInv k u s) {pc : Pc} (ho : s.pc.isOver = false)
    (hbuilt : pc ≠ .call .sendGoal) (hawaits : pc.awaitsServer = true → s.pc.awaitsServer = true)
    (hsuccess : pc ≠ .ended (.ok succeeded)) (hraised : ∀ e, pc ≠ .ended (.error e)) :
    SentInv k u { s with pc := pc } where
  cancelled := h.cancelled
  userdata _ := h.userdata ho
  goal := h.goal
  built hpc := absurd hpc hbuilt
  sent := h.sent
  awaits hpc := h.awaits (hawaits hpc)
  success hpc := absurd hpc hsuccess
  raised e hpc := absurd hpc (hraised e)

/-- `_wait_future` returns. -/
theorem SentInv.resume (h : SentInv k u s) {x : Exchange} {r : Option (Reply R)}
    (ho : s.pc.isOver = false)
    (hawaits : x = .sendGoal ∨ x = .getResult → s.pc.awaitsServer = true) :
    SentInv k u (s.resume k x r) where
  cancelled := h.cancelled
  userdata hpc := by
    have hpc : (afterReply x r).isOver = false := hpc
    show userdataAfter k s.userdata x r = u
    unfold userdataAfter
    split
    -- the result of the goal ends `execute`
    · obtain ⟨o, heq⟩ := afterReply_getResult (R := R) (some (.result _ (some _)))
      rw [heq] at hpc
      cases hpc
    · exact h.userdata ho
  goal := h.goal
  built hpc := by
    have hpc : afterReply x r = .call .sendGoal := hpc
    rcases afterReply_next x r with heq | ⟨y, hy, -, heq⟩ | ⟨o, -, heq⟩
    · cases heq.symm.trans hpc
    · cases heq.symm.trans hpc
      exact absurd rfl hy
    · cases heq.symm.trans hpc
  sent := h.sent
  awaits hpc := by
    have hpc : (afterReply x r).awaitsServer = true := hpc
    rcases afterReply_next x r with heq | ⟨y, -, hy, heq⟩ | ⟨o, -, heq⟩
    · rw [heq] at hpc
      cases hpc
    · rw [heq] at hpc
      exact h.awaits (hawaits (Or.inl (hy (of_decide_eq_true hpc))))
    · rw [heq] at hpc
      cases hpc
  success hpc := by
    have hpc : afterReply x r = .ended (.ok succeeded) := hpc
    rcases afterReply_next x r with heq | ⟨y, -, -, heq⟩ | ⟨o, hsucc, heq⟩
    · cases heq.symm.trans hpc
    · cases heq.symm.trans hpc
    · cases heq.symm.trans hpc
      exact h.awaits (hawaits (Or.inr (hsucc rfl)))
  raised e hpc := by
    have hpc : afterReply x r = .ended (.error e) := hpc
    rcases afterReply_next x r with heq | ⟨y, -, -, heq⟩ | ⟨o, -, heq⟩
    · cases heq.symm.trans hpc
    · cases heq.symm.trans hpc
    · cases heq.symm.trans hpc

/-- A step from one test of `_wait_future` to the next. -/
theorem SentInv.keepWaiting (h : SentInv k u s) {x : Exchange} {pc : Pc}
    (ho : s.pc.isOver = false) (hx : pc.waitsFor = some x)
    (hsame : s.pc.awaitsServer = pc.awaitsServer) : SentInv k u { s with pc := pc } := by
  refine h.goto ho ?_ (fun hawaits => hsame.trans hawaits) ?_ ?_
  · rintro rfl
    cases hx
  · rintro rfl
    cases hx
  · rintro e rfl
    cases hx

theorem SentInv.call (h : SentInv k u s) {x : Exchange} (hpc : s.pc = .call x) :
    SentInv k u { s with pc := .done x, future := none, sent := s.sent || x = .sendGoal } where
  cancelled := h.cancelled
  userdata _ := h.userdata (by rw [hpc]; rfl)
  goal := h.goal
  built hpc' := by cases hpc'
  sent hsent := by
    rcases (Bool.or_eq_true _ _).mp hsent with hs | hx
    · exact h.sent hs
    · obtain rfl : x = .sendGoal := of_decide_eq_true hx
      exact h.built hpc
  awaits hawaits := by
    have hx : x = .sendGoal ∨ x = .getResult := by simpa [Pc.awaitsServer] using hawaits
    rcases hx with rfl | rfl
    · simp
    · simpa using h.awaits (by rw [hpc]; rfl)
  success hpc' := by cases hpc'
  raised e hpc' := by cases hpc'

theorem SentInv.step (h : SentInv k u s) (hP : Uncancelled s a)
    (hst : Ros.step k s a = some (s', es)) : SentInv k u s' := by
  have hkeep : ∀ f d, SentInv k u { s with future := f, decision := d } := fun f d =>
    ⟨h.cancelled, h.userdata, h.goal, h.built, h.sent, h.awaits, h.success, h.raised⟩
  cases Move.of_step hst with
  | enter hpc =>
      refine h.goto (by rw [hpc]; rfl) ?_ ?_ ?_ ?_
      all_goals cases k.serverNodeName.isSome <;> simp [Pc.awaitsServer]
  | call hpc => exact h.call hpc
  | replied hpc hf => exact h.resume (by rw [hpc]; rfl) (by rw [hpc]; simp [Pc.awaitsServer])
  | notDone hpc hf => exact h.keepWaiting (by rw [hpc]; rfl) rfl (by rw [hpc]; rfl)
  | cancelled hpc hc => cases hc.symm.trans h.cancelled
  | notCancelled hpc hc => exact h.keepWaiting (by rw [hpc]; rfl) rfl (by rw [hpc]; rfl)
  | @goalFails e hpc hg =>
      have hu := h.userdata (by rw [hpc]; rfl)
      rw [hu] at hg
      refine ⟨h.cancelled, fun _ => hu, h.goal, by simp, h.sent, by simp [Pc.awaitsServer],
        by simp, fun e' he => ?_⟩
      cases he
      exact hg
  | @goalBuilt g hpc hg =>
      have hu := h.userdata (by rw [hpc]; rfl)
      rw [hu] at hg
      refine ⟨h.cancelled, fun _ => hu, fun g' hg' => ?_, fun _ => rfl, fun _ => rfl,
        by simp [Pc.awaitsServer], by simp, by simp⟩
      cases hg'
      exact hg
  | @service b hpc =>
      refine h.goto (by rw [hpc]; rfl) ?_ ?_ ?_ ?_
      all_goals cases b <;> simp [Pc.awaitsServer, lifecycleError, succeeded]
  | @server b hpc =>
      refine h.goto (by rw [hpc]; rfl) ?_ ?_ ?_ ?_
      all_goals cases b <;> simp [Pc.awaitsServer, timeout, succeeded]
  | expired hpc => exact h.resume (by rw [hpc]; rfl) (by rw [hpc]; simp [Pc.awaitsServer])
  | notExpired hpc => exact h.keepWaiting (by rw [hpc]; rfl) rfl (by rw [hpc]; rfl)
  | complete hx hf hc => exact hkeep _ _
  | decide hsent hd => exact hkeep _ _
  | request => exact absurd hP id

end Steps

/-! ## Invocations -/

/-- An invocation of `execute` that nobody cancels, from start to end. -/
structure Invocation (k : Skill U G R) (u : U) where
  state : State U G R
  result : Result
  run : ∃ tr, Run (step k) Uncancelled (.start u) tr state
  ended : state.pc = .ended result

namespace Invocation

variable (i : Invocation k u)

/-- The goal that has been sent. -/
def sentGoal : Option G := if i.state.sent then i.state.goal else none

theorem sentInv : SentInv k u i.state := by
  obtain ⟨tr, hrun⟩ := i.run
  exact hrun.invariant (fun _ _ _ _ hI hP hst => hI.step hP hst) (SentInv.start k u)

theorem result_mem {o : String} (h : i.result = .ok o) : o ∈ actionOutcomes := by
  obtain ⟨tr, hrun⟩ := i.run
  exact (protocolInv_of_run hrun).outcome o (h ▸ i.ended)

/-- It raises what `build_goal` raises, and nothing has been sent then. -/
theorem raised {e : Exc} (h : i.result = .error e) :
    k.buildGoal u = .error e ∧ i.sentGoal = none := by
  have hraised := i.sentInv.raised e (h ▸ i.ended)
  refine ⟨hraised, ?_⟩
  cases hg : i.sentGoal with
  | none => rfl
  | some g =>
      unfold sentGoal at hg
      split at hg
      · cases hraised.symm.trans (i.sentInv.goal g hg)
      · cases hg

theorem sentGoal_ok {g : G} (h : i.sentGoal = some g) : k.buildGoal u = .ok g := by
  unfold sentGoal at h
  split at h
  · exact i.sentInv.goal g h
  · cases h

/-- A success has been sent a goal for. -/
theorem sentGoal_of_succeeded (h : i.result = .ok succeeded) :
    ∃ g, i.sentGoal = some g ∧ k.buildGoal u = .ok g := by
  have hsent := i.sentInv.success (h ▸ i.ended)
  obtain ⟨g, hg⟩ := Option.isSome_iff_exists.mp (i.sentInv.sent hsent)
  exact ⟨g, by rw [sentGoal, if_pos hsent, hg], i.sentInv.goal g hg⟩

/-- Userdata changes by the result of a goal that has succeeded only. -/
theorem userdata : i.state.userdata = u ∨
    i.result = .ok succeeded ∧ ∃ res, i.state.userdata = k.onResult u res := by
  obtain ⟨tr, hrun⟩ := i.run
  rcases (protocolInv_of_run hrun).userdata with h | ⟨hpc, -, res, -, h⟩
  · exact Or.inl h
  · have hresult : i.result = .ok succeeded := Pc.ended.inj (i.ended.symm.trans hpc)
    exact Or.inr ⟨hresult, res, h⟩

end Invocation

end RobotTaskManager.Ros
