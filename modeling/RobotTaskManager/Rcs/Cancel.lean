import RobotTaskManager.Rcs.Bridge

set_option autoImplicit false

/-! # Cancelling an order

`_pending` holds one future for an order id: a new submission under the id takes the place of the
one before, whatever becomes of it. So `cancel_order` gets at the goal of a submission exactly when
no other was made under its id since, and the acceptance has come back.
-/

namespace RobotTaskManager.Rcs

open Interleaving Executor

variable {Dict : Type}

/-- `_execute_goal` has neither returned nor raised. -/
def Unfinished : GoalPc Dict → Prop
  | .ended _ => False
  | .raised _ => False
  | _ => True

/-- Submission `k` was made under `orderId`, and its goal has been accepted and is not finished. -/
structure Live (s : State Dict) (k : Nat) (sub : Submission) : Prop where
  submitted : s.submissions[k]? = some sub
  accepted : ∃ (g : Nat) (goal : Goal Dict), sub.decision = some (.accepted g) ∧
    s.executor.goals[g]? = some goal ∧ Unfinished goal.pc

/-- `cancel_order(orderId)` sends a cancel for the handle of submission `k`. -/
def Cancels (s : State Dict) (orderId : String) (k : Nat) : Prop :=
  (s.bridge.cancelOrder s.submissions orderId).2 = some k

/-- No submission after number `k` was made under `orderId`. -/
def Latest (s : State Dict) (orderId : String) (k : Nat) : Prop :=
  ∀ (n : Nat) (sub : Submission), s.submissions[n]? = some sub → sub.orderId = orderId → n ≤ k

/-! ## The dict of pending futures -/

/-- In the dict that `ids` have been assigned to, one after the other with their numbers, a key
has the last of its numbers. -/
theorem lookup_latest (ids : List String) (o : String) (n : Nat) :
    ids.zipIdx.reverse.lookup o = some n ↔
      ids[n]? = some o ∧ ∀ m, ids[m]? = some o → m ≤ n := by
  induction ids using List.reverseRecOn with
  | nil => simp
  | append_singleton ids x ih =>
      have hdict : (ids ++ [x]).zipIdx.reverse = (x, ids.length) :: ids.zipIdx.reverse := by
        simp [List.zipIdx_append]
      rw [hdict, List.lookup_cons]
      have hget (m : Nat) : (ids ++ [x])[m]? = some o ↔
          ids[m]? = some o ∨ (m = ids.length ∧ x = o) := by
        rcases lt_trichotomy m ids.length with hm | rfl | hm
        · rw [List.getElem?_append_left hm]
          exact (or_iff_left fun h => by omega).symm
        · simp
        · have hnone : ids[m]? = none := List.getElem?_eq_none hm.le
          have hnone' : (ids ++ [x])[m]? = none := List.getElem?_eq_none (by simp; omega)
          simp [hnone, hnone', hm.ne']
      have hlt (m : Nat) (h : ids[m]? = some o) : m < ids.length :=
        (List.getElem?_eq_some_iff.mp h).choose
      by_cases hx : x = o
      · subst hx
        simp only [beq_self_eq_true, Option.some.injEq, hget, and_true]
        constructor
        · rintro rfl
          refine ⟨Or.inr rfl, fun m hm => ?_⟩
          rcases hm with hm | rfl
          · exact (hlt m hm).le
          · exact le_rfl
        · rintro ⟨hn | rfl, hmax⟩
          · have := hmax ids.length (Or.inr rfl)
            have := hlt n hn
            omega
          · rfl
      · have hne : (o == x) = false := by simpa using fun h => hx h.symm
        rw [hne]
        simp only [hget, hx, and_false, or_false]
        exact ih

/-- The dict is what the submissions have assigned to it. -/
def PendingInv (s : State Dict) : Prop :=
  s.bridge.pending = (s.submissions.map Submission.orderId).zipIdx.reverse

section Steps

variable {J : JsonModule Dict} {s s' : State Dict} {act : Act Dict} {es : List (Event Dict)}

/-- A submission is replaced by one under the same order id. -/
theorem PendingInv.set (hinv : PendingInv s) {k : Nat} {sub sub' : Submission}
    (hk : s.submissions[k]? = some sub) (hid : sub'.orderId = sub.orderId) :
    s.bridge.pending =
      ((s.submissions.set k sub').map Submission.orderId).zipIdx.reverse := by
  have hlt := (List.getElem?_eq_some_iff.mp hk).choose
  have hself : s.submissions[k] = sub := (List.getElem?_eq_some_iff.mp hk).choose_spec
  have hlt' : k < (s.submissions.map Submission.orderId).length := by simpa using hlt
  have hmap : (s.submissions.map Submission.orderId)[k] = sub'.orderId := by
    rw [List.getElem_map, hself, hid]
  rw [List.map_set, ← hmap, List.set_getElem_self]
  exact hinv

theorem PendingInv.step (hinv : PendingInv s) (hst : Rcs.step J s act = some (s', es)) :
    PendingInv s' := by
  cases step_cases hst with
  | submitted =>
      unfold PendingInv at hinv ⊢
      simp [Bridge.submitOrder, hinv, List.zipIdx_append]
  | rejected hk _ _ => exact hinv.set hk rfl
  | accepted hk _ _ => exact hinv.set hk rfl
  | answered hk _ => exact hinv.set hk rfl
  | _ => exact hinv

theorem pending_lookup (hinv : PendingInv s) (orderId : String) (k : Nat) :
    s.bridge.pending.lookup orderId = some k ↔
      (∃ sub, s.submissions[k]? = some sub ∧ sub.orderId = orderId) ∧ Latest s orderId k := by
  rw [hinv, lookup_latest]
  simp [Latest, List.getElem?_map]

/-- What `cancel_order` gets at. -/
theorem cancels_iff (hinv : PendingInv s) (orderId : String) (k : Nat) :
    Cancels s orderId k ↔ ∃ sub, s.submissions[k]? = some sub ∧ sub.orderId = orderId ∧
      sub.handleAccepted = true ∧ Latest s orderId k := by
  have hlookup := pending_lookup hinv orderId
  unfold Cancels Bridge.cancelOrder
  split
  · rename_i hnone
    refine iff_of_false nofun ?_
    rintro ⟨sub, hk, hid, -, hlatest⟩
    have := (hlookup k).mpr ⟨⟨sub, hk, hid⟩, hlatest⟩
    rw [hnone] at this
    cases this
  · rename_i n hn
    obtain ⟨⟨sub, hsub, hid⟩, hlatest⟩ := (hlookup n).mp hn
    rw [hsub]
    -- the number the dict has is the only one there can be
    have honly (m : Nat) (u : Submission) (hu : s.submissions[m]? = some u)
        (huid : u.orderId = orderId) (hm : Latest s orderId m) : m = n :=
      le_antisymm (hlatest m u hu huid) (hm n sub hsub hid)
    by_cases hacc : sub.handleAccepted = true
    · simp only [hacc, if_true]
      constructor
      · intro h
        obtain rfl := Option.some.inj h
        exact ⟨sub, hsub, hid, hacc, hlatest⟩
      · rintro ⟨u, hu, huid, -, hm⟩
        rw [honly k u hu huid hm]
    · simp only [hacc, Bool.false_eq_true, if_false]
      refine iff_of_false nofun ?_
      rintro ⟨u, hu, huid, huacc, hm⟩
      obtain rfl := honly k u hu huid hm
      obtain rfl := Option.some.inj (hsub.symm.trans hu)
      exact hacc huacc

theorem handleAccepted_iff {sub : Submission} {g : Nat} (hd : sub.decision = some (.accepted g)) :
    sub.handleAccepted = true ↔ sub.answered = true := by
  unfold Submission.handleAccepted
  cases sub.answered <;> simp [hd]

end Steps

/-- **Orders stay cancellable** exactly as long as no other submission is made under their id: in
every state that can be reached, `cancel_order` sends a cancel for an accepted, unfinished goal
when its acceptance has come back and its submission is the last under the order id, and not
otherwise. It never cancels a goal that was submitted under another id. -/
theorem cancels_live_iff {J : JsonModule Dict} {now : Nat} {tr : List (Event Dict)}
    {s : State Dict} (hrun : Run (step J) anyStep (State.init now) tr s) :
    (∀ k sub, Live s k sub →
      (Cancels s sub.orderId k ↔ sub.answered = true ∧ Latest s sub.orderId k)) ∧
    (∀ orderId k, Cancels s orderId k →
      ∃ sub, s.submissions[k]? = some sub ∧ sub.orderId = orderId) := by
  have hinv : PendingInv s :=
    hrun.invariant (fun _ _ _ _ h _ hst => h.step hst) rfl
  refine ⟨fun k sub hlive => ?_, fun orderId k h => ?_⟩
  · obtain ⟨g, _, hd, -⟩ := hlive.accepted
    rw [cancels_iff hinv]
    constructor
    · rintro ⟨u, hu, -, hacc, hlatest⟩
      obtain rfl := Option.some.inj (hlive.submitted.symm.trans hu)
      exact ⟨(handleAccepted_iff hd).mp hacc, hlatest⟩
    · rintro ⟨hanswered, hlatest⟩
      exact ⟨sub, hlive.submitted, rfl, (handleAccepted_iff hd).mpr hanswered, hlatest⟩
  · obtain ⟨sub, hk, hid, -⟩ := (cancels_iff hinv orderId k).mp h
    exact ⟨sub, hk, hid⟩

/-- The goal of order `o1` is accepted, and the bridge hears of it. -/
def acceptedOrder : List (Act Unit) :=
  [.submitOrder (plainOrder "Patrol" "o1") anyUuid true, .arrive 0, .executor (.goal 0 (.start 0)),
    .answer 0]

/-- The order is cancelled while its goal is the last one under its id. -/
theorem cancels_live_iff_acceptedOrder : ∃ (tr : List (Event Unit)) (s : State Unit),
    Run (step emptyDicts) anyStep (State.init 0) tr s ∧ Cancels s "o1" 0 := by
  have hrun : (runActs (step emptyDicts) anyStep (State.init 0) acceptedOrder).isSome := by decide
  refine ⟨_, _, Run.of_isSome hrun, ?_⟩
  have hlive : Live ((runActs (step emptyDicts) anyStep (State.init 0) acceptedOrder).get hrun).1 0
      ⟨"o1", ⟨"Patrol", "{}", "{}"⟩, some (.accepted 0), true⟩ :=
    ⟨rfl, 0, ⟨⟨"Patrol", "{}", "{}"⟩, .building () ()⟩, rfl, rfl, trivial⟩
  refine (((cancels_live_iff (Run.of_isSome hrun)).1 0 _ hlive).mpr ⟨rfl, ?_⟩)
  intro n sub hn _
  have hlt : n < 1 := (List.getElem?_eq_some_iff.mp hn).choose
  omega

/-- An update of order `o1` is sent while its goal runs, and the executor rejects it. -/
def updatedOrder : List (Act Unit) :=
  acceptedOrder ++
    [.submitOrder (plainOrder "Survey" "o1") anyUuid true, .arrive 1, .answer 1]

/-- The goal of `o1` goes on, and nothing can cancel it any more. -/
theorem not_always_cancels_live : ¬ ∀ (now : Nat) (tr : List (Event Unit)) (s : State Unit),
    Run (step emptyDicts) anyStep (State.init now) tr s →
      (∀ k sub, Live s k sub → Cancels s sub.orderId k) ∧
      (∀ orderId k, Cancels s orderId k →
        ∃ sub, s.submissions[k]? = some sub ∧ sub.orderId = orderId) := by
  intro h
  have hrun : (runActs (step emptyDicts) anyStep (State.init 0) updatedOrder).isSome := by decide
  have hcancels := (h 0 _ _ (Run.of_isSome hrun)).1 0
    ⟨"o1", ⟨"Patrol", "{}", "{}"⟩, some (.accepted 0), true⟩
    ⟨rfl, 0, ⟨⟨"Patrol", "{}", "{}"⟩, .building () ()⟩, rfl, rfl, trivial⟩
  have hnone : (none : Option Nat) = some 0 := hcancels
  cases hnone

end RobotTaskManager.Rcs
