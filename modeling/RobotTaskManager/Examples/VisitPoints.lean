import RobotTaskManager.Engine.Graph
import RobotTaskManager.Ros.SentGoal

set_option autoImplicit false

/-! # Visiting points in order

`VisitThreePoints` of `mw_hfsm_examples`, over any list of waypoints with names of their own: a
`BehaviorSM` with one Step for each waypoint, and in each Step a `DriveToPoseState` that was
constructed with the pose of the waypoint. Its execution is `execute` of the machine over `execute`
of the Steps over invocations of the states.

The Steps are executed in the order of the waypoints until one is not done, and the goals that have
been sent are those of the waypoints from the first one on, whatever userdata says and whatever the
legs before have written to it.
-/

namespace RobotTaskManager.Examples

open Engine Ros
open Spec (Conversions FieldValue GoalError Message SkillKind setFields)

/-! ## The SubJob -/

/-- An entry of `_WAYPOINTS`. -/
structure Waypoint (P : Type) where
  name : String
  x : P
  y : P
  yaw : P

/-- `f'GO_{name}'` -/
def goName (name : String) : String := "GO_" ++ name

section Machine

variable {P : Type}

/-- `_build_go_step`, for a new `StateMachine` with a new `DriveToPoseState`. -/
def buildGoStep (oid : Nat) : Tree :=
  .machine ⟨oid, "StateMachine", .stateMachine, ["done", "failed"], some "drive"⟩
    [⟨"drive", .leaf ⟨oid + 1, "DriveToPoseState", actionOutcomes⟩,
      [(succeeded, "done"), (failed, "failed"), (lifecycleError, "failed"), (timeout, "failed"),
        (rejected, "failed")]⟩]

/-- `on_done`, before the waypoints that are left. -/
def onDone : List (Waypoint P) → String
  | [] => "done"
  | w :: _ => goName w.name

/-- The children that `VisitThreePoints.__init__` adds. -/
def visitChildren : Nat → List (Waypoint P) → List (Child Tree)
  | _, [] => []
  | oid, w :: rest =>
      ⟨goName w.name, buildGoStep oid, [("done", onDone rest), ("failed", "failed")]⟩ ::
        visitChildren (oid + 2) rest

/-- `VisitThreePoints` -/
def visitInfo (ws : List (Waypoint P)) : MachineInfo :=
  ⟨0, "VisitThreePoints", .behaviorSM [], ["done", "failed"], ws.head?.map fun w => goName w.name⟩

theorem goName_inj {a b : String} (h : goName a = goName b) : a = b := by
  have hlist := congrArg String.toList h
  rw [goName, goName, String.toList_append, String.toList_append] at hlist
  exact String.toList_inj.mp (List.append_cancel_left hlist)

theorem goName_not_mem (name : String) : goName name ∉ ["done", "failed"] := by
  intro h
  have hlist : ∀ s : String, goName name = s → s.toList.head? = some 'G' := by
    rintro s rfl
    rw [goName, String.toList_append]
    rfl
  rcases List.mem_pair.mp h with h | h
  · exact absurd (hlist _ h) (by decide)
  · exact absurd (hlist _ h) (by decide)

theorem childNames_visitChildren (oid : Nat) (ws : List (Waypoint P)) :
    childNames (visitChildren oid ws) = ws.map fun w => goName w.name := by
  induction ws generalizing oid with
  | nil => rfl
  | cons w rest ih => exact congrArg (goName w.name :: ·) (ih (oid + 2))

/-- The child of a waypoint leads to the one of the next waypoint. -/
theorem findChild_visitChildren {before : List (Waypoint P)} (rest : List (Waypoint P))
    {w : Waypoint P} (hw : ∀ w' ∈ before, w'.name ≠ w.name) (oid : Nat) :
    ∃ oid', findChild (visitChildren oid (before ++ w :: rest)) (goName w.name) =
      some ⟨goName w.name, buildGoStep oid', [("done", onDone rest), ("failed", "failed")]⟩ := by
  induction before generalizing oid with
  | nil => exact ⟨oid, by simp [findChild, visitChildren]⟩
  | cons w' before ih =>
      obtain ⟨hne, hrest⟩ := List.forall_mem_cons.mp hw
      obtain ⟨oid', h⟩ := ih hrest (oid + 2)
      refine ⟨oid', ?_⟩
      rw [List.cons_append, visitChildren, findChild, List.find?_cons_of_neg]
      · exact h
      · simpa using fun heq => hne (goName_inj heq)

end Machine

/-! ## Its execution -/

section Execution

variable {P F : Type}

/-- The arguments that a `DriveToPoseState` is constructed with. -/
def Waypoint.fixed (w : Waypoint P) (key : String) : Option P :=
  match key with
  | "target_x" => some w.x
  | "target_y" => some w.y
  | "target_yaw" => some w.yaw
  | _ => none

variable (py : Conversions P F) (raises : GoalError → Exc)

/-- The state of a leg. -/
abbrev driveState (w : Waypoint P) : Skill (String → Option P) (Message F) (String → P) :=
  shipped py raises w.fixed .driveToPose

/-- Userdata, and the goals that have been sent. -/
structure Job (P F : Type) where
  userdata : String → Option P
  goals : List (Message F)

/-- What the invocations of the states do, from the Steps that have been executed, the waypoint and
userdata. -/
abbrev Legs := List (String × Result) → (w : Waypoint P) → (u : String → Option P) →
  Invocation (driveState py raises w) u

variable {py raises}

/-- The state of a Step is invoked. -/
def drive {w : Waypoint P} (invoke : ∀ u, Invocation (driveState py raises w) u) :
    Behaviour (Job P F) := fun _ _ job =>
  ((invoke job.userdata).result,
    ⟨(invoke job.userdata).state.userdata,
      job.goals ++ (invoke job.userdata).sentGoal.toList⟩)

/-- A Step is executed. -/
def go (ws : List (Waypoint P)) (legs : Legs py raises) : Behaviour (Job P F) :=
  fun log name job =>
    match findChild (visitChildren 1 ws) name, ws.find? fun w => goName w.name = name with
    | some ⟨_, .machine m children, _⟩, some w =>
        let e := executeMachine m children (drive (legs log w)) job
        (e.result, e.userdata)
    | _, _ => (.error (.keyError name), job)

/-- `userdata_in`, updated with `behavior_parameter`. -/
def seed (behaviorParameter userdataIn : String → Option P) (key : String) : Option P :=
  (behaviorParameter key).or (userdataIn key)

/-- `run`, from its call of `execute`: `VisitThreePoints` declares no `behavior_parameters`. -/
def visit (ws : List (Waypoint P)) (legs : Legs py raises)
    (behaviorParameter userdataIn : String → Option P) : Execution (Job P F) :=
  executeMachine (visitInfo ws) (visitChildren 1 ws) (go ws legs)
    ⟨seed behaviorParameter userdataIn, []⟩

/-- What a Step makes of the result of its state. -/
def stepResult : Result → Result
  | .ok o => .ok (if o = succeeded then "done" else "failed")
  | .error e => .error e

/-- The outcome of the state of a Step leads to an outcome of the Step. -/
theorem leads_goStep {w : Waypoint P} {invoke : ∀ u, Invocation (driveState py raises w) u}
    {job : Job P F} {oid : Nat} {m : MachineInfo} {children : List (Child Tree)} {o : String}
    (h : buildGoStep oid = .machine m children) (hr : (invoke job.userdata).result = .ok o) :
    Leads children (drive invoke) [] "drive" job o (if o = succeeded then "done" else "failed")
      (drive invoke [] "drive" job).2 := by
  cases h
  have ho := (invoke job.userdata).result_mem hr
  refine ⟨rfl, by rw [← hr]; rfl, ho, ?_⟩
  simp only [actionOutcomes, List.mem_cons, List.not_mem_nil, or_false] at ho
  rcases ho with rfl | rfl | rfl | rfl | rfl
  all_goals rfl

theorem execute_goStep {w : Waypoint P} (invoke : ∀ u, Invocation (driveState py raises w) u)
    (job : Job P F) (oid : Nat) {m : MachineInfo} {children : List (Child Tree)}
    (h : buildGoStep oid = .machine m children) :
    executeMachine m children (drive invoke) job =
      ⟨stepResult (invoke job.userdata).result, [("drive", (invoke job.userdata).result)],
        (drive invoke [] "drive" job).2⟩ := by
  have hstart : m.initialState = some "drive" ∧ "drive" ∈ childNames children := by
    cases h
    exact ⟨rfl, List.mem_singleton_self _⟩
  have hwalk : Walk m children (drive invoke) job 0 "drive" [] job := .start hstart.1
  refine Ends.executeMachine_eq (fun s hs => ?_) ?_
  · obtain rfl := Option.some.inj (hstart.1.symm.trans hs)
    exact hstart.2
  · cases hr : (invoke job.userdata).result with
    | error e => exact .childRaised hwalk (by decide) (by rw [← hr]; rfl)
    | ok o =>
        refine .returned hwalk (by decide) (leads_goStep h hr) ?_
        cases h
        show (if o = succeeded then "done" else "failed") ∈ ["done", "failed"]
        split <;> decide

/-! ## The order of the legs -/

/-- A goal that goes to the pose of a waypoint. -/
def Targets (py : Conversions P F) (w : Waypoint P) (goal : Message F) : Prop :=
  ∃ x y yaw, py.float w.x = .ok x ∧ py.float w.y = .ok y ∧ py.float w.yaw = .ok yaw ∧
    goal "target_x" = some (.float64 x) ∧ goal "target_y" = some (.float64 y) ∧
    goal "target_yaw" = some (.float64 yaw)

variable (py raises) in
/-- The goal of a waypoint, for the userdata that the SubJob has been started with. -/
def GoalOf (u : String → Option P) (w : Waypoint P) (goal : Message F) : Prop :=
  (driveState py raises w).buildGoal u = .ok goal ∧ Targets py w goal

/-- The invocation of a Step that is done. -/
def doneLeg (w : Waypoint P) : String × Result := (goName w.name, .ok "done")

variable (py raises) in
/-- How a visit ends: with the Steps that it has executed, and the goals that have been sent. -/
inductive VisitEnds (ws : List (Waypoint P)) (u : String → Option P) (e : Execution (Job P F)) :
    Prop
  | done : e.result = .ok "done" → e.invocations = ws.map doneLeg →
      List.Forall₂ (GoalOf py raises u) ws e.userdata.goals → VisitEnds ws u e
  /-- A leg fails, before its goal has been sent or afterwards. -/
  | failed {before rest sent : List (Waypoint P)} {w : Waypoint P} : ws = before ++ w :: rest →
      e.result = .ok "failed" →
      e.invocations = before.map doneLeg ++ [(goName w.name, .ok "failed")] →
      sent = before ∨ sent = before ++ [w] →
      List.Forall₂ (GoalOf py raises u) sent e.userdata.goals → VisitEnds ws u e
  /-- `build_goal` raises. -/
  | raised {before rest : List (Waypoint P)} {w : Waypoint P} {err : Exc} :
      ws = before ++ w :: rest → (driveState py raises w).buildGoal u = .error err →
      e.result = .error err →
      e.invocations = before.map doneLeg ++ [(goName w.name, .error err)] →
      List.Forall₂ (GoalOf py raises u) before e.userdata.goals → VisitEnds ws u e

variable (py raises) in
/-- The legs go as `VisitEnds` says, and what they write to userdata is their results. -/
structure VisitInOrder (ws : List (Waypoint P)) (u : String → Option P) (e : Execution (Job P F)) :
    Prop where
  ends : VisitEnds py raises ws u e
  userdata : ∀ key, key ∉ resultKeys .driveToPose → e.userdata.userdata key = u key

/-- `build_goal` reads the keys of its fields. -/
theorem setFields_userdata_congr {className : String} {fixed u u' : String → Option P}
    {fields : List Spec.Field} (goal : Message F) (h : ∀ f ∈ fields, u f.key = u' f.key) :
    setFields py className fixed u fields goal = setFields py className fixed u' fields goal := by
  induction fields generalizing goal with
  | nil => rfl
  | cons f rest ih =>
      obtain ⟨hf, hrest⟩ := List.forall_mem_cons.mp h
      have hresolve : f.resolve py className (fixed f.key) u =
          f.resolve py className (fixed f.key) u' := by
        unfold Spec.Field.resolve
        rw [hf]
      rw [setFields, setFields, hresolve]
      cases f.resolve py className (fixed f.key) u' with
      | error e => rfl
      | ok r =>
          cases r with
          | none => exact ih goal hrest
          | some v => exact ih _ hrest

/-- What `on_result` writes is not read for a goal. -/
theorem buildGoal_congr {u u' : String → Option P} (w : Waypoint P)
    (h : ∀ key, key ∉ resultKeys .driveToPose → u key = u' key) :
    (driveState py raises w).buildGoal u = (driveState py raises w).buildGoal u' := by
  have hfields : ∀ f ∈ (Spec.driveToPoseState py).fields, u f.key = u' f.key := by
    have hkeys : ∀ f ∈ (Spec.driveToPoseState py).fields,
        f.key ∉ resultKeys .driveToPose := by
      simp [Spec.driveToPoseState, resultKeys, Spec.Field.requiredFloat, Spec.Field.optionalFloat]
    exact fun f hf => h f.key (hkeys f hf)
  have hset : (SkillKind.driveToPose.cls py).buildGoal py w.fixed u =
      (SkillKind.driveToPose.cls py).buildGoal py w.fixed u' :=
    setFields_userdata_congr _ hfields
  simp only [driveState, shipped, hset]

/-- The pose of a goal is the one that its state was constructed with. -/
theorem goalOf_of_buildGoal {u : String → Option P} {w : Waypoint P} {goal : Message F}
    (h : (driveState py raises w).buildGoal u = .ok goal) : GoalOf py raises u w goal := by
  refine ⟨h, ?_⟩
  have hbuild : (SkillKind.driveToPose.cls py).buildGoal py w.fixed u = .ok goal := by
    simp only [driveState, shipped] at h
    split at h
    · rename_i hbuild
      obtain rfl := Except.ok.inj h
      exact hbuild
    · cases h
  have hset := (Spec.setFields_ok (SkillKind.driveToPose.nodup py) hbuild).1
  have htarget : ∀ key v, Spec.Field.requiredFloat key ∈ (Spec.driveToPoseState py).fields →
      w.fixed key = some v → ∃ x, py.float v = .ok x ∧ goal key = some (.float64 x) := by
    intro key v hmem hfixed
    obtain ⟨r, hr, hgoal⟩ := hset _ hmem
    have hconvert : (py.float v).map (some ∘ FieldValue.float64) = .ok r := by
      rw [← hr]
      simp only [Spec.Field.resolve, Spec.Field.requiredFloat, hfixed, Spec.Field.convert]
      cases py.float v <;> rfl
    cases hx : py.float v with
    | error e =>
        rw [hx] at hconvert
        cases hconvert
    | ok x =>
        rw [hx] at hconvert
        exact ⟨x, rfl, hgoal _ (Except.ok.inj hconvert).symm⟩
  obtain ⟨x, hx, hgx⟩ := htarget "target_x" w.x (by simp [Spec.driveToPoseState]) rfl
  obtain ⟨y, hy, hgy⟩ := htarget "target_y" w.y (by simp [Spec.driveToPoseState]) rfl
  obtain ⟨yaw, hyaw, hgyaw⟩ := htarget "target_yaw" w.yaw (by simp [Spec.driveToPoseState]) rfl
  exact ⟨x, y, yaw, hx, hy, hyaw, hgx, hgy, hgyaw⟩

/-- Before the Step of a waypoint: the Steps before it are done, and userdata is what it was but
for the keys of results. -/
structure Visited (py : Conversions P F) (raises : GoalError → Exc) (u : String → Option P)
    (before : List (Waypoint P)) (log : List (String × Result)) (job : Job P F) : Prop where
  log : log = before.map doneLeg
  goals : List.Forall₂ (GoalOf py raises u) before job.goals
  userdata : ∀ key, key ∉ resultKeys .driveToPose → job.userdata key = u key

variable {u : String → Option P} {ws before rest : List (Waypoint P)} {w : Waypoint P}
  {log : List (String × Result)} {job : Job P F} {legs : Legs py raises}

theorem before_ne (hws : ws = before ++ w :: rest) (hnodup : (ws.map Waypoint.name).Nodup) :
    ∀ w' ∈ before, w'.name ≠ w.name := by
  intro w' hw' heq
  rw [hws, List.map_append, List.map_cons] at hnodup
  exact (List.nodup_append.mp hnodup).2.2 _ (List.mem_map_of_mem hw') _ (by simp) heq

/-- The Step of a waypoint is executed with its state. -/
theorem go_eq (hws : ws = before ++ w :: rest) (hnodup : (ws.map Waypoint.name).Nodup) :
    go ws legs log (goName w.name) job =
      (stepResult (legs log w job.userdata).result,
        ((drive (legs log w) [] "drive" job).2 : Job P F)) := by
  have hbefore := before_ne hws hnodup
  obtain ⟨oid, hchild⟩ := findChild_visitChildren rest hbefore 1
  have hfind : (before ++ w :: rest).find? (fun w' => goName w'.name = goName w.name) = some w := by
    rw [List.find?_append, List.find?_cons_of_pos (by simp), List.find?_eq_none.mpr]
    · rfl
    · intro w' hw' heq
      exact hbefore w' hw' (goName_inj (of_decide_eq_true heq))
  subst hws
  simp only [go, hchild, hfind, buildGoStep]
  rw [execute_goStep (legs log w) job oid rfl]

/-- A leg leaves the other keys of userdata alone. -/
theorem Visited.userdata_leg (h : Visited py raises u before log job)
    (i : Invocation (driveState py raises w) job.userdata) (key : String)
    (hkey : key ∉ resultKeys .driveToPose) : i.state.userdata key = u key := by
  rcases i.userdata with heq | ⟨-, res, heq⟩
  · rw [heq, h.userdata key hkey]
  · rw [heq]
    exact (onResult_of_not_mem _ _ hkey).trans (h.userdata key hkey)

/-- What a child does leads on along its transitions. -/
theorem leads_go (hnodup : (ws.map Waypoint.name).Nodup) (hws : ws = before ++ w :: rest)
    {o target : String} (hr : stepResult (legs log w job.userdata).result = .ok o)
    (ho : [("done", onDone rest), ("failed", "failed")].lookup o = some target) :
    Leads (visitChildren 1 ws) (go ws legs) log (goName w.name) job o target
      (drive (legs log w) [] "drive" job).2 := by
  have hbefore := before_ne hws hnodup
  obtain ⟨oid, hchild⟩ := findChild_visitChildren rest hbefore 1
  rw [← hws] at hchild
  refine ⟨hchild, by rw [go_eq hws hnodup, hr], ?_, ho⟩
  show o ∈ ["done", "failed"]
  have hmem := mem_of_lookup ho
  simp only [List.mem_cons, Prod.mk.injEq, List.not_mem_nil, or_false] at hmem ⊢
  exact hmem.imp And.left And.left

variable (legs) in
/-- A leg is done and leads to the next one, or ends the visit. -/
theorem visit_leg (hnodup : (ws.map Waypoint.name).Nodup) (hws : ws = before ++ w :: rest)
    (h : Visited py raises u before log job) (left : Nat) :
    (Visited py raises u (before ++ [w]) (log ++ [doneLeg w])
        (drive (legs log w) [] "drive" job).2 ∧
      Leads (visitChildren 1 ws) (go ws legs) log (goName w.name) job "done" (onDone rest)
        (drive (legs log w) [] "drive" job).2) ∨
    VisitInOrder py raises ws u
      (machineLoop (visitInfo ws) (visitChildren 1 ws) (go ws legs) (left + 1) (goName w.name) log
        job) := by
  have hgoal : (driveState py raises w).buildGoal job.userdata =
      (driveState py raises w).buildGoal u := buildGoal_congr w h.userdata
  have hframe := h.userdata_leg (legs log w job.userdata)
  -- the goals that have been sent after the leg
  have hsent : ∀ g, (legs log w job.userdata).sentGoal = some g →
      List.Forall₂ (GoalOf py raises u) (before ++ [w])
        ((drive (legs log w) [] "drive" job).2 : Job P F).goals := by
    intro g hg
    have hgoalOf := goalOf_of_buildGoal
      (hgoal.symm.trans ((legs log w job.userdata).sentGoal_ok hg))
    show List.Forall₂ _ _ (job.goals ++ (legs log w job.userdata).sentGoal.toList)
    rw [hg]
    exact List.rel_append h.goals (List.forall₂_cons.mpr ⟨hgoalOf, .nil⟩)
  have hnone : (legs log w job.userdata).sentGoal = none →
      ((drive (legs log w) [] "drive" job).2 : Job P F).goals = job.goals := by
    intro hg
    show job.goals ++ (legs log w job.userdata).sentGoal.toList = job.goals
    rw [hg]
    exact List.append_nil _
  cases hr : (legs log w job.userdata).result with
  | error err =>
      obtain ⟨hraised, hg⟩ := (legs log w job.userdata).raised hr
      obtain ⟨oid, hchild⟩ := findChild_visitChildren rest (before_ne hws hnodup) 1
      rw [← hws] at hchild
      have hgo : go ws legs log (goName w.name) job = _ := go_eq hws hnodup
      rw [hr] at hgo
      refine Or.inr ?_
      rw [machineLoop]
      simp only [hchild, hgo, stepResult]
      refine ⟨.raised hws (hgoal ▸ hraised) rfl (by rw [h.log]) ?_, hframe⟩
      rw [hnone hg]
      exact h.goals
  | ok o =>
      by_cases ho : o = succeeded
      · subst ho
        refine Or.inl ⟨⟨by rw [h.log, List.map_append]; rfl, ?_, hframe⟩,
          leads_go hnodup hws (by rw [hr]; rfl) rfl⟩
        obtain ⟨g, hg, -⟩ := (legs log w job.userdata).sentGoal_of_succeeded hr
        exact hsent g hg
      · have hleads : Leads (visitChildren 1 ws) (go ws legs) log (goName w.name) job "failed"
            "failed" (drive (legs log w) [] "drive" job).2 :=
          leads_go hnodup hws (by rw [hr, stepResult, if_neg ho]) rfl
        have hout : "failed" ∈ (visitInfo ws).outcomes := by simp [visitInfo]
        refine Or.inr ?_
        rw [hleads.machineLoop, if_pos hout]
        cases hg : (legs log w job.userdata).sentGoal with
        | none =>
            refine ⟨.failed hws rfl (by rw [h.log]) (Or.inl rfl) ?_, hframe⟩
            rw [hnone hg]
            exact h.goals
        | some g => exact ⟨.failed hws rfl (by rw [h.log]) (Or.inr rfl) (hsent g hg), hframe⟩

/-- **One leg after the other**: from the Step of a waypoint on, the visit goes as `VisitEnds`
says. -/
theorem visit_from (hnodup : (ws.map Waypoint.name).Nodup) (hws : ws = before ++ w :: rest)
    (h : Visited py raises u before log job) {left : Nat} (hleft : rest.length + 1 ≤ left) :
    VisitInOrder py raises ws u
      (machineLoop (visitInfo ws) (visitChildren 1 ws) (go ws legs) left (goName w.name) log
        job) := by
  induction rest generalizing before w log job left with
  | nil =>
      obtain ⟨left, rfl⟩ := Nat.exists_eq_add_of_le' (show 1 ≤ left from hleft)
      rcases visit_leg legs hnodup hws h left with ⟨hdone, hleads⟩ | hends
      · have hout : onDone ([] : List (Waypoint P)) ∈ (visitInfo ws).outcomes := by
          simp [visitInfo, onDone]
        rw [hleads.machineLoop, if_pos hout]
        refine ⟨.done rfl ?_ ?_, hdone.userdata⟩
        · rw [hws]
          exact hdone.log
        · rw [hws]
          exact hdone.goals
      · exact hends
  | cons w' rest ih =>
      obtain ⟨left, rfl⟩ := Nat.exists_eq_add_of_le' (Nat.le_of_add_left_le hleft)
      rcases visit_leg legs hnodup hws h left with ⟨hdone, hleads⟩ | hends
      · have hout : onDone (w' :: rest) ∉ (visitInfo ws).outcomes := goName_not_mem w'.name
        have hmem : onDone (w' :: rest) ∈ childNames (visitChildren 1 ws) := by
          rw [childNames_visitChildren, hws]
          simp [onDone]
        rw [hleads.machineLoop, if_neg hout, if_pos hmem]
        exact ih (by rw [hws, List.append_assoc]; rfl) hdone (by simp at hleft; omega)
      · exact hends

end Execution

/-! ## `VisitThreePoints` -/

/-- `_WAYPOINTS` -/
def waypoints : List (Waypoint ℚ) :=
  [⟨"P1", 1, 0, 0⟩, ⟨"P2", 1, 1, 1.5707963⟩, ⟨"P3", -1, 0.5, 3.14159⟩]

/-- Floats without rounding. -/
def rationals : Conversions ℚ ℚ where
  float q := .ok q
  str _ := .error (.conversion "str")
  literal q := q

/-- **The points are visited in order.** The Steps are executed in the order of the waypoints, each
of them once, until one fails or the goal of one cannot be built; the goals that have been sent are
those of the waypoints from the first one on, each with the pose of its own waypoint and otherwise
as userdata was at the start; and of userdata only the keys of the results have changed. -/
theorem visit_in_order {P F : Type} (py : Conversions P F) (raises : GoalError → Exc)
    (ws : List (Waypoint P)) (hne : ws ≠ []) (hnodup : (ws.map Waypoint.name).Nodup)
    (hlength : ws.length ≤ 10000) (legs : Legs py raises)
    (behaviorParameter userdataIn : String → Option P) :
    VisitInOrder py raises ws (seed behaviorParameter userdataIn)
      (visit ws legs behaviorParameter userdataIn) := by
  cases ws with
  | nil => exact absurd rfl hne
  | cons w rest =>
      have hstart : Visited py raises (seed behaviorParameter userdataIn) [] []
          (⟨seed behaviorParameter userdataIn, []⟩ : Job P F) := ⟨rfl, .nil, fun _ _ => rfl⟩
      exact visit_from hnodup (List.nil_append _).symm hstart hlength

/-- The action server is not there. -/
def noServer {P F : Type} {py : Conversions P F} {raises : GoalError → Exc} {w : Waypoint P}
    {u : String → Option P} : Invocation (driveState py raises w) u where
  state := { State.start u with pc := .ended (.ok timeout) }
  result := .ok timeout
  run := ⟨_, .cons (a := Act.client) trivial rfl
    (.single (a := Act.available false) trivial rfl)⟩
  ended := rfl

/-- The goal is accepted, and the robot arrives. -/
def arrival {P F : Type} {py : Conversions P F} {raises : GoalError → Exc} {w : Waypoint P}
    {u : String → Option P} {g : Message F} (hg : (driveState py raises w).buildGoal u = .ok g)
    (res : String → P) : Invocation (driveState py raises w) u where
  state := ⟨.ended (.ok succeeded), onResult .driveToPose u res, some g, none, true, some true,
    false⟩
  result := .ok succeeded
  run := by
    have hbuild : step (driveState py raises w) ⟨.buildGoal, u, none, none, false, none, false⟩
        .client = some (⟨.call .sendGoal, u, some g, none, false, none, false⟩, []) := by
      simp only [Ros.step, clientStep, hg]
    exact ⟨_, .cons (a := Act.client) trivial rfl (.cons (a := Act.available true) trivial rfl
      (.cons (a := Act.client) trivial hbuild (.cons (a := Act.client) trivial rfl
      (.cons (a := Act.decide true) trivial rfl
      (.cons (a := Act.complete (some (.handle true))) trivial rfl
      (.cons (a := Act.client) trivial rfl (.cons (a := Act.client) trivial rfl
      (.cons (a := Act.complete (some (.result statusSucceeded (some res)))) trivial rfl
      (.single (a := Act.client) trivial rfl)))))))))⟩
  ended := rfl

/-- The server is gone after the second point. -/
def blockedLegs : Legs rationals (fun _ => .other "KeyError") := fun log w u =>
  match h : (driveState rationals (fun _ => .other "KeyError") w).buildGoal u with
  | .ok _ => if log.length = 2 then noServer else arrival h fun _ => 0
  | .error _ => noServer

theorem visit_in_order_blocked :
    VisitInOrder rationals (fun _ => .other "KeyError") waypoints
        (seed (fun _ => none) fun key => if key = "xy_tolerance" then some 0.01 else none)
        (visit waypoints blockedLegs (fun _ => none) fun key =>
          if key = "xy_tolerance" then some 0.01 else none) ∧
      (visit waypoints blockedLegs (fun _ => none) fun key =>
        if key = "xy_tolerance" then some 0.01 else none).invocations =
        [("GO_P1", .ok "done"), ("GO_P2", .ok "done"), ("GO_P3", .ok "failed")] :=
  ⟨visit_in_order rationals _ waypoints (by decide) (by decide) (by decide) blockedLegs _ _,
    by decide +kernel⟩

end RobotTaskManager.Examples
