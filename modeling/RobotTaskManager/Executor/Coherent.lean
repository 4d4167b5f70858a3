import RobotTaskManager.Executor.StatusPath

set_option autoImplicit false

/-! # Coherent status messages

A message of a running SubJob carries the `subjob_id` of the goal, and an active path that was
read before. A path that the worker of a goal records begins with the `subjob_id` of that goal,
so the message is coherent if its path is one of these (`ReadsWorkerPath`). It is not coherent
when the thread of a region has written the slot last, whose paths begin with a child of the
region, or when a goal with another `subjob_id` has started since the path was read.
-/

namespace RobotTaskManager.Executor

open Interleaving

variable {Dict : Type}

/-- While it says `RUNNING`, a message has no active state or one below its `subjob_id`. -/
def Coherent (msg : StatusMsg) : Prop :=
  msg.status = .running →
    msg.activeState = "" ∨ Engine.Begins msg.subjobId msg.activeState

/-- Goals are executed one after the other. -/
def OneAfterAnother (s : PathState Dict) : PathAct → Prop
  | .executor (.goal _ (.start _)) => ∀ goal ∈ s.executor.goals, goal.pc.executing = false
  | _ => True

instance (s : PathState Dict) : (a : PathAct) → Decidable (OneAfterAnother s a)
  | .executor (.goal _ (.start _)) => inferInstanceAs (Decidable (∀ goal ∈ _, _))
  | .executor (.goal _ (.build _)) | .executor (.goal _ .publishSpec)
  | .executor (.goal _ (.runEnds _)) | .executor (.goal _ .finish)
  | .executor (.goal _ .close) | .executor (.goalRequest _) | .executor (.cancelRead _)
  | .executor (.cancelRequest _) | .resetPath _ _ _ _ | .enterRoot _ | .engine _ _ | .readPath
  | .publish _ _ => isTrue trivial

/-- The `subjob_id` of the goal whose worker a writer is. -/
def PathState.workerSubjob (s : PathState Dict) : Option Writer → Option String
  | some (g, 0) => s.executor.goals[g]?.map fun goal => goal.request.subjobId
  | _ => none

/-- A path read for the message of a running SubJob was written by the worker of a goal with the
`subjob_id` that the node is executing, and that is not empty. -/
def ReadsWorkerPath (s : PathState Dict) : PathAct → Prop
  | .publish j _ => ∀ r ∈ s.readings[j]?, s.executor.node.currentStatus = .running → r.path ≠ "" →
      s.workerSubjob r.writer = some s.executor.node.currentSubjobId ∧
        s.executor.node.currentSubjobId ≠ ""
  | _ => True

instance (s : PathState Dict) : (a : PathAct) → Decidable (ReadsWorkerPath s a)
  | .publish _ _ => inferInstanceAs (Decidable (∀ r ∈ _, _ → _ → _ ∧ _))
  | .executor _ | .resetPath _ _ _ _ | .enterRoot _ | .engine _ _ | .readPath => isTrue trivial

/-! ## What a step can do -/

/-- The steps, one rule for each way through the code. -/
inductive PathStep (J : JsonModule Dict) (s : PathState Dict) :
    PathAct → PathState Dict → List PathEvent → Prop
  | executor {a : Act} {e : State Dict} {es : List Event} :
      step J s.executor a = some (e, es) →
      PathStep J s (.executor a) { s with executor := e } (es.map .executor)
  | resetPath {g : Nat} {m : Engine.MachineInfo} {children : List (Engine.Child Engine.Tree)}
      {observer : Bool} {goal : Goal Dict} :
      s.executor.goals[g]? = some goal →
      PathStep J s (.resetPath g m children observer)
        { s with
          runs := s.runs ++ [⟨g, rootNameOf goal.request.subjobId m.className,
            .reset m children observer⟩]
          globalPath := ""
          writer := none } []
  | enterRoot {k g : Nat} {root : String} {m : Engine.MachineInfo}
      {children : List (Engine.Child Engine.Tree)} {observer : Bool} :
      s.runs[k]? = some ⟨g, root, .reset m children observer⟩ →
      PathStep J s (.enterRoot k)
        { s with
          runs := s.runs.set k
            ⟨g, root, .entered (.startRun (.machine m children) g root observer)⟩
          globalPath := Engine.enterPath "" root
          writer := some (g, 0) } []
  | recorded {k g i : Nat} {root p : String} {c : Engine.Config} {t t' : Engine.Thread}
      {a : Engine.Act} {es : List Engine.Event} :
      s.runs[k]? = some ⟨g, root, .entered c⟩ →
      Engine.step (s.view c) a = some ((s.view c).commit i t' (.path p), es) →
      (s.view c).threads[i]? = some t → Engine.ThreadStep (s.view c) i t a t' (.path p) es →
      PathStep J s (.engine k a)
        { s with
          runs := s.runs.set k ⟨g, root, .entered ((s.view c).commit i t' (.path p))⟩
          globalPath := p
          writer := some (g, i) } []
  | unrecorded {k g : Nat} {root : String} {c c' : Engine.Config} {a : Engine.Act}
      {es : List Engine.Event} :
      s.runs[k]? = some ⟨g, root, .entered c⟩ → Engine.step (s.view c) a = some (c', es) →
      PathStep J s (.engine k a) { s with runs := s.runs.set k ⟨g, root, .entered c'⟩ } []
  | readPath :
      PathStep J s .readPath { s with readings := s.readings ++ [⟨s.globalPath, s.writer⟩] } []
  | publish {j now : Nat} {r : Reading} : s.readings[j]? = some r →
      PathStep J s (.publish j now) { s with readings := s.readings.eraseIdx j }
        [.published (s.executor.node.publishSection r.path now)]

section Cases

variable {J : JsonModule Dict} {s s' : PathState Dict} {a : PathAct} {es : List PathEvent}

theorem PathStep.of_engine {k : Nat} {a : Engine.Act}
    (h : pathStep J s (.engine k a) = some (s', es)) : PathStep J s (.engine k a) s' es := by
  cases hk : s.runs[k]? with
  | none => cases a <;> simp [pathStep, hk] at h
  | some r =>
      obtain ⟨g, root, phase⟩ := r
      cases phase with
      | reset m children observer => cases a <;> simp [pathStep, hk] at h
      | entered c =>
          cases hst : Engine.step (s.view c) a with
          | none => cases a <;> simp [pathStep, hk, hst] at h
          | some p =>
              obtain ⟨c', es'⟩ := p
              have h' : some ((({ s with runs := s.runs.set k ⟨g, root, .entered c'⟩ }).record g
                  (Engine.recordedPath (s.view c) a)), []) = some (s', es) := by
                cases a with
                | request tok => simp [pathStep] at h
                | _ => simpa only [pathStep, hk, hst] using h
              obtain ⟨rfl, rfl⟩ := Prod.mk.inj (Option.some.inj h')
              rcases Engine.recordedPath_cases hst with hnone | ⟨i, t, t', p, hp, hi, hs, rfl⟩
              · rw [hnone]
                exact .unrecorded hk hst
              · rw [hp]
                exact .recorded hk hst hi hs

theorem PathStep.of_pathStep (h : pathStep J s a = some (s', es)) : PathStep J s a s' es := by
  cases a with
  | executor a =>
      rw [pathStep] at h
      split at h
      · cases hst : step J s.executor a with
        | none => simp [hst] at h
        | some p =>
            obtain ⟨e, es'⟩ := p
            simp only [hst] at h
            obtain ⟨rfl, rfl⟩ := Prod.mk.inj (Option.some.inj h)
            exact .executor hst
      · cases h
  | resetPath g m children observer =>
      simp only [pathStep] at h
      split at h
      · rename_i req cls params userdataIn hg
        split at h
        · rename_i hguard
          obtain ⟨rfl, rfl⟩ := Prod.mk.inj (Option.some.inj h)
          rw [← hguard.1]
          exact .resetPath hg
        · cases h
      · cases h
  | enterRoot k =>
      simp only [pathStep] at h
      split at h
      · rename_i g root m children observer hk
        obtain ⟨rfl, rfl⟩ := Prod.mk.inj (Option.some.inj h)
        exact .enterRoot hk
      · cases h
  | engine k a => exact .of_engine h
  | readPath =>
      obtain ⟨rfl, rfl⟩ := Prod.mk.inj (Option.some.inj h)
      exact .readPath
  | publish j now =>
      cases hj : s.readings[j]? with
      | none => simp [pathStep, hj] at h
      | some r =>
          simp only [pathStep, hj] at h
          obtain ⟨rfl, rfl⟩ := Prod.mk.inj (Option.some.inj h)
          exact .publish hj

end Cases

/-! ## Paths of the workers -/

/-- Goals stay, with the request they came with. -/
def Kept (goals goals' : List (Goal Dict)) : Prop :=
  ∀ (g : Nat) (goal : Goal Dict), goals[g]? = some goal →
    ∃ goal', goals'[g]? = some goal' ∧ goal'.request = goal.request

/-- What the worker of a goal has written is empty, or below the `subjob_id` of the goal. -/
def WorkerWrote (goals : List (Goal Dict)) (path : String) (writer : Option Writer) : Prop :=
  ∀ g, writer = some (g, 0) → ∃ goal, goals[g]? = some goal ∧
    (goal.request.subjobId ≠ "" → path = "" ∨ Engine.Begins goal.request.subjobId path)

/-- The threads of a run are on their paths, and the worker's begins with the `subjob_id`. -/
structure RunOk (goals : List (Goal Dict)) (r : EngineRun) : Prop where
  root : ∃ goal, goals[r.goal]? = some goal ∧
    (goal.request.subjobId ≠ "" → r.rootName = goal.request.subjobId)
  entered : ∀ c, r.phase = .entered c → Engine.OnPath r.rootName c ∧
    ∀ t, c.threads[0]? = some t → t.base = .caller (.run "")

structure PathInv (s : PathState Dict) : Prop where
  busy : s.executor.node.currentStatus = .running → s.executor.node.busy = true
  runs : ∀ r ∈ s.runs, RunOk s.executor.goals r
  slot : WorkerWrote s.executor.goals s.globalPath s.writer
  readings : ∀ r ∈ s.readings, WorkerWrote s.executor.goals r.path r.writer

section Steps

variable {J : JsonModule Dict} {s s' : PathState Dict} {a : PathAct} {es : List PathEvent}
  {n n' : NodeState} {g : Nat} {req : GoalRequest} {pc pc' : GoalPc Dict}
  {goals goals' : List (Goal Dict)}

/-- `_current_status` is `RUNNING` only together with `_busy`. -/
theorem GoalStep.running_busy {b : GoalAct} {ev : List Event}
    (hs : GoalStep J n g req pc b n' pc' ev) (h : n.currentStatus = .running → n.busy = true) :
    n'.currentStatus = .running → n'.busy = true := by
  cases hs with
  | start hp hu => exact fun _ => rfl
  | publishSpec => exact h
  | finishCancelled => nofun
  | finishFailure => nofun
  | finishReturned => exact fun hr => absurd hr (returnedSection_ne_running _ _ _ _ _)
  | finishRaises hraises => exact fun hr => absurd hr (returnedSection_ne_running _ _ _ _ _)
  | _ => exact h

theorem WorkerWrote.mono {path : String} {writer : Option Writer}
    (h : WorkerWrote goals path writer) (hkept : Kept goals goals') :
    WorkerWrote goals' path writer := by
  intro g hw
  obtain ⟨goal, hg, hpath⟩ := h g hw
  obtain ⟨goal', hg', hreq⟩ := hkept g goal hg
  exact ⟨goal', hg', by rwa [hreq]⟩

theorem RunOk.mono {r : EngineRun} (h : RunOk goals r) (hkept : Kept goals goals') :
    RunOk goals' r where
  root := by
    obtain ⟨goal, hg, hroot⟩ := h.root
    obtain ⟨goal', hg', hreq⟩ := hkept _ goal hg
    exact ⟨goal', hg', by rwa [hreq]⟩
  entered := h.entered

theorem PathInv.executor {b : Act} {e : State Dict} {ev : List Event} (hinv : PathInv s)
    (hst : step J s.executor b = some (e, ev)) : PathInv { s with executor := e } := by
  have hkept : Kept s.executor.goals e.goals := fun g goal hg => step_request hst hg
  refine ⟨?_, fun r hr => (hinv.runs r hr).mono hkept, hinv.slot.mono hkept,
    fun r hr => (hinv.readings r hr).mono hkept⟩
  rcases step_cases hst with ⟨_, -, -, rfl, -⟩ | ⟨_, -, -, rfl, -⟩ |
    ⟨g, c, goal, node, pc, -, -, hs, rfl⟩ | ⟨_, -, -, -, rfl⟩ | ⟨_, _, _, -, -, -, rfl⟩
  · exact hinv.busy
  · exact hinv.busy
  · exact hs.running_busy hinv.busy
  · exact hinv.busy
  · exact hinv.busy

/-- The run of a goal after an engine step. -/
theorem RunOk.step {root : String} {c c' : Engine.Config} {requested : List Nat}
    {b : Engine.Act} {ev : List Engine.Event} (h : RunOk goals ⟨g, root, .entered c⟩)
    (hst : Engine.step { c with requested } b = some (c', ev)) :
    RunOk goals ⟨g, root, .entered c'⟩ := by
  obtain ⟨hpath, hbase⟩ := h.entered c rfl
  refine ⟨h.root, ?_⟩
  intro c₁ hc
  cases hc
  have hpath' : Engine.OnPath root { c with requested } := hpath
  refine ⟨hpath'.step hst, ?_⟩
  rcases Engine.step_cases hst with ⟨tok, -, -, rfl⟩ | ⟨i, t, t', eff, hi, hs, rfl⟩
  · exact hbase
  · intro u hu
    rcases Engine.commit_threads_cases hi hu with ⟨rfl, rfl⟩ | ⟨-, hu'⟩ | ⟨p, r, -, hlen, -⟩
    · rw [hs.base_eq]
      exact hbase t hi
    · exact hbase u hu'
    · have hlt : i < ({ c with requested } : Engine.Config).threads.length :=
        (List.getElem?_eq_some_iff.mp hi).choose
      omega

/-- The path that the worker records. -/
theorem RunOk.wrote {root p : String} {c : Engine.Config} {requested : List Nat} {i : Nat}
    {b : Engine.Act} {t t' : Engine.Thread} {ev : List Engine.Event}
    (h : RunOk goals ⟨g, root, .entered c⟩) (hi : c.threads[i]? = some t)
    (hs : Engine.ThreadStep { c with requested } i t b t' (.path p) ev) :
    WorkerWrote goals p (some (g, i)) := by
  intro k hw
  obtain ⟨rfl, rfl⟩ := Prod.mk.inj (Option.some.inj hw)
  obtain ⟨goal, hg, hroot⟩ := h.root
  obtain ⟨hpath, hbase⟩ := h.entered c rfl
  refine ⟨goal, hg, fun hne => ?_⟩
  have hok : Engine.PathOk root t := by
    have := hpath 0 t hi
    rwa [hbase t hi] at this
  rcases hs.recorded hok with rfl | ⟨-, -, rfl⟩
  · obtain rfl : root = goal.request.subjobId := hroot hne
    exact Or.inr (Engine.begins_pathOf hne t'.stack)
  · exact Or.inl rfl

theorem mem_set_runs {runs : List EngineRun} {k : Nat} {r r' : EngineRun}
    (h : r ∈ runs.set k r') : r = r' ∨ r ∈ runs := by
  rcases List.mem_or_eq_of_mem_set h with h | h
  · exact Or.inr h
  · exact Or.inl h

theorem PathInv.step (hinv : PathInv s) (hs : PathStep J s a s' es) : PathInv s' := by
  have hset : ∀ (k : Nat) (r : EngineRun), RunOk s.executor.goals r →
      ∀ u ∈ s.runs.set k r, RunOk s.executor.goals u := by
    intro k r hr u hu
    rcases mem_set_runs hu with rfl | hu
    · exact hr
    · exact hinv.runs u hu
  cases hs with
  | executor hst => exact hinv.executor hst
  | @resetPath g m children observer goal hg =>
      refine ⟨hinv.busy, ?_, fun k hw => (nomatch hw), hinv.readings⟩
      intro r hr
      rcases List.mem_append.mp hr with hr | hr
      · exact hinv.runs r hr
      · obtain rfl := List.mem_singleton.mp hr
        refine ⟨⟨goal, hg, fun hne => ?_⟩, fun c hc => (nomatch hc)⟩
        exact if_neg hne
  | @enterRoot k g root m children observer hk =>
      have hrun := hinv.runs _ (List.mem_of_getElem? hk)
      have hpath : Engine.enterPath "" root = root := if_pos rfl
      refine ⟨hinv.busy, hset k _ ⟨hrun.root, ?_⟩, ?_, hinv.readings⟩
      · intro c hc
        cases hc
        refine ⟨?_, fun t ht => ?_⟩
        · have hroot := Engine.OnPath.start (.machine m children) (.run "")
            ⟨some g, Engine.enterPath "" root, observer⟩
          rwa [hpath] at hroot
        · obtain rfl := Option.some.inj ht
          rfl
      -- the root's path is its name
      · intro g' hw
        cases hw
        obtain ⟨goal, hg, hroot⟩ := hrun.root
        exact ⟨goal, hg, fun hne => Or.inr (Or.inl (hpath.trans (hroot hne)))⟩
  | @recorded k g i root p c t t' b ev hk hst hi hs =>
      have hrun := hinv.runs _ (List.mem_of_getElem? hk)
      exact ⟨hinv.busy, hset k _ (hrun.step hst), hrun.wrote hi hs, hinv.readings⟩
  | @unrecorded k g root c c' b ev hk hst =>
      have hrun := hinv.runs _ (List.mem_of_getElem? hk)
      exact ⟨hinv.busy, hset k _ (hrun.step hst), hinv.slot, hinv.readings⟩
  | readPath =>
      refine ⟨hinv.busy, hinv.runs, hinv.slot, ?_⟩
      intro r hr
      rcases List.mem_append.mp hr with hr | hr
      · exact hinv.readings r hr
      · obtain rfl := List.mem_singleton.mp hr
        exact hinv.slot
  | publish hj =>
      exact ⟨hinv.busy, hinv.runs, hinv.slot,
        fun r hr => hinv.readings r (List.mem_of_mem_eraseIdx hr)⟩

theorem PathInv.init (now : Nat) : PathInv (PathState.init now : PathState Dict) where
  busy := nofun
  runs := nofun
  slot := nofun
  readings := nofun

/-- A message whose path was read from the worker of the SubJob is coherent. -/
theorem PathInv.coherent {j now : Nat} {r : Reading} (hinv : PathInv s)
    (hP : ReadsWorkerPath s (.publish j now)) (hj : s.readings[j]? = some r) :
    Coherent (s.executor.node.publishSection r.path now) := by
  intro hrunning
  have hbusy : s.executor.node.busy = true := hinv.busy hrunning
  have hactive : (s.executor.node.publishSection r.path now).activeState = r.path := by
    simp only [NodeState.publishSection, hbusy, if_true]
  rw [hactive]
  by_cases hempty : r.path = ""
  · exact Or.inl hempty
  · obtain ⟨hw, hne⟩ := hP r hj hrunning hempty
    show r.path = "" ∨ Engine.Begins s.executor.node.currentSubjobId r.path
    unfold PathState.workerSubjob at hw
    split at hw
    · rename_i w g hwriter
      obtain ⟨goal, hg, hpath⟩ := hinv.readings r (List.mem_of_getElem? hj) g hwriter
      rw [hg] at hw
      have hid : goal.request.subjobId = s.executor.node.currentSubjobId := Option.some.inj hw
      rw [hid] at hpath
      exact hpath hne
    · cases hw

end Steps

/-- **Coherent messages.** In every interleaving in which each message of a running SubJob is
made from a path that the worker of a goal with that `subjob_id` has written, every message is
coherent. -/
theorem messages_coherent {J : JsonModule Dict} {now : Nat} {tr : List PathEvent}
    {s : PathState Dict} (hrun : Run (pathStep J) ReadsWorkerPath (.init now) tr s)
    (msg : StatusMsg) (hmsg : .published msg ∈ tr) : Coherent msg := by
  obtain ⟨tr₁, s₁, a, s₂, es, tr₂, hr, hP, hst, he, -, -⟩ := hrun.exists_step_of_mem hmsg
  have hinv : PathInv s₁ := hr.invariant
    (fun _ _ _ _ hinv _ hst => hinv.step (.of_pathStep hst)) (PathInv.init now)
  cases PathStep.of_pathStep hst with
  | executor hex =>
      obtain ⟨e, -, he⟩ := List.mem_map.mp he
      cases he
  | publish hj =>
      obtain ⟨rfl⟩ := PathEvent.published.inj (List.mem_singleton.mp he)
      exact hinv.coherent hP hj
  | _ => cases he

/-! ## A SubJob with a region -/

/-- The children of a SubJob that drives and watches at the same time, in regions. -/
def patrolChildren : List (Engine.Child Engine.Tree) :=
  [⟨"round", .parallel 1
      ⟨"move", .machine ⟨2, "StateMachine", .stateMachine, ["done"], some "drive"⟩
        [⟨"drive", .leaf ⟨3, "DriveToPoseState", ["succeeded"]⟩, [("succeeded", "done")]⟩],
        [("done", "done")]⟩ [],
      [("done", "done")]⟩]

/-- A goal `Patrol`, up to the start of its first child. -/
def patrolRound : List PathAct :=
  [.executor (.goalRequest (plainRequest "Patrol")), .executor (.goal 0 (.start 5)),
    .executor (.goal 0 (.build (.built "BehaviorSM" (.ok "{}")))),
    .executor (.goal 0 .publishSpec),
    .resetPath 0 ⟨0, "BehaviorSM", .behaviorSM [], ["done"], some "round"⟩ patrolChildren false,
    .enterRoot 0, .engine 0 (.thread 0), .engine 0 (.thread 0), .engine 0 (.thread 0)]

theorem messages_coherent_patrolRound : ∃ (tr : List PathEvent) (s : PathState Unit)
    (msg : StatusMsg), Run (pathStep noParameters) ReadsWorkerPath (.init 0) tr s ∧
      .published msg ∈ tr ∧ msg.status = .running ∧ msg.activeState = "Patrol.round" ∧
      Coherent msg := by
  have hacts : (runActs (pathStep noParameters) ReadsWorkerPath (.init 0)
      (patrolRound ++ [.readPath, .publish 0 7])).isSome := by decide
  have hrun := Run.of_isSome hacts
  have hmem : PathEvent.published ⟨"Patrol", "{}", "Patrol.round", "{}", .running, 5, 2⟩ ∈
      ([.executor (.accepted 0), .executor (.busySet 0),
        .published ⟨"Patrol", "{}", "Patrol.round", "{}", .running, 5, 2⟩] : List PathEvent) := by
    decide
  exact ⟨_, _, _, hrun, hmem, rfl, rfl, messages_coherent hrun _ hmem⟩

/-- The first child of a region is entered with an empty context: the slot then holds the name of
that child alone, and so does the message of the running `Patrol`. -/
theorem not_always_coherent : ¬ ∀ (now : Nat) (tr : List PathEvent) (s : PathState Unit)
    (msg : StatusMsg), Run (pathStep noParameters) OneAfterAnother (.init now) tr s →
      .published msg ∈ tr → Coherent msg := by
  intro h
  have hacts : (runActs (pathStep noParameters) OneAfterAnother (.init 0)
      (patrolRound ++ [.engine 0 (.thread 0), .engine 0 (.thread 0), .engine 0 (.thread 1),
        .engine 0 (.thread 1), .engine 0 (.thread 1), .readPath, .publish 0 7])).isSome := by
    decide
  have hmem : PathEvent.published ⟨"Patrol", "{}", "drive", "{}", .running, 5, 2⟩ ∈
      ([.executor (.accepted 0), .executor (.busySet 0),
        .published ⟨"Patrol", "{}", "drive", "{}", .running, 5, 2⟩] : List PathEvent) := by
    decide
  rcases h 0 _ _ _ (Run.of_isSome hacts) hmem rfl with hempty | hname | ⟨rest, hrest⟩
  · exact absurd hempty (by decide)
  · exact absurd hname (by decide)
  -- a path below `Patrol` begins with `P`
  · have hchars := congrArg (fun path : String => path.toList.head?) hrest
    simp at hchars

end RobotTaskManager.Executor
