import RobotTaskManager.Engine.Paths
import RobotTaskManager.Engine.Placement
import RobotTaskManager.WebGui.Chart

set_option autoImplicit false

/-! # The highlighted state

`HfsmStateView` highlights the node whose path equals the active path that the engine has recorded.
For a state that is reached through children of machines the two paths are the same. The right node
is then highlighted, and it alone, unless the names on the way to another node give the same dotted
path. For a state inside a region or a decorator there is no node in the chart.
-/

namespace RobotTaskManager.WebGui

open PyValue Engine Interleaving

/-! ## The state that a path is recorded for -/

/-- The children that the machines of a stack are in, if no decorator waits among them. -/
def machinePath : List Frame → Option (List String)
  | [] => some []
  | .machine f _ _ :: rest => (machinePath rest).map fun names => names ++ [f.current]
  | .retry _ :: _ => none

def dropRetries : List Frame → List Frame
  | .retry _ :: rest => dropRetries rest
  | stack => stack

/-- The names from the root to the state for whose `execute` the next step of a thread records a
path: the child that is entered, or, when a child is left, the state that was entered last before
it. There are none for a state inside a region or a decorator. -/
def recordsFor (t : Thread) : Option (List String) :=
  match t.base with
  | .runner _ _ => none
  | .caller _ =>
      match t.control, t.stack with
      | .checked f, stack => (machinePath stack).map fun names => names ++ [f.current]
      | .done _, .machine _ _ _ :: rest => machinePath (dropRetries rest)
      | _, _ => none

/-- `path` is that of exactly one node of the chart, the one of the state. -/
def Highlights (spec : Val) (chart : ParsedNode) (path : String) (state : Option (List String)) :
    Prop :=
  ∃ names n, state = some names ∧ nodeAt spec chart names = some n ∧
    chart.nodes.filter (fun m => m.path = path) = [n]

/-- What the step records while the run is in progress is the path of the state it records it
for. -/
def RecordsNode (spec : Val) (chart : ParsedNode) (c : Config) (a : Act) : Prop :=
  ∀ (i : Nat) (t : Thread) (path : String), recordedPath c a = some (i, path) →
    c.threads[i]? = some t → c.result = none → path ≠ "" →
    Highlights spec chart path (recordsFor t)

/-- A step of a run in progress that records a path does so for a state that is reached through
children of machines, and the names on the way to no other such state give the same path. -/
def RecordsUnambiguous (root : Tree) (rootName : String) (c : Config) (a : Act) : Prop :=
  ∀ (i : Nat) (t : Thread) (path : String), recordedPath c a = some (i, path) →
    c.threads[i]? = some t → c.result = none → path ≠ "" →
    ∃ names, recordsFor t = some names ∧ ∀ names', (stateAt root names').isSome = true →
      joinPath rootName names' = joinPath rootName names → names' = names

/-! ## Names in the chart -/

section Names

variable {root t : Tree} {spec : Val} {n : ParsedNode} {names : List String}

theorem eq_singleton_of_nodup {α : Type} {l : List α} {a : α} (hl : l.Nodup) (ha : a ∈ l)
    (hall : ∀ b ∈ l, b = a) : l = [a] := by
  cases l with
  | nil => cases ha
  | cons b rest =>
      obtain rfl := hall b List.mem_cons_self
      obtain rfl : rest = [] := by
        refine List.eq_nil_iff_forall_not_mem.mpr fun c hc => ?_
        obtain rfl := hall c (List.mem_cons_of_mem _ hc)
        exact (List.nodup_cons.mp hl).1 hc
      rfl

/-- A node of the chart is alone with its path exactly if its names are. -/
theorem Depicts.alone_iff (h : Depicts t spec n) (hnames : (stateAt t names).isSome = true) :
    (∃ m, nodeAt spec n names = some m ∧
      n.nodes.filter (fun m => m.path = joinPath n.path names) = [m]) ↔
    ∀ names', (stateAt t names').isSome = true →
      joinPath n.path names' = joinPath n.path names → names' = names := by
  obtain ⟨ps, hps, hmem, hnodes⟩ := h
  have hin : names ∈ ps := (hmem names).mpr hnames
  -- the nodes with the path, and the names with the path
  have hfilter : List.Forall₂ (fun names m => nodeAt spec n names = some m ∧
      m.path = joinPath n.path names)
      (ps.filter fun names' => joinPath n.path names' = joinPath n.path names)
      (n.nodes.filter fun m => m.path = joinPath n.path names) := by
    refine List.rel_filter (fun names' m hm => ?_) hnodes
    simp [hm.2]
  have hmem' : ∀ names', names' ∈ ps.filter (fun names' => joinPath n.path names' =
      joinPath n.path names) ↔ (stateAt t names').isSome = true ∧
        joinPath n.path names' = joinPath n.path names := by
    intro names'
    rw [List.mem_filter, hmem, decide_eq_true_iff]
  constructor
  · rintro ⟨m, -, hm⟩ names' hsome heq
    rw [hm] at hfilter
    -- only one of the names has the path
    obtain ⟨names₀, rest, -, hrest, hps₀⟩ := List.forall₂_cons_right_iff.mp hfilter
    obtain rfl := List.forall₂_nil_right_iff.mp hrest
    rw [hps₀] at hmem'
    rw [List.mem_singleton.mp ((hmem' names').mpr ⟨hsome, heq⟩),
      List.mem_singleton.mp ((hmem' names).mpr ⟨hnames, rfl⟩)]
  · intro huniq
    have hsingle : ps.filter (fun names' => joinPath n.path names' = joinPath n.path names)
        = [names] := by
      refine eq_singleton_of_nodup (hps.filter _) ((hmem' names).mpr ⟨hnames, rfl⟩) ?_
      intro names' hnames'
      exact huniq names' ((hmem' names').mp hnames').1 ((hmem' names').mp hnames').2
    rw [hsingle] at hfilter
    obtain ⟨m, rest, hm, hrest, heq⟩ := List.forall₂_cons_left_iff.mp hfilter
    obtain rfl := List.forall₂_nil_left_iff.mp hrest
    exact ⟨m, hm.1, heq⟩

/-- A path goes on with every name. -/
theorem length_joinPath_le {path : String} (hne : path ≠ "") (names : List String) :
    path.length + names.length ≤ (joinPath path names).length := by
  induction names generalizing path with
  | nil => exact le_rfl
  | cons name names ih =>
      have henter : enterPath path name = path ++ "." ++ name := if_neg hne
      have hne' : enterPath path name ≠ "" := by simp [henter]
      have hlen := ih hne'
      rw [henter] at hlen
      simp only [String.length_append] at hlen
      show _ ≤ (joinPath (enterPath path name) names).length
      rw [henter, List.length_cons]
      have hdot : ".".length = 1 := rfl
      omega

theorem stateAt_append (t : Tree) (names : List String) (name : String) :
    stateAt t (names ++ [name]) = (stateAt t names).bind fun s => stateAt s [name] := by
  induction names generalizing t with
  | nil => rfl
  | cons first names ih =>
      cases t with
      | machine m children =>
          rw [List.cons_append, stateAt, stateAt]
          cases findChild children first with
          | none => rfl
          | some ch => exact ih ch.state
      | _ => rfl

theorem joinPath_append (path : String) (names : List String) (name : String) :
    joinPath path (names ++ [name]) = enterPath (joinPath path names) name := by
  rw [joinPath, List.foldl_append]
  rfl

end Names

/-! ## The threads of a run -/

/-- A machine that waits for a child has found it under the name it is at. -/
def Found : Frame → Prop
  | .machine f ch _ => findChild f.children f.current = some ch
  | .retry _ => True

def AllFound (c : Config) : Prop :=
  ∀ (i : Nat) (t : Thread), c.threads[i]? = some t → ∀ f ∈ t.stack, Found f

section Threads

variable {root s : Tree} {rootName p : String} {c c' : Config} {i : Nat} {t t' : Thread}
  {a : Act} {eff : Effect} {es : List Event} {b : Base} {k : Caller} {stack : List Frame}
  {names : List String}

theorem found_step (hs : ThreadStep c i t a t' eff es) (h : ∀ f ∈ t.stack, Found f) :
    ∀ f ∈ t'.stack, Found f := by
  cases hs with
  | execRetry hc => exact List.forall_mem_cons.mpr ⟨trivial, h⟩
  | startChild hc hf => exact List.forall_mem_cons.mpr ⟨hf, h⟩
  | childReturned hc hst => exact (List.forall_mem_cons.mp (hst ▸ h)).2
  | childRaised hc hst => exact (List.forall_mem_cons.mp (hst ▸ h)).2
  | retryAgain hc hst ha =>
      exact List.forall_mem_cons.mpr ⟨trivial, (List.forall_mem_cons.mp (hst ▸ h)).2⟩
  | retryOver hc hst hn => exact (List.forall_mem_cons.mp (hst ▸ h)).2
  | _ => exact h

theorem AllFound.step (h : AllFound c) (hst : Engine.step c a = some (c', es)) : AllFound c' := by
  rcases step_cases hst with ⟨tok, rfl, rfl, rfl⟩ | ⟨i, t, t', eff, hi, hs, rfl⟩
  · exact h
  · intro j u hj
    rcases commit_threads_cases hi hj with ⟨rfl, rfl⟩ | ⟨-, hj'⟩ | ⟨p, r, rfl, -, rfl⟩
    · exact found_step hs (h j t hi)
    · exact h j u hj'
    · exact fun f hf => nomatch hf

theorem AllFound.start (root : Tree) (k : Caller) (ctx : Ctx) :
    AllFound (.start root k ctx) := by
  intro i t hi
  simp only [Config.start, List.getElem?_singleton] at hi
  split at hi
  · obtain rfl := Option.some.inj hi
    intro f hf
    cases hf
  · cases hi

/-- The path of a stack of machines is the one that the names give. -/
theorem pathOf_eq_joinPath (h : machinePath stack = some names) :
    pathOf rootName stack = joinPath rootName names := by
  induction stack generalizing names with
  | nil =>
      obtain rfl := Option.some.inj h
      rfl
  | cons f rest ih =>
      cases f with
      | machine f ch parentPath =>
          obtain ⟨names', hrest, rfl⟩ := Option.map_eq_some_iff.mp h
          rw [joinPath_append, ← ih hrest]
          rfl
      | retry f => cases h

theorem pathOf_dropRetries (stack : List Frame) :
    pathOf rootName (dropRetries stack) = pathOf rootName stack := by
  induction stack with
  | nil => rfl
  | cons f rest ih =>
      cases f with
      | machine f ch parentPath => rfl
      | retry f => exact ih

theorem awaits_dropRetries (h : Awaits root b stack s) :
    ∃ s', Awaits root b (dropRetries stack) s' := by
  induction h with
  | retry _ ih => exact ih
  | caller k => exact ⟨_, .caller k⟩
  | runner hr => exact ⟨_, .runner hr⟩
  | machine hb hch _ => exact ⟨_, .machine hb hch⟩

theorem dropRetries_subset (stack : List Frame) : dropRetries stack ⊆ stack := by
  induction stack with
  | nil => exact List.Subset.refl _
  | cons f rest ih =>
      cases f with
      | machine f ch parentPath => exact List.Subset.refl _
      | retry f => exact List.Subset.trans ih (List.subset_cons_self _ _)

/-- A thread with only machines waiting in it is in the state that their children's names lead
to. -/
theorem stateAt_of_awaits (h : Awaits root b stack s) (hb : b = .caller k)
    (hfound : ∀ f ∈ stack, Found f) (hnames : machinePath stack = some names) :
    stateAt root names = some s := by
  induction h generalizing names with
  | caller k =>
      obtain rfl := Option.some.inj hnames
      rfl
  | runner hr => cases hb
  | @machine b stack f ch parentPath hmachine hch ih =>
      obtain ⟨names', hrest, rfl⟩ := Option.map_eq_some_iff.mp hnames
      obtain ⟨hf, hfound⟩ := List.forall_mem_cons.mp hfound
      have hf : findChild f.children f.current = some ch := hf
      rw [stateAt_append, ih hb hfound hrest]
      simp [stateAt, hf]
  | retry _ _ => cases hnames

/-- **What is recorded for a state in the chart** is the dotted path of the names of that state. -/
theorem recorded_eq_joinPath (hs : ThreadStep c i t a t' (.path p) es)
    (hplaced : ∃ s, Awaits root t.base t.stack s ∧ StaysIn c s t.control)
    (hpath : PathOk (startPath rootName t.base) t) (hfound : ∀ f ∈ t.stack, Found f)
    (hnames : recordsFor t = some names) :
    p = joinPath rootName names ∧ (stateAt root names).isSome = true := by
  obtain ⟨s, haw, hctl⟩ := hplaced
  unfold recordsFor at hnames
  cases hb : t.base with
  | runner q r => simp [hb] at hnames
  | caller k =>
      rw [hb] at hnames hpath haw
      have hleft : ∀ {f : MachineFrame} {ch : Child Tree} {parentPath : String}
          {rest : List Frame}, t.stack = .machine f ch parentPath :: rest →
          machinePath (dropRetries rest) = some names →
          parentPath = joinPath rootName names ∧ (stateAt root names).isSome = true := by
        intro f ch parentPath rest hst hrest
        have hparents := hpath.parents
        rw [hst] at haw hparents hfound
        obtain ⟨s', haw'⟩ := awaits_dropRetries haw.of_machine.1
        have hfound' : ∀ f ∈ dropRetries rest, Found f := fun f hf =>
          (List.forall_mem_cons.mp hfound).2 f (dropRetries_subset rest hf)
        refine ⟨?_, ?_⟩
        · rw [hparents.1, ← pathOf_dropRetries, pathOf_eq_joinPath hrest]
          rfl
        · rw [stateAt_of_awaits haw' rfl hfound' hrest]
          rfl
      generalize heff : Effect.path p = eff at hs
      cases hs with
      | @startChild f ch hc hf =>
          cases heff
          simp only [hc] at hnames
          obtain ⟨names', hstack, rfl⟩ := Option.map_eq_some_iff.mp hnames
          have hcur : s = .machine f.info f.children := by
            rw [hc] at hctl
            exact hctl
          refine ⟨?_, ?_⟩
          · rw [joinPath_append, ← pathOf_eq_joinPath hstack,
              hpath.path fun r => by rw [hc]; nofun]
            rfl
          · rw [stateAt_append, stateAt_of_awaits haw rfl hfound hstack, hcur]
            simp [stateAt, hf]
      | childReturned hc hst =>
          cases heff
          simp only [hc, hst] at hnames
          exact hleft hst hnames
      | childRaised hc hst =>
          cases heff
          simp only [hc, hst] at hnames
          exact hleft hst hnames
      | runOver hc hst hb' => simp [hc, hst] at hnames
      | _ => cases heff

end Threads

/-! ## Exactly when the chart is right -/

/-- What the steps of a run preserve. -/
structure OnChart (root : Tree) (rootName : String) (c : Config) : Prop where
  placed : Placed root c
  path : OnPath rootName c
  found : AllFound c

theorem OnChart.records_iff {root : Tree} {rootName : String} {spec : Val} {chart : ParsedNode}
    {c c' : Config} {a : Act} {es : List Event} (h : OnChart root rootName c)
    (hchart : Depicts root spec chart) (hroot : chart.path = rootName)
    (hst : Engine.step c a = some (c', es)) :
    RecordsNode spec chart c a ↔ RecordsUnambiguous root rootName c a := by
  refine forall₃_congr fun i t path => ?_
  refine forall₄_congr fun hrec hi _ _ => ?_
  rcases recordedPath_cases hst with hnone | ⟨j, u, u', p, hrec', hj, hs, -⟩
  · rw [hnone] at hrec
    cases hrec
  · obtain ⟨rfl, rfl⟩ := Prod.mk.inj (Option.some.inj (hrec'.symm.trans hrec))
    obtain rfl := Option.some.inj (hj.symm.trans hi)
    have hat : ∀ names, recordsFor u = some names →
        p = joinPath rootName names ∧ (stateAt root names).isSome = true := fun names hnames =>
      recorded_eq_joinPath hs (h.placed.thread j u hj) (h.path j u hj) (h.found j u hj) hnames
    constructor
    · rintro ⟨names, n, hnames, hn, hfilter⟩
      obtain ⟨rfl, hsome⟩ := hat names hnames
      subst hroot
      exact ⟨names, hnames, (hchart.alone_iff hsome).mp ⟨n, hn, hfilter⟩⟩
    · rintro ⟨names, hnames, huniq⟩
      obtain ⟨rfl, hsome⟩ := hat names hnames
      subst hroot
      obtain ⟨n, hn, hfilter⟩ := (hchart.alone_iff hsome).mpr huniq
      exact ⟨names, n, hnames, hn, hfilter⟩

/-- **The live chart.** The chart highlights the root when the run begins. In every schedule, each
non-empty path that is recorded while the run is in progress is that of one node of the chart, the
node of the state it is recorded for, exactly if it is recorded for states that are reached through
children of machines and whose dotted path no other such state has. -/
theorem chart_agrees_iff {m : MachineInfo} {children : List (Child Tree)} {rootName : String}
    (hroot : rootName ≠ "") (hnames : DistinctNames (.machine m children))
    (double : ℚ → Option ℚ) (tok : Nat) (observer : Bool) (as : List Act) :
    let root : Tree := .machine m children
    let spec : Val := (objOf root).toSpec.js double
    let chart : ParsedNode := parseHfsmSpec spec rootName
    Highlights spec chart rootName (some []) ∧
      (Obeys step (RecordsNode spec chart) (.startRun root tok rootName observer) as ↔
        Obeys step (RecordsUnambiguous root rootName) (.startRun root tok rootName observer) as) := by
  intro root spec chart
  have hchart : Depicts root spec chart := depicts_walk hnames 0 0 "" rootName
  have hpath : chart.path = rootName := (walk_path 0 0 spec "" rootName).trans (if_pos rfl)
  refine ⟨?_, ?_⟩
  · have halone : ∀ names', (stateAt root names').isSome = true →
        joinPath chart.path names' = joinPath chart.path [] → names' = [] := by
      intro names' _ heq
      have hlen : chart.path.length + names'.length ≤ (joinPath chart.path names').length :=
        length_joinPath_le (hpath ▸ hroot) names'
      have hself : (joinPath chart.path []).length = chart.path.length := rfl
      rw [heq, hself] at hlen
      exact List.length_eq_zero_iff.mp (by omega)
    obtain ⟨n, hn, hfilter⟩ := (hchart.alone_iff rfl).mpr halone
    exact ⟨[], n, rfl, hn, hpath ▸ hfilter⟩
  · apply obeys_congr (J := OnChart root rootName)
    · intro c a c' es hinv _ hst
      exact ⟨hinv.placed.step hst, hinv.path.step hst, hinv.found.step hst⟩
    · intro c a c' es hinv hst
      exact hinv.records_iff hchart hpath hst
    · have hstart := OnPath.start root (.run "") ⟨some tok, enterPath "" rootName, observer⟩
      have henter : enterPath "" rootName = rootName := if_pos rfl
      rw [henter] at hstart
      exact ⟨Placed.start root _ _, hstart, AllFound.start root _ _⟩

/-! ## A region -/

/-- The children of a SubJob that drives and watches at the same time, in regions. -/
def watchedDrive : List (Child Tree) :=
  [⟨"round", .parallel 1
      ⟨"move", .machine ⟨2, "StateMachine", .stateMachine, ["done"], some "drive"⟩
        [⟨"drive", .leaf ⟨3, "DriveToPoseState", ["succeeded"]⟩, [("succeeded", "done")]⟩],
        [("done", "done")]⟩
      [⟨"watch", .leaf ⟨4, "CaptureImageState", ["succeeded"]⟩, [("succeeded", "done")]⟩],
      [("done", "done")]⟩]

def watchedDriveInfo : MachineInfo :=
  ⟨0, "BehaviorSM", .behaviorSM [], ["done"], some "round"⟩

theorem distinctNames_watchedDrive : DistinctNames (.machine watchedDriveInfo watchedDrive) := by
  refine .machine (by decide) (List.forall_mem_singleton.mpr (.parallel (by decide) ?_))
  refine List.forall_mem_cons.mpr ⟨.machine (by decide) ?_, List.forall_mem_singleton.mpr (.leaf _)⟩
  exact List.forall_mem_singleton.mpr (.leaf _)

/-- The first child of the SubJob and the thread of its first region, up to the child of the
region. -/
def driveInRegion : List Act :=
  [.thread 0, .thread 0, .thread 0, .thread 0, .thread 0, .thread 1, .thread 1]

theorem chart_agrees_iff_watchedDrive :
    let root : Tree := .machine watchedDriveInfo watchedDrive
    let spec : Val := (objOf root).toSpec.js some
    let chart : ParsedNode := parseHfsmSpec spec "Patrol"
    Highlights spec chart "Patrol" (some []) ∧
      (Obeys step (RecordsNode spec chart) (.startRun root 0 "Patrol" false) driveInRegion ↔
        Obeys step (RecordsUnambiguous root "Patrol") (.startRun root 0 "Patrol" false)
          driveInRegion) :=
  chart_agrees_iff (by decide) distinctNames_watchedDrive some 0 false driveInRegion

/-- The child of the region is recorded as `drive`, and is no node of the chart. -/
theorem not_always_chart_agrees : ¬ ∀ (m : MachineInfo) (children : List (Child Tree))
    (rootName : String) (double : ℚ → Option ℚ) (tok : Nat) (observer : Bool) (as : List Act),
    rootName ≠ "" → DistinctNames (.machine m children) →
    Obeys step (RecordsNode ((objOf (.machine m children)).toSpec.js double)
      (parseHfsmSpec ((objOf (.machine m children)).toSpec.js double) rootName))
      (.startRun (.machine m children) tok rootName observer) as := by
  intro h
  have hobeys := h watchedDriveInfo watchedDrive "Patrol" some 0 false (driveInRegion ++ [.thread 1])
    (by decide) distinctNames_watchedDrive
  have hrun : (runActs step anyStep (.startRun (.machine watchedDriveInfo watchedDrive) 0 "Patrol"
      false) driveInRegion).isSome := by decide
  have hrecords := hobeys.last (Option.some_get hrun).symm rfl
  obtain ⟨names, n, hnames, -⟩ := hrecords 1 _ "drive" rfl rfl rfl (by decide)
  cases hnames

end RobotTaskManager.WebGui
