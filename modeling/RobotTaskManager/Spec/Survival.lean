import RobotTaskManager.Spec.RoundTrip
import RobotTaskManager.Spec.SkillStates
import RobotTaskManager.Ros.ActionState

set_option autoImplicit false

/-! # The states that survive `to_spec`

A `SubJob` tree survives if the loader makes of its spec a tree of the same shape whose leaves
behave the same. `RetryDecorator` and the skill states inherit `State.to_spec`, which writes
the class name and nothing of the constructor's arguments. So a tree survives exactly if
`SpecComplete` holds: it has no `RetryDecorator`, its skill states have no arguments, and the
other leaves are registered under their class name, with a constructor that makes the same
state of what their spec contains.
-/

namespace RobotTaskManager.Spec

open PyValue

variable {ν P F B : Type}

/-! ## Leaves -/

/-- A state of a registered class that is not one of the skill states: its class name, its
outcomes, the `args` that its `to_spec` adds, if it overrides `State.to_spec`, and whatever its
behaviour is. -/
structure CustomState (B : Type) where
  className : String
  outcomes : List String
  args : Option Dict
  behaviour : B

inductive Leaf (P B : Type)
  /-- A skill state with its constructor's arguments. -/
  | skill (kind : SkillKind) (fixed : String → Option P)
  | custom (x : CustomState B)

def SkillKind.className : SkillKind → String
  | .driveToPose => "DriveToPoseState"
  | .moveMotor => "MoveMotorState"
  | .captureImage => "CaptureImageState"

/-- The outcomes of `LifecycleAwareActionState`. -/
def actionOutcomes : List String :=
  [Ros.succeeded, Ros.failed, Ros.lifecycleError, Ros.timeout, Ros.rejected]

/-- `State.to_spec`, and what a class that overrides it adds. -/
def leafSpec (className : String) (outcomes : List Val) (args : Option Dict) : Dict :=
  match args with
  | none => stateSpec className outcomes
  | some args => stateSpec className outcomes ++ [(.str "args", .dict args)]

instance : LeafState (Leaf P B) where
  outcomes
    | .skill _ _ => actionOutcomes
    | .custom x => x.outcomes
  toSpec
    | .skill kind _ => .dict (leafSpec kind.className (actionOutcomes.map Val.str) none)
    | .custom x => .dict (leafSpec x.className (x.outcomes.map Val.str) x.args)

/-! ## Classes -/

/-- A keyword argument of a constructor; `None` is the default. -/
def argument (object : Val → P) (kwargs : List (String × Val)) (key : String) : Option P :=
  match kwargs.lookup key with
  | some v => if v.isNull then none else some (object v)
  | none => none

/-- The class of a skill state: `__init__(self, node, *, …)` with its fields as keywords. -/
def skillClass (py : Conversions P F) (object : Val → P) (kind : SkillKind) :
    Klass ν (Leaf P B) where
  name := kind.className
  isState := true
  init node kwargs :=
    if (node.isSome || kwargs.any (·.1 = "node")) && kwargs.all (fun kw =>
        kw.1 = "node" || kw.1 ∈ (kind.cls py).fields.map Field.key) then
      .ok (.skill kind (argument object kwargs))
    else .error .typeError

/-- The skill states are registered under their class names. -/
def Shipped (py : Conversions P F) (object : Val → P) (reg : Registry ν (Leaf P B)) : Prop :=
  ∀ kind : SkillKind, reg kind.className = some (skillClass py object kind)

/-! ## The same behaviour -/

/-- The same goal, or the same exception, for every userdata; and of the other leaves the same
outcomes and behaviour. -/
inductive SameBehaviour (py : Conversions P F) : Leaf P B → Leaf P B → Prop
  | skill {kind : SkillKind} {fixed fixed' : String → Option P} :
      (∀ userdata, (kind.cls py).buildGoal py fixed userdata
        = (kind.cls py).buildGoal py fixed' userdata) →
      SameBehaviour py (.skill kind fixed) (.skill kind fixed')
  | custom {x y : CustomState B} : y.outcomes = x.outcomes → y.behaviour = x.behaviour →
      SameBehaviour py (.custom x) (.custom y)

/-- A tree that the constructors have made: with the machines as `add` keeps them, and the
parallels and retry decorators that their constructors do not reject. -/
inductive Made {L : Type} [LeafState L] : Obj L → Prop
  | leaf (x : L) : Made (.leaf x)
  | machine {m : MachineInfo} {children : List (Key × Obj L)} : Attached m children →
      (∀ c ∈ children, Made c.2) → Made (.machine m children)
  | parallel {policy : Val} {outcomes : List Key} {regions : List (Key × Region (Obj L))} :
      ParallelMade policy outcomes regions → (∀ r ∈ regions, Made r.2.state) →
      Made (.parallel policy outcomes regions)
  | retry {maxRetries : Nat} {retryOutcome : String} {inner : Obj L} : Made inner →
      Val.str retryOutcome ∈ inner.outcomes → Made (.retry maxRetries retryOutcome inner)

theorem Made.attached {L : Type} [LeafState L] {m : MachineInfo} {children : List (Key × Obj L)}
    (h : Made (.machine m children)) : Attached m children := by
  cases h with
  | machine hm _ => exact hm

/-- The class name is registered, for a class whose constructor makes a state with the same
behaviour of the node and the `args` of the spec. -/
def SelfRegistered (reg : Registry ν (Leaf P B)) (node : Option ν) (x : CustomState B) : Prop :=
  x.className ≠ "" ∧ ∃ klass y, reg x.className = some klass ∧ klass.isState = true ∧
    klass.make node (x.args.getD []) = .ok (.custom y) ∧
    y.outcomes = x.outcomes ∧ y.behaviour = x.behaviour

/-- The spec of the tree says all of it; a skill state needs the node. -/
inductive SpecComplete (py : Conversions P F) (reg : Registry ν (Leaf P B)) (node : Option ν) :
    Obj (Leaf P B) → Prop
  | skill {kind : SkillKind} {fixed : String → Option P} : node.isSome = true →
      (∀ f ∈ (kind.cls py).fields, fixed f.key = none) →
      SpecComplete py reg node (.leaf (.skill kind fixed))
  | custom {x : CustomState B} : SelfRegistered reg node x →
      SpecComplete py reg node (.leaf (.custom x))
  | machine {m : MachineInfo} {children : List (Key × Obj (Leaf P B))} : m.outcomes ≠ [] →
      (∀ c ∈ children, SpecComplete py reg node c.2) →
      SpecComplete py reg node (.machine m children)
  | parallel {policy : Val} {outcomes : List Key}
      {regions : List (Key × Region (Obj (Leaf P B)))} :
      (∀ r ∈ regions, SpecComplete py reg node r.2.state) →
      SpecComplete py reg node (.parallel policy outcomes regions)

/-! ## Leaves that survive -/

section Leaves

variable {L : Type} {reg : Registry ν L} {node : Option ν}

/-- What the loader makes of the spec of a leaf. -/
theorem build_leafSpec {className : String} {outcomes : List Val} {args : Option Dict}
    {t : Obj L} :
    buildFromSpec reg node (.dict (leafSpec className outcomes args)) = .ok t ↔
      className ≠ "" ∧ ∃ klass y, reg className = some klass ∧ klass.isState = true ∧
        klass.make node (args.getD []) = .ok y ∧ t = .leaf y := by
  have hkind : specKind (leafSpec className outcomes args) = .ok .state := by
    cases args <;> rfl
  have href : item (leafSpec className outcomes args) (.str "ref") = some (.str className) := by
    cases args <;> rfl
  have hargs : (orElse (item (leafSpec className outcomes args) (.str "args"))
      (.dict [])).toDict (ε := Raised) = .ok (args.getD []) := by
    cases args with
    | none => rfl
    | some args =>
        show (orElse (some (.dict args)) (.dict [])).toDict = _
        rw [orElse_dict]
        rfl
  have hbuild : buildFromSpec reg node (.dict (leafSpec className outcomes args))
      = (buildState reg node (leafSpec className outcomes args) >>= fun x => .ok (.leaf x)) := by
    rw [buildFromSpec, hkind]
    rfl
  rw [hbuild]
  by_cases hname : className = ""
  · subst hname
    rw [buildState_missing (by rw [href]; rfl)]
    refine iff_of_false ?_ fun h => h.1 rfl
    intro h
    cases h
  · have ht : (Val.str className).truthy = true := by simpa [Val.truthy] using hname
    rw [buildState_ref href ht, hargs]
    constructor
    · intro h
      obtain ⟨y, hy, h⟩ := bind_ok_iff.mp h
      obtain ⟨klass, hklass, hy⟩ := bind_ok_iff.mp hy
      obtain ⟨id, hid, hreg⟩ := resolve_ok.mp hklass
      obtain rfl : className = id := by simpa using hid
      split at hy
      · cases hy
      · rename_i hstate
        obtain rfl := Except.ok.inj h
        exact ⟨hname, klass, y, hreg, by simpa using hstate, hy, rfl⟩
    · rintro ⟨-, klass, y, hreg, hstate, hmake, rfl⟩
      rw [resolve_ok.mpr ⟨_, rfl, hreg⟩, ok_bind, if_neg (by simp [hstate]), ok_bind, hmake]
      rfl

end Leaves

/-! ## States that survive -/

section Survives

variable {py : Conversions P F} {object : Val → P} {reg : Registry ν (Leaf P B)}
  {node : Option ν}

theorem SkillKind.className_ne (kind : SkillKind) : kind.className ≠ "" := by
  cases kind <;> decide

/-- Without `args` in the spec, a skill state is made without arguments, if there is a node. -/
theorem skillClass_make (kind : SkillKind) (node : Option ν) :
    (skillClass (B := B) py object kind).make node []
      = if node.isSome then .ok (.skill kind fun _ => none) else .error .typeError := by
  cases node with
  | none => rfl
  | some n => rfl

/-- **A skill state survives** only without arguments. -/
theorem skill_survives (hpy : py.Distinguishes) (hreg : Shipped py object reg)
    {kind : SkillKind} {fixed : String → Option P} :
    Survives reg node (SameBehaviour py) (.leaf (.skill kind fixed)) ↔
      node.isSome = true ∧ ∀ f ∈ (kind.cls py).fields, fixed f.key = none := by
  rw [← SkillClass.buildGoal_eq_iff hpy (kind.nodup py)]
  constructor
  · rintro ⟨t, hbuild, hsame⟩
    obtain ⟨-, klass, y, hklass, -, hmake, rfl⟩ := build_leafSpec.mp hbuild
    -- the class found under the name makes a state without arguments
    obtain rfl := Option.some.inj ((hreg kind).symm.trans hklass)
    rw [Option.getD_none, skillClass_make] at hmake
    split at hmake
    · rename_i hnode
      obtain rfl := Except.ok.inj hmake
      obtain ⟨⟨hgoals⟩⟩ := hsame
      exact ⟨hnode, hgoals⟩
    · cases hmake
  · rintro ⟨hnode, hgoals⟩
    have hmake : (skillClass (B := B) py object kind).make node []
        = .ok (.skill kind fun _ => none) := by
      rw [skillClass_make, if_pos hnode]
    exact ⟨_, build_leafSpec.mpr ⟨kind.className_ne, _, _, hreg kind, rfl, hmake, rfl⟩,
      .leaf (.skill hgoals)⟩

/-- **Another leaf survives** if its class is found under its own name and takes what
`to_spec` writes. -/
theorem custom_survives {x : CustomState B} :
    Survives reg node (SameBehaviour py) (.leaf (.custom x)) ↔ SelfRegistered reg node x := by
  constructor
  · rintro ⟨t, hbuild, hsame⟩
    obtain ⟨hname, klass, y, hklass, hstate, hmake, rfl⟩ := build_leafSpec.mp hbuild
    obtain ⟨_ | ⟨hout, hbehaviour⟩⟩ := hsame
    exact ⟨hname, klass, _, hklass, hstate, hmake, hout, hbehaviour⟩
  · rintro ⟨hname, klass, y, hklass, hstate, hmake, hout, hbehaviour⟩
    exact ⟨_, build_leafSpec.mpr ⟨hname, klass, _, hklass, hstate, hmake, rfl⟩,
      .leaf (.custom hout hbehaviour)⟩

/-- **A retry decorator never survives**: its spec is that of a leaf. -/
theorem not_survives_retry {maxRetries : Nat} {retryOutcome : String} {inner : Obj (Leaf P B)} :
    ¬ Survives reg node (SameBehaviour py) (.retry maxRetries retryOutcome inner) := by
  rintro ⟨t, hbuild, hsame⟩
  have hbuild : buildFromSpec reg node
      (.dict (leafSpec "RetryDecorator" inner.outcomes none)) = .ok t := hbuild
  -- whatever is registered as `RetryDecorator` makes a leaf
  obtain ⟨-, klass, y, -, -, -, rfl⟩ := build_leafSpec.mp hbuild
  cases hsame

/-- **What survives serialization**: a tree is rebuilt with the same behaviour exactly if its
spec is complete. -/
theorem survives_iff (hpy : py.Distinguishes) (hreg : Shipped py object reg)
    {t : Obj (Leaf P B)} (ht : Made t) :
    Survives reg node (SameBehaviour py) t ↔ SpecComplete py reg node t := by
  induction ht with
  | leaf x =>
      cases x with
      | skill kind fixed =>
          rw [skill_survives hpy hreg]
          constructor
          · rintro ⟨hnode, hfixed⟩
            exact .skill hnode hfixed
          · rintro (⟨hnode, hfixed⟩ | _)
            exact ⟨hnode, hfixed⟩
      | custom x =>
          rw [custom_survives]
          constructor
          · exact .custom
          · rintro (_ | hx)
            exact hx
  | machine hm _ ih =>
      rw [machine_survives hm]
      constructor
      · rintro ⟨hout, hchildren⟩
        exact .machine hout fun c hc => (ih c hc).mp (hchildren c hc)
      · rintro (_ | _ | ⟨hout, hchildren⟩)
        exact ⟨hout, fun c hc => (ih c hc).mpr (hchildren c hc)⟩
  | parallel hmade _ ih =>
      rw [parallel_survives hmade]
      constructor
      · intro hregions
        exact .parallel fun r hr => (ih r hr).mp (hregions r hr)
      · rintro (_ | _ | _ | hregions)
        exact fun r hr => (ih r hr).mpr (hregions r hr)
  | retry _ _ _ =>
      constructor
      · intro h
        exact absurd h not_survives_retry
      · nofun

end Survives

/-! ## Trees of skill states -/

/-- The conversions of objects that are numbers, strings, booleans or `None`; of the strings,
`float` takes none here. -/
def plain : Conversions Key ℚ where
  float v :=
    match v.number?, v.string? with
    | some q, _ => .ok q
    | none, some _ => .error (.conversion "ValueError")
    | none, none => .error (.conversion "TypeError")
  str
    | .none => .ok "None"
    | .bool b => .ok (if b then "True" else "False")
    | .num q => .ok (toString q)
    | .str s => .ok s
  literal q := q

theorem plain_distinguishes : plain.Distinguishes where
  float := ⟨.num 0, .num 1, 0, 1, rfl, rfl, by decide⟩
  str := ⟨.str "a", .str "b", "a", "b", rfl, rfl, by decide⟩

def plainObject : Val → Key
  | .key k => k
  | _ => .none

/-- A state that waits for some seconds, which its `to_spec` writes into `args`. -/
def pause (seconds : Val) : CustomState Val where
  className := "Pause"
  outcomes := ["done"]
  args := some [(.str "seconds", seconds)]
  behaviour := seconds

/-- The class of a pause does not take a node. -/
def pauseClass : Klass Unit (Leaf Key Val) where
  name := "Pause"
  isState := true
  init node kwargs :=
    match node, kwargs with
    -- with a node there is a `TypeError`, and the loader tries again without
    | none, [("seconds", seconds)] => .ok (.custom (pause seconds))
    | _, _ => .error .typeError

def shipped : Registry Unit (Leaf Key Val) := fun id =>
  if id = "DriveToPoseState" then some (skillClass plain plainObject .driveToPose)
  else if id = "MoveMotorState" then some (skillClass plain plainObject .moveMotor)
  else if id = "CaptureImageState" then some (skillClass plain plainObject .captureImage)
  else if id = "Pause" then some pauseClass
  else none

theorem shipped_shipped : Shipped plain plainObject shipped := by
  intro kind
  cases kind <;> rfl

/-- Drive to a pose from userdata, and then wait. -/
def driveAndPause : Obj (Leaf Key Val) :=
  .machine ⟨"BehaviorSM", .behaviorSM [.str "target_x", .str "target_y", .str "target_yaw"],
      [.str "done", .str "failed"],
      [(.str "Drive", [(.str "succeeded", .str "Pause"), (.str "failed", .str "failed")]),
        (.str "Pause", [(.str "done", .str "done")])],
      .str "Drive"⟩
    [(.str "Drive", .leaf (.skill .driveToPose fun _ => none)),
      (.str "Pause", .leaf (.custom (pause (.key (.num 3)))))]

theorem made_driveAndPause : Made driveAndPause := by
  refine .machine ⟨by simp [DistinctKeys], rfl, nofun⟩ ?_
  simp only [List.forall_mem_cons]
  exact ⟨.leaf _, .leaf _, nofun⟩

theorem specComplete_driveAndPause :
    SpecComplete plain shipped (some ()) driveAndPause := by
  refine .machine nofun ?_
  simp only [List.forall_mem_cons]
  exact ⟨.skill rfl fun _ _ => rfl,
    .custom ⟨by decide, pauseClass, _, rfl, rfl, rfl, rfl, rfl⟩, nofun⟩

theorem survives_iff_driveAndPause :
    Survives shipped (some ()) (SameBehaviour plain) driveAndPause :=
  (survives_iff plain_distinguishes shipped_shipped made_driveAndPause).mpr
    specComplete_driveAndPause

/-- `_build_go_step` -/
def goStep (x y yaw : ℚ) : Obj (Leaf Key Val) :=
  .machine ⟨"StateMachine", .stateMachine, [.str "done", .str "failed"],
      [(.str "drive", [(.str Ros.succeeded, .str "done"), (.str Ros.failed, .str "failed"),
        (.str Ros.lifecycleError, .str "failed"), (.str Ros.timeout, .str "failed"),
        (.str Ros.rejected, .str "failed")])],
      .str "drive"⟩
    [(.str "drive", .leaf (.skill .driveToPose fun key =>
      match key with
      | "target_x" => some (.num x)
      | "target_y" => some (.num y)
      | "target_yaw" => some (.num yaw)
      | _ => none))]

/-- `VisitThreePoints` -/
def visitThreePoints : Obj (Leaf Key Val) :=
  .machine ⟨"VisitThreePoints", .behaviorSM [], [.str "done", .str "failed"],
      [(.str "GO_P1", [(.str "done", .str "GO_P2"), (.str "failed", .str "failed")]),
        (.str "GO_P2", [(.str "done", .str "GO_P3"), (.str "failed", .str "failed")]),
        (.str "GO_P3", [(.str "done", .str "done"), (.str "failed", .str "failed")])],
      .str "GO_P1"⟩
    [(.str "GO_P1", goStep 1 0 0),
      (.str "GO_P2", goStep 1 1 1.5707963),
      (.str "GO_P3", goStep (-1) 0.5 3.14159)]

theorem made_goStep (x y yaw : ℚ) : Made (goStep x y yaw) := by
  refine .machine ⟨by simp [DistinctKeys], rfl, nofun⟩ ?_
  simp only [List.forall_mem_cons]
  exact ⟨.leaf _, nofun⟩

theorem made_visitThreePoints : Made visitThreePoints := by
  refine .machine ⟨by simp [DistinctKeys], rfl, nofun⟩ ?_
  simp only [List.forall_mem_cons]
  exact ⟨made_goStep .., made_goStep .., made_goStep .., nofun⟩

/-- A waypoint is lost. -/
theorem not_survives_goStep (x y yaw : ℚ) :
    ¬ Survives shipped (some ()) (SameBehaviour plain) (goStep x y yaw) := by
  intro h
  have hdrive := ((machine_survives (made_goStep x y yaw).attached).mp h).2 _ List.mem_cons_self
  have hfixed := ((skill_survives plain_distinguishes shipped_shipped).mp hdrive).2
  exact nomatch hfixed (.requiredFloat "target_x") List.mem_cons_self

/-- Drive to the first waypoint, and try again. -/
def tryAgain : Obj (Leaf Key Val) := .retry 3 "failed" (goStep 1 0 0)

theorem not_always_survives :
    (Made visitThreePoints ∧
      ¬ Survives shipped (some ()) (SameBehaviour plain) visitThreePoints) ∧
    Made tryAgain ∧ ¬ Survives shipped (some ()) (SameBehaviour plain) tryAgain := by
  refine ⟨⟨made_visitThreePoints, fun h => ?_⟩, ?_, not_survives_retry⟩
  · have hsteps := ((machine_survives made_visitThreePoints.attached).mp h).2
    exact not_survives_goStep 1 0 0 (hsteps _ List.mem_cons_self)
  · exact .retry (made_goStep 1 0 0) (by simp [goStep, Obj.outcomes])

end RobotTaskManager.Spec
