import RobotTaskManager.Lib.PyValue

set_option autoImplicit false

/-! # Specs and states

`build_from_spec` of `spec_loader.py` and the `to_spec` methods, as functions between Python
values (`Val`) and states (`Obj`). What a registered class makes is a leaf of a type `L`; a
class is known by its `__name__`, whether it is a subclass of `State`, and its constructor.
The containers are those of `state_machine.py`, `behavior_sm.py`, `parallel.py` and
`decorators.py`. Python's recursion limit is not modelled.
-/

namespace RobotTaskManager.Spec

open PyValue

/-! ## Errors -/

/-- Where `HfsmError` or one of its subclasses is raised. -/
inductive HfsmError
  /-- `spec must be a dict` -/
  | notADict (spec : Val)
  | unknownKind (kind : Val)
  /-- `State spec missing "ref"` -/
  | missingRef (spec : Val)
  /-- `RegistryError` of `StateRegistry.resolve` -/
  | notRegistered (ref : Key)
  /-- `ref … resolves to …, not a State subclass` -/
  | notAState (ref : Val) (className : String)
  /-- `child … already added` -/
  | childAdded (name : Key)
  /-- `Parallel spec must define at least one region` -/
  | noRegions
  /-- `Parallel region … missing "state"` -/
  | regionMissingState (name : Key) (spec : Val)
  /-- `Parallel requires at least one region` -/
  | requiresRegion
  | unsupportedPolicy (policy : Val)
  /-- The constructor of a registered class raises it. -/
  | constructor (className : String)

/-- The exceptions that are not built-in ones of `PyValue.Exc`. -/
inductive Raised
  | hfsm (e : HfsmError)
  | other (className : String)

abbrev PyExc := Exc Raised

def hfsmError {α : Type} (e : HfsmError) : Except PyExc α := .error (.raised (.hfsm e))

/-! ## States -/

/-- A state that is not one of the engine's containers. -/
class LeafState (L : Type) where
  outcomes : L → List String
  toSpec : L → Val

/-- `StateMachine`, or `BehaviorSM` with its `behavior_parameters`. -/
inductive MachineKind
  | stateMachine
  | behaviorSM (behaviorParameters : List Val)

/-- The fields of a `StateMachine` other than `_children`. -/
structure MachineInfo where
  className : String
  kind : MachineKind
  outcomes : List Val
  transitions : List (Key × Dict)
  initialState : Val

structure Region (τ : Type) where
  state : τ
  outcomes : Dict

inductive Obj (L : Type)
  | leaf (x : L)
  | machine (m : MachineInfo) (children : List (Key × Obj L))
  | parallel (policy : Val) (outcomes : List Key) (regions : List (Key × Region (Obj L)))
  | retry (maxRetries : Nat) (retryOutcome : String) (inner : Obj L)

/-- The `outcomes` attribute. -/
def Obj.outcomes {L : Type} [LeafState L] : Obj L → List Val
  | .leaf x => (LeafState.outcomes x).map Val.str
  | .machine m _ => m.outcomes
  | .parallel _ outcomes _ => outcomes.map Val.key
  | .retry _ _ inner => inner.outcomes

/-! ## `to_spec` -/

/-- `State.to_spec` of a state with this class name and these outcomes. -/
def stateSpec (className : String) (outcomes : List Val) : Dict :=
  [(.str "kind", .str "State"), (.str "ref", .str className), (.str "outcomes", .list outcomes)]

/-- `StateMachine.to_spec` and `BehaviorSM.to_spec`, which overwrites `kind`. -/
def MachineInfo.toSpec (m : MachineInfo) (children : Dict) : Dict :=
  let spec : Dict := [
    (.str "kind", .str "StateMachine"),
    (.str "id", .str m.className),
    (.str "outcomes", .list m.outcomes),
    (.str "initial_state", m.initialState),
    (.str "children", .dict children),
    (.str "transitions", .dict (m.transitions.map fun t => (t.1, .dict t.2)))]
  match m.kind with
  | .stateMachine => spec
  | .behaviorSM parameters =>
      setItem (setItem spec (.str "kind") (.str "BehaviorSM")) (.str "behavior_parameters")
        (.list parameters)

/-- `Parallel.to_spec` -/
def parallelSpec (policy : Val) (outcomes : List Key) (regions : Dict) : Dict := [
  (.str "kind", .str "Parallel"),
  (.str "policy", policy),
  (.str "outcomes", .list (outcomes.map Val.key)),
  (.str "regions", .dict regions)]

section ToSpec

variable {L : Type} [LeafState L]

mutual

def Obj.toSpec : Obj L → Val
  | .leaf x => LeafState.toSpec x
  | .machine m children => .dict (m.toSpec (childrenSpec children))
  | .parallel policy outcomes regions =>
      .dict (parallelSpec policy outcomes (regionsSpec regions))
  | .retry _ _ inner => .dict (stateSpec "RetryDecorator" inner.outcomes)

def childrenSpec : List (Key × Obj L) → Dict
  | [] => []
  | (name, child) :: rest => (name, child.toSpec) :: childrenSpec rest

def regionsSpec : List (Key × Region (Obj L)) → Dict
  | [] => []
  | (name, ⟨state, outcomes⟩) :: rest =>
      (name, .dict [(.str "state", state.toSpec), (.str "outcomes", .dict outcomes)])
        :: regionsSpec rest

end

end ToSpec

/-! ## The registry -/

/-- A class in the registry, over a type of nodes. -/
structure Klass (ν L : Type) where
  /-- `__name__` -/
  name : String
  /-- `issubclass(klass, State)` -/
  isState : Bool
  /-- `klass(node=node, **kwargs)`, or `klass(**kwargs)` without a node. -/
  init : Option ν → List (String × Val) → Except PyExc L

/-- `StateRegistry._classes` -/
abbrev Registry (ν L : Type) := String → Option (Klass ν L)

/-- The dict in `**kwargs`: its keys must be strings. -/
def keywords (kwargs : Dict) : Except PyExc (List (String × Val)) :=
  kwargs.mapM fun e =>
    match e.1 with
    | .str s => .ok (s, e.2)
    | _ => .error .typeError

section Loader

variable {ν L : Type}

/-- The call of a class. A keyword that is given twice is a `TypeError`. -/
def Klass.call (klass : Klass ν L) (node : Option ν) (kwargs : Dict) : Except PyExc L := do
  let kws ← keywords kwargs
  -- `klass(node=node, **kwargs)` with `node` in `kwargs`
  if node.isSome && kws.any (·.1 = "node") then .error .typeError
  else klass.init node kws

/-- Try passing node first; fall back gracefully for pure-Python states. -/
def Klass.make (klass : Klass ν L) (node : Option ν) (kwargs : Dict) : Except PyExc L :=
  match klass.call node kwargs with
  -- any `TypeError` counts, also one that the constructor itself raises
  | .error .typeError => klass.call none kwargs
  | made => made

/-- `StateRegistry.resolve` -/
def resolve (reg : Registry ν L) (ref : Val) : Except PyExc (Klass ν L) := do
  let id ← ref.hash
  match id with
  | .str s =>
      match reg s with
      | some klass => .ok klass
      | none => hfsmError (.notRegistered id)
  -- no other key is in `_classes`
  | _ => hfsmError (.notRegistered id)

/-- `_build_state` -/
def buildState (reg : Registry ν L) (node : Option ν) (spec : Dict) : Except PyExc L := do
  let ref := (item spec (.str "ref")).getD .null
  if !ref.truthy then hfsmError (.missingRef (.dict spec))
  else
    let klass ← resolve reg ref
    if !klass.isState then hfsmError (.notAState ref klass.name)
    else
      let kwargs ← (orElse (item spec (.str "args")) (.dict [])).toDict
      klass.make node kwargs

/-! ## Containers -/

/-- `StateMachine.add` of a state, with the `transitions` as they are given. -/
def MachineInfo.add (m : MachineInfo) (children : List (Key × Obj L)) (name : Key)
    (state : Obj L) (transitions : Val) :
    Except PyExc (MachineInfo × List (Key × Obj L)) := do
  if hasKey children name then hfsmError (.childAdded name)
  else
    let transitions ← (orElse (some transitions) (.dict [])).toDict
    return ({ m with
      transitions := m.transitions ++ [(name, transitions)]
      initialState := if m.initialState.isNull then .key name else m.initialState },
      children ++ [(name, state)])

/-- `Parallel.__init__` -/
def parallelInit (regions : List (Key × Region (Obj L))) (policy : Val) :
    Except PyExc (Obj L) := do
  if regions.isEmpty then hfsmError .requiresRegion
  else if !policy.isStr "first_wins" then hfsmError (.unsupportedPolicy policy)
  else
    let outcomes ← sortedSet (regions.flatMap fun r => r.2.outcomes.map Prod.snd)
    return .parallel policy outcomes regions

/-! ## The loader -/

inductive SpecKind
  | state
  | stateMachine
  | behaviorSM
  | parallel
  deriving DecidableEq

/-- The builder that `spec['kind']` selects. -/
def specKind (spec : Dict) : Except PyExc SpecKind :=
  let kind := (item spec (.str "kind")).getD (.str "State")
  if kind.isStr "State" then .ok .state
  else if kind.isStr "StateMachine" then .ok .stateMachine
  else if kind.isStr "BehaviorSM" then .ok .behaviorSM
  else if kind.isStr "Parallel" then .ok .parallel
  else hfsmError (.unknownKind kind)

/-- The outcomes of a machine: `list(spec.get('outcomes') or ['done', 'failed'])`. -/
def machineOutcomes (spec : Dict) : Except PyExc (List Val) :=
  (orElse (item spec (.str "outcomes")) (.list [.str "done", .str "failed"])).iter

/-- The `StateMachine` that `_build_state_machine` makes, before its children. -/
def emptyStateMachine (spec : Dict) : Except PyExc MachineInfo := do
  let outcomes ← machineOutcomes spec
  let initialState := (item spec (.str "initial_state")).getD .null
  return ⟨"StateMachine", .stateMachine, outcomes, [], initialState⟩

/-- The `BehaviorSM` that `_build_behavior_sm` makes, before its children. -/
def emptyBehaviorSM (spec : Dict) : Except PyExc MachineInfo := do
  let outcomes ← machineOutcomes spec
  let initialState := (item spec (.str "initial_state")).getD .null
  let parameters ← (orElse (item spec (.str "behavior_parameters")) (.list [])).iter
  return ⟨"BehaviorSM", .behaviorSM parameters, outcomes, [], initialState⟩

/-- The spec of the state of a region: the test `'state' not in r_spec`, and
`r_spec['state']`. -/
def regionState (name : Key) (spec : Val) : Except PyExc Val := do
  -- of a string this is a test for a substring, of a list one for an element
  if !(← spec.contains "state") then hfsmError (.regionMissingState name spec)
  else spec.index "state"

/-- `dict(r_spec.get('outcomes') or {})` -/
def regionOutcomes (spec : Val) : Except PyExc Dict := do
  (orElse (some (← spec.getD (.str "outcomes") .null)) (.dict [])).toDict

theorem sizeOf_regionState {name : Key} {spec state : Val}
    (h : regionState name spec = .ok state) : sizeOf state < sizeOf spec := by
  obtain ⟨found, -, h⟩ := bind_ok_iff.mp h
  split at h
  · cases h
  · unfold Val.index at h
    split at h
    · split at h
      · rename_i hg
        obtain rfl := Except.ok.inj h
        exact sizeOf_item_lt hg
      · cases h
    · cases h

variable (reg : Registry ν L) (node : Option ν)

mutual

def buildFromSpec (spec : Val) : Except PyExc (Obj L) :=
  match spec with
  | .dict d => do
      match ← specKind d with
      | .state => return .leaf (← buildState reg node d)
      | .stateMachine =>
          let m ← emptyStateMachine d
          attachChildren m d
      | .behaviorSM =>
          let m ← emptyBehaviorSM d
          attachChildren m d
      | .parallel => buildParallel d
  | other => hfsmError (.notADict other)
termination_by (sizeOf spec, 2)

/-- `_build_parallel` -/
def buildParallel (spec : Dict) : Except PyExc (Obj L) := do
  let policy := (item spec (.str "policy")).getD (.str "first_wins")
  let regionsSpec := orElse (item spec (.str "regions")) (.dict [])
  if !regionsSpec.truthy then hfsmError .noRegions
  else
    let regions ← buildRegionsOf regionsSpec
    parallelInit regions policy
termination_by (sizeOf (Val.dict spec), 1)
decreasing_by exact Prod.Lex.right' _ (sizeOf_orElse_le spec _) Nat.zero_lt_one

/-- The loop over `regions_spec.items()`. -/
def buildRegionsOf (regionsSpec : Val) : Except PyExc (List (Key × Region (Obj L))) :=
  match regionsSpec with
  | .dict items => buildRegions [] items
  | _ => .error .attributeError
termination_by (sizeOf regionsSpec, 0)

def buildRegions (regions : List (Key × Region (Obj L))) (items : Dict) :
    Except PyExc (List (Key × Region (Obj L))) :=
  match items with
  | [] => .ok regions
  | (name, spec) :: rest =>
      match _h : regionState name spec with
      | .error e => .error e
      | .ok state => do
          let inner ← buildFromSpec state
          let outcomes ← regionOutcomes spec
          buildRegions (setItem regions name ⟨inner, outcomes⟩) rest
termination_by (sizeOf items, 0)
decreasing_by
  · have := sizeOf_regionState _h
    refine Prod.Lex.left _ _ ?_
    simp only [List.cons.sizeOf_spec, Prod.mk.sizeOf_spec]
    omega
  · refine Prod.Lex.left _ _ ?_
    simp only [List.cons.sizeOf_spec, Prod.mk.sizeOf_spec]
    omega

/-- `_attach_children` -/
def attachChildren (m : MachineInfo) (spec : Dict) : Except PyExc (Obj L) :=
  let transitions := orElse (item spec (.str "transitions")) (.dict [])
  attachAll m transitions (orElse (item spec (.str "children")) (.dict []))
termination_by (sizeOf (Val.dict spec), 1)
decreasing_by exact Prod.Lex.right' _ (sizeOf_orElse_le spec _) Nat.zero_lt_one

/-- The loop over `children.items()`. -/
def attachAll (m : MachineInfo) (transitions children : Val) : Except PyExc (Obj L) :=
  match children with
  | .dict items => do
      let (m, states) ← attach m [] transitions items
      return .machine m states
  | _ => .error .attributeError
termination_by (sizeOf children, 0)

def attach (m : MachineInfo) (states : List (Key × Obj L)) (transitions : Val) (items : Dict) :
    Except PyExc (MachineInfo × List (Key × Obj L)) :=
  match items with
  | [] => .ok (m, states)
  | (name, spec) :: rest => do
      let child ← buildFromSpec spec
      let given ← transitions.getD name (.dict [])
      let (m, states) ← m.add states name child given
      attach m states transitions rest
termination_by (sizeOf items, 0)

end

/-! ## One step of each loop -/

theorem buildRegions_nil (regions : List (Key × Region (Obj L))) :
    buildRegions reg node regions [] = .ok regions := by
  rw [buildRegions]

theorem buildRegions_cons (regions : List (Key × Region (Obj L))) (name : Key) (spec : Val)
    (rest : Dict) : buildRegions reg node regions ((name, spec) :: rest) = (do
      let state ← regionState name spec
      let inner ← buildFromSpec reg node state
      let outcomes ← regionOutcomes spec
      buildRegions reg node (setItem regions name ⟨inner, outcomes⟩) rest) := by
  rw [buildRegions]
  split
  · rename_i e he
    rw [he]
    rfl
  · rename_i state hs
    rw [hs]
    rfl

theorem attach_nil (m : MachineInfo) (states : List (Key × Obj L)) (transitions : Val) :
    attach reg node m states transitions [] = .ok (m, states) := by
  rw [attach]

theorem attach_cons (m : MachineInfo) (states : List (Key × Obj L)) (transitions : Val)
    (name : Key) (spec : Val) (rest : Dict) :
    attach reg node m states transitions ((name, spec) :: rest) = (do
      let child ← buildFromSpec reg node spec
      let given ← transitions.getD name (.dict [])
      let (m, states) ← m.add states name child given
      attach reg node m states transitions rest) := by
  rw [attach]

/-! ## Leaves -/

section Leaves

variable {reg : Registry ν L} {node : Option ν}

theorem resolve_ok {ref : Val} {klass : Klass ν L} :
    resolve reg ref = .ok klass ↔ ∃ id, ref = .str id ∧ reg id = some klass := by
  cases ref with
  | key k =>
      cases k with
      | str id =>
          cases hreg : reg id with
          | none => simp [resolve, Val.hash, hreg, hfsmError]
          | some klass' => simp [resolve, Val.hash, hreg]
      | _ => simp [resolve, Val.hash, hfsmError]
  | _ => simp [resolve, Val.hash]

theorem buildState_missing {spec : Dict}
    (h : ((item spec (.str "ref")).getD .null).truthy = false) :
    buildState reg node spec = hfsmError (.missingRef (.dict spec)) := by
  simp [buildState, h]

theorem buildState_ref {spec : Dict} {ref : Val} (hi : item spec (.str "ref") = some ref)
    (ht : ref.truthy = true) : buildState reg node spec = (do
      let klass ← resolve reg ref
      if klass.isState = false then hfsmError (.notAState ref klass.name)
      else
        let kwargs ← (orElse (item spec (.str "args")) (.dict [])).toDict
        klass.make node kwargs) := by
  simp [buildState, hi, ht]

end Leaves

end Loader

end RobotTaskManager.Spec
