import Mathlib.Data.List.Dedup
import Mathlib.Data.List.Sort
import Mathlib.Data.String.Basic

set_option autoImplicit false

/-! # State trees

The objects of `mw_hfsm_engine`: leaf `State`s, `StateMachine`/`BehaviorSM`, `Parallel` and
`RetryDecorator`, nested to any depth. A Python `dict` is the list of its items in insertion
order, read with `List.lookup`. `oid` is the identity of a Python object.

`_children` and `_transitions` of a machine always have the same keys, since `add` writes
both, so one `Child` carries the two entries of a name. A `Parallel` without regions is
rejected by `Parallel.__init__`, so it has a first region by construction.
-/

namespace RobotTaskManager.Engine

/-- A dict from outcome names to outcome or child names. -/
abbrev OutcomeMap := List (String × String)

/-- A `State` that is not one of the engine's containers. -/
structure Leaf where
  oid : Nat
  className : String
  outcomes : List String
  deriving DecidableEq

/-- `StateMachine`, or `BehaviorSM` with its declared `behavior_parameters`. -/
inductive MachineKind
  | stateMachine
  | behaviorSM (behaviorParameters : List String)
  deriving DecidableEq

/-- The fields of a `StateMachine` other than its children. -/
structure MachineInfo where
  oid : Nat
  className : String
  kind : MachineKind
  outcomes : List String
  initialState : Option String
  deriving DecidableEq

/-- A child of a machine: its entry of `_children` and its entry of `_transitions`. -/
structure Child (τ : Type) where
  name : String
  state : τ
  transitions : OutcomeMap

/-- A `Region` of a `Parallel`, under its name. -/
structure Region (τ : Type) where
  name : String
  state : τ
  outcomes : OutcomeMap

/-- The fields of a `RetryDecorator` other than `inner`. -/
structure RetryInfo where
  oid : Nat
  maxRetries : Nat
  retryOutcome : String
  deriving DecidableEq

inductive Tree
  | leaf (l : Leaf)
  | machine (m : MachineInfo) (children : List (Child Tree))
  | parallel (oid : Nat) (first : Region Tree) (rest : List (Region Tree))
  | retry (r : RetryInfo) (inner : Tree)

/-- `sorted({target for region in regions for target in region.outcomes.values()})`. -/
def parallelOutcomes (regions : List (Region Tree)) : List String :=
  ((regions.flatMap fun r => r.outcomes.map Prod.snd).dedup).insertionSort (· ≤ ·)

/-- The `outcomes` attribute of a state. -/
def Tree.outcomes : Tree → List String
  | .leaf l => l.outcomes
  | .machine m _ => m.outcomes
  | .parallel _ first rest => parallelOutcomes (first :: rest)
  | .retry _ inner => inner.outcomes

/-- `_children.get(name)`, together with the transitions of that child. -/
def findChild (children : List (Child Tree)) (name : String) : Option (Child Tree) :=
  children.find? fun ch => ch.name = name

def childNames (children : List (Child Tree)) : List String := children.map Child.name

/-! ## Reading the dicts -/

theorem findChild_mem {children : List (Child Tree)} {name : String} {ch : Child Tree}
    (h : findChild children name = some ch) : ch ∈ children :=
  List.mem_of_find?_eq_some h

theorem findChild_isSome {children : List (Child Tree)} {name : String} :
    (findChild children name).isSome ↔ name ∈ childNames children := by
  simp [findChild, childNames]

theorem mem_of_lookup {m : OutcomeMap} {o target : String} (h : m.lookup o = some target) :
    (o, target) ∈ m := by
  obtain ⟨l₁, l₂, rfl, -⟩ := List.lookup_eq_some_iff.mp h
  simp

theorem mem_parallelOutcomes {regions : List (Region Tree)} {o : String} :
    o ∈ parallelOutcomes regions ↔ ∃ r ∈ regions, ∃ raw, (raw, o) ∈ r.outcomes := by
  simp [parallelOutcomes]

/-- What a region maps an outcome to is an outcome of its `Parallel`. -/
theorem lookup_mem_parallelOutcomes {regions : List (Region Tree)} {r : Region Tree}
    {raw o : String} (hr : r ∈ regions) (h : r.outcomes.lookup raw = some o) :
    o ∈ parallelOutcomes regions :=
  mem_parallelOutcomes.mpr ⟨r, hr, raw, mem_of_lookup h⟩

/-! ## Well-formed trees -/

/-- The transition table of a machine is complete: it has children, its initial state is one
of them, every outcome a child declares has an entry, and every entry leads to a child or to
an outcome of the machine. -/
structure MachineComplete (m : MachineInfo) (children : List (Child Tree)) : Prop where
  nonempty : children ≠ []
  initial : ∃ s, m.initialState = some s ∧ s ∈ childNames children
  covered : ∀ ch ∈ children, ∀ o ∈ ch.state.outcomes, (ch.transitions.lookup o).isSome
  closed : ∀ ch ∈ children, ∀ e ∈ ch.transitions, e.2 ∈ childNames children ∨ e.2 ∈ m.outcomes

/-- Every machine in the tree is complete, and every region of a `Parallel` maps each outcome
that its state declares. -/
inductive WellFormed : Tree → Prop
  | leaf (l : Leaf) : WellFormed (.leaf l)
  | machine {m : MachineInfo} {children : List (Child Tree)} :
      MachineComplete m children → (∀ ch ∈ children, WellFormed ch.state) →
      WellFormed (.machine m children)
  | parallel {oid : Nat} {first : Region Tree} {rest : List (Region Tree)} :
      (∀ r ∈ first :: rest, ∀ o ∈ r.state.outcomes, (r.outcomes.lookup o).isSome) →
      (∀ r ∈ first :: rest, WellFormed r.state) → WellFormed (.parallel oid first rest)
  | retry {r : RetryInfo} {inner : Tree} : WellFormed inner → WellFormed (.retry r inner)

end RobotTaskManager.Engine
