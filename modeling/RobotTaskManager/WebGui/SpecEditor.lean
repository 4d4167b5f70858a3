import RobotTaskManager.Lib.JsJson
import RobotTaskManager.Spec.Calls

set_option autoImplicit false

/-! # Specs that are written in the browser

The way of a spec from the text in `SpecEditor` to the executor. A text is given by what
`json.loads` makes of it, and the transports in between are faithful: `json.loads` gives back what
`json.dumps` has written, and the repository the text that was saved. What the way changes of a
value is what `JSON.parse` and `JSON.stringify` change, `Val.js`. A numeral that Python reads as
`inf` is no value here.

The state that the executor makes of the saved spec is the state that the loader makes of the text
itself exactly if the text is `Steady`. A child whose name is an array index comes before all
others in JavaScript, and the first child of a machine is its initial state if none is given.
-/

namespace RobotTaskManager.WebGui

open PyValue Spec

variable {ν L : Type}

/-! ## The way of a spec -/

/-- The test that the editor (`parseError`), the dispatch helper and `save_task` make. -/
def isSpec : Val → Bool
  | .dict d => hasKey d (.str "kind")
  | _ => false

/-- `saveSpec`: the `spec` of the request that is sent. -/
def saveSpec (double : ℚ → Option ℚ) (text : Val) : Option Val :=
  if isSpec text then some (text.js double) else none

/-- What `_handle_save_spec` makes of the `spec` alone: the text that is passed on, for a `spec`
that is a dict or a text itself. `Helper.handleSaveSpec` is the whole of it. -/
def handleSaveSpec (loads : String → Option Val) (spec : Val) : Option Val :=
  if spec.isNull then none
  else
    match spec with
    | .key (.str s) => (loads s).filter isSpec
    | spec => (some spec).filter isSpec

/-- `save_task`, and `load_task` after it. -/
def saveTask (text : Val) : Option Val := if isSpec text then some text else none

/-- What the executor reads after the text has been saved. -/
def saved (double : ℚ → Option ℚ) (loads : String → Option Val) (text : Val) : Option Val := do
  let spec ← saveSpec double text
  let spec ← handleSaveSpec loads spec
  saveTask spec

/-- Every text that the editor accepts is saved. -/
theorem saved_eq {double : ℚ → Option ℚ} {loads : String → Option Val} {text : Val}
    (hs : IsJson text) (h : isSpec text = true) :
    saved double loads text = some (text.js double) := by
  cases text with
  | dict d =>
      have hjs : isSpec (.dict (jsDict double d)) = true := by
        rw [isSpec, ← item_isSome, item_jsDict hs.distinct, Option.isSome_map, item_isSome]
        exact h
      simp [saved, saveSpec, h, Val.js_dict, handleSaveSpec, Val.isNull, Option.filter, saveTask,
        hjs]
  | _ => cases h

/-! ## Texts that keep their meaning -/

def specOutcomes (d : Dict) : Val :=
  orElse (item d (.str "outcomes")) (.list [.str "done", .str "failed"])

def specParameters (d : Dict) : Val := orElse (item d (.str "behavior_parameters")) (.list [])

def specInitialState (d : Dict) : Val := (item d (.str "initial_state")).getD .null

/-- The fields of a machine but for its children. -/
structure SteadyHeader (double : ℚ → Option ℚ) (kind : SpecKind) (d : Dict) : Prop where
  outcomes : KeepsElements double (specOutcomes d)
  parameters : kind = .behaviorSM → KeepsElements double (specParameters d)
  initialState : Kept double (specInitialState d)

/-- What the loader reads of the spec passes through JavaScript unchanged: children and regions are
in the order of JavaScript, and so are dicts that stand for lists; all numbers are doubles. -/
inductive Steady (double : ℚ → Option ℚ) : Val → Prop
  | leaf {d : Dict} : specKind d = .ok .state →
      KeepsDict Raised double ((item d (.str "args")).getD .null) → Steady double (.dict d)
  | machine {d items : Dict} {kind : SpecKind} : specKind d = .ok kind →
      kind = .stateMachine ∨ kind = .behaviorSM → SteadyHeader double kind d →
      specChildren d = .dict items → JsOrdered items → (∀ e ∈ items, Steady double e.2) →
      (∀ e ∈ items, ∀ given, (specTransitions d).getD (ε := Raised) e.1 (.dict []) = .ok given →
        KeepsDict Raised double given) →
      Steady double (.dict d)
  | parallel {d items : Dict} : specKind d = .ok .parallel → specRegions d = .dict items →
      JsOrdered items →
      (∀ e ∈ items, ∀ state, regionState e.1 e.2 = .ok state → Steady double state) →
      (∀ e ∈ items, ∀ given, e.2.getD (ε := Raised) (.str "outcomes") .null = .ok given →
        KeepsDict Raised double given) →
      Steady double (.dict d)

section Inversion

variable {double : ℚ → Option ℚ} {d items : Dict}

theorem steady_leaf_iff (hk : specKind d = .ok .state) : Steady double (.dict d) ↔
    KeepsDict Raised double ((item d (.str "args")).getD .null) := by
  constructor
  · intro h
    cases h with
    | leaf _ hargs => exact hargs
    | machine hk' hm => exact absurd hk (machineKind_ne hk' hm).1
    | parallel hk' => rw [hk] at hk'; cases hk'
  · exact .leaf hk

theorem steady_machine_iff {kind : SpecKind} (hk : specKind d = .ok kind)
    (hm : kind = .stateMachine ∨ kind = .behaviorSM) (hitems : specChildren d = .dict items) :
    Steady double (.dict d) ↔ SteadyHeader double kind d ∧ JsOrdered items ∧
      ∀ e ∈ items, Steady double e.2 ∧
        ∀ given, (specTransitions d).getD (ε := Raised) e.1 (.dict []) = .ok given →
          KeepsDict Raised double given := by
  constructor
  · intro h
    cases h with
    | leaf hk' => exact absurd hk' (machineKind_ne hk hm).1
    | machine hk' _ hheader hitems' hord hchildren hgiven =>
        obtain rfl := Except.ok.inj (hk.symm.trans hk')
        obtain rfl := Val.dict.inj (hitems.symm.trans hitems')
        exact ⟨hheader, hord, fun e he => ⟨hchildren e he, hgiven e he⟩⟩
    | parallel hk' => exact absurd hk' (machineKind_ne hk hm).2
  · rintro ⟨hheader, hord, hall⟩
    exact .machine hk hm hheader hitems hord (fun e he => (hall e he).1) fun e he => (hall e he).2

theorem steady_parallel_iff (hk : specKind d = .ok .parallel)
    (hitems : specRegions d = .dict items) :
    Steady double (.dict d) ↔ JsOrdered items ∧ ∀ e ∈ items,
      (∀ state, regionState e.1 e.2 = .ok state → Steady double state) ∧
        ∀ given, e.2.getD (ε := Raised) (.str "outcomes") .null = .ok given →
          KeepsDict Raised double given := by
  constructor
  · intro h
    cases h with
    | leaf hk' => rw [hk] at hk'; cases hk'
    | machine hk' hm => exact absurd hk (machineKind_ne hk' hm).2
    | parallel _ hitems' hord hstates hgiven =>
        obtain rfl := Val.dict.inj (hitems.symm.trans hitems')
        exact ⟨hord, fun e he => ⟨hstates e he, hgiven e he⟩⟩
  · rintro ⟨hord, hall⟩
    exact .parallel hk hitems hord (fun e he => (hall e he).1) fun e he => (hall e he).2

end Inversion

end RobotTaskManager.WebGui
