import RobotTaskManager.Rcs.Orders
import RobotTaskManager.TaskRepository.Node

set_option autoImplicit false

/-! # Where a SubJob comes from

`_build_subjob` of the executor: a class that is registered under the id of the SubJob, or the spec
that the task repository has under it. The classes, `build_from_spec` and what the service brings
are given; the states that are made are of a type `M`.
-/

namespace RobotTaskManager.Executor

open PyText PyJson
open TaskRepository (LoadResponse)

/-- The exceptions of a constructor, with their `str`. -/
inductive InitError
  | typeError (message : String)
  | other (message : String)

/-- A class in `StateRegistry._classes`. -/
structure SubjobClass (M : Type) where
  /-- `__name__` -/
  name : String
  /-- `issubclass(klass, BehaviorSM)` -/
  isBehaviorSM : Bool
  /-- `klass(node=self)` -/
  withNode : Except InitError M
  /-- `klass()` -/
  withoutNode : Except InitError M

/-- What `_build_subjob` raises; `B` are the exceptions of `build_from_spec`. -/
inductive BuildError (B : Type)
  /-- `… resolves to …, which is not a BehaviorSM` -/
  | classNotBehaviorSM (subjobId className : String)
  | constructor (e : InitError)
  /-- `repository entry … is not valid JSON` -/
  | notJson (subjobId : String)
  /-- Another exception of `json.loads`. -/
  | json (e : Raised)
  | buildFromSpec (e : B)
  /-- `repository entry … builds a …, not a BehaviorSM` -/
  | entryNotBehaviorSM (subjobId className : String)
  /-- `… is neither in StateRegistry nor in the task repository` -/
  | unknown (subjobId : String)

/-- What the executor finds of the service `load_task`. -/
structure LoadTask where
  /-- What `wait_for_service` gives. -/
  available : Bool
  /-- The result of the future, if it is done before the deadline. -/
  reply : String → Option (Option LoadResponse)

/-- What the executor makes SubJobs with. -/
structure Builder (B M : Type) where
  /-- `StateRegistry._classes` -/
  registry : String → Option (SubjobClass M)
  /-- `build_from_spec(spec, node=self)` -/
  buildFromSpec : Val → Except B M
  /-- `type(sm).__name__` -/
  className : M → String
  /-- `isinstance(sm, BehaviorSM)` -/
  isBehaviorSM : M → Bool
  /-- How many lists and dicts can be open when `json.loads` reads a text. -/
  levels : ℕ

variable {B M : Type}

/-- What is done with a spec that has been read. -/
def Builder.fromSpec (b : Builder B M) (subjobId : String) (spec : Val) :
    Except (BuildError B) M :=
  match b.buildFromSpec spec with
  | .error e => .error (.buildFromSpec e)
  | .ok sm =>
      if b.isBehaviorSM sm then .ok sm
      else .error (.entryNotBehaviorSM subjobId (b.className sm))

/-- `_load_spec_from_repository`; nothing where it returns `None`. -/
def Builder.loadSpecFromRepository (b : Builder B M) (service : LoadTask) (subjobId : String) :
    Except (BuildError B) (Option M) :=
  if !service.available then .ok none
  else
    match service.reply subjobId with
    | some (some resp) =>
        if !resp.success then .ok none
        else
          match Rcs.Orders.loadsStr b.levels (ofString resp.xmlContent) with
          | .error .jsonDecodeError => .error (.notJson subjobId)
          | .error e => .error (.json e)
          | .ok spec => (b.fromSpec subjobId spec).map some
    | _ => .ok none

/-- `_build_subjob` -/
def Builder.buildSubjob (b : Builder B M) (service : LoadTask) (subjobId : String) :
    Except (BuildError B) M :=
  match b.registry subjobId with
  | some klass =>
      if !klass.isBehaviorSM then .error (.classNotBehaviorSM subjobId klass.name)
      else
        match klass.withNode with
        | .error (.typeError _) => klass.withoutNode.mapError .constructor
        | made => made.mapError .constructor
  | none =>
      match b.loadSpecFromRepository service subjobId with
      | .error e => .error e
      | .ok (some sm) => .ok sm
      | .ok none => .error (.unknown subjobId)

/-- Without a class of that id, the text that is loaded is what the SubJob is made of. -/
theorem buildSubjob_of_text {b : Builder B M} {service : LoadTask} {subjobId text message : String}
    (hclass : b.registry subjobId = none) (havailable : service.available = true)
    (hreply : service.reply subjobId = some (some ⟨true, text, message⟩)) :
    b.buildSubjob service subjobId =
      match Rcs.Orders.loadsStr b.levels (ofString text) with
      | .error .jsonDecodeError => .error (.notJson subjobId)
      | .error e => .error (.json e)
      | .ok spec => b.fromSpec subjobId spec := by
  have hload : b.loadSpecFromRepository service subjobId =
      match Rcs.Orders.loadsStr b.levels (ofString text) with
      | .error .jsonDecodeError => .error (.notJson subjobId)
      | .error e => .error (.json e)
      | .ok spec => (b.fromSpec subjobId spec).map some := by
    simp only [Builder.loadSpecFromRepository, havailable, hreply]
    rfl
  simp only [Builder.buildSubjob, hclass, hload]
  cases Rcs.Orders.loadsStr b.levels (ofString text) with
  | ok spec =>
      dsimp only
      cases b.fromSpec subjobId spec <;> rfl
  | error e => cases e <;> rfl

end RobotTaskManager.Executor
