import RobotTaskManager.Lib.PyValue
import Mathlib.Data.Rat.Defs
import Mathlib.Logic.Function.Basic
import Mathlib.Data.List.Nodup

set_option autoImplicit false

/-! # The skill states

`DriveToPoseState`, `MoveMotorState` and `CaptureImageState` of `mw_skill_states`. They take
the fields of their goal from the constructor or, where the constructor was given `None`, from
userdata; the three classes differ in their fields (`SkillClass`). The conversions `float` and
`str` of Python objects are parameters (`Conversions`).
-/

namespace RobotTaskManager.Spec

/-! ## Goals -/

/-- The value of a field of a goal message. -/
inductive FieldValue (F : Type)
  | float64 (x : F)
  | string (s : String)

/-- A goal message, by the names of its fields. -/
abbrev Message (F : Type) := String → Option (FieldValue F)

/-- `setattr(goal, key, value)` -/
def Message.setattr {F : Type} (goal : Message F) (key : String) (value : FieldValue F) :
    Message F :=
  Function.update goal key (some value)

/-- What `build_goal` raises. -/
inductive GoalError
  /-- `KeyError`: `required … neither passed to constructor nor present in userdata` -/
  | missing (className key : String)
  /-- `float` or `str` raises. -/
  | conversion (className : String)
  deriving DecidableEq

/-- Python's `float(x)`, `str(x)` and float literals, over a type of objects and a type of
floats. -/
structure Conversions (P F : Type) where
  float : P → Except GoalError F
  str : P → Except GoalError String
  literal : ℚ → F

/-- The conversions are not constant. -/
structure Conversions.Distinguishes {P F : Type} (py : Conversions P F) : Prop where
  float : ∃ v w a b, py.float v = .ok a ∧ py.float w = .ok b ∧ a ≠ b
  str : ∃ v w a b, py.str v = .ok a ∧ py.str w = .ok b ∧ a ≠ b

/-! ## Fields -/

/-- A keyword argument of the constructor, and the field of the goal that it is for. -/
structure Field where
  key : String
  isString : Bool
  required : Bool

def Field.requiredFloat (key : String) : Field := ⟨key, false, true⟩
def Field.optionalFloat (key : String) : Field := ⟨key, false, false⟩
def Field.requiredStr (key : String) : Field := ⟨key, true, true⟩

structure SkillClass (F : Type) where
  name : String
  fields : List Field
  /-- The goal message before its fields are set. -/
  goal : Message F

section Resolve

variable {P F : Type} (py : Conversions P F)

def Field.convert (f : Field) (v : P) : Except GoalError (FieldValue F) :=
  if f.isString then (py.str v).map .string else (py.float v).map .float64

/-- `_resolve_required`, `_require_str`, `_require_float`, and the optional ones, which give
`None` where the required ones raise `KeyError`. -/
def Field.resolve (f : Field) (className : String) (fixed : Option P)
    (userdata : String → Option P) : Except GoalError (Option (FieldValue F)) :=
  match fixed with
  | some v => (f.convert py v).map some
  | none =>
      match userdata f.key with
      | some v => (f.convert py v).map some
      | none => if f.required then .error (.missing className f.key) else .ok none

/-- The fields of a goal are set in turn. -/
def setFields (className : String) (fixed userdata : String → Option P) :
    List Field → Message F → Except GoalError (Message F)
  | [], goal => .ok goal
  | f :: rest, goal => do
      match ← f.resolve py className (fixed f.key) userdata with
      | some value => setFields className fixed userdata rest (goal.setattr f.key value)
      | none => setFields className fixed userdata rest goal

/-- `build_goal` of a state that was constructed with the arguments `fixed`. -/
def SkillClass.buildGoal (c : SkillClass F) (fixed userdata : String → Option P) :
    Except GoalError (Message F) :=
  setFields py c.name fixed userdata c.fields c.goal

/-! ## The three classes -/

/-- The defaults of `DriveToPose.action`. -/
def driveToPoseGoal : Message F := fun key =>
  match key with
  | "target_x" => some (.float64 (py.literal 0))
  | "target_y" => some (.float64 (py.literal 0))
  | "target_yaw" => some (.float64 (py.literal 0))
  | "xy_tolerance" => some (.float64 (py.literal 0.15))
  | "yaw_tolerance" => some (.float64 (py.literal 0.1))
  | "max_linear_velocity" => some (.float64 (py.literal 0.22))
  | "max_angular_velocity" => some (.float64 (py.literal 0.8))
  | _ => none

/-- `DriveToPoseState`, with its `_REQUIRED_KEYS` and its `_OPTIONAL_KEYS`. -/
def driveToPoseState : SkillClass F where
  name := "DriveToPoseState"
  fields := [.requiredFloat "target_x", .requiredFloat "target_y", .requiredFloat "target_yaw",
    .optionalFloat "xy_tolerance", .optionalFloat "yaw_tolerance",
    .optionalFloat "max_linear_velocity", .optionalFloat "max_angular_velocity"]
  goal := driveToPoseGoal py

/-- The defaults of `MoveMotor.action`. -/
def moveMotorGoal : Message F := fun key =>
  match key with
  | "motor_id" => some (.string "")
  | "target_position" => some (.float64 (py.literal 0))
  | "max_velocity" => some (.float64 (py.literal 1))
  | _ => none

/-- `MoveMotorState` -/
def moveMotorState : SkillClass F where
  name := "MoveMotorState"
  fields := [.requiredStr "motor_id", .requiredFloat "target_position",
    .optionalFloat "max_velocity"]
  goal := moveMotorGoal py

/-- The defaults of `CaptureImage.action`. -/
def captureImageGoal : Message F := fun key =>
  match key with
  | "camera_id" => some (.string "")
  | "save_path" => some (.string "")
  | _ => none

/-- `CaptureImageState` -/
def captureImageState : SkillClass F where
  name := "CaptureImageState"
  fields := [.requiredStr "camera_id", .requiredStr "save_path"]
  goal := captureImageGoal

end Resolve

inductive SkillKind
  | driveToPose
  | moveMotor
  | captureImage
  deriving DecidableEq

def SkillKind.cls {P F : Type} (py : Conversions P F) : SkillKind → SkillClass F
  | .driveToPose => driveToPoseState py
  | .moveMotor => moveMotorState py
  | .captureImage => captureImageState

/-- No argument of a skill state is given twice. -/
theorem SkillKind.nodup {P F : Type} (py : Conversions P F) (k : SkillKind) :
    ((k.cls py).fields.map Field.key).Nodup := by
  cases k with
  | driveToPose =>
      show ["target_x", "target_y", "target_yaw", "xy_tolerance", "yaw_tolerance",
        "max_linear_velocity", "max_angular_velocity"].Nodup
      decide
  | moveMotor =>
      show ["motor_id", "target_position", "max_velocity"].Nodup
      decide
  | captureImage =>
      show ["camera_id", "save_path"].Nodup
      decide

/-! ## What a goal depends on -/

section Goal

variable {P F : Type} {py : Conversions P F}

/-- Every field that has been resolved is set, and no later one overwrites it. -/
theorem setFields_ok {className : String} {fixed userdata : String → Option P}
    {fields : List Field} (hd : (fields.map Field.key).Nodup) {goal goal' : Message F}
    (h : setFields py className fixed userdata fields goal = .ok goal') :
    (∀ f ∈ fields, ∃ r, f.resolve py className (fixed f.key) userdata = .ok r ∧
      ∀ v, r = some v → goal' f.key = some v) ∧
    ∀ key, key ∉ fields.map Field.key → goal' key = goal key := by
  induction fields generalizing goal with
  | nil =>
      obtain rfl := Except.ok.inj h
      exact ⟨nofun, fun _ _ => rfl⟩
  | cons f rest ih =>
      obtain ⟨hf, hrest⟩ := List.nodup_cons.mp hd
      rw [setFields] at h
      cases hr : f.resolve py className (fixed f.key) userdata with
      | error e => rw [hr] at h; cases h
      | ok r =>
          rw [hr] at h
          cases r with
          | none =>
              obtain ⟨hset, hother⟩ := ih hrest h
              refine ⟨List.forall_mem_cons.mpr ⟨⟨none, hr, nofun⟩, hset⟩, fun key hkey => ?_⟩
              exact hother key fun hk => hkey (List.mem_cons_of_mem _ hk)
          | some v =>
              obtain ⟨hset, hother⟩ := ih hrest h
              constructor
              -- the rest has other keys, so the field keeps its value
              · refine List.forall_mem_cons.mpr ⟨⟨some v, hr, fun w hw => ?_⟩, hset⟩
                rw [hother f.key hf, ← Option.some.inj hw]
                exact Function.update_self ..
              · intro key hkey
                rw [List.map_cons, List.mem_cons, not_or] at hkey
                rw [hother key hkey.2]
                exact Function.update_of_ne hkey.1 ..

/-- If every field is resolved, there is a goal. -/
theorem setFields_exists {className : String} {fixed userdata : String → Option P}
    {fields : List Field} (goal : Message F)
    (h : ∀ f ∈ fields, ∃ r, f.resolve py className (fixed f.key) userdata = .ok r) :
    ∃ goal', setFields py className fixed userdata fields goal = .ok goal' := by
  induction fields generalizing goal with
  | nil => exact ⟨goal, rfl⟩
  | cons f rest ih =>
      obtain ⟨⟨r, hr⟩, hrest⟩ := List.forall_mem_cons.mp h
      rw [setFields, hr]
      cases r with
      | none => exact ih goal hrest
      | some v => exact ih _ hrest

theorem setFields_congr {className : String} {fixed fixed' userdata : String → Option P}
    {fields : List Field} (goal : Message F) (h : ∀ f ∈ fields, fixed f.key = fixed' f.key) :
    setFields py className fixed userdata fields goal
      = setFields py className fixed' userdata fields goal := by
  induction fields generalizing goal with
  | nil => rfl
  | cons f rest ih =>
      obtain ⟨hf, hrest⟩ := List.forall_mem_cons.mp h
      rw [setFields, setFields, hf]
      cases f.resolve py className (fixed' f.key) userdata with
      | error e => rfl
      | ok r =>
          cases r with
          | none => exact ih goal hrest
          | some v => exact ih _ hrest

/-- The conversion of a field distinguishes two objects. -/
theorem Conversions.Distinguishes.convert (hpy : py.Distinguishes) (f : Field) :
    ∃ v w a b, f.convert py v = .ok a ∧ f.convert py w = .ok b ∧ a ≠ b := by
  obtain ⟨key, isString, required⟩ := f
  cases isString with
  | true =>
      obtain ⟨v, w, a, b, hv, hw, hne⟩ := hpy.str
      refine ⟨v, w, .string a, .string b, ?_, ?_, fun h => hne (FieldValue.string.inj h)⟩
      · simp [Field.convert, hv, Except.map]
      · simp [Field.convert, hw, Except.map]
  | false =>
      obtain ⟨v, w, a, b, hv, hw, hne⟩ := hpy.float
      refine ⟨v, w, .float64 a, .float64 b, ?_, ?_, fun h => hne (FieldValue.float64.inj h)⟩
      · simp [Field.convert, hv, Except.map]
      · simp [Field.convert, hw, Except.map]

/-- Some object is converted, and not to what `v` is converted to. -/
theorem Conversions.Distinguishes.convert_ne (hpy : py.Distinguishes) (f : Field) (v : P) :
    ∃ w b, f.convert py w = .ok b ∧ f.convert py v ≠ .ok b := by
  obtain ⟨w, w', a, b, hw, hw', hne⟩ := hpy.convert f
  -- one of the two that the conversion tells apart
  by_cases hv : f.convert py v = .ok a
  · exact ⟨w', b, hw', fun h => hne (Except.ok.inj (hv.symm.trans h))⟩
  · exact ⟨w, a, hw, hv⟩

/-- Some userdata gives every field an object that can be converted, and the field `f` the
object `w`. -/
theorem exists_userdata (hpy : py.Distinguishes) {fields : List Field}
    (hd : (fields.map Field.key).Nodup) (f : Field) (w : P) :
    ∃ userdata : String → Option P, userdata f.key = some w ∧
      ∀ g ∈ fields, g.key ≠ f.key → ∃ v b, userdata g.key = some v ∧ g.convert py v = .ok b := by
  -- an object for each field that it can be converted from
  choose good _ value _ hgood _ using hpy.convert
  refine ⟨fun key => if key = f.key then some w else
    (fields.find? (fun g => g.key = key)).map good, by simp, fun g hg hne => ?_⟩
  have hfind : fields.find? (fun g' => g'.key = g.key) = some g := by
    cases hf : fields.find? (fun g' => g'.key = g.key) with
    | none =>
        have hno := List.find?_eq_none.mp hf g hg
        simp at hno
    | some g' =>
        have hkey : g'.key = g.key := by simpa using List.find?_some hf
        rw [List.inj_on_of_nodup_map hd (List.mem_of_find?_eq_some hf) hg hkey]
  exact ⟨good g, value g, by simp [hne, hfind], hgood g⟩

/-- **What a constructor argument changes**: a state that was constructed without arguments
makes the same goals, for every userdata, exactly if all arguments are `None`. -/
theorem SkillClass.buildGoal_eq_iff (hpy : py.Distinguishes) {c : SkillClass F}
    (hd : (c.fields.map Field.key).Nodup) {fixed : String → Option P} :
    (∀ userdata, c.buildGoal py fixed userdata = c.buildGoal py (fun _ => none) userdata) ↔
      ∀ f ∈ c.fields, fixed f.key = none := by
  constructor
  · intro h f hf
    by_contra hne
    -- an argument `v`, and userdata with another object in its place
    obtain ⟨v, hv⟩ := Option.ne_none_iff_exists'.mp hne
    obtain ⟨w, b, hw, hvw⟩ := hpy.convert_ne f v
    obtain ⟨userdata, hu, hgood⟩ := exists_userdata hpy hd f w
    have hresolve : ∀ g ∈ c.fields,
        ∃ r, g.resolve py c.name none userdata = .ok r := by
      intro g hg
      by_cases hkey : g.key = f.key
      · obtain rfl := List.inj_on_of_nodup_map hd hg hf hkey
        exact ⟨some b, by simp [Field.resolve, hu, hw, Except.map]⟩
      · obtain ⟨v', b', hu', hc⟩ := hgood g hg hkey
        exact ⟨some b', by simp [Field.resolve, hu', hc, Except.map]⟩
    obtain ⟨goal, hgoal⟩ : ∃ goal, c.buildGoal py (fun _ => none) userdata = .ok goal :=
      setFields_exists c.goal hresolve
    -- the field is set from userdata in one goal and from the argument in the other
    obtain ⟨r, hr, hset⟩ := (setFields_ok hd hgoal).1 f hf
    obtain ⟨r', hr', hset'⟩ := (setFields_ok hd ((h userdata).trans hgoal)).1 f hf
    obtain rfl : r = some b := by
      simpa [Field.resolve, hu, hw, Except.map, eq_comm] using hr
    rw [hv] at hr'
    obtain ⟨a, ha, rfl⟩ := PyValue.map_ok hr'
    have hab : some a = some b := calc
      some a = goal f.key := (hset' a rfl).symm
      _ = some b := hset b rfl
    apply hvw
    calc f.convert py v
      _ = .ok a := ha
      _ = .ok b := congrArg Except.ok (Option.some.inj hab)
  · intro h userdata
    exact setFields_congr c.goal h

end Goal

end RobotTaskManager.Spec
