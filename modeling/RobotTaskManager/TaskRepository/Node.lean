import Mathlib.Data.List.Dedup
import Mathlib.Data.String.Basic
import RobotTaskManager.Lib.PyText

set_option autoImplicit false

/-! # The task repository

`TaskRepoNode` of `mw_task_repository`: one `.json` file for each SubJob in a git work tree. The
node has one thread, so its services run one after the other. The state is the directory: the
files with their texts. What the git subprocesses do to `.git` is never read back; each of them
may succeed or raise at any call.

`json.loads` and `repr` are parameters, and so is which file names the operating system refuses.
An exception is given by its `str`.
-/

namespace RobotTaskManager.TaskRepository

open PyText (strip)

/-! ## Data -/

structure SaveRequest where
  taskId : String
  xmlContent : String
  commitMessage : String
  deriving DecidableEq

structure SaveResponse where
  success : Bool
  message : String
  deriving DecidableEq

structure LoadResponse where
  success : Bool
  xmlContent : String
  message : String
  deriving DecidableEq

/-- What `json.loads` gives: a dict, of which only the keys matter here, a value of another type,
a `JSONDecodeError`, or another exception. -/
inductive Parsed
  | dict (keys : List String)
  | other
  | decodeError (e : String)
  | raises (e : String)
  deriving DecidableEq

/-- The exceptions for file names the operating system refuses: of `exists()`, and of opening the
file for writing, which refuses at least as much. -/
structure Platform where
  statError : String → Option String
  openError : String → Option String
  openError_of_stat : ∀ name, openError name = none → statError name = none

/-- How `git add` and `git commit` end: normally, or with an exception. -/
structure GitEnds where
  add : Option String
  commit : Option String
  deriving DecidableEq

/-- What the node uses of Python and of the platform. -/
structure Env where
  loads : String → Parsed
  repr : String → String
  platform : Platform

/-- The files of the directory, with their texts. -/
abbrev Dir := List (String × String)

/-! ## Paths and files -/

/-- `Path(task_id).name` -/
def pathName (s : String) : String :=
  let parts := (List.splitOn '/' s.toList).map String.ofList
  ((parts.filter fun part => part ≠ "" ∧ part ≠ ".").getLast?).getD ""

/-- `_safe_id` -/
def safeId (E : Env) (taskId : String) : Except String String :=
  let safe := pathName taskId
  if safe = "" ∨ safe ≠ taskId ∨ '/' ∈ taskId.toList then
    .error ("invalid task_id: " ++ E.repr taskId)
  else .ok safe

/-- `SUPPORTED_SUFFIXES` -/
def supportedSuffixes : List String := [".json", ".xml"]

/-- `path.stem` of a file of the directory. -/
def stem (name : String) : String :=
  match name.toList.reverse.dropWhile (· ≠ '.') with
  | [] => name
  | _ :: base => if base = [] ∨ name.toList.getLast? = some '.' then name
      else String.ofList base.reverse

/-- `write_text` for a file the operating system lets be opened. -/
def Dir.writeText (files : Dir) (name text : String) : Dir :=
  (name, text) :: files.filter fun file => file.1 ≠ name

/-- Reading in text mode, with universal newlines. -/
def universalNewlines : List Char → List Char
  | [] => []
  | '\r' :: '\n' :: cs => '\n' :: universalNewlines cs
  | '\r' :: cs => '\n' :: universalNewlines cs
  | c :: cs => c :: universalNewlines cs

/-- `read_text` of a file with this text. -/
def readText (text : String) : String := String.ofList (universalNewlines text.toList)

/-- `repo_dir.glob('*' + suffix)`, as names. -/
def Dir.glob (files : Dir) (suffix : String) : List String :=
  (files.map Prod.fst).filter fun name => suffix.toList.isSuffixOf name.toList

/-! ## The services -/

/-- `_load_path`: the first of the candidates that exists. -/
def firstExisting (E : Env) (files : Dir) : List String → Except String (Option String)
  | [] => .ok none
  | name :: names =>
      match E.platform.statError name with
      | some e => .error e
      | none =>
          if (files.lookup name).isSome then .ok (some name) else firstExisting E files names

/-- `_load_path` -/
def loadPath (E : Env) (files : Dir) (taskId : String) : Except String (Option String) := do
  let safe ← safeId E taskId
  firstExisting E files (supportedSuffixes.map (safe ++ ·))

/-- `_load_cb` -/
def loadCb (E : Env) (files : Dir) (taskId : String) : LoadResponse :=
  match loadPath E files taskId with
  | .error e => ⟨false, "", e⟩
  | .ok none => ⟨false, "", "not found: " ++ taskId⟩
  | .ok (some name) => ⟨true, readText ((files.lookup name).getD ""), "ok"⟩

/-- `_list_cb` -/
def listCb (files : Dir) : List String :=
  let seen := supportedSuffixes.flatMap fun suffix => (files.glob suffix).map stem
  seen.dedup.mergeSort (· ≤ ·)

/-- The checks of `_save_cb` on the content. -/
def validate (E : Env) (xmlContent : String) : Except String Unit :=
  let content := strip xmlContent
  if content = "" then .error "empty spec"
  else
    match E.loads content with
    | .decodeError e => .error ("invalid JSON: " ++ e)
    | .raises e => .error e
    | .other => .error "spec must be a JSON object with a \"kind\" field"
    | .dict keys =>
        if "kind" ∈ keys then .ok ()
        else .error "spec must be a JSON object with a \"kind\" field"

/-- `_save_cb` up to the opening of the file: the name of the file. -/
def openSaved (E : Env) (req : SaveRequest) : Except String String := do
  validate E req.xmlContent
  let safe ← safeId E req.taskId
  let name := safe ++ ".json"
  match E.platform.openError name with
  | some e => .error e
  | none => .ok name

/-- The git part of `_save_cb`. -/
def gitSave (git : GitEnds) : SaveResponse :=
  match git.add with
  | some e => ⟨false, e⟩
  | none =>
      match git.commit with
      | some e => ⟨false, e⟩
      | none => ⟨true, "saved"⟩

/-- `_save_cb` -/
def saveCb (E : Env) (files : Dir) (req : SaveRequest) (git : GitEnds) : SaveResponse × Dir :=
  match openSaved E req with
  | .error e => (⟨false, e⟩, files)
  -- the file is written first, whatever git does
  | .ok name => (gitSave git, files.writeText name req.xmlContent)

/-! ## Histories -/

/-- A call of one of the services, with what git does in it. -/
inductive Call
  | save (req : SaveRequest) (git : GitEnds)
  | load (taskId : String)
  | list
  deriving DecidableEq

/-- The directory after a call; `load_task` and `list_tasks` leave it alone. -/
def afterCall (E : Env) (files : Dir) : Call → Dir
  | .save req git => (saveCb E files req git).2
  | .load _ => files
  | .list => files

/-- The directory after a history, from an empty one. -/
def after (E : Env) (calls : List Call) : Dir := calls.foldl (afterCall E) []

/-! ## File names -/

theorem safeId_ok {E : Env} {taskId safe : String} (h : safeId E taskId = .ok safe) :
    safe = taskId ∧ safe ≠ "" := by
  unfold safeId at h
  simp only at h
  split at h
  · cases h
  · rename_i hsafe
    rw [not_or, not_or, not_not] at hsafe
    cases h
    exact ⟨hsafe.2.1, hsafe.1⟩

/-- The stem of a saved file is the id it was saved under. -/
theorem stem_json (taskId : String) (h : taskId ≠ "") : stem (taskId ++ ".json") = taskId := by
  have hne : taskId.toList.reverse ≠ [] := by simpa using h
  have hlist : (taskId ++ ".json").toList = taskId.toList ++ ['.', 'j', 's', 'o', 'n'] := by
    rw [String.toList_append]
    rfl
  unfold stem
  rw [hlist]
  simp [List.dropWhile, h]

example : stem "patrol.v2.json" = "patrol.v2" := by decide

/-- Text mode reading gives a text back exactly when it has no carriage return. -/
theorem readText_eq_iff (text : String) : readText text = text ↔ '\r' ∉ text.toList := by
  have hnone : ∀ cs : List Char, '\r' ∉ universalNewlines cs := by
    intro cs
    fun_induction universalNewlines cs with
    | case1 => simp
    | case2 cs ih => simpa using ih
    | case3 cs _ ih => simpa using ih
    | case4 c cs _ hc ih =>
        rw [List.mem_cons, not_or]
        exact ⟨fun h => hc h.symm, ih⟩
  have hkeep : ∀ cs : List Char, '\r' ∉ cs → universalNewlines cs = cs := by
    intro cs
    fun_induction universalNewlines cs <;> simp_all
  constructor
  · intro h
    rw [← h, readText, String.toList_ofList]
    exact hnone _
  · intro h
    rw [readText, hkeep _ h, String.ofList_toList]

end RobotTaskManager.TaskRepository
