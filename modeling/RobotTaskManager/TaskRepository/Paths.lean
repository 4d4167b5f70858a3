import Mathlib.Data.List.TakeWhile
import RobotTaskManager.Lib.PurePath
import RobotTaskManager.TaskRepository.Atomic

set_option autoImplicit false

/-! # The files of the repository

`_save_path` and `_load_path` with whole paths, below the directory `repo_dir`. `repo_dir` is given
by the string its path object holds, which may be any string. An accepted id is a single part of a
path, so its file is a direct child of `repo_dir`; the file determines the id, also against the
`.xml` files that `_load_path` falls back to; and the stem of the file is the id. The model of the
services goes by names in the directory instead (`loadPath`, `stem`); `loadFile_eq` and `stem_eq`
connect the two.
-/

namespace RobotTaskManager.TaskRepository

open PurePath (Path Proper parse join)

/-! ## Accepted ids -/

/-- An accepted id is a part of a path as it stands. -/
theorem safeId_proper {E : Env} {taskId safe : String} (h : safeId E taskId = .ok safe) :
    Proper taskId := by
  unfold safeId at h
  by_cases hbad : pathName taskId = "" ∨ pathName taskId ≠ taskId ∨ '/' ∈ taskId.toList
  · rw [if_pos hbad] at h
    cases h
  · rw [not_or, not_or, not_not] at hbad
    obtain ⟨hempty, hname, hslash⟩ := hbad
    rw [hname] at hempty
    refine ⟨hempty, fun hdot => hempty ?_, hslash⟩
    rw [← hname, hdot]
    decide

theorem safeId_error {E : Env} {taskId e : String} (h : safeId E taskId = .error e) :
    e = "invalid task_id: " ++ E.repr taskId := by
  unfold safeId at h
  by_cases hbad : pathName taskId = "" ∨ pathName taskId ≠ taskId ∨ '/' ∈ taskId.toList
  · rw [if_pos hbad] at h
    exact (Except.error.inj h).symm
  · rw [if_neg hbad] at h
    cases h

/-! ## Paths of files -/

/-- `_save_path`, with the message of the `ValueError` it raises. -/
def savePath (E : Env) (repoDir taskId : String) : Except String Path := do
  let safe ← safeId E taskId
  return parse (join repoDir (safe ++ ".json"))

/-- The loop of `_load_path`; `exists()` of a path gives a result or raises. -/
def firstExistingFile (pathExists : Path → Except String Bool) (repoDir safe : String) :
    List String → Except String (Option Path)
  | [] => .ok none
  | suffix :: suffixes => do
      let p := parse (join repoDir (safe ++ suffix))
      if ← pathExists p then return some p
      firstExistingFile pathExists repoDir safe suffixes

/-- `_load_path` -/
def loadFile (pathExists : Path → Except String Bool) (E : Env) (repoDir taskId : String) :
    Except String (Option Path) := do
  let safe ← safeId E taskId
  firstExistingFile pathExists repoDir safe supportedSuffixes

theorem savePath_eq (E : Env) (repoDir taskId : String) :
    savePath E repoDir taskId = .error ("invalid task_id: " ++ E.repr taskId) ∨
      savePath E repoDir taskId = .ok (parse (join repoDir (taskId ++ ".json"))) ∧
        Proper taskId := by
  cases h : safeId E taskId with
  | error e =>
      refine Or.inl ?_
      rw [savePath, h, safeId_error h]
      rfl
  | ok safe =>
      refine Or.inr ⟨?_, safeId_proper h⟩
      rw [savePath, h, (safeId_ok h).1]
      rfl

theorem firstExistingFile_ok {pathExists : Path → Except String Bool} {repoDir safe : String}
    {suffixes : List String} {p : Path}
    (h : firstExistingFile pathExists repoDir safe suffixes = .ok (some p)) :
    ∃ suffix ∈ suffixes, p = parse (join repoDir (safe ++ suffix)) := by
  induction suffixes with
  | nil => cases h
  | cons suffix suffixes ih =>
      rw [firstExistingFile] at h
      cases hexists : pathExists (parse (join repoDir (safe ++ suffix))) with
      | error e =>
          rw [hexists] at h
          cases h
      | ok found =>
          rw [hexists] at h
          cases found with
          | true =>
              cases h
              exact ⟨suffix, List.mem_cons_self, rfl⟩
          | false =>
              obtain ⟨suffix', hmem, hp⟩ := ih h
              exact ⟨suffix', List.mem_cons_of_mem suffix hmem, hp⟩

/-- What `_load_path` finds is the file of the id with one of the suffixes. -/
theorem loadFile_ok {pathExists : Path → Except String Bool} {E : Env} {repoDir taskId : String}
    {p : Path} (h : loadFile pathExists E repoDir taskId = .ok (some p)) :
    Proper taskId ∧ ∃ suffix ∈ supportedSuffixes, p = parse (join repoDir (taskId ++ suffix)) := by
  cases hsafe : safeId E taskId with
  | error e =>
      rw [loadFile, hsafe] at h
      cases h
  | ok safe =>
      rw [loadFile, hsafe, (safeId_ok hsafe).1] at h
      exact ⟨safeId_proper hsafe, firstExistingFile_ok h⟩

/-- The path of a file below `repo_dir`, for both suffixes. -/
theorem parse_file {taskId suffix : String} (h : Proper taskId) (hs : suffix ∈ supportedSuffixes)
    (repoDir : String) : ∃ hfile : Proper (taskId ++ suffix),
      parse (join repoDir (taskId ++ suffix)) = (parse repoDir).child (taskId ++ suffix) hfile := by
  have hsuffix : suffix ≠ "" ∧ '/' ∉ suffix.toList := by
    simp only [supportedSuffixes, List.mem_cons, List.not_mem_nil, or_false] at hs
    cases hs with
    | inl hs => rw [hs]; decide
    | inr hs => rw [hs]; decide
  exact ⟨h.append hsuffix.1 hsuffix.2, PurePath.parse_join _ _⟩

theorem savePath_ok {E : Env} {repoDir taskId : String} {p : Path}
    (h : savePath E repoDir taskId = .ok p) : Proper taskId ∧ p.name = taskId ++ ".json" ∧
      p.IsChildOf (parse repoDir) := by
  cases savePath_eq E repoDir taskId with
  | inl herr =>
      rw [herr] at h
      cases h
  | inr hok =>
      obtain ⟨hfile, hparse⟩ := parse_file hok.2 List.mem_cons_self repoDir
      rw [hok.1, hparse] at h
      cases h
      refine ⟨hok.2, PurePath.Path.child_name, PurePath.Path.child_isChildOf fun hup => ?_⟩
      have hlen := congrArg (fun name : String => name.toList.length) hup
      simp at hlen

/-! ## Paths and names -/

/-- `exists()` of a path below `repo_dir`, with the files of the directory. -/
def existsIn (E : Env) (files : Dir) (p : Path) : Except String Bool :=
  match E.platform.statError p.name with
  | some e => .error e
  | none => .ok (files.lookup p.name).isSome

theorem firstExistingFile_eq (E : Env) (files : Dir) (repoDir : String) {taskId : String}
    (h : Proper taskId) {suffixes : List String}
    (hs : ∀ suffix ∈ suffixes, suffix ∈ supportedSuffixes) :
    firstExistingFile (existsIn E files) repoDir taskId suffixes =
      (firstExisting E files (suffixes.map (taskId ++ ·))).map
        (Option.map fun name => parse (join repoDir name)) := by
  induction suffixes with
  | nil => rfl
  | cons suffix suffixes ih =>
      have hrest := ih fun suffix' hmem => hs suffix' (List.mem_cons_of_mem suffix hmem)
      obtain ⟨hfile, hparse⟩ := parse_file h (hs suffix List.mem_cons_self) repoDir
      have hname : (parse (join repoDir (taskId ++ suffix))).name = taskId ++ suffix := by
        rw [hparse, PurePath.Path.child_name]
      rw [firstExistingFile, List.map_cons, firstExisting, existsIn, hname]
      cases E.platform.statError (taskId ++ suffix) with
      | some e => rfl
      | none =>
          cases (files.lookup (taskId ++ suffix)).isSome with
          | true => rfl
          | false => exact hrest

/-- **The services go by the names in the directory**: their `loadPath` finds the name of the file
that `_load_path` finds. -/
theorem loadFile_eq (E : Env) (files : Dir) (repoDir taskId : String) :
    loadFile (existsIn E files) E repoDir taskId =
      (loadPath E files taskId).map (Option.map fun name => parse (join repoDir name)) := by
  rw [loadFile, loadPath]
  cases h : safeId E taskId with
  | error e => rfl
  | ok safe =>
      obtain ⟨rfl, -⟩ := safeId_ok h
      exact firstExistingFile_eq E files repoDir (safeId_proper h) fun _ hmem => hmem

/-- The stem of a file as the services compute it is that of its path. -/
theorem stem_eq (name : String) : stem name = PurePath.stem name := by
  by_cases hdot : '.' ∈ name.toList
  · obtain ⟨as, bs, hsplit, has⟩ := List.eq_append_cons_of_mem (List.mem_reverse.mpr hdot)
    have hname : name.toList = bs.reverse ++ '.' :: as.reverse := by
      rw [← List.reverse_reverse name.toList, hsplit]
      simp
    have hdrop : name.toList.reverse.dropWhile (· ≠ '.') = '.' :: bs := by
      rw [hsplit, List.dropWhile_append_of_pos]
      · simp
      · intro c hc
        exact decide_eq_true fun h : c = '.' => has (h ▸ hc)
    have hnotin : '.' ∉ as.reverse := fun h => has (List.mem_reverse.mp h)
    have hlen : (bs.reverse ++ '.' :: as.reverse).length - 1 = bs.length + as.length := by
      simp
    rw [stem, hdrop, PurePath.stem, hname, PurePath.rfind_append hnotin]
    simp only [hlen, List.length_reverse]
    by_cases hbase : bs = []
    · rw [if_pos (Or.inl hbase), hbase]
      simp
    · have hpos : 0 < bs.length := List.length_pos_iff.mpr hbase
      by_cases hsuffix : as = []
      -- a dot at the end starts no suffix
      · rw [if_pos (Or.inr (by simp [hsuffix])), hsuffix]
        simp
      · have hpos' : 0 < as.length := List.length_pos_iff.mpr hsuffix
        have hlast : (bs.reverse ++ '.' :: as.reverse).getLast? ≠ some '.' := by
          intro h
          rw [List.getLast?_append_cons, List.getLast?_cons_of_ne_nil (by simpa using hsuffix)] at h
          exact hnotin (List.mem_of_getLast? h)
        rw [if_neg (not_or.mpr ⟨hbase, hlast⟩), if_pos ⟨hpos, by omega⟩]
        rw [List.take_left' (by simp)]
  · have hdrop : name.toList.reverse.dropWhile (· ≠ '.') = [] := by
      rw [List.dropWhile_eq_nil_iff]
      intro c hc
      exact decide_eq_true fun h : c = '.' => hdot (h ▸ List.mem_reverse.mp hc)
    rw [stem, hdrop, PurePath.stem, PurePath.rfind_of_not_mem hdot]

/-- **Ids are confined, injective and listable.** `_save_path` refuses an id or gives a direct
child of `repo_dir`; two ids do not have the same file; `_load_path` does not find the file of
another id, whatever files exist; and the stem of the file is the id. -/
theorem ids_confined (E : Env) (repoDir : String) :
    (∀ taskId, savePath E repoDir taskId = .error ("invalid task_id: " ++ E.repr taskId) ∨
      ∃ p, savePath E repoDir taskId = .ok p ∧ p.IsChildOf (parse repoDir)) ∧
    (∀ a b p, savePath E repoDir a = .ok p → savePath E repoDir b = .ok p → a = b) ∧
    (∀ pathExists a b p, savePath E repoDir b = .ok p →
      loadFile pathExists E repoDir a = .ok (some p) → a = b) ∧
    ∀ taskId p, savePath E repoDir taskId = .ok p →
      PurePath.stem p.name = taskId ∧ stem p.name = taskId := by
  refine ⟨fun taskId => ?_, fun a b p ha hb => ?_, fun pathExists a b p hb ha => ?_,
    fun taskId p h => ?_⟩
  · cases h : savePath E repoDir taskId with
    | error e =>
        cases savePath_eq E repoDir taskId with
        | inl herr => exact Or.inl (h.symm.trans herr)
        | inr hok => exact absurd (h.symm.trans hok.1) (by simp)
    | ok p => exact Or.inr ⟨p, rfl, (savePath_ok h).2.2⟩
  · exact append_json_inj ((savePath_ok ha).2.1.symm.trans (savePath_ok hb).2.1)
  · obtain ⟨hproper, suffix, hsuffix, hp⟩ := loadFile_ok ha
    obtain ⟨hfile, hparse⟩ := parse_file hproper hsuffix repoDir
    have hname : a ++ suffix = b ++ ".json" := by
      rw [← (savePath_ok hb).2.1, hp, hparse, PurePath.Path.child_name]
    simp only [supportedSuffixes, List.mem_cons, List.not_mem_nil, or_false] at hsuffix
    cases hsuffix with
    | inl hjson => exact append_json_inj (hjson ▸ hname)
    | inr hxml => exact absurd (hxml ▸ hname).symm (append_json_ne_xml b a)
  · obtain ⟨hproper, hname, -⟩ := savePath_ok h
    have hstem : PurePath.stem p.name = taskId := by
      rw [hname, show ".json" = "." ++ "json" from rfl, ← String.append_assoc]
      exact PurePath.stem_append hproper.1 (by decide) (by decide)
    exact ⟨hstem, (stem_eq p.name).trans hstem⟩

end RobotTaskManager.TaskRepository
