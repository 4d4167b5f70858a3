import Mathlib.Data.List.Induction
import Mathlib.Data.List.Sort
import RobotTaskManager.TaskRepository.Node

set_option autoImplicit false

/-! # Atomic saves

What the repository is for is a map from ids to texts that only a successful save changes. The
directory agrees with that map, and a failed save leaves no trace, exactly in the histories of
which every save is safe (`SafeSave`). A save that git lets fail has written its file already, so
it is safe only if the file has read like that before; one that succeeds is safe if its text has
no carriage return, which reading would translate.
-/

namespace RobotTaskManager.TaskRepository

/-! ## The map -/

/-- A save reports success. -/
def succeeds (E : Env) (req : SaveRequest) (git : GitEnds) : Prop :=
  ∃ name, openSaved E req = .ok name ∧ (gitSave git).success = true

instance (E : Env) (req : SaveRequest) (git : GitEnds) : Decidable (succeeds E req git) :=
  match h : openSaved E req with
  | .error _ => isFalse fun ⟨_, h', _⟩ => by simp [h] at h'
  | .ok name => decidable_of_iff ((gitSave git).success = true)
      ⟨fun hs => ⟨name, h, hs⟩, fun ⟨_, _, hs⟩ => hs⟩

/-- The map after a call. -/
def savedByCall (E : Env) (saved : String → Option String) : Call → String → Option String
  | .save req git =>
      if succeeds E req git then Function.update saved req.taskId (some req.xmlContent) else saved
  | .load _ => saved
  | .list => saved

/-- The text of the latest successful save of each id. -/
def saved (E : Env) (calls : List Call) : String → Option String :=
  calls.foldl (savedByCall E) fun _ => none

/-- The content of a response that reports success. -/
def LoadResponse.content? (r : LoadResponse) : Option String :=
  if r.success then some r.xmlContent else none

/-- `load_task` and `list_tasks` answer what the map says. -/
structure Agrees (E : Env) (files : Dir) (saved : String → Option String) : Prop where
  load : ∀ taskId, (loadCb E files taskId).content? = saved taskId
  list_sorted : (listCb files).Pairwise (· < ·)
  list_mem : ∀ taskId, taskId ∈ listCb files ↔ (saved taskId).isSome

/-- Two directories that no later load or list tells apart. -/
def SameAnswers (E : Env) (files files' : Dir) : Prop :=
  (∀ taskId, loadCb E files taskId = loadCb E files' taskId) ∧ listCb files = listCb files'

/-- In the course of a history the repository is a map, and the saves that report a failure leave
the answers as they would have been without them. -/
structure AtomicMap (E : Env) (calls : List Call) : Prop where
  map : ∀ cs, cs <+: calls → Agrees E (after E cs) (saved E cs)
  failed : ∀ as req git bs, as ++ .save req git :: bs <+: calls →
    (saveCb E (after E as) req git).1.success = false →
    SameAnswers E (after E (as ++ .save req git :: bs)) (after E (as ++ bs))

/-- A save that is turned down before the file is opened is safe. One that succeeds is safe if its
text has no carriage return, and one that git lets fail if the file reads the same already. -/
def SafeSave (E : Env) (files : Dir) (req : SaveRequest) (git : GitEnds) : Prop :=
  ∀ name, openSaved E req = .ok name →
    if (gitSave git).success then '\r' ∉ req.xmlContent.toList
    else (files.lookup name).map readText = some (readText req.xmlContent)

/-! ## The files of the directory -/

/-- Every file is there because of an id it can have been saved under. -/
def Named (E : Env) (files : Dir) : Prop :=
  ∀ file ∈ files, ∃ taskId, file.1 = taskId ++ ".json" ∧ safeId E taskId = .ok taskId ∧
    E.platform.openError file.1 = none

section Files

variable {E : Env} {files files' : Dir} {req : SaveRequest} {name taskId : String}

theorem openSaved_ok (h : openSaved E req = .ok name) :
    name = req.taskId ++ ".json" ∧ safeId E req.taskId = .ok req.taskId ∧
      E.platform.openError name = none := by
  unfold openSaved at h
  cases hv : validate E req.xmlContent with
  | error e => simp [hv, bind, Except.bind] at h
  | ok _ =>
      cases hs : safeId E req.taskId with
      | error e => simp [hv, hs, bind, Except.bind] at h
      | ok safe =>
          obtain ⟨rfl, -⟩ := safeId_ok hs
          cases ho : E.platform.openError (req.taskId ++ ".json") with
          | some e => simp [hv, hs, ho, bind, Except.bind] at h
          | none =>
              simp only [hv, hs, ho, bind, Except.bind] at h
              cases h
              exact ⟨rfl, rfl, ho⟩

theorem append_json_inj {a b : String} (h : a ++ ".json" = b ++ ".json") : a = b := by
  have := congrArg String.toList h
  simp only [String.toList_append] at this
  exact String.toList_inj.mp (List.append_cancel_right this)

theorem append_json_ne_xml (a b : String) : a ++ ".json" ≠ b ++ ".xml" := by
  intro h
  have := congrArg (fun s : String => s.toList.getLast?) h
  simp [String.toList_append] at this

theorem lookup_isSome_iff : (files.lookup name).isSome ↔ ∃ file ∈ files, file.1 = name := by
  rw [List.lookup_isSome_iff]
  constructor
  · rintro ⟨file, hfile, heq⟩
    exact ⟨file, hfile, (eq_of_beq heq).symm⟩
  · rintro ⟨file, hfile, rfl⟩
    exact ⟨file, hfile, beq_self_eq_true _⟩

theorem lookup_writeText_self (text : String) :
    (files.writeText name text).lookup name = some text :=
  List.lookup_cons_self

theorem lookup_writeText_ne {other : String} (text : String) (h : other ≠ name) :
    (files.writeText name text).lookup other = files.lookup other := by
  have hne : (other == name) = false := by simpa using h
  rw [Dir.writeText, List.lookup_cons, hne]
  show (files.filter fun file => file.1 ≠ name).lookup other = files.lookup other
  induction files with
  | nil => rfl
  | cons file files ih =>
      obtain ⟨key, text'⟩ := file
      by_cases hkey : key = name
      · subst hkey
        rw [List.filter_cons_of_neg (by simp), List.lookup_cons, hne]
        exact ih
      · rw [List.filter_cons_of_pos (by simpa using hkey), List.lookup_cons, List.lookup_cons, ih]

theorem Named.writeText (hnamed : Named E files) (h : openSaved E req = .ok name)
    (text : String) : Named E (files.writeText name text) := by
  obtain ⟨hname, hsafe, hopen⟩ := openSaved_ok h
  intro file hfile
  rcases List.mem_cons.mp hfile with rfl | hfile
  · exact ⟨req.taskId, hname, hsafe, hopen⟩
  · exact hnamed file (List.mem_of_mem_filter hfile)

/-- The only id a file can be there for. -/
theorem Named.of_lookup (hnamed : Named E files)
    (h : (files.lookup (taskId ++ ".json")).isSome) :
    safeId E taskId = .ok taskId ∧ E.platform.openError (taskId ++ ".json") = none := by
  obtain ⟨file, hfile, heq⟩ := lookup_isSome_iff.mp h
  obtain ⟨other, hname, hsafe, hopen⟩ := hnamed file hfile
  obtain rfl := append_json_inj (hname.symm.trans heq)
  exact ⟨hsafe, heq ▸ hopen⟩

theorem Named.lookup_xml (hnamed : Named E files) (taskId : String) :
    files.lookup (taskId ++ ".xml") = none := by
  rw [← Option.not_isSome_iff_eq_none, lookup_isSome_iff]
  rintro ⟨file, hfile, heq⟩
  obtain ⟨other, hname, -, -⟩ := hnamed file hfile
  exact append_json_ne_xml other taskId (hname.symm.trans heq)

/-- What `load_task` finds. -/
theorem loadCb_content (hnamed : Named E files) (taskId : String) :
    (loadCb E files taskId).content? = (files.lookup (taskId ++ ".json")).map readText := by
  cases hlookup : files.lookup (taskId ++ ".json") with
  | some text =>
      obtain ⟨hsafe, hopen⟩ := hnamed.of_lookup (by rw [hlookup]; rfl)
      have hstat := E.platform.openError_of_stat _ hopen
      simp [loadCb, loadPath, hsafe, bind, Except.bind, supportedSuffixes, firstExisting, hstat,
        hlookup, LoadResponse.content?]
  | none =>
      have hxml := hnamed.lookup_xml taskId
      unfold loadCb loadPath
      cases hsafe : safeId E taskId with
      | error e => rfl
      | ok safe =>
          obtain ⟨rfl, -⟩ := safeId_ok hsafe
          simp only [bind, Except.bind, supportedSuffixes, List.map_cons, List.map_nil,
            firstExisting, hlookup, hxml]
          cases E.platform.statError (safe ++ ".json") with
          | some e => rfl
          | none =>
              cases E.platform.statError (safe ++ ".xml") with
              | some e => rfl
              | none => rfl

theorem listCb_sorted (files : Dir) : (listCb files).Pairwise (· < ·) := by
  unfold listCb
  set seen := (supportedSuffixes.flatMap fun suffix => (files.glob suffix).map stem).dedup
  have hle : (seen.mergeSort (· ≤ ·)).Pairwise (· ≤ ·) := by
    have htrans : ∀ a b c : String, decide (a ≤ b) = true → decide (b ≤ c) = true →
        decide (a ≤ c) = true := by
      simp only [decide_eq_true_eq]
      exact fun _ _ _ => le_trans
    have htotal : ∀ a b : String, (decide (a ≤ b) || decide (b ≤ a)) = true := by
      simp only [Bool.or_eq_true, decide_eq_true_eq]
      exact le_total
    simpa using List.pairwise_mergeSort htrans htotal seen
  have hnodup : (seen.mergeSort (· ≤ ·)).Nodup :=
    (List.mergeSort_perm seen _).nodup_iff.mpr (List.nodup_dedup _)
  exact (hle.and hnodup).imp fun h => lt_of_le_of_ne h.1 h.2

/-- What `list_tasks` lists. -/
theorem mem_listCb (hnamed : Named E files) (taskId : String) :
    taskId ∈ listCb files ↔ (files.lookup (taskId ++ ".json")).isSome := by
  rw [lookup_isSome_iff]
  simp only [listCb, List.mem_mergeSort, List.mem_dedup, List.mem_flatMap, List.mem_map, Dir.glob,
    List.mem_filter]
  constructor
  · rintro ⟨suffix, -, name, ⟨⟨file, hfile, rfl⟩, -⟩, rfl⟩
    obtain ⟨other, hname, hsafe, -⟩ := hnamed file hfile
    refine ⟨file, hfile, ?_⟩
    rw [hname, stem_json other (safeId_ok hsafe).2]
  · rintro ⟨file, hfile, heq⟩
    obtain ⟨other, hname, hsafe, -⟩ := hnamed file hfile
    obtain rfl := append_json_inj (hname.symm.trans heq)
    refine ⟨".json", by simp [supportedSuffixes], file.1, ⟨⟨file, hfile, rfl⟩, ?_⟩, ?_⟩
    · rw [heq, String.toList_append, List.isSuffixOf_iff_suffix]
      exact List.suffix_append _ _
    · rw [heq, stem_json other (safeId_ok hsafe).2]

end Files

/-! ## One call -/

section Calls

variable {E : Env} {files files' : Dir} {m : String → Option String} {req : SaveRequest}
  {git : GitEnds} {name : String}

/-- What the listing shows follows from what can be loaded. -/
theorem Agrees.of_load (hnamed : Named E files)
    (h : ∀ taskId, (files.lookup (taskId ++ ".json")).map readText = m taskId) :
    Agrees E files m where
  load taskId := (loadCb_content hnamed taskId).trans (h taskId)
  list_sorted := listCb_sorted files
  list_mem taskId := by rw [mem_listCb hnamed, ← h, Option.isSome_map]

theorem Agrees.lookup (hnamed : Named E files) (h : Agrees E files m) (taskId : String) :
    (files.lookup (taskId ++ ".json")).map readText = m taskId :=
  (loadCb_content hnamed taskId).symm.trans (h.load taskId)

theorem saveCb_error {e : String} (h : openSaved E req = .error e) :
    saveCb E files req git = (⟨false, e⟩, files) := by
  rw [saveCb, h]

theorem saveCb_ok (h : openSaved E req = .ok name) :
    saveCb E files req git = (gitSave git, files.writeText name req.xmlContent) := by
  rw [saveCb, h]

/-- A save reports success in every directory or in none. -/
theorem saveCb_success (files : Dir) :
    (saveCb E files req git).1.success = true ↔ succeeds E req git := by
  unfold succeeds
  cases hopen : openSaved E req with
  | error e => simp [saveCb_error hopen]
  | ok name => simp [saveCb_ok hopen]

theorem safeSave_ok (h : openSaved E req = .ok name) : SafeSave E files req git ↔
    if (gitSave git).success then '\r' ∉ req.xmlContent.toList
    else (files.lookup name).map readText = some (readText req.xmlContent) := by
  unfold SafeSave
  rw [h]
  simp

theorem Named.afterCall (hnamed : Named E files) (c : Call) : Named E (afterCall E files c) := by
  cases c with
  | save req git =>
      show Named E (saveCb E files req git).2
      cases hopen : openSaved E req with
      | error e => exact (saveCb_error hopen).symm ▸ hnamed
      | ok name => exact (saveCb_ok hopen).symm ▸ hnamed.writeText hopen _
  | load taskId => exact hnamed
  | list => exact hnamed

/-- The call is safe if it is a safe save or no save. -/
def SafeCall (E : Env) (files : Dir) : Call → Prop
  | .save req git => SafeSave E files req git
  | _ => True

/-- After the file has been written, what can be loaded is what the map says if it is so under
the id of the save. -/
theorem agrees_writeText (hnamed : Named E files) (h : Agrees E files m)
    (hopen : openSaved E req = .ok name) {m' : String → Option String}
    (hm : ∀ taskId, taskId ≠ req.taskId → m' taskId = m taskId) :
    Agrees E (files.writeText name req.xmlContent) m' ↔
      some (readText req.xmlContent) = m' req.taskId := by
  have hnamed' := hnamed.writeText hopen req.xmlContent
  obtain ⟨hname, -, -⟩ := openSaved_ok hopen
  have hself : (files.writeText name req.xmlContent).lookup (req.taskId ++ ".json") =
      some req.xmlContent := by
    rw [← hname]
    exact lookup_writeText_self _
  constructor
  · intro h'
    rw [← h'.lookup hnamed' req.taskId, hself]
    rfl
  · intro hsome
    apply Agrees.of_load hnamed'
    intro taskId
    by_cases heq : taskId = req.taskId
    · rw [heq, hself, ← hsome]
      rfl
    · have hne : taskId ++ ".json" ≠ name := by
        rw [hname]
        exact fun h => heq (append_json_inj h)
      rw [lookup_writeText_ne _ hne, hm taskId heq]
      exact h.lookup hnamed taskId

/-- **One call** keeps the agreement exactly when it is safe. -/
theorem agrees_afterCall_iff (hnamed : Named E files) (h : Agrees E files m) (c : Call) :
    Agrees E (afterCall E files c) (savedByCall E m c) ↔ SafeCall E files c := by
  cases c with
  | load taskId => exact iff_of_true h trivial
  | list => exact iff_of_true h trivial
  | save req git =>
      show Agrees E (saveCb E files req git).2 (if succeeds E req git then _ else m) ↔
        SafeSave E files req git
      cases hopen : openSaved E req with
      | error e =>
          have hno : ¬ succeeds E req git := by
            rw [← saveCb_success files, saveCb_error hopen]
            nofun
          rw [if_neg hno, saveCb_error hopen]
          refine iff_of_true h fun name hname => ?_
          rw [hopen] at hname
          cases hname
      | ok name =>
          have hiff : succeeds E req git ↔ (gitSave git).success = true := by
            rw [← saveCb_success files, saveCb_ok hopen]
          obtain ⟨hname, -, -⟩ := openSaved_ok hopen
          rw [saveCb_ok hopen, safeSave_ok hopen]
          by_cases hgit : (gitSave git).success = true
          · rw [if_pos (hiff.mpr hgit), if_pos hgit, ← readText_eq_iff]
            rw [agrees_writeText hnamed h hopen fun _ hne => Function.update_of_ne hne _ _]
            rw [Function.update_self, Option.some.injEq]
          · rw [if_neg fun hs => hgit (hiff.mp hs), if_neg hgit]
            rw [agrees_writeText hnamed h hopen fun _ _ => rfl, hname, h.lookup hnamed, eq_comm]

/-! ## Directories that read the same -/

/-- Every file of the one is in the other, with a text that reads the same. -/
def SameReading (files files' : Dir) : Prop :=
  ∀ name, (files.lookup name).map readText = (files'.lookup name).map readText

theorem SameReading.isSome (h : SameReading files files') (name : String) :
    (files.lookup name).isSome = (files'.lookup name).isSome := by
  have := congrArg Option.isSome (h name)
  simpa using this

theorem SameReading.firstExisting (h : SameReading files files') (names : List String) :
    firstExisting E files names = firstExisting E files' names := by
  induction names with
  | nil => rfl
  | cons name names ih =>
      unfold TaskRepository.firstExisting
      rw [h.isSome name, ih]

theorem SameReading.loadCb (h : SameReading files files') (taskId : String) :
    loadCb E files taskId = loadCb E files' taskId := by
  have hpath : loadPath E files taskId = loadPath E files' taskId := by
    unfold loadPath
    simp only [h.firstExisting]
  unfold TaskRepository.loadCb
  rw [hpath]
  cases hp : loadPath E files' taskId with
  | error e => rfl
  | ok path =>
      cases path with
      | none => rfl
      | some name =>
          have hget (fs : Dir) : readText ((fs.lookup name).getD "") =
              ((fs.lookup name).map readText).getD (readText "") := by
            cases fs.lookup name <;> rfl
          simp only [hget, h name]

theorem SameReading.answers (h : SameReading files files') (hnamed : Named E files)
    (hnamed' : Named E files') : SameAnswers E files files' := by
  refine ⟨h.loadCb, ?_⟩
  apply List.Pairwise.eq_of_mem_iff (listCb_sorted files) (listCb_sorted files')
  intro taskId
  rw [mem_listCb hnamed, mem_listCb hnamed', h.isSome]

theorem SameReading.afterCall (h : SameReading files files') (c : Call) :
    SameReading (afterCall E files c) (afterCall E files' c) := by
  cases c with
  | load taskId => exact h
  | list => exact h
  | save req git =>
      show SameReading (saveCb E files req git).2 (saveCb E files' req git).2
      cases hopen : openSaved E req with
      | error e =>
          rw [saveCb_error hopen, saveCb_error hopen]
          exact h
      | ok name =>
          rw [saveCb_ok hopen, saveCb_ok hopen]
          intro other
          by_cases hne : other = name
          · rw [hne, lookup_writeText_self, lookup_writeText_self]
          · rw [lookup_writeText_ne _ hne, lookup_writeText_ne _ hne]
            exact h other

/-- A safe save that reports a failure leaves a directory that reads the same. -/
theorem SafeSave.sameReading (h : SafeSave E files req git)
    (hfail : (saveCb E files req git).1.success = false) :
    SameReading (saveCb E files req git).2 files := by
  cases hopen : openSaved E req with
  | error e =>
      rw [saveCb_error hopen]
      exact fun _ => rfl
  | ok name =>
      have hstored := h name hopen
      rw [saveCb_ok hopen] at hfail ⊢
      rw [if_neg (by simpa using hfail)] at hstored
      intro other
      by_cases hne : other = name
      · rw [hne, lookup_writeText_self, hstored]
        rfl
      · rw [lookup_writeText_ne _ hne]

end Calls

/-! ## Histories -/

section Histories

variable {E : Env} {calls : List Call}

theorem after_append (as bs : List Call) :
    after E (as ++ bs) = bs.foldl (afterCall E) (after E as) := by
  rw [after, after, List.foldl_append]

theorem saved_concat (as : List Call) (c : Call) :
    saved E (as ++ [c]) = savedByCall E (saved E as) c := by
  rw [saved, saved, List.foldl_append, List.foldl_cons, List.foldl_nil]

theorem named_after (calls : List Call) : Named E (after E calls) := by
  induction calls using List.reverseRecOn with
  | nil => exact fun _ h => nomatch h
  | append_singleton cs c ih =>
      rw [after_append]
      exact ih.afterCall c

/-- Every save of the history is safe. -/
def SafeSaves (E : Env) (calls : List Call) : Prop :=
  ∀ as req git, as ++ [.save req git] <+: calls → SafeSave E (after E as) req git

theorem SafeSaves.call (h : SafeSaves E calls) {cs : List Call} {c : Call}
    (hcs : cs ++ [c] <+: calls) : SafeCall E (after E cs) c := by
  cases c with
  | save req git => exact h cs req git hcs
  | load taskId => trivial
  | list => trivial

theorem SafeSaves.agrees (h : SafeSaves E calls) {cs : List Call} (hcs : cs <+: calls) :
    Agrees E (after E cs) (saved E cs) := by
  induction cs using List.reverseRecOn with
  | nil => exact Agrees.of_load (named_after []) fun _ => rfl
  | append_singleton cs c ih =>
      have hpre : cs <+: calls := (List.prefix_append cs [c]).trans hcs
      rw [after_append, saved_concat]
      exact (agrees_afterCall_iff (named_after cs) (ih hpre) c).mpr (h.call hcs)

theorem sameReading_foldl {files files' : Dir} (h : SameReading files files') (bs : List Call) :
    SameReading (bs.foldl (afterCall E) files) (bs.foldl (afterCall E) files') := by
  induction bs generalizing files files' with
  | nil => exact h
  | cons c bs ih => exact ih (h.afterCall c)

end Histories

/-- **The repository is a map with atomic saves** in the course of a history exactly when every
save of it is safe. -/
theorem atomicMap_iff (E : Env) (calls : List Call) : AtomicMap E calls ↔ SafeSaves E calls := by
  constructor
  · intro h as req git hpre
    have hbefore := h.map as ((List.prefix_append as _).trans hpre)
    have hafter := h.map _ hpre
    rw [after_append, saved_concat] at hafter
    exact (agrees_afterCall_iff (named_after as) hbefore (.save req git)).mp hafter
  · intro h
    refine ⟨fun cs hcs => h.agrees hcs, fun as req git bs hpre hfail => ?_⟩
    have hone : as ++ [.save req git] <+: calls := by
      refine List.IsPrefix.trans ⟨bs, ?_⟩ hpre
      rw [List.append_assoc]
      rfl
    have hsame : SameReading (afterCall E (after E as) (.save req git)) (after E as) :=
      (h as req git hone).sameReading hfail
    apply SameReading.answers _ (named_after _) (named_after _)
    rw [after_append, after_append, List.foldl_cons]
    exact sameReading_foldl hsame bs

/-! ## A commit that fails -/

/-- A platform that takes every file name, and `json.loads` for texts that are machines. -/
def machines : Env :=
  ⟨fun _ => .dict ["kind"], id, ⟨fun _ => none, fun _ => none, fun _ _ => rfl⟩⟩

/-- `patrol` is saved, and saved again with another text while git cannot commit. -/
def failedCommit : List Call :=
  [.save ⟨"patrol", "\x7b\"kind\": \"BehaviorSM\"\x7d", ""⟩ ⟨none, none⟩,
    .save ⟨"patrol", "\x7b\"kind\": \"Parallel\"\x7d", ""⟩ ⟨none, some "exit status 128"⟩]

/-- The text of a save that has failed is loaded. -/
theorem not_always_atomicMap : ¬ ∀ (E : Env) (calls : List Call), AtomicMap E calls := by
  intro h
  have hload := ((h machines failedCommit).map failedCommit (List.prefix_refl _)).load "patrol"
  exact absurd hload (by decide)

end RobotTaskManager.TaskRepository
