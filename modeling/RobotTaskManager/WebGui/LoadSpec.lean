import RobotTaskManager.Lib.Uri
import RobotTaskManager.TaskRepository.Paths

set_option autoImplicit false

/-! # The id of a spec between the editor and the repository

`SpecEditor` saves and loads a spec through the dispatch helper of `start_web_gui.sh`. To save it
carries the id in a JSON body. To load it puts the id into the path of a URL, encoded by
`encodeURIComponent`; the browser resolves the dot segments of the path, the Vite proxy strips
`/api`, and `do_GET` takes what follows `/specs/` as the id, without decoding it.
`load_saved_iff` says for which of the saved ids `LoadTask` is sent with the id.
-/

namespace RobotTaskManager.WebGui

open TaskRepository

/-! ## Saving -/

/-- The request of `save_spec`, for what `_handle_save_spec` reads of the body; the whole of it is
`Helper.handleSaveSpec`. -/
def saveTaskRequest (subjobId specJson commitMessage : String) : SaveRequest where
  taskId := subjobId
  xmlContent := specJson
  commitMessage := if commitMessage = "" then "update " ++ subjobId else commitMessage

/-- `saveSpec` has been answered with ok: the editor demands a name, and `save_task` succeeds. -/
def SavedFromEditor (E : Env) (subjobId : String) : Prop :=
  subjobId ≠ "" ∧ ∃ specJson commitMessage files git,
    (saveCb E files (saveTaskRequest subjobId specJson commitMessage) git).1.success = true

/-! ## Loading -/

/-- The request target of the `fetch` of `loadSpec`; the dispatch URL is the origin and `/api`. -/
def specTarget (id : String) : List Char :=
  Uri.requestTarget ("api/specs/".toList ++ Uri.encode id.toList)

/-- The proxy rule of `vite.config.ts` for `/api`. -/
def rewriteApi (target : List Char) : List Char :=
  (target.dropPrefix? "/api".toList).getD target

/-- What `do_GET` does with a request. -/
inductive GetAction
  | listTasks
  | loadTask (taskId : String)
  | notFound
  deriving DecidableEq

/-- `do_GET` -/
def doGet (path : List Char) : GetAction :=
  if path = "/tasks".toList ∨ path = "/specs".toList then .listTasks
  else
    match path.dropPrefix? "/specs/".toList with
    | some rest => .loadTask (String.ofList rest)
    | none => .notFound

/-- `loadSpec`, up to what the helper does with its request. -/
def loadSpec (id : String) : Option GetAction :=
  if id = "" then none else some (doGet (rewriteApi (specTarget id)))

/-! ## Which ids come through -/

variable {E : Env} {id : String}

/-- A saved id is accepted by the repository. -/
theorem SavedFromEditor.proper (h : SavedFromEditor E id) : PurePath.Proper id := by
  obtain ⟨-, specJson, commitMessage, files, git, hsave⟩ := h
  cases hopen : openSaved E (saveTaskRequest id specJson commitMessage) with
  | error e =>
      rw [saveCb_error hopen] at hsave
      cases hsave
  | ok name => exact safeId_proper (openSaved_ok hopen).2.1

/-- Unless it is a dot segment, the encoded id is the last segment of the path. -/
theorem specTarget_eq (hup : Uri.isDoubleDot (Uri.encode id.toList) = false)
    (hdot : Uri.isSingleDot (Uri.encode id.toList) = false) :
    specTarget id = "/api/specs/".toList ++ Uri.encode id.toList := by
  have hslash : '/' ∉ Uri.encode id.toList := by
    intro h
    cases Uri.mem_encode h with
    | inl hun => exact absurd hun (by decide)
    | inr hpercent => exact absurd hpercent (by decide)
  have hsplit : ("api/specs/".toList ++ Uri.encode id.toList).splitOn '/' =
      ["api".toList, "specs".toList, Uri.encode id.toList] := by
    have hlist : "api/specs/".toList ++ Uri.encode id.toList =
        "api".toList ++ '/' :: ("specs".toList ++ '/' :: Uri.encode id.toList) := by simp
    rw [hlist, List.splitOn_append_cons_self_of_not_mem (by decide),
      List.splitOn_append_cons_self_of_not_mem (by decide), List.splitOn_eq_singleton hslash]
  have hplain : ∀ segment ∈ ["api".toList, "specs".toList],
      Uri.isDoubleDot segment = false ∧ Uri.isSingleDot segment = false := by decide
  obtain ⟨hup₁, hdot₁⟩ := hplain "api".toList List.mem_cons_self
  obtain ⟨hup₂, hdot₂⟩ := hplain "specs".toList (by decide)
  simp only [specTarget, Uri.requestTarget, hsplit, Uri.resolve, hup, hdot, hup₁, hdot₁, hup₂,
    hdot₂]
  simp

theorem doGet_spec (cs : List Char) :
    doGet (rewriteApi ("/api/specs/".toList ++ cs)) = .loadTask (String.ofList cs) := by
  have hrewrite : rewriteApi ("/api/specs/".toList ++ cs) = "/specs/".toList ++ cs := by
    have hlist : "/api/specs/".toList ++ cs = "/api".toList ++ ("/specs/".toList ++ cs) := by simp
    rw [rewriteApi, hlist, List.dropPrefix?_append_of_beq _ (BEq.refl _), Option.getD_some]
  have hother : ¬ ("/specs/".toList ++ cs = "/tasks".toList ∨
      "/specs/".toList ++ cs = "/specs".toList) := by simp
  rw [hrewrite, doGet, if_neg hother, List.dropPrefix?_append_of_beq _ (BEq.refl _)]

/-- **What the editor saves it can load, exactly** if no character of the id is encoded and the id
is not two dots. -/
theorem load_saved_iff (h : SavedFromEditor E id) :
    loadSpec id = some (.loadTask id) ↔
      (∀ c ∈ id.toList, Uri.unreserved c = true) ∧ id ≠ ".." := by
  by_cases hup : id = ".."
  -- the two dots take `specs` off the path
  · refine iff_of_false ?_ fun h => h.2 hup
    rw [hup]
    decide
  · have hup' : Uri.isDoubleDot (Uri.encode id.toList) = false := by
      rw [Bool.eq_false_iff]
      exact fun h => hup (String.toList_inj.mp (Uri.encode_isDoubleDot h))
    have hdot' : Uri.isSingleDot (Uri.encode id.toList) = false := by
      rw [Bool.eq_false_iff]
      exact fun hd => h.proper.2.1 (String.toList_inj.mp (Uri.encode_isSingleDot hd))
    rw [loadSpec, if_neg h.1, specTarget_eq hup' hdot', doGet_spec, Option.some.injEq,
      GetAction.loadTask.injEq, and_iff_left hup, ← Uri.encode_eq_self_iff, ← String.toList_inj,
      String.toList_ofList]

/-- The plain id `patrol` comes through. -/
theorem load_saved_iff_patrol : loadSpec "patrol" = some (.loadTask "patrol") :=
  (load_saved_iff (E := machines)
    ⟨by decide, "\x7b\"kind\": \"BehaviorSM\"\x7d", "", [], ⟨none, none⟩, by decide⟩).mpr
    ⟨List.all_eq_true.mp (by decide), by decide⟩

/-- An id with a space is saved, and the helper asks for another one. -/
theorem not_always_loaded : ¬ ∀ (E : Env) (id : String), SavedFromEditor E id →
    loadSpec id = some (.loadTask id) := by
  intro h
  have hsaved : SavedFromEditor machines "my task" :=
    ⟨by decide, "\x7b\"kind\": \"BehaviorSM\"\x7d", "", [], ⟨none, none⟩, by decide⟩
  have hload : loadSpec "my task" = some (.loadTask "my%20task") := by decide
  exact absurd (hload.symm.trans (h machines "my task" hsaved)) (by decide)

end RobotTaskManager.WebGui
