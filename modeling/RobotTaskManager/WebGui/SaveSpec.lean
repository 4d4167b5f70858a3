import RobotTaskManager.Rcs.Userdata
import RobotTaskManager.TaskRepository.Atomic
import RobotTaskManager.WebGui.LoadSpec
import RobotTaskManager.WebGui.SpecEditor

set_option autoImplicit false

/-! # `POST /specs` of the dispatch helper

`_handle_save_spec` and `save_spec` in `start_web_gui.sh`, from the bytes of the body to the call of
`save_task`. A spec that is a dict is written with `json.dumps`, and checked as the text that it
has become.

Two parts of this are used by themselves: what is made of the `spec` as a value, `handleSaveSpec`
of the editor (`handleSaveSpec_specValue`), and the request that `save_task` gets for an id, of
`LoadSpec` (`readBody_request`, `savedFromEditor_of_ok`).
-/

namespace RobotTaskManager.WebGui

open PyText PyJson TaskRepository
open PyValue (bind_ok_iff)
open Rcs (ofText ofString_ofText isValidChar_of_isAscii)
open Rcs.Orders (loadsStr)

/-! ## The helper -/

/-- What is raised in the helper. -/
inductive HelperError
  | json (e : Raised)
  /-- `AttributeError`: the body is not a dict. -/
  | attribute
  /-- `AssertionError`: a field of the request is not a string. -/
  | field
  /-- `UnicodeEncodeError`: a field of the request has a surrogate. -/
  | surrogate

inductive Answer
  /-- `{'error': …}` -/
  | error (code : ℕ) (message : String)
  /-- `{'ok': …, 'message': …}` -/
  | result (code : ℕ) (ok : Bool) (message : String)

/-- What the helper uses of Python. -/
structure Helper where
  interpreter : Interpreter
  /-- `float.__repr__` -/
  floatRepr : Double → Text
  /-- `str(e)` -/
  errorText : HelperError → String

/-- What is read from the body. -/
structure SpecPost where
  subjobId : Val
  specJson : Text
  commitMessage : Val

namespace Helper

variable (h : Helper)

def raises (e : HelperError) : Answer := .error 500 (h.errorText e)

/-- `spec if isinstance(spec, str) else json.dumps(spec)` -/
def specJson : Val → Except Raised Text
  | .str s => .ok s
  | spec => dumps h.floatRepr h.interpreter.maxNesting spec

/-- Cheap server-side validation: must parse + have a 'kind'. -/
def validate (specJson : Text) : Except Answer Unit :=
  match loadsStr h.interpreter.maxNesting specJson with
  | .error .jsonDecodeError =>
      .error (.error 400 ("spec is not valid JSON: " ++ h.errorText (.json .jsonDecodeError)))
  | .error e => .error (h.raises (.json e))
  | .ok (.dict parsed) =>
      if ofString "kind" ∈ parsed.map Prod.fst then .ok ()
      else .error (.error 400 "spec must be an object with a \"kind\" field")
  | .ok _ => .error (.error 400 "spec must be an object with a \"kind\" field")

/-- `_handle_save_spec` up to the call of `save_spec`; `body` is what `self.rfile.read(n)` gives. -/
def readBody (body : List UInt8) : Except Answer SpecPost :=
  match loads h.interpreter.maxNesting (if body = [] then [0x7B, 0x7D] else body) with
  | .error e => .error (h.raises (.json e))
  | .ok (.dict items) =>
      let subjobId := getItem items "subjob_id"
      let commitMessage := (getItem items "commit_message").orElse
        (.str (ofString "update " ++ h.interpreter.str subjobId))
      match getItem items "spec" with
      | .null => .error (.error 400 "need subjob_id + spec (dict or JSON string)")
      | spec =>
          if !subjobId.truthy then
            .error (.error 400 "need subjob_id + spec (dict or JSON string)")
          else
            match h.specJson spec with
            | .error e => .error (h.raises (.json e))
            | .ok specJson => (h.validate specJson).map fun _ => ⟨subjobId, specJson, commitMessage⟩
  | .ok _ => .error (h.raises .attribute)

end Helper

/-- A field of a message, as it is sent: in UTF-8. -/
def rosString (t : Text) : Except HelperError String :=
  if ∀ c ∈ t, c < 0xD800 ∨ 0xDFFF < c then .ok (ofText t) else .error .surrogate

/-- The request of `save_spec`. -/
def SpecPost.request (p : SpecPost) : Except HelperError SaveRequest :=
  match p.subjobId, p.commitMessage with
  | .str subjobId, .str commitMessage => do
      let taskId ← rosString subjobId
      let xmlContent ← rosString p.specJson
      let commitMessage ← rosString commitMessage
      return ⟨taskId, xmlContent, commitMessage⟩
  | _, _ => .error .field

/-- What `save_spec` makes of the response. -/
def saveResult (resp : SaveResponse) : Bool × String :=
  if resp.success then (true, if resp.message = "" then "ok" else resp.message)
  else (false, if resp.message = "" then "save failed" else resp.message)

/-- `save_spec` of `DispatchNode`, with the service it finds and the directory of the repository. -/
def DispatchNode.saveSpec (E : Env) (available inTime : Bool) (git : GitEnds) (post : SpecPost)
    (files : Dir) : Except HelperError (Bool × String) × Dir :=
  if !available then (.ok (false, "save_task service unavailable"), files)
  else
    match post.request with
    | .error e => (.error e, files)
    | .ok req =>
        let (resp, files') := saveCb E files req git
        (.ok (if inTime then saveResult resp else (false, "save_task timeout")), files')

/-- `_handle_save_spec` -/
def Helper.handleSaveSpec (h : Helper) (E : Env) (available inTime : Bool) (git : GitEnds)
    (body : List UInt8) (files : Dir) : Answer × Dir :=
  match h.readBody body with
  | .error answer => (answer, files)
  | .ok post =>
      let (result, files') := DispatchNode.saveSpec E available inTime git post files
      match result with
      | .error e => (h.raises e, files')
      | .ok (ok, message) => (.result (if ok then 200 else 500) ok message, files')

/-! ## What the helper saves -/

section Helper

variable {h : Helper} {E : Env} {available inTime : Bool} {git : GitEnds} {body : List UInt8}
  {files : Dir} {items spec : List (Text × Val)}

theorem loads_nil (levels : ℕ) : loads levels [] = .error .jsonDecodeError := by
  cases levels <;> rfl

theorem validate_ok {t : Text} (hcheck : h.validate t = .ok ()) :
    ∃ parsed, loadsStr h.interpreter.maxNesting t = .ok (.dict parsed) ∧
      ofString "kind" ∈ parsed.map Prod.fst := by
  unfold Helper.validate at hcheck
  split at hcheck
  · cases hcheck
  · cases hcheck
  · rename_i parsed hparsed
    split_ifs at hcheck with hkind
    exact ⟨parsed, hparsed, hkind⟩
  · cases hcheck

theorem specJson_cases {spec : Val} {t : Text} (hjson : h.specJson spec = .ok t) :
    spec = .str t ∨ dumps h.floatRepr h.interpreter.maxNesting spec = .ok t := by
  cases spec with
  | str s =>
      cases hjson
      exact Or.inl rfl
  | _ => exact Or.inr hjson

/-- What `_handle_save_spec` passes on of a body. -/
structure Helper.PassesOn (h : Helper) (items : List (Text × Val)) (post : SpecPost) : Prop where
  subjobId : post.subjobId = getItem items "subjob_id"
  named : post.subjobId.truthy = true
  commitMessage : post.commitMessage = (getItem items "commit_message").orElse
    (.str (ofString "update " ++ h.interpreter.str (getItem items "subjob_id")))
  specJson : h.specJson (getItem items "spec") = .ok post.specJson
  valid : h.validate post.specJson = .ok ()

theorem readBody_ok {post : SpecPost}
    (hbody : loads h.interpreter.maxNesting body = .ok (.dict items))
    (hread : h.readBody body = .ok post) : h.PassesOn items post := by
  have hne : body ≠ [] := by
    rintro rfl
    rw [loads_nil] at hbody
    cases hbody
  simp only [Helper.readBody, if_neg hne, hbody] at hread
  split at hread
  · cases hread
  · split_ifs at hread with hnamed
    cases hjson : h.specJson (getItem items "spec") with
    | error e =>
        rw [hjson] at hread
        cases hread
    | ok t =>
        rw [hjson] at hread
        obtain ⟨u, hcheck, rfl⟩ := PyValue.map_ok hread
        exact ⟨rfl, by simpa using hnamed, rfl, hjson, hcheck⟩

theorem validate_error {t : Text} {answer : Answer} (hcheck : h.validate t = .error answer) :
    ∃ code message, answer = .error code message := by
  unfold Helper.validate at hcheck
  split at hcheck
  · cases hcheck
    exact ⟨_, _, rfl⟩
  · cases hcheck
    exact ⟨_, _, rfl⟩
  · split_ifs at hcheck
    cases hcheck
    exact ⟨_, _, rfl⟩
  · cases hcheck
    exact ⟨_, _, rfl⟩

/-- Before the call of `save_spec` the helper answers with errors only. -/
theorem readBody_error {answer : Answer} (hread : h.readBody body = .error answer) :
    ∃ code message, answer = .error code message := by
  unfold Helper.readBody at hread
  split at hread
  · cases hread
    exact ⟨_, _, rfl⟩
  · dsimp only at hread
    split at hread
    · cases hread
      exact ⟨_, _, rfl⟩
    · split_ifs at hread
      · cases hread
        exact ⟨_, _, rfl⟩
      · split at hread
        · cases hread
          exact ⟨_, _, rfl⟩
        · rename_i specJson _
          cases hcheck : h.validate specJson with
          | error answer' =>
              rw [hcheck] at hread
              cases hread
              exact validate_error hcheck
          | ok u =>
              rw [hcheck] at hread
              cases hread
  · cases hread
    exact ⟨_, _, rfl⟩

theorem rosString_ok {t : Text} {s : String} (ht : IsText t) (hs : rosString t = .ok s) :
    ofString s = t := by
  unfold rosString at hs
  split_ifs at hs with hvalid
  cases hs
  exact ofString_ofText fun c hc => (hvalid c hc).imp_right fun hlt => ⟨hlt, ht c hc⟩

theorem ofText_append (s t : Text) : ofText (s ++ t) = ofText s ++ ofText t := by
  rw [ofText, List.map_append, String.ofList_append]
  rfl

theorem ofText_ofString (s : String) : ofText (ofString s) = s := by
  have hchars : (ofString s).map Char.ofNat = s.toList := by
    rw [ofString, List.map_map]
    exact (List.map_congr_left fun c _ => Char.ofNat_toNat c).trans (List.map_id' _)
  rw [ofText, hchars, String.ofList_toList]

theorem rosString_ofString (s : String) : rosString (ofString s) = .ok s := by
  have hvalid : ∀ c ∈ ofString s, c < 0xD800 ∨ 0xDFFF < c := by
    intro c hc
    obtain ⟨d, -, rfl⟩ := List.mem_map.mp hc
    exact (Rcs.toNat_valid d).imp_right And.left
  rw [rosString, if_pos hvalid, ofText_ofString]

theorem request_ok {post : SpecPost} {req : SaveRequest} (hreq : post.request = .ok req) :
    ∃ subjobId commitMessage, post.subjobId = .str subjobId ∧
      post.commitMessage = .str commitMessage ∧ rosString subjobId = .ok req.taskId ∧
      rosString post.specJson = .ok req.xmlContent ∧
      rosString commitMessage = .ok req.commitMessage := by
  unfold SpecPost.request at hreq
  split at hreq
  · rename_i subjobId commitMessage hid hcommit
    obtain ⟨taskId, htask, hreq⟩ := bind_ok_iff.mp hreq
    obtain ⟨xmlContent, hcontent, hreq⟩ := bind_ok_iff.mp hreq
    obtain ⟨commit, hmessage, hreq⟩ := bind_ok_iff.mp hreq
    cases hreq
    exact ⟨subjobId, commitMessage, hid, hcommit, htask, hcontent, hmessage⟩
  · cases hreq

/-- A success is reported after `save_task` has succeeded. -/
theorem saveSpec_ok {post : SpecPost} {message : String}
    (hok : (DispatchNode.saveSpec E available inTime git post files).1 = .ok (true, message)) :
    ∃ req, post.request = .ok req ∧ succeeds E req git ∧
      (DispatchNode.saveSpec E available inTime git post files).2 = (saveCb E files req git).2 := by
  unfold DispatchNode.saveSpec at hok ⊢
  cases available with
  | false => cases hok
  | true =>
      cases hreq : post.request with
      | error e =>
          simp only [hreq] at hok
          cases hok
      | ok req =>
          simp only [hreq] at hok ⊢
          refine ⟨req, rfl, ?_, rfl⟩
          rw [← saveCb_success files]
          cases inTime with
          | false => cases hok
          | true =>
              by_contra hfail
              simp only [saveResult, if_neg hfail] at hok
              cases hok

theorem handleSaveSpec_ok {message : String}
    (hok : (h.handleSaveSpec E available inTime git body files).1 = .result 200 true message) :
    ∃ post req, h.readBody body = .ok post ∧ post.request = .ok req ∧ succeeds E req git ∧
      (h.handleSaveSpec E available inTime git body files).2 = (saveCb E files req git).2 := by
  unfold Helper.handleSaveSpec at hok ⊢
  cases hread : h.readBody body with
  | error answer =>
      obtain ⟨code, message', rfl⟩ := readBody_error hread
      rw [hread] at hok
      cases hok
  | ok post =>
      simp only [hread] at hok ⊢
      cases hsave : (DispatchNode.saveSpec E available inTime git post files).1 with
      | error e =>
          simp only [hsave] at hok
          cases hok
      | ok result =>
          obtain ⟨ok, message'⟩ := result
          simp only [hsave, Answer.result.injEq] at hok ⊢
          obtain ⟨-, rfl, rfl⟩ := hok
          obtain ⟨req, hreq, hsucceeds, hfiles⟩ := saveSpec_ok hsave
          exact ⟨post, req, rfl, hreq, hsucceeds, hfiles⟩

end Helper

/-! ## The spec as a value -/

/-- The number that a float stands for. The infinities and `nan` are no values of the loader. -/
def number : Double → ℚ
  | .finite negative magnitude => if negative then -magnitude else magnitude
  | _ => 0

mutual

/-- A value as the loader takes it. -/
def specValue : Val → PyValue.Val
  | .null => .null
  | .bool b => .key (.bool b)
  | .int n => .key (.num n)
  | .float x => .key (.num (number x))
  | .str s => .str (ofText s)
  | .list xs => .list (specList xs)
  | .dict items => .dict (specItems items)

def specList : List Val → List PyValue.Val
  | [] => []
  | v :: xs => specValue v :: specList xs

def specItems : List (Text × Val) → PyValue.Dict
  | [] => []
  | (key, v) :: items => (.str (ofText key), specValue v) :: specItems items

end

section Value

variable {h : Helper} {body : List UInt8} {items : List (Text × Val)} {post : SpecPost}
  {req : SaveRequest}

theorem loadsStr_dumps {repr : Double → Text} {levels : ℕ} {v : Val} {t : Text}
    (hfloats : v.All (FloatReadsBack repr)) (hdumps : dumps repr levels v = .ok t) (levels' : ℕ) :
    loadsStr levels' t = decodeText levels' t := by
  have hhead : t.head? ≠ some 0xFEFF := by
    intro hhead
    have hlt := (printable_dumps hfloats hdumps).isAscii _ (List.mem_of_mem_head? hhead)
    exact absurd hlt (by decide)
  rw [loadsStr, if_neg hhead]

/-- The text of the message is the text of the spec. -/
theorem rosString_content {t : Text} {s : String} (hs : rosString t = .ok s) : s = ofText t := by
  unfold rosString at hs
  split_ifs at hs
  exact (Except.ok.inj hs).symm

/-- A text, given by what `json.loads` makes of it. -/
def textValue (levels : ℕ) (s : String) : Option PyValue.Val :=
  (loadsStr levels (ofString s)).toOption.map specValue

theorem isSpec_specItems {items : List (Text × Val)}
    (hkind : ofString "kind" ∈ items.map Prod.fst) : isSpec (.dict (specItems items)) = true := by
  induction items with
  | nil => cases hkind
  | cons e items ih =>
      obtain ⟨key, v⟩ := e
      show ((PyValue.Key.str (ofText key)).same (.str "kind") || isSpec (.dict (specItems items))) =
        true
      rw [Bool.or_eq_true]
      cases List.mem_cons.mp hkind with
      | inl hkey =>
          subst hkey
          exact Or.inl (by decide)
      | inr hrest => exact Or.inr (ih hrest)

/-- **The text that is passed on is the value that is passed on.** -/
theorem handleSaveSpec_specValue
    (hbody : loads h.interpreter.maxNesting body = .ok (.dict items))
    (hread : h.readBody body = .ok post) (hreq : post.request = .ok req)
    (hfloats : (getItem items "spec").All (FloatReadsBack h.floatRepr))
    (hclean : (getItem items "spec").All Clean) :
    handleSaveSpec (textValue h.interpreter.maxNesting) (specValue (getItem items "spec")) =
      textValue h.interpreter.maxNesting req.xmlContent := by
  have hpasses := readBody_ok hbody hread
  obtain ⟨subjobId, commitMessage, -, -, -, hcontent, -⟩ := request_ok hreq
  obtain ⟨parsed, hparsed, hkind⟩ := validate_ok hpasses.valid
  have hover := Rcs.Orders.all_getItem "spec" trivial (all_over_of_loads hbody)
  -- what is read of a text, and of the text of a dict
  have hvalue (htext : IsText post.specJson) :
      textValue h.interpreter.maxNesting req.xmlContent = some (.dict (specItems parsed)) := by
    rw [textValue, rosString_ok htext hcontent, hparsed]
    rfl
  have hspec : isSpec (.dict (specItems parsed)) = true := isSpec_specItems hkind
  cases specJson_cases hpasses.specJson with
  | inl hstr =>
      rw [hstr] at hover
      rw [hstr, hvalue hover]
      show (textValue _ (ofText post.specJson)).filter isSpec = _
      rw [← rosString_content hcontent, hvalue hover, Option.filter_some, if_pos hspec]
  | inr hdumps =>
      have hprintable := printable_dumps hfloats hdumps
      have hsame : getItem items "spec" = .dict parsed := by
        have hclean' := (decodeText_dumps_iff (hover.sound hfloats) hdumps (le_refl _)).mpr hclean
        rw [loadsStr_dumps hfloats hdumps, hclean'] at hparsed
        exact Except.ok.inj hparsed
      rw [hsame, hvalue fun c hc => (hprintable.isAscii c hc).trans (by decide)]
      show (some (PyValue.Val.dict (specItems parsed))).filter isSpec = _
      rw [Option.filter_some, if_pos hspec]

end Value

/-! ## The id -/

section Id

variable {h : Helper} {E : Env} {available inTime : Bool} {git : GitEnds} {body : List UInt8}
  {files : Dir} {items : List (Text × Val)} {commitMessage : String}

/-- The id of the request is the id in the body. -/
theorem subjobId_eq {post : SpecPost} {req : SaveRequest}
    (hbody : loads h.interpreter.maxNesting body = .ok (.dict items))
    (hread : h.readBody body = .ok post) (hreq : post.request = .ok req) :
    getItem items "subjob_id" = .str (ofString req.taskId) := by
  obtain ⟨subjobId, -, hid, -, htask, -⟩ := request_ok hreq
  rw [(readBody_ok hbody hread).subjobId] at hid
  have htext : IsText subjobId := by
    have hall := Rcs.Orders.all_getItem "subjob_id" trivial (all_over_of_loads hbody)
    rw [hid] at hall
    exact hall
  rw [hid, rosString_ok htext htask]

/-- The request for a body with a text as its commit message, as the editor sends it. -/
theorem readBody_request {post : SpecPost} {req : SaveRequest}
    (hbody : loads h.interpreter.maxNesting body = .ok (.dict items))
    (hcommit : getItem items "commit_message" = .str (ofString commitMessage))
    (hread : h.readBody body = .ok post) (hreq : post.request = .ok req) :
    req = saveTaskRequest req.taskId req.xmlContent commitMessage := by
  have hpasses := readBody_ok hbody hread
  obtain ⟨subjobId, commit, hid, hcommit', htask, -, hmessage⟩ := request_ok hreq
  rw [hpasses.subjobId] at hid
  rw [hpasses.commitMessage, hcommit, hid] at hcommit'
  have hsent : req.commitMessage =
      if commitMessage = "" then "update " ++ req.taskId else commitMessage := by
    split_ifs with hempty
    · subst hempty
      obtain rfl : ofString "update " ++ subjobId = commit := Val.str.inj hcommit'
      rw [rosString_content hmessage, rosString_content htask]
      exact ofText_append _ _
    · have hne : ofString commitMessage ≠ [] := by simpa [ofString] using hempty
      rw [Val.orElse, Val.truthy, if_pos (decide_eq_true hne)] at hcommit'
      obtain rfl : ofString commitMessage = commit := Val.str.inj hcommit'
      rw [rosString_ofString] at hmessage
      exact (Except.ok.inj hmessage).symm
  rw [saveTaskRequest, ← hsent]

/-- **What the helper reports as saved is saved from the editor.** -/
theorem savedFromEditor_of_ok {message : String}
    (hbody : loads h.interpreter.maxNesting body = .ok (.dict items))
    (hcommit : getItem items "commit_message" = .str (ofString commitMessage))
    (hok : (h.handleSaveSpec E available inTime git body files).1 = .result 200 true message) :
    ∃ id, getItem items "subjob_id" = .str (ofString id) ∧ SavedFromEditor E id := by
  obtain ⟨post, req, hread, hreq, hsucceeds, -⟩ := handleSaveSpec_ok hok
  have hid := subjobId_eq hbody hread hreq
  refine ⟨req.taskId, hid, ?_, req.xmlContent, commitMessage, files, git, ?_⟩
  · intro hempty
    have hpasses := readBody_ok hbody hread
    have hnamed := hpasses.named
    rw [hpasses.subjobId, hid, hempty] at hnamed
    cases hnamed
  · rw [← readBody_request hbody hcommit hread hreq]
    exact (saveCb_success files).mpr hsucceeds

end Id

end RobotTaskManager.WebGui
