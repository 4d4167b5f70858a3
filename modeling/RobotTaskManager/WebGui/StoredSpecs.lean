import RobotTaskManager.Executor.Subjob
import RobotTaskManager.Spec.RoundTrip
import RobotTaskManager.WebGui.SaveSpec

set_option autoImplicit false

/-! # A posted spec and the SubJob of the executor

The dispatch helper passes a posted spec on to `save_task`; later the executor asks `load_task` for
it, reads it and builds a SubJob of it. In between, the services of the repository are called in any
order.

Once the helper has reported success, the SubJob is the one that `build_from_spec` makes of the
posted spec, until another save of the id comes as far as its file (`posted_spec_built`).
-/

namespace RobotTaskManager.WebGui

open PyText PyJson TaskRepository
open Executor (Builder LoadTask buildSubjob_of_text)
open Rcs (ofText ofString_ofText isValidChar_of_isAscii)
open Rcs.Orders (loadsStr)

/-! ## The file of an id -/

section File

variable {E : Env} {files : Dir} {req : SaveRequest} {git : GitEnds} {name id : String}

/-- No save of the id comes as far as its file. -/
def FileKept (E : Env) (id : String) (calls : List Call) : Prop :=
  ∀ req git, Call.save req git ∈ calls → req.taskId = id → ∃ e, openSaved E req = .error e

theorem lookup_afterCall {c : Call} (hc : FileKept E id [c]) :
    (afterCall E files c).lookup (id ++ ".json") = files.lookup (id ++ ".json") := by
  cases c with
  | load taskId => rfl
  | list => rfl
  | save req git =>
      show (saveCb E files req git).2.lookup _ = _
      cases hopen : openSaved E req with
      | error e => rw [saveCb_error hopen]
      | ok name =>
          rw [saveCb_ok hopen]
          refine lookup_writeText_ne _ fun hname => ?_
          rw [(openSaved_ok hopen).1] at hname
          obtain ⟨e, he⟩ := hc req git (List.mem_singleton_self _) (append_json_inj hname).symm
          cases he.symm.trans hopen

theorem lookup_calls {calls : List Call} (hcalls : FileKept E id calls) :
    (calls.foldl (afterCall E) files).lookup (id ++ ".json") = files.lookup (id ++ ".json") := by
  induction calls generalizing files with
  | nil => rfl
  | cons c calls ih =>
      have hc : FileKept E id [c] := fun req git hmem =>
        hcalls req git (List.mem_cons.mpr (Or.inl (List.mem_singleton.mp hmem)))
      rw [List.foldl_cons, ih fun req git hmem => hcalls req git (List.mem_cons_of_mem c hmem)]
      exact lookup_afterCall hc

/-- `load_task` finds the file of an id that has been saved. -/
theorem loadCb_of_lookup {text : String} (hopen : openSaved E req = .ok name)
    (hlookup : files.lookup (req.taskId ++ ".json") = some text) :
    loadCb E files req.taskId = ⟨true, readText text, "ok"⟩ := by
  obtain ⟨rfl, hid, hplatform⟩ := openSaved_ok hopen
  have hstat := E.platform.openError_of_stat _ hplatform
  have hpath : loadPath E files req.taskId = .ok (some (req.taskId ++ ".json")) := by
    unfold loadPath
    rw [hid]
    show firstExisting E files (supportedSuffixes.map (req.taskId ++ ·)) = _
    rw [supportedSuffixes, List.map_cons, firstExisting]
    simp only [hstat, hlookup]
    rfl
  simp only [loadCb, hpath, hlookup]
  rfl

end File

/-! ## What the executor builds -/

/-- What `load_task` of the repository brings the executor. -/
def loadTask (E : Env) (files : Dir) : LoadTask := ⟨true, fun id => some (some (loadCb E files id))⟩

/-- A printable text has no carriage return. -/
theorem readText_ofText {t : Text} (ht : IsPrintable t) : readText (ofText t) = ofText t := by
  rw [readText_eq_iff, ofText, String.toList_ofList]
  intro hmem
  obtain ⟨c, hc, heq⟩ := List.mem_map.mp hmem
  have hvalid := isValidChar_of_isAscii ht.isAscii c hc
  have hvalue : c = 13 := by
    have hnat := congrArg Char.toNat heq
    rw [Char.ofNat, dif_pos hvalid] at hnat
    exact hnat
  exact absurd (ht c hc).1 (by rw [hvalue]; decide)

/-- **A posted spec is what the SubJob is built of.** After `POST /specs` has reported that a spec,
a dict, is saved, and before another save of the id gets as far as its file, the executor without a
class of that id builds its SubJob of this spec, with surrogates joined, unless fewer lists and
dicts can be open there than in the helper; and that is the spec itself exactly if there are no
surrogates to be joined. -/
theorem posted_spec_built {h : Helper} {E : Env} {available inTime : Bool} {git : GitEnds}
    {body : List UInt8} {files : Dir} {items spec : List (Text × Val)} {message : String}
    (hbody : loads h.interpreter.maxNesting body = .ok (.dict items))
    (hspec : getItem items "spec" = .dict spec)
    (hfloats : (Val.dict spec).All (FloatReadsBack h.floatRepr))
    (hok : (h.handleSaveSpec E available inTime git body files).1 = .result 200 true message) :
    ∃ id, getItem items "subjob_id" = .str (ofString id) ∧
      (∀ calls, FileKept E id calls → ∀ {B M : Type} (b : Builder B M), b.registry id = none →
        b.buildSubjob (loadTask E (calls.foldl (afterCall E)
            (h.handleSaveSpec E available inTime git body files).2)) id =
          b.fromSpec id (Val.dict spec).rejoin ∨
        b.levels < h.interpreter.maxNesting ∧ ∃ e,
          b.buildSubjob (loadTask E (calls.foldl (afterCall E)
            (h.handleSaveSpec E available inTime git body files).2)) id = .error (.json e)) ∧
      ((Val.dict spec).rejoin = .dict spec ↔ (Val.dict spec).All Clean) := by
  obtain ⟨post, req, hread, hreq, ⟨name, hopen, hgit⟩, hfiles⟩ := handleSaveSpec_ok hok
  obtain ⟨-, -, -, -, -, hrosContent, -⟩ := request_ok hreq
  have hdumps : dumps h.floatRepr h.interpreter.maxNesting (.dict spec) = .ok post.specJson := by
    have hjson := (readBody_ok hbody hread).specJson
    rw [hspec] at hjson
    exact hjson
  have hprintable := printable_dumps hfloats hdumps
  have hsound : (Val.dict spec).All (Sound h.floatRepr) :=
    (hspec ▸ Rcs.Orders.all_getItem "spec" trivial (all_over_of_loads hbody)).sound hfloats
  refine ⟨req.taskId, subjobId_eq hbody hread hreq, fun calls hcalls B M b hb => ?_,
    (Val.dict spec).rejoin_eq_iff⟩
  -- the text in the file, and what is read of it
  have hcontent := rosString_content hrosContent
  have hlookup : (calls.foldl (afterCall E) (saveCb E files req git).2).lookup
      (req.taskId ++ ".json") = some req.xmlContent := by
    rw [lookup_calls hcalls, saveCb_ok hopen, ← (openSaved_ok hopen).1]
    exact lookup_writeText_self _
  have hload := loadCb_of_lookup hopen hlookup
  rw [hcontent, readText_ofText hprintable] at hload
  have hreply : (loadTask E (calls.foldl (afterCall E) (saveCb E files req git).2)).reply
      req.taskId = some (some _) := congrArg (some ∘ some) hload
  have hbuild := buildSubjob_of_text hb rfl hreply
  rw [ofString_ofText (isValidChar_of_isAscii hprintable.isAscii),
    loadsStr_dumps hfloats hdumps] at hbuild
  rw [hfiles, hbuild]
  by_cases hlevels : h.interpreter.maxNesting ≤ b.levels
  · left
    rw [decodeText_dumps hsound hdumps hlevels]
  · cases decodeText_dumps_or_aborts hsound hdumps b.levels with
    | inl hread =>
        left
        rw [hread]
    | inr haborts =>
        obtain ⟨e, he, hne⟩ := haborts
        refine Or.inr ⟨not_le.mp hlevels, e, ?_⟩
        rw [he]
        cases e with
        | jsonDecodeError => exact absurd rfl hne
        | _ => rfl

/-! ## `build_from_spec` -/

/-- The executor with the loader, for classes whose instances are no `BehaviorSM`s. -/
def specBuilder {ν L : Type} (registry : Spec.Registry ν L) (node : ν) (leafName : L → String)
    (levels : ℕ) : Builder Spec.PyExc (Spec.Obj L) where
  registry _ := none
  buildFromSpec spec := Spec.buildFromSpec registry (some node) (specValue spec)
  className
    | .leaf x => leafName x
    | .machine m _ => m.className
    | .parallel _ _ _ => "Parallel"
    | .retry _ _ _ => "RetryDecorator"
  isBehaviorSM
    | .machine ⟨_, .behaviorSM _, _, _, _⟩ _ => true
    | _ => false
  levels := levels

/-- A machine with a child that is made with a float. -/
def goSpec : List (Text × Val) :=
  [(ofString "kind", .str (ofString "BehaviorSM")),
    (ofString "children", .dict [(ofString "Go", .dict
      [(ofString "kind", .str (ofString "State")), (ofString "ref", .str (ofString "Tag")),
        (ofString "args", .dict [(ofString "tag", .float Rcs.Orders.half)])])])]

def goText : Text :=
  ofString "\x7b\"kind\": \"BehaviorSM\", \"children\": \x7b\"Go\": \x7b\"kind\": \"State\", " ++
    ofString "\"ref\": \"Tag\", \"args\": \x7b\"tag\": 0.5\x7d\x7d\x7d\x7d"

def goPost : List (Text × Val) :=
  [(ofString "subjob_id", .str (ofString "P")), (ofString "spec", .dict goSpec),
    (ofString "commit_message", .str [])]

def goPostText : Text :=
  ofString "\x7b\"subjob_id\": \"P\", \"spec\": " ++ goText ++
    ofString ", \"commit_message\": \"\"\x7d"

def goBody : List UInt8 := goPostText.map UInt8.ofNat

def goHelper : Helper :=
  ⟨⟨fun _ => [], fun _ => false, fun _ => none, 5, by decide⟩, Rcs.Orders.halvesRepr, fun _ => ""⟩

theorem clean_goPost : (Val.dict goPost).All Clean := by
  have hunpaired : ∀ t ∈ ["subjob_id", "P", "spec", "kind", "BehaviorSM", "children", "Go", "State",
      "ref", "Tag", "args", "tag", "commit_message"], Unpaired (ofString t) := by
    simp only [← rejoin_eq_iff]
    decide
  simp only [List.forall_mem_cons] at hunpaired
  have hempty : Unpaired [] := trivial
  simp only [goPost, goSpec, Val.All, Val.AllItems, Clean, Val.Over, and_true, List.forall_mem_cons]
  simp [hunpaired, hempty]
  decide

theorem sound_goPost : (Val.dict goPost).All (Sound Rcs.Orders.halvesRepr) := by
  simp only [goPost, goSpec, Val.All, Val.AllItems, Sound, Rcs.Orders.readsBack_half, and_true]
  decide

theorem floats_goPost : (Val.dict goPost).All (FloatReadsBack goHelper.floatRepr) := by
  simp only [goPost, goSpec, goHelper, Val.All, Val.AllItems, FloatReadsBack,
    Rcs.Orders.readsBack_half, and_true]

theorem dumps_goSpec : dumps Rcs.Orders.halvesRepr 5 (.dict goSpec) = .ok goText := by
  decide +kernel

theorem loads_goBody : loads 5 goBody = .ok (.dict goPost) := by
  have hdecode : decode (detectEncoding goBody) goBody = some goPostText := by
    decide +kernel
  have hdumps : dumps Rcs.Orders.halvesRepr 5 (.dict goPost) = .ok goPostText := by
    decide +kernel
  rw [loads, hdecode]
  exact (decodeText_dumps_iff sound_goPost hdumps (le_refl 5)).mpr clean_goPost

theorem validate_goText : goHelper.validate goText = .ok () := by
  have hread : loadsStr goHelper.interpreter.maxNesting goText = .ok (.dict goSpec) :=
    (loadsStr_dumps (Rcs.Orders.all_getItem "spec" trivial floats_goPost) dumps_goSpec 5).trans
      ((decodeText_dumps_iff (Rcs.Orders.all_getItem "spec" trivial sound_goPost) dumps_goSpec
        (le_refl 5)).mpr (Rcs.Orders.all_getItem "spec" trivial clean_goPost))
  have hkind : ofString "kind" ∈ goSpec.map Prod.fst := List.mem_cons_self
  rw [Helper.validate, hread]
  exact if_pos hkind

theorem readBody_goBody : goHelper.readBody goBody =
    .ok ⟨.str (ofString "P"), goText, .str (ofString "update P")⟩ := by
  have hne : goBody ≠ [] := by decide
  have hloads : loads goHelper.interpreter.maxNesting goBody = .ok (.dict goPost) := loads_goBody
  have hspec : getItem goPost "spec" = .dict goSpec := rfl
  have hid : getItem goPost "subjob_id" = .str (ofString "P") := rfl
  have htruthy : (!(Val.str (ofString "P")).truthy) = false := rfl
  have hcommit : getItem goPost "commit_message" = .str [] := rfl
  have hjson : goHelper.specJson (.dict goSpec) = .ok goText := dumps_goSpec
  have hupdate : ofString "update " ++ ofString "P" = ofString "update P" := by decide
  rw [Helper.readBody, if_neg hne, hloads]
  simp only [hspec, hid, hcommit, htruthy, hjson, validate_goText]
  rw [if_neg Bool.false_ne_true]
  show Except.ok (SpecPost.mk _ _ (.str (ofString "update " ++ ofString "P"))) = _
  rw [hupdate]

theorem goPost_saved : (goHelper.handleSaveSpec machines true true ⟨none, none⟩ goBody []).1 =
    .result 200 true "saved" := by
  have hcontent : rosString goText = .ok (ofText goText) := rfl
  have hreq : SpecPost.request ⟨.str (ofString "P"), goText, .str (ofString "update P")⟩ =
      .ok ⟨"P", ofText goText, "update P"⟩ := by
    simp only [SpecPost.request, rosString_ofString, hcontent]
    rfl
  have hsave : (saveCb machines [] ⟨"P", ofText goText, "update P"⟩ ⟨none, none⟩).1 =
      ⟨true, "saved"⟩ := by decide
  rw [Helper.handleSaveSpec, readBody_goBody]
  simp only [DispatchNode.saveSpec, hreq, hsave]
  rfl

def goMachine : Spec.Obj Spec.Tag :=
  .machine ⟨"BehaviorSM", .behaviorSM [], [.str "done", .str "failed"], [(.str "Go", [])],
      .str "Go"⟩
    [(.str "Go", .leaf ⟨.key (.num (1 / 2))⟩)]

theorem build_goSpec :
    Spec.buildFromSpec Spec.tags (some ()) (specValue (.dict goSpec)) = .ok goMachine := by
  have hleaf : Spec.buildFromSpec Spec.tags (some ()) (.dict [(.str "kind", .str "State"),
      (.str "ref", .str "Tag"), (.str "args", .dict [(.str "tag", .key (.num (1 / 2)))])]) =
        .ok (.leaf ⟨.key (.num (1 / 2))⟩) := by
    rw [Spec.buildFromSpec]
    rfl
  have hvalue : specValue (.dict goSpec) = .dict [(.str "kind", .str "BehaviorSM"),
      (.str "children", .dict [(.str "Go", .dict [(.str "kind", .str "State"),
        (.str "ref", .str "Tag"),
        (.str "args", .dict [(.str "tag", .key (.num (1 / 2)))])])])] := by
    simp [goSpec, specValue, specItems, ofText_ofString, number, Rcs.Orders.half]
  rw [hvalue]
  -- `simp` would write `1 / 2` in another way
  generalize PyValue.Val.dict [(.str "kind", .str "State"), (.str "ref", .str "Tag"),
    (.str "args", .dict [(.str "tag", .key (.num (1 / 2)))])] = leafSpec at hleaf ⊢
  rw [goMachine]
  generalize Spec.Tag.mk (.key (.num (1 / 2))) = leaf at hleaf ⊢
  simp [Spec.buildFromSpec, Spec.specKind, PyValue.item, PyValue.Val.isStr, Spec.emptyBehaviorSM,
    Spec.machineOutcomes, PyValue.orElse, PyValue.Val.truthy, PyValue.Val.iter,
    Spec.attachChildren, Spec.attachAll, Spec.attach_cons, Spec.attach_nil, hleaf,
    Spec.MachineInfo.add, PyValue.Val.getD, PyValue.hasKey, PyValue.Val.toDict]
  rfl

/-- After other calls of the services the posted machine is built. -/
theorem goPost_built : ∃ id, getItem goPost "subjob_id" = .str (ofString id) ∧
    (specBuilder Spec.tags () (fun _ => "Tag") 5).buildSubjob (loadTask machines
        ([.list, .load "P"].foldl (afterCall machines)
          (goHelper.handleSaveSpec machines true true ⟨none, none⟩ goBody []).2)) id =
      .ok goMachine := by
  have hbody : loads goHelper.interpreter.maxNesting goBody = .ok (.dict goPost) := loads_goBody
  have hspec : getItem goPost "spec" = .dict goSpec := rfl
  have hfloats := Rcs.Orders.all_getItem "spec" trivial floats_goPost
  have hclean := Rcs.Orders.all_getItem "spec" trivial clean_goPost
  have hlevels : ¬ 5 < goHelper.interpreter.maxNesting := lt_irrefl 5
  have hkept (id : String) : FileKept machines id [.list, .load "P"] := by simp [FileKept]
  obtain ⟨id, hid, hbuilt, hrejoin⟩ := posted_spec_built hbody hspec hfloats goPost_saved
  refine ⟨id, hid, ?_⟩
  have hone := hbuilt _ (hkept id) (specBuilder Spec.tags () (fun _ => "Tag") 5) rfl
  rw [hrejoin.mpr hclean] at hone
  have hmade : (specBuilder Spec.tags () (fun _ => "Tag") 5).buildFromSpec (.dict goSpec) =
      .ok goMachine := build_goSpec
  refine (hone.resolve_right fun h => hlevels h.1).trans ?_
  rw [Builder.fromSpec, hmade]
  rfl

end RobotTaskManager.WebGui
