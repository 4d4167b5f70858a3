import RobotTaskManager.Rcs.Attribution
import RobotTaskManager.Rcs.Orders

set_option autoImplicit false

/-! # The userdata of a running goal

A snapshot of the bridge that says `running` shows one goal: its SubJob, and the dict that the
executor has read from its `userdata_in_json`, whatever other goals there have been and wherever
status messages have been held up on their way (`running_shows_goal`). `json` is the module of both
nodes here, as `json.loads` and `json.dumps` are modelled in the library.
-/

namespace RobotTaskManager.Rcs

open Interleaving Executor PyText PyJson

/-! ## `json` -/

/-- An ASCII text as a string. -/
def ofText (t : Text) : String := String.ofList (t.map Char.ofNat)

def raisedName : Raised → String
  | .unicodeDecodeError => "UnicodeDecodeError"
  | .jsonDecodeError => "JSONDecodeError"
  | .valueError => "ValueError"
  | .recursionError => "RecursionError"

/-- What `json.loads` gives, as the nodes tell it apart. -/
def loadsResult : Except Raised Val → Loads (List (Text × Val))
  | .ok (.dict items) => .dict items
  | .ok _ => .other
  | .error .jsonDecodeError => .decodeError
  | .error e => .raises (raisedName e)

/-- The module `json`, when so many lists and dicts can be open at once. -/
def json (repr : Double → Text) (levels : ℕ) : JsonModule (List (Text × Val)) where
  loads s := loadsResult (Orders.loadsStr levels (ofString s))
  dumps d := ofText ((dumps repr levels (.dict d)).toOption.getD [])
  empty := []

theorem ofString_eq_nil_iff (s : String) : ofString s = [] ↔ s = "" := by
  rw [ofString, List.map_eq_nil_iff, String.toList_eq_nil_iff]

/-- `_safe_json_loads` of the executor is the one that the dicts of an order go through. -/
theorem safeJsonLoads_json (repr : Double → Text) (levels : ℕ) (s : String) :
    safeJsonLoads (json repr levels) s =
      (Orders.safeJsonLoads levels (ofString s)).mapError raisedName := by
  unfold safeJsonLoads Orders.safeJsonLoads
  rw [← ofString_strip]
  by_cases hempty : strip s = ""
  · rw [if_pos hempty, if_pos ((ofString_eq_nil_iff _).mpr hempty)]
    rfl
  · rw [if_neg hempty, if_neg fun h => hempty ((ofString_eq_nil_iff _).mp h), json]
    dsimp only
    cases Orders.loadsStr levels (ofString (strip s)) with
    | ok v => cases v <;> rfl
    | error e => cases e <;> rfl

theorem ofString_ofText {t : Text} (ht : ∀ c ∈ t, c.isValidChar) : ofString (ofText t) = t := by
  have hchar : ∀ c ∈ t, (Char.ofNat c).toNat = c := by
    intro c hc
    rw [Char.ofNat, dif_pos (ht c hc)]
    rfl
  rw [ofText, ofString_ofList, List.map_map]
  exact (List.map_congr_left hchar).trans (List.map_id' t)

theorem isValidChar_of_isAscii {t : Text} (ht : IsAscii t) : ∀ c ∈ t, c.isValidChar :=
  fun c hc => Or.inl ((ht c hc).trans (by decide))

theorem toNat_valid (c : Char) : c.toNat < 0xD800 ∨ 0xDFFF < c.toNat ∧ c.toNat < 0x110000 :=
  c.valid

/-- There are no surrogates in a string. -/
theorem noSurrogate_ofString (s : String) : ∀ c ∈ ofString s, NoSurrogate c := by
  intro c hc
  obtain ⟨d, -, rfl⟩ := List.mem_map.mp hc
  have hvalid := toNat_valid d
  simp only [NoSurrogate, isHighSurrogate, isLowSurrogate, Bool.and_eq_false_iff,
    decide_eq_false_iff_not]
  omega

theorem isText_ofString (s : String) : IsText (ofString s) := by
  intro c hc
  obtain ⟨d, -, rfl⟩ := List.mem_map.mp hc
  have hvalid := toNat_valid d
  omega

/-! ## What was read is shown -/

section Shown

variable {repr : Double → Text} {levels : ℕ} {s : String} {d : List (Text × Val)}

/-- A dict that is not the empty one was read by `json.loads`. -/
theorem decodeText_of_safeJsonLoads (h : safeJsonLoads (json repr levels) s = .ok d) (hd : d ≠ []) :
    decodeText levels (ofString (strip s)) = .ok (.dict d) := by
  rw [safeJsonLoads_json] at h
  unfold Orders.safeJsonLoads at h
  rw [← ofString_strip] at h
  split_ifs at h with hempty
  · cases h
    exact absurd rfl hd
  · unfold Orders.loadsStr at h
    split_ifs at h with hmark
    · cases h
      exact absurd rfl hd
    · cases hdecode : decodeText levels (ofString (strip s)) with
      | ok v =>
          rw [hdecode] at h
          cases v with
          | dict items =>
              cases h
              rfl
          | _ =>
              cases h
              exact absurd rfl hd
      | error e =>
          rw [hdecode] at h
          cases e with
          | jsonDecodeError =>
              cases h
              exact absurd rfl hd
          | _ => cases h

/-- A dict that the executor has read is clean, and it can be written. -/
theorem read_dict (h : safeJsonLoads (json repr levels) s = .ok d)
    (hfloats : (Val.dict d).All (FloatReadsBack repr)) (hlevels : levels ≠ 0 ∨ d ≠ []) :
    (∃ t, dumps repr levels (.dict d) = .ok t) ∧ (Val.dict d).All Clean ∧
      (Val.dict d).All (Sound repr) := by
  by_cases hd : d = []
  · subst hd
    obtain ⟨l, rfl⟩ := Nat.exists_eq_succ_of_ne_zero (hlevels.resolve_right fun h => h rfl)
    exact ⟨⟨_, by rw [dumps]; rfl⟩, ⟨⟨List.nodup_nil, by simp⟩, trivial⟩,
      ⟨by simp [Sound], trivial⟩⟩
  · have hdecode := decodeText_of_safeJsonLoads h hd
    have hclean := all_clean_of_decodeText (noSurrogate_ofString _) hdecode
    have hover := decodeText_over (isText_ofString _) scanString_isText hdecode
    exact ⟨writable_of_decodeText hdecode, hclean, hover.sound hfloats⟩

/-- **The bridge shows the dict that the executor has read.** -/
theorem snapshotUserdata_dumps (h : safeJsonLoads (json repr levels) s = .ok d)
    (hfloats : (Val.dict d).All (FloatReadsBack repr)) :
    snapshotUserdata (json repr levels) ((json repr levels).dumps d) = d := by
  by_cases hlevels : levels ≠ 0 ∨ d ≠ []
  · obtain ⟨⟨t, ht⟩, hclean, hsound⟩ := read_dict h hfloats hlevels
    have hread := (decodeText_dumps_iff hsound ht (le_refl levels)).mpr hclean
    have htext : ofString ((json repr levels).dumps d) = t := by
      rw [json]
      dsimp only
      rw [ht]
      exact ofString_ofText (isValidChar_of_isAscii (printable_dumps hfloats ht).isAscii)
    obtain ⟨ts, rfl⟩ := Orders.dumps_dict_ok ht
    have hne : (json repr levels).dumps d ≠ "" := by
      intro hempty
      rw [hempty] at htext
      cases htext
    have hmark : (Bracket.object.text ts).head? ≠ some 0xFEFF := by
      intro hhead
      cases hhead
    have hloads : (json repr levels).loads ((json repr levels).dumps d) = .dict d := by
      show loadsResult (Orders.loadsStr levels (ofString ((json repr levels).dumps d))) = _
      rw [htext, Orders.loadsStr, if_neg hmark, hread]
      rfl
    rw [snapshotUserdata, if_neg hne, hloads]
  · obtain ⟨rfl, rfl⟩ : levels = 0 ∧ d = [] := by simpa using hlevels
    have hdumps : (json repr 0).dumps [] = "" := by
      rw [json]
      dsimp only
      rw [dumps]
      rfl
    rw [snapshotUserdata, if_pos hdumps]
    rfl

end Shown

/-! ## Which goal a message is about -/

section Steps

variable {Dict : Type} {J : JsonModule Dict} {s s' : State Dict} {act : Act Dict}
  {es : List (Event Dict)}

/-- Goal `g` is one of this SubJob, started with a `userdata_in` that is written as this text. -/
def StartedWith (J : JsonModule Dict) (e : Executor.State Dict) (subjobId text : String)
    (g : Nat) : Prop :=
  ∃ goal d, e.goals[g]? = some goal ∧ goal.request.subjobId = subjobId ∧
    safeJsonLoads J goal.request.userdataInJson = .ok d ∧ J.dumps d = text

/-- If the message says that a goal is running, it is about one goal. -/
def AboutOne (J : JsonModule Dict) (e : Executor.State Dict) (r : Report) : Prop :=
  r.msg.status = .running →
    ∃ g ∈ r.goals, StartedWith J e r.msg.subjobId r.msg.userdataSnapshotJson g

/-- If the node is running, its fields are those of the goal that has set its status last; and the
messages are about one goal. -/
structure Running (J : JsonModule Dict) (s : State Dict) : Prop where
  node : s.executor.node.currentStatus = .running → ∃ g, s.owner .status = some g ∧
    StartedWith J s.executor s.executor.node.currentSubjobId
      s.executor.node.currentUserdataSnapshotJson g
  last : ∀ r, s.bridge.lastState = some r → AboutOne J s.executor r
  queue : ∀ r ∈ s.queue, AboutOne J s.executor r

theorem Running.init (now : Nat) : Running J (State.init now) where
  node h := by cases h
  last _ h := by cases h
  queue _ h := by cases h

theorem StartedWith.extends {e e' : Executor.State Dict} {subjobId text : String} {g : Nat}
    (h : StartedWith J e subjobId text g) (he : Extends e e') :
    StartedWith J e' subjobId text g := by
  obtain ⟨goal, d, hgoal, hid, hread, htext⟩ := h
  obtain ⟨goal', hgoal', hreq⟩ := he g goal hgoal
  exact ⟨goal', d, hgoal', hreq ▸ hid, hreq ▸ hread, htext⟩

theorem AboutOne.extends {e e' : Executor.State Dict} {r : Report} (h : AboutOne J e r)
    (he : Extends e e') : AboutOne J e' r := by
  intro hrunning
  obtain ⟨g, hg, hstarted⟩ := h hrunning
  exact ⟨g, hg, hstarted.extends he⟩

/-- A step of an `_execute_goal` leaves a node that is running as it is, or it starts its goal. -/
theorem running_of_goalStep {n n' : NodeState} {g : Nat} {req : GoalRequest} {pc pc' : GoalPc Dict}
    {a : GoalAct} {es : List Executor.Event} (h : GoalStep J n g req pc a n' pc' es)
    (hrunning : n'.currentStatus = .running) :
    (.status ∉ written J req pc a ∧ n.currentStatus = .running ∧
      n'.currentSubjobId = n.currentSubjobId ∧
      n'.currentUserdataSnapshotJson = n.currentUserdataSnapshotJson) ∨
    (.status ∈ written J req pc a ∧ n'.currentSubjobId = req.subjobId ∧
      ∃ d, safeJsonLoads J req.userdataInJson = .ok d ∧
        n'.currentUserdataSnapshotJson = J.dumps d) := by
  cases h with
  | @start now params userdataIn hp hu =>
      exact Or.inr ⟨by simp [written, hp, hu], rfl, userdataIn, hu, rfl⟩
  | startRaises hp =>
      refine Or.inl ⟨?_, hrunning, rfl, rfl⟩
      rcases hp with hp | ⟨_, hp, hu⟩
      · simp [written, hp]
      · simp [written, hp, hu]
  | publishSpec => exact Or.inl ⟨by simp [written], hrunning, rfl, rfl⟩
  | finishCancelled => cases hrunning
  | finishFailure => cases hrunning
  | finishReturned => exact absurd hrunning (returnedSection_ne_running _ _ _ _ _)
  | finishRaises => exact absurd hrunning (returnedSection_ne_running _ _ _ _ _)
  | _ => exact Or.inl ⟨by simp [written], hrunning, rfl, rfl⟩

theorem Running.report (h : Running J s) (live : LivePath) (now : Nat) :
    AboutOne J s.executor (s.report live now) := by
  intro hrunning
  obtain ⟨g, hg, hstarted⟩ := h.node hrunning
  exact ⟨g, List.mem_append_left _ (List.mem_filterMap.mpr ⟨.status, by simp, hg⟩), hstarted⟩

/-- The goals of the executor have moved on, and so has the node. -/
theorem Running.extend (h : Running J s) {e : Executor.State Dict} {owner : Field → Option Nat}
    (hext : Extends s.executor e)
    (hnode : e.node.currentStatus = .running → ∃ g, owner .status = some g ∧
      StartedWith J e e.node.currentSubjobId e.node.currentUserdataSnapshotJson g) :
    Running J { s with executor := e, owner } where
  node := hnode
  last r hr := (h.last r hr).extends hext
  queue r hr := (h.queue r hr).extends hext

/-- The node is as it was. -/
theorem Running.frame (h : Running J s) {e : Executor.State Dict} (hext : Extends s.executor e)
    (hnode : e.node = s.executor.node) : Running J { s with executor := e, owner := s.owner } := by
  refine h.extend hext ?_
  rw [hnode]
  intro hrunning
  obtain ⟨g, hg, hstarted⟩ := h.node hrunning
  exact ⟨g, hg, hstarted.extends hext⟩

theorem Running.executor (h : Running J s) {a : Executor.Act} {e : Executor.State Dict}
    {es : List Executor.Event} (hst : Executor.step J s.executor a = some (e, es)) :
    Running J { s with executor := e, owner := s.ownerAfter J a } := by
  have hext : Extends s.executor e := fun g goal hg => Executor.step_request hst hg
  rcases Executor.step_cases hst with ⟨_, rfl, -, rfl, -⟩ | ⟨_, rfl, -, rfl, -⟩ |
    ⟨g, b, goal, node, pc, rfl, hg, hs, rfl⟩ | ⟨_, rfl, -, -, rfl⟩ | ⟨_, _, _, rfl, -, -, rfl⟩
  · exact h.frame hext rfl
  · exact h.frame hext rfl
  · refine h.extend hext fun hrunning => ?_
    rcases running_of_goalStep hs hrunning with ⟨hw, hbefore, hid, htext⟩ |
      ⟨hw, hid, d, hread, htext⟩
    · obtain ⟨o, ho, hstarted⟩ := h.node hbefore
      refine ⟨o, by simp [State.ownerAfter, hg, hw, ho], ?_⟩
      rw [hid, htext]
      exact hstarted.extends hext
    · obtain ⟨goal', hgoal', hreq⟩ := hext g goal hg
      exact ⟨g, by simp [State.ownerAfter, hg, hw], goal', d, hgoal', by rw [hreq, hid],
        hreq ▸ hread, htext.symm⟩
  · exact h.frame hext rfl
  · exact h.frame hext rfl

theorem Running.step (h : Running J s) (hst : Rcs.step J s act = some (s', es)) :
    Running J s' := by
  cases step_cases hst with
  | unavailable => exact h
  | canceled => exact h
  | snapshot => exact h
  | submitted => exact { h with }
  | rejected => exact { h with }
  | @accepted k sub _ _ _ =>
      have hext : Extends s.executor
          { s.executor with goals := s.executor.goals ++ [⟨sub.request, .accepted⟩] } := by
        intro g goal hg
        have hlt := (List.getElem?_eq_some_iff.mp hg).choose
        exact ⟨goal, (List.getElem?_append_left hlt).trans hg, rfl⟩
      exact { h.frame hext rfl with }
  | answered => exact { h with }
  | executor hex => exact h.executor hex
  | publish =>
      refine { h with queue := fun r hr => ?_ }
      rcases List.mem_append.mp hr with hr | hr
      · exact h.queue r hr
      · rw [List.mem_singleton.mp hr]
        exact h.report _ _
  | @onStatus r rest hq =>
      have hmem : ∀ u ∈ r :: rest, AboutOne J s.executor u := hq ▸ h.queue
      exact { h with
        last := fun u hu => hmem u (Option.some.inj hu ▸ List.mem_cons_self)
        queue := fun u hu => hmem u (List.mem_cons_of_mem r hu) }

end Steps

/-! ## The result -/

/-- A snapshot that says `running` shows one of its goals: its SubJob, and the dict that the
executor has read from its `userdata_in_json`. -/
def ShowsGoal (repr : Double → Text) (levels : ℕ) (s : State (List (Text × Val))) : Prop :=
  let shown := s.bridge.snapshot (json repr levels)
  shown.status = "running" → ∃ g ∈ shown.goals, ∃ goal d, s.executor.goals[g]? = some goal ∧
    goal.request.subjobId = shown.subjobId ∧
    safeJsonLoads (json repr levels) goal.request.userdataInJson = .ok d ∧
    ((Val.dict d).All (FloatReadsBack repr) → shown.userdataSnapshot = d)

theorem Running.showsGoal {repr : Double → Text} {levels : ℕ} {s : State (List (Text × Val))}
    (h : Running (json repr levels) s) : ShowsGoal repr levels s := by
  unfold ShowsGoal Bridge.snapshot
  cases hlast : s.bridge.lastState with
  | none =>
      intro shown hrunning
      have hidle : "idle" = "running" := hrunning
      exact absurd hidle (by decide)
  | some r =>
      intro shown hrunning
      have hstatus : r.msg.status = .running := by
        have hlabel : statusLabel r.msg.status = "running" := hrunning
        revert hlabel
        cases r.msg.status <;> simp [statusLabel]
      obtain ⟨g, hg, goal, d, hgoal, hid, hread, htext⟩ := h.last r hlast hstatus
      refine ⟨g, hg, goal, d, hgoal, hid, hread, fun hfloats => ?_⟩
      show snapshotUserdata _ r.msg.userdataSnapshotJson = d
      rw [← htext]
      exact snapshotUserdata_dumps hread hfloats

/-- **A running snapshot shows one goal.** -/
theorem running_shows_goal (repr : Double → Text) (levels now : ℕ)
    (as : List (Act (List (Text × Val)))) :
    Throughout (step (json repr levels)) (ShowsGoal repr levels) (State.init now) as :=
  Throughout.of_invariant (fun _ _ _ _ h hst => Running.step h hst) (fun _ h => h.showsGoal)
    (Running.init now) as

end RobotTaskManager.Rcs
