import RobotTaskManager.WebGui.SpecEditor

set_option autoImplicit false

/-! # The state that a saved spec makes

What the loader reads of a spec that has passed through JavaScript, and the state that it makes of
it: `rebuilds_iff`, by induction on the spec, and `saved_agrees_iff` for the texts that the editor
accepts.
-/

namespace RobotTaskManager.WebGui

open PyValue Spec

variable {ν L : Type}

/-! ## The fields -/

section Fields

variable {double : ℚ → Option ℚ} {d items : Dict} {v given : Val} {name : Key}

/-- `v.get(k, default)` of a value that has items. -/
theorem getD_js (hv : IsJson v) {k : Key} {default : Val} (hdefault : default.js double = default)
    (h : v.getD (ε := Raised) k default = .ok given) :
    (v.js double).getD (ε := Raised) k default = .ok (given.js double) := by
  cases v with
  | dict d =>
      obtain rfl := Except.ok.inj h
      rw [Val.js_dict, Val.getD, getD_item_js hv.distinct k hdefault]
  | _ => cases h

theorem isJson_getD (hv : IsJson v) {k : Key} {default : Val} (hdefault : IsJson default)
    (h : v.getD (ε := Raised) k default = .ok given) : IsJson given := by
  cases v with
  | dict d =>
      obtain rfl := Except.ok.inj h
      cases hi : item d k with
      | none => exact hdefault
      | some x => exact hv.item hi
  | _ => cases h

theorem specKind_js {kind : SpecKind} (hd : DistinctKeys d) (h : specKind d = .ok kind) :
    specKind (jsDict double d) = .ok kind := by
  have hkind : (item (jsDict double d) (.str "kind")).getD (.str "State")
      = ((item d (.str "kind")).getD (.str "State")).js double := getD_item_js hd _ rfl
  simp only [specKind, hkind, Val.isStr_js] at h ⊢
  split_ifs at h ⊢
  · exact h
  · exact h
  · exact h
  · exact h
  · cases h

/-- A field with items. -/
theorem items_js (hzero : double 0 = some 0) (hd : DistinctKeys d) {k : Key}
    (h : orElse (item d k) (.dict []) = .dict items) :
    orElse (item (jsDict double d) k) (.dict []) = .dict (jsDict double items) := by
  rw [item_jsDict hd]
  exact orElse_js_dict hzero h

theorem specPolicy_js (hd : DistinctKeys d) :
    specPolicy (jsDict double d) = (specPolicy d).js double := by
  rw [specPolicy, getD_item_js hd _ rfl, specPolicy]

theorem isJson_specInitialState (hs : IsJson (.dict d)) : IsJson (specInitialState d) := by
  rw [specInitialState]
  cases hi : item d (.str "initial_state") with
  | none => exact .key _
  | some v => exact hs.item hi

theorem specInitialState_js (hd : DistinctKeys d) :
    specInitialState (jsDict double d) = (specInitialState d).js double := by
  rw [specInitialState, getD_item_js hd _ rfl, specInitialState]

/-- A field that is made a list. -/
theorem list_js (hzero : double 0 = some 0) (hs : IsJson (.dict d)) {k : Key} {default : Val}
    (hdefault : default.js double = default) (hjson : IsJson default) {xs : List Val}
    (h : (orElse (item d k) default).iter (ε := Raised) = .ok xs) :
    ∃ xs', (orElse (item (jsDict double d) k) default).iter (ε := Raised) = .ok xs' ∧
      (List.Forall₂ PyEq xs xs' ↔ KeepsElements double (orElse (item d k) default)) := by
  rw [item_jsDict hs.distinct, orElse_js hzero hdefault (iter_ne_num h)]
  refine iter_js ?_ h
  unfold orElse
  split
  · rename_i v hv
    split
    · exact hs.item hv
    · exact hjson
  · exact hjson

/-- A field that is made a dict. -/
theorem dict_js (hzero : double 0 = some 0) (hs : IsJson (.dict d)) (k : Key) {kwargs : Dict}
    (h : (orElse (item d k) (.dict [])).toDict (ε := Raised) = .ok kwargs) :
    (∃ kwargs', (orElse (item (jsDict double d) k) (.dict [])).toDict (ε := Raised) = .ok kwargs' ∧
      PyEq (.dict kwargs) (.dict kwargs')) ↔
      KeepsDict Raised double ((item d k).getD .null) := by
  rw [← orElse_getD_null] at h
  rw [← orElse_getD_null, getD_item_js hs.distinct k rfl]
  refine toDict_js hzero ?_ h
  cases hi : item d k with
  | none => exact .key _
  | some x => exact hs.item hi

/-- The transitions of a child. -/
theorem childTransitions_js (hzero : double 0 = some 0) (hs : IsJson (.dict d))
    {transitions : Dict} (h : childTransitions (specTransitions d) name = .ok transitions) :
    (∃ transitions', childTransitions (specTransitions (jsDict double d)) name = .ok transitions' ∧
      PyEq (.dict transitions) (.dict transitions')) ↔
      ∀ given, (specTransitions d).getD (ε := Raised) name (.dict []) = .ok given →
        KeepsDict Raised double given := by
  have hjson : IsJson (specTransitions d) := hs.orElse (.str "transitions")
  obtain ⟨given, hgiven, h⟩ := bind_ok_iff.mp h
  have hempty : IsJson (.dict []) := .dict List.Pairwise.nil nofun nofun
  have hgiven' : ((specTransitions d).js double).getD (ε := Raised) name (.dict [])
      = .ok (given.js double) := getD_js hjson rfl hgiven
  -- the transitions of a machine are a dict, or they could not be read
  obtain ⟨ts, hts⟩ : ∃ ts, specTransitions d = .dict ts := by
    cases ht : specTransitions d with
    | dict ts => exact ⟨ts, rfl⟩
    | _ => rw [ht] at hgiven; cases hgiven
  have hts' : specTransitions (jsDict double d) = .dict (jsDict double ts) :=
    items_js hzero hs.distinct hts
  rw [hts, Val.js_dict, ← hts'] at hgiven'
  rw [childTransitions, hgiven', ok_bind,
    toDict_js hzero (isJson_getD hjson hempty hgiven) h, hgiven]
  simp

theorem regionState_js (hv : IsJson v) {state : Val} (h : regionState name v = .ok state) :
    regionState name (v.js double) = .ok (state.js double) := by
  obtain ⟨d, rfl, hi⟩ := regionState_ok_iff.mp h
  rw [regionState_ok_iff, Val.js_dict]
  exact ⟨_, rfl, by rw [item_jsDict hv.distinct, hi]; rfl⟩

/-- The mapping of a region. -/
theorem regionOutcomes_js (hzero : double 0 = some 0) (hv : IsJson v) {outcomes : Dict}
    (h : regionOutcomes v = .ok outcomes) :
    (∃ outcomes', regionOutcomes (v.js double) = .ok outcomes' ∧
      PyEq (.dict outcomes) (.dict outcomes')) ↔
      ∀ given, v.getD (ε := Raised) (.str "outcomes") .null = .ok given →
        KeepsDict Raised double given := by
  obtain ⟨given, hgiven, h⟩ := bind_ok_iff.mp h
  rw [regionOutcomes, getD_js hv rfl hgiven, ok_bind,
    toDict_js hzero (isJson_getD hv (.key _) hgiven) h, hgiven]
  simp

/-- What JavaScript makes `None` of is a number without a double. -/
theorem isNull_js (hnull : v.isNull = false) (h : (v.js double).isNull = true) :
    ∃ q, v = .key (.num q) ∧ double q = none := by
  cases v with
  | key k =>
      cases k with
      | num q =>
          refine ⟨q, rfl, ?_⟩
          cases hq : double q with
          | none => rfl
          | some r => simp [Val.js, hq, Val.isNull] at h
      | none => cases hnull
      | _ => cases h
  | list xs => simp [Val.js_list, Val.isNull] at h
  | dict d => simp [Val.js_dict, Val.isNull] at h

/-- The initial state, once children with these names have been added. -/
theorem startName_js (hv : IsJson v) {names : List Key}
    (hnames : ∀ n ∈ names, n.string?.isSome = true) :
    PyEq (startName v names) (startName (v.js double) names) ↔ Kept double v := by
  cases hnull : v.isNull with
  | true =>
      obtain rfl := Val.eq_null hnull
      refine iff_of_true ?_ nofun
      show PyEq (startName .null names) (startName .null names)
      rw [startName_null hnames]
      exact .key (Key.same_refl _)
  | false =>
      rw [startName_of_not_null hnull]
      cases hjs : (v.js double).isNull with
      | false => rw [startName_of_not_null hjs, pyEq_js_iff hv]
      -- the first child has taken the place of a number
      | true =>
          obtain ⟨q, rfl, hq⟩ := isNull_js hnull hjs
          rw [Val.eq_null hjs, startName_null hnames]
          refine iff_of_false (fun h => ?_) fun h => ?_
          · obtain ⟨k, hk, hsame⟩ := pyEq_key_iff.mp h
            obtain rfl := Val.key.inj hk
            cases names with
            | nil => cases hsame
            | cons n ns =>
                have := hnames n List.mem_cons_self
                cases n <;> simp_all [Key.same, Key.number?, Key.string?]
          · have hkept := h q List.mem_cons_self
            rw [hq] at hkept
            cases hkept

end Fields

/-! ## Machines -/

/-- Equal children with equal transitions. -/
structure AgreeRow (r r' : Row Call) : Prop where
  name : r'.name = r.name
  state : Agrees r.state r'.state
  transitions : PyEq (.dict r.transitions) (.dict r'.transitions)

/-- Machines agree if they do without their children, and child by child. -/
theorem agrees_machine_iff {m m' : MachineInfo} {rows rows' : List (Row Call)}
    (hts : m.transitions = []) (hts' : m'.transitions = []) (hclass : m'.className = m.className) :
    Agrees (.machine (m.withRows rows) (rows.map fun r => (r.name, r.state)))
        (.machine (m'.withRows rows') (rows'.map fun r => (r.name, r.state))) ↔
      AgreeKind m.kind m'.kind ∧ List.Forall₂ PyEq m.outcomes m'.outcomes ∧
        PyEq (startName m.initialState (rows.map Row.name))
          (startName m'.initialState (rows.map Row.name)) ∧
        List.Forall₂ AgreeRow rows rows' := by
  have hnames : List.Forall₂ (fun r r' => r'.name = r.name) rows rows' →
      rows'.map Row.name = rows.map Row.name := map_eq_of_forall₂
  constructor
  · intro h
    obtain _ | ⟨⟨-, hkind, hout, htrans, hinit⟩, hchildren⟩ := h
    rw [agreeChildren_iff, List.forall₂_map_left_iff, List.forall₂_map_right_iff] at hchildren
    simp only [MachineInfo.withRows, hts, hts', List.nil_append, List.forall₂_map_left_iff,
      List.forall₂_map_right_iff] at htrans hinit
    rw [hnames (hchildren.imp fun _ _ h => h.1)] at hinit
    refine ⟨hkind, hout, hinit, ?_⟩
    exact List.Forall₂.mp (fun _ _ hc ht => ⟨hc.1, hc.2, ht.2⟩) hchildren htrans
  · rintro ⟨hkind, hout, hinit, hrows⟩
    refine .machine ⟨hclass, hkind, hout, ?_, ?_⟩ ?_
    · simp only [MachineInfo.withRows, hts, hts', List.nil_append, List.forall₂_map_left_iff,
        List.forall₂_map_right_iff]
      exact hrows.imp fun _ _ h => ⟨h.name, h.transitions⟩
    · show PyEq (startName _ _) (startName _ _)
      rw [hnames (hrows.imp fun _ _ h => h.name)]
      exact hinit
    · rw [agreeChildren_iff, List.forall₂_map_left_iff, List.forall₂_map_right_iff]
      exact hrows.imp fun _ _ h => ⟨h.name, h.state⟩

section Rebuild

variable {reg : Registry ν L} {node : Option ν} {double : ℚ → Option ℚ} {d items : Dict}

/-- The state made of the value that has passed through JavaScript agrees with this one. -/
def Rebuilds (reg : Registry ν L) (node : Option ν) (double : ℚ → Option ℚ) (v : Val)
    (t : Obj Call) : Prop :=
  ∃ t', buildFromSpec reg.recorded node (v.js double) = .ok t' ∧ Agrees t t'

/-- The machine without its children. -/
theorem machineHeader_js (hzero : double 0 = some 0) (hs : IsJson (.dict d)) {kind : SpecKind}
    {m : MachineInfo} (hm : kind = .stateMachine ∨ kind = .behaviorSM)
    (h : machineHeader kind d = .ok m) :
    ∃ m', machineHeader kind (jsDict double d) = .ok m' ∧ m'.className = m.className ∧
      m.transitions = [] ∧ m'.transitions = [] ∧ m.initialState = specInitialState d ∧
      m'.initialState = (specInitialState d).js double ∧
      (AgreeKind m.kind m'.kind ∧ List.Forall₂ PyEq m.outcomes m'.outcomes ↔
        KeepsElements double (specOutcomes d) ∧
          (kind = .behaviorSM → KeepsElements double (specParameters d))) := by
  have hjson : ∀ ss : List String, IsJson (.list (ss.map Val.str)) := by
    intro ss
    refine .list fun x hx => ?_
    obtain ⟨s, -, rfl⟩ := List.mem_map.mp hx
    exact .key _
  have hinit : specInitialState (jsDict double d) = (specInitialState d).js double :=
    specInitialState_js hs.distinct
  rcases hm with rfl | rfl
  · obtain ⟨outcomes, hout, h⟩ := bind_ok_iff.mp h
    obtain rfl := Except.ok.inj h
    obtain ⟨outcomes', hout', hiff⟩ := list_js hzero hs rfl (hjson ["done", "failed"]) hout
    refine ⟨_, bind_ok_iff.mpr ⟨outcomes', hout', rfl⟩, rfl, rfl, rfl, rfl, hinit, ?_⟩
    constructor
    · rintro ⟨-, ho⟩
      exact ⟨hiff.mp ho, nofun⟩
    · rintro ⟨ho, -⟩
      exact ⟨.stateMachine, hiff.mpr ho⟩
  · obtain ⟨outcomes, hout, h⟩ := bind_ok_iff.mp h
    obtain ⟨parameters, hpar, h⟩ := bind_ok_iff.mp h
    obtain rfl := Except.ok.inj h
    obtain ⟨outcomes', hout', hiff⟩ := list_js hzero hs rfl (hjson ["done", "failed"]) hout
    obtain ⟨parameters', hpar', hiff'⟩ := list_js hzero hs rfl (hjson []) hpar
    refine ⟨_, bind_ok_iff.mpr ⟨outcomes', hout', bind_ok_iff.mpr ⟨parameters', hpar', rfl⟩⟩, rfl,
      rfl, rfl, rfl, hinit, ?_⟩
    constructor
    · rintro ⟨hkind, ho⟩
      obtain _ | hps := hkind
      exact ⟨hiff.mp ho, fun _ => hiff'.mp hps⟩
    · rintro ⟨ho, hp⟩
      exact ⟨.behaviorSM (hiff'.mpr (hp rfl)), hiff.mpr ho⟩

/-- The children of a machine agree, in their order, if that is the order of JavaScript. -/
theorem rows_rebuild_iff (hzero : double 0 = some 0) (hs : IsJson (.dict d))
    {rows : List (Row Call)}
    (hrows : List.Forall₂ (ChildMade reg.recorded node (specTransitions d)) items rows)
    (ih : ∀ e ∈ items, ∀ t, buildFromSpec reg.recorded node e.2 = .ok t →
      (Rebuilds reg node double e.2 t ↔ Steady double e.2)) :
    (∃ rows', List.Forall₂ (ChildMade reg.recorded node (specTransitions (jsDict double d)))
        (jsDict double items) rows' ∧ List.Forall₂ AgreeRow rows rows') ↔
      JsOrdered items ∧ ∀ e ∈ items, Steady double e.2 ∧
        ∀ given, (specTransitions d).getD (ε := Raised) e.1 (.dict []) = .ok given →
          KeepsDict Raised double given := by
  refine forall₂_jsDict_iff (fun _ _ h => h.name) (fun _ _ h => h.name) (fun _ _ h => h.name) hrows
    fun e he r hr => ?_
  rw [← ih e he r.state hr.state, ← childTransitions_js hzero hs hr.transitions]
  constructor
  · rintro ⟨r', hr', hrow⟩
    exact ⟨⟨r'.state, hr'.state, hrow.state⟩, r'.transitions, hr'.transitions, hrow.transitions⟩
  · rintro ⟨⟨t', hbuild, hagrees⟩, ts', hts', heq⟩
    exact ⟨⟨e.1, t', ts'⟩, ⟨rfl, hbuild, hts'⟩, hr.name.symm, hagrees, heq⟩

theorem machine_rebuilds_iff (hzero : double 0 = some 0) (hs : IsJson (.dict d)) {kind : SpecKind}
    (hk : specKind d = .ok kind) (hm : kind = .stateMachine ∨ kind = .behaviorSM) {t : Obj Call}
    (ht : MadeOf reg.recorded node d t)
    (ih : ∀ c, sizeOf c < sizeOf (Val.dict d) → IsJson c → ∀ t,
      buildFromSpec reg.recorded node c = .ok t →
      (Rebuilds reg node double c t ↔ Steady double c)) :
    (∃ t', MadeOf reg.recorded node (jsDict double d) t' ∧ Agrees t t') ↔
      Steady double (.dict d) := by
  obtain ⟨m, items, rows, hheader, hitems, hrows, rfl⟩ := ht.machine_inv hk hm
  obtain ⟨m', hheader', hclass, hts, hts', hinit, hinit', hfields⟩ :=
    machineHeader_js hzero hs hm hheader
  have hjson : IsJson (specChildren d) := hs.orElse (.str "children")
  rw [hitems] at hjson
  have hnames : ∀ n ∈ rows.map Row.name, n.string?.isSome = true := by
    rw [map_eq_of_forall₂ (hrows.imp fun _ _ h => h.name)]
    intro n hn
    obtain ⟨e, he, rfl⟩ := List.mem_map.mp hn
    cases hjson with
    | dict _ hkeys _ => exact hkeys e he
  have hchildren := rows_rebuild_iff hzero hs hrows fun e he =>
    ih e.2 (child_smaller hs hitems he).1 (child_smaller hs hitems he).2
  have hstart : PyEq (startName (specInitialState d) (rows.map Row.name))
      (startName ((specInitialState d).js double) (rows.map Row.name)) ↔
      Kept double (specInitialState d) := startName_js (isJson_specInitialState hs) hnames
  rw [steady_machine_iff hk hm hitems]
  constructor
  · rintro ⟨t', ht', hagrees⟩
    obtain ⟨rows', hrows', rfl⟩ := (madeOf_machine_iff (specKind_js hs.distinct hk) hm hheader'
      (items_js hzero hs.distinct hitems)).mp ht'
    obtain ⟨hkind, hout, hname, hall⟩ := (agrees_machine_iff hts hts' hclass).mp hagrees
    rw [hinit, hinit', hstart] at hname
    obtain ⟨houtcomes, hparameters⟩ := hfields.mp ⟨hkind, hout⟩
    exact ⟨⟨houtcomes, hparameters, hname⟩, hchildren.mp ⟨rows', hrows', hall⟩⟩
  · rintro ⟨⟨houtcomes, hparameters, hname⟩, hall⟩
    obtain ⟨rows', hrows', hagree⟩ := hchildren.mpr hall
    obtain ⟨hkind, hout⟩ := hfields.mpr ⟨houtcomes, hparameters⟩
    refine ⟨_, (madeOf_machine_iff (specKind_js hs.distinct hk) hm hheader'
      (items_js hzero hs.distinct hitems)).mpr ⟨rows', hrows', rfl⟩, ?_⟩
    refine (agrees_machine_iff hts hts' hclass).mpr ⟨hkind, hout, ?_, hagree⟩
    rw [hinit, hinit']
    exact hstart.mpr hname

/-! ## Parallels and leaves -/

/-- The regions of a parallel agree, in their order, if that is the order of JavaScript. -/
theorem regions_rebuild_iff (hzero : double 0 = some 0) (hitems : IsJson (.dict items))
    {regions : List (Key × Region (Obj Call))}
    (hregions : List.Forall₂ (RegionMade reg.recorded node) items regions)
    (ih : ∀ e ∈ items, ∀ s, regionState e.1 e.2 = .ok s → ∀ t,
      buildFromSpec reg.recorded node s = .ok t →
      (Rebuilds reg node double s t ↔ Steady double s)) :
    (∃ regions', List.Forall₂ (RegionMade reg.recorded node) (jsDict double items) regions' ∧
        AgreeRegions regions regions') ↔
      JsOrdered items ∧ ∀ e ∈ items,
        (∀ state, regionState e.1 e.2 = .ok state → Steady double state) ∧
          ∀ given, e.2.getD (ε := Raised) (.str "outcomes") .null = .ok given →
            KeepsDict Raised double given := by
  simp only [agreeRegions_iff]
  refine forall₂_jsDict_iff (fun _ _ h => h.name) (fun _ _ h => h.name)
    (fun _ _ h => h.1) hregions fun e he r hr => ?_
  have hjson : IsJson e.2 := hitems.mem he
  obtain ⟨s, hs, hstate⟩ := hr.state
  have hsteady : (∀ state, regionState e.1 e.2 = .ok state → Steady double state) ↔
      Steady double s := by
    rw [hs]
    simp
  rw [hsteady, ← ih e he s hs r.2.state hstate, ← regionOutcomes_js hzero hjson hr.outcomes]
  constructor
  · rintro ⟨r', hr', -, hagrees, heq⟩
    obtain ⟨s', hs', hstate'⟩ := hr'.state
    obtain rfl := Except.ok.inj ((regionState_js hjson hs).symm.trans hs')
    exact ⟨⟨r'.2.state, hstate', hagrees⟩, r'.2.outcomes, hr'.outcomes, heq⟩
  · rintro ⟨⟨t', hbuild, hagrees⟩, outcomes', hout, heq⟩
    exact ⟨(e.1, ⟨t', outcomes'⟩), ⟨rfl, ⟨_, regionState_js hjson hs, hbuild⟩, hout⟩, hr.name.symm,
      hagrees, heq⟩

theorem parallel_rebuilds_iff (hzero : double 0 = some 0) (hs : IsJson (.dict d))
    (hk : specKind d = .ok .parallel) {t : Obj Call} (ht : MadeOf reg.recorded node d t)
    (ih : ∀ c, sizeOf c < sizeOf (Val.dict d) → IsJson c → ∀ t,
      buildFromSpec reg.recorded node c = .ok t →
      (Rebuilds reg node double c t ↔ Steady double c)) :
    (∃ t', MadeOf reg.recorded node (jsDict double d) t' ∧ Agrees t t') ↔
      Steady double (.dict d) := by
  obtain ⟨items, regions, outcomes, hitems, hne, hregions, hpolicy, hsorted, rfl⟩ :=
    ht.parallel_inv hk
  have hjson : IsJson (specRegions d) := hs.orElse (.str "regions")
  rw [hitems] at hjson
  have hpolicy' : (specPolicy (jsDict double d)).isStr "first_wins" = true := by
    rw [specPolicy_js hs.distinct, Val.isStr_js]
    exact hpolicy
  have hall := regions_rebuild_iff hzero hjson hregions fun e he s hstate => by
    have hsmall := child_smaller hs hitems he
    exact ih s ((sizeOf_regionState hstate).trans hsmall.1) (isJson_regionState hsmall.2 hstate)
  have hmade : ∀ t', MadeOf reg.recorded node (jsDict double d) t' ↔ _ := fun t' =>
    madeOf_parallel_iff (specKind_js hs.distinct hk) (items_js hzero hs.distinct hitems)
      (mt jsDict_eq_nil.mp hne) hpolicy'
  simp only [hmade]
  rw [steady_parallel_iff hk hitems, ← hall]
  constructor
  · rintro ⟨_, ⟨regions', outcomes', hregions', -, rfl⟩, hagrees⟩
    obtain _ | _ | ⟨-, -, hagree⟩ := hagrees
    exact ⟨regions', hregions', hagree⟩
  · rintro ⟨regions', hregions', hagree⟩
    obtain ⟨outcomes', hsorted', hout⟩ := hagree.outcomes hsorted
    refine ⟨_, ⟨regions', outcomes', hregions', hsorted', rfl⟩, .parallel ?_ hout hagree⟩
    rw [specPolicy_js hs.distinct, Val.eq_str hpolicy]
    exact .key (Key.same_refl _)

theorem leaf_rebuilds_iff (hzero : double 0 = some 0) (hreg : reg.TreatsAlike)
    (hs : IsJson (.dict d)) (hk : specKind d = .ok .state) {t : Obj Call}
    (ht : MadeOf reg.recorded node d t) :
    (∃ t', MadeOf reg.recorded node (jsDict double d) t' ∧ Agrees t t') ↔
      Steady double (.dict d) := by
  obtain ⟨_, kwargs, c, href, hstate, hkwargs, hmake, rfl⟩ := (madeOf_leaf_iff hk).mp ht
  obtain ⟨klass, rfl, id, hi, hne, hklass⟩ := recorded_refersTo_iff.mp href
  obtain ⟨rfl, x, hx⟩ := recorded_make_ok_iff.mp hmake
  simp only [madeOf_leaf_iff (specKind_js hs.distinct hk)]
  rw [steady_leaf_iff hk, ← dict_js hzero hs (.str "args") hkwargs]
  constructor
  · rintro ⟨_, ⟨klass', kwargs', c', href', -, hkwargs', hmake', rfl⟩, hagrees⟩
    obtain ⟨klass₁, rfl, -⟩ := recorded_refersTo_iff.mp href'
    obtain ⟨rfl, -⟩ := recorded_make_ok_iff.mp hmake'
    obtain ⟨hcall⟩ := hagrees
    exact ⟨kwargs', hkwargs', hcall.kwargs⟩
  · rintro ⟨kwargs', hkwargs', heq⟩
    have href' : RefersTo reg (jsDict double d) klass :=
      ⟨id, by rw [item_jsDict hs.distinct, hi]; rfl, hne, hklass⟩
    obtain ⟨x', hx'⟩ : ∃ x', klass.make node kwargs' = .ok x' := by
      have halike : (klass.make node kwargs').map (fun _ => ())
          = (klass.make node kwargs).map fun _ => () := make_alike (hreg id klass hklass) heq
      rw [hx] at halike
      cases hx' : klass.make node kwargs' with
      | ok x' => exact ⟨x', rfl⟩
      | error e =>
          rw [hx'] at halike
          cases halike
    exact ⟨_, ⟨_, kwargs', _, recorded_refersTo_iff.mpr ⟨klass, rfl, href'⟩, hstate, hkwargs',
      recorded_make_ok_iff.mpr ⟨rfl, x', hx'⟩, rfl⟩, .leaf ⟨rfl, heq⟩⟩

/-! ## Every spec -/

/-- **The state that is made after JavaScript agrees** with the one that is made of the spec itself
exactly if the spec is steady. -/
theorem rebuilds_iff (hzero : double 0 = some 0) (hreg : reg.TreatsAlike) {v : Val} (hv : IsJson v)
    {t : Obj Call} (h : buildFromSpec reg.recorded node v = .ok t) :
    Rebuilds reg node double v t ↔ Steady double v := by
  -- on the size of the spec, as the loader goes down
  induction hn : sizeOf v using Nat.strong_induction_on generalizing v t with
  | _ n ih =>
      subst hn
      cases v with
      | key k =>
          rw [buildFromSpec] at h
          · cases h
          · intro spec hspec
            cases hspec
      | list xs =>
          rw [buildFromSpec] at h
          · cases h
          · intro spec hspec
            cases hspec
      | dict d =>
          have ih' : ∀ c, sizeOf c < sizeOf (Val.dict d) → IsJson c → ∀ t,
              buildFromSpec reg.recorded node c = .ok t →
              (Rebuilds reg node double c t ↔ Steady double c) :=
            fun c hlt hc t ht => ih _ hlt hc ht rfl
          have hjs : IsJson (.dict (jsDict double d)) := by
            rw [← Val.js_dict]
            exact hv.js
          have hmade : Rebuilds reg node double (.dict d) t ↔
              ∃ t', MadeOf reg.recorded node (jsDict double d) t' ∧ Agrees t t' := by
            rw [Rebuilds, Val.js_dict]
            simp only [build_ok_iff hjs]
          rw [hmade]
          have ht := (build_ok_iff hv).mp h
          cases hk : specKind d with
          | error e => cases ht <;> simp_all
          | ok kind =>
              cases kind with
              | state => exact leaf_rebuilds_iff hzero hreg hv hk ht
              | stateMachine => exact machine_rebuilds_iff hzero hv hk (Or.inl rfl) ht ih'
              | behaviorSM => exact machine_rebuilds_iff hzero hv hk (Or.inr rfl) ht ih'
              | parallel => exact parallel_rebuilds_iff hzero hv hk ht ih'

/-- **A text keeps its meaning on its way from the editor to the executor** exactly if it is
steady. -/
theorem saved_agrees_iff {loads : String → Option Val} (hzero : double 0 = some 0)
    (hreg : reg.TreatsAlike) {text : Val} {t : Obj Call} (hs : IsJson text)
    (haccepts : isSpec text = true) (h : buildFromSpec reg.recorded node text = .ok t) :
    (∃ spec t', saved double loads text = some spec ∧
      buildFromSpec reg.recorded node spec = .ok t' ∧ Agrees t t') ↔ Steady double text := by
  rw [← rebuilds_iff hzero hreg hs h, saved_eq hs haccepts]
  simp [Rebuilds]

end Rebuild

/-! ## The starter spec, and names that are numbers -/

/-- A registry in which `DriveToPoseState` is the only class. -/
def driveRegistry : Registry Unit Unit := fun id =>
  if id = "DriveToPoseState" then some ⟨"DriveToPoseState", true, fun _ _ => .ok ()⟩ else none

theorem driveRegistry_treatsAlike : driveRegistry.TreatsAlike := by
  intro id klass h node kws kws' _
  unfold driveRegistry at h
  split at h
  · obtain rfl := Option.some.inj h
    rfl
  · cases h

def driveArgs (x : ℚ) : Dict :=
  [(.str "target_x", .key (.num x)), (.str "target_y", .key (.num 0)),
    (.str "target_yaw", .key (.num 0))]

def driveSpec (x : ℚ) : Val := .dict [
  (.str "kind", .str "State"),
  (.str "ref", .str "DriveToPoseState"),
  (.str "args", .dict (driveArgs x))]

def driveTransitions : Dict := [
  (.str "succeeded", .str "done"),
  (.str "failed", .str "failed"),
  (.str "lifecycle_error", .str "failed"),
  (.str "timeout", .str "failed"),
  (.str "rejected", .str "failed")]

/-- `STARTER_SPEC` -/
def starterSpec : Val := .dict [
  (.str "kind", .str "BehaviorSM"),
  (.str "outcomes", .list [.str "done", .str "failed"]),
  (.str "behavior_parameters", .list []),
  (.str "initial_state", .str "GO_P1"),
  (.str "children", .dict [
    (.str "GO_P1", .dict [
      (.str "kind", .str "StateMachine"),
      (.str "outcomes", .list [.str "done", .str "failed"]),
      (.str "children", .dict [(.str "drive", driveSpec 1)]),
      (.str "transitions", .dict [(.str "drive", .dict driveTransitions)])])]),
  (.str "transitions", .dict [
    (.str "GO_P1", .dict [(.str "done", .str "done"), (.str "failed", .str "failed")])])]

def starter : Obj Call :=
  .machine ⟨"BehaviorSM", .behaviorSM [], [.str "done", .str "failed"],
      [(.str "GO_P1", [(.str "done", .str "done"), (.str "failed", .str "failed")])],
      .str "GO_P1"⟩
    [(.str "GO_P1", .machine ⟨"StateMachine", .stateMachine, [.str "done", .str "failed"],
        [(.str "drive", driveTransitions)], .str "drive"⟩
      [(.str "drive", .leaf ⟨"DriveToPoseState", driveArgs 1⟩)])]

theorem build_driveSpec (x : ℚ) : buildFromSpec driveRegistry.recorded none (driveSpec x)
    = .ok (.leaf ⟨"DriveToPoseState", driveArgs x⟩) := by
  rw [driveSpec, buildFromSpec]
  rfl

theorem build_starterSpec :
    buildFromSpec driveRegistry.recorded none starterSpec = .ok starter := by
  simp [starterSpec, buildFromSpec, specKind, item, Val.isStr, emptyBehaviorSM, emptyStateMachine,
    machineOutcomes, orElse, Val.truthy, Val.iter, attachChildren, attachAll, attach_cons,
    attach_nil, build_driveSpec, MachineInfo.add, Val.getD, hasKey, Val.toDict]
  rfl

theorem isJson_starterSpec : IsJson starterSpec := by
  simp [starterSpec, driveSpec, driveArgs, driveTransitions, isJson_dict_iff, isJson_list_iff,
    DistinctKeys, Key.string?, IsJson.key]

theorem driveSpec_steady (x : ℚ) : Steady some (driveSpec x) :=
  (steady_leaf_iff rfl).mpr (kept_some _)

theorem starterSpec_steady : Steady some starterSpec := by
  refine (@steady_machine_iff some _ _ .behaviorSM rfl (Or.inr rfl) rfl).mpr
    ⟨⟨fun _ _ => kept_some _, fun _ => nofun, kept_some _⟩, by decide, ?_⟩
  rw [List.forall_mem_singleton]
  constructor
  · refine (@steady_machine_iff some _ _ .stateMachine rfl (Or.inl rfl) rfl).mpr
      ⟨⟨fun _ _ => kept_some _, nofun, kept_some _⟩, by decide, ?_⟩
    rw [List.forall_mem_singleton]
    refine ⟨driveSpec_steady 1, fun given h => ?_⟩
    obtain rfl := Except.ok.inj h
    exact kept_some _
  · intro given h
    obtain rfl := Except.ok.inj h
    exact kept_some _

/-- The starter spec keeps its meaning. -/
theorem saved_agrees_iff_starterSpec : ∃ spec t',
    saved some (fun _ => none) starterSpec = some spec ∧
    buildFromSpec driveRegistry.recorded none spec = .ok t' ∧ Agrees starter t' :=
  (saved_agrees_iff rfl driveRegistry_treatsAlike isJson_starterSpec rfl build_starterSpec).mpr
    starterSpec_steady

/-- A machine whose first child is `GO`, and its second `1`. -/
def numberedSpec : Val := .dict [
  (.str "kind", .str "BehaviorSM"),
  (.str "children", .dict [(.str "GO", driveSpec 1), (.str "1", driveSpec 2)]),
  (.str "transitions", .dict [
    (.str "GO", .dict [(.str "succeeded", .str "1")]),
    (.str "1", .dict [(.str "succeeded", .str "done")])])]

def numbered : Obj Call :=
  .machine ⟨"BehaviorSM", .behaviorSM [], [.str "done", .str "failed"],
      [(.str "GO", [(.str "succeeded", .str "1")]), (.str "1", [(.str "succeeded", .str "done")])],
      .str "GO"⟩
    [(.str "GO", .leaf ⟨"DriveToPoseState", driveArgs 1⟩),
      (.str "1", .leaf ⟨"DriveToPoseState", driveArgs 2⟩)]

theorem build_numberedSpec :
    buildFromSpec driveRegistry.recorded none numberedSpec = .ok numbered := by
  simp [numberedSpec, buildFromSpec, specKind, item, Val.isStr, emptyBehaviorSM, machineOutcomes,
    orElse, Val.truthy, Val.iter, attachChildren, attachAll, attach_cons, attach_nil,
    build_driveSpec, MachineInfo.add, Val.getD, hasKey, Val.toDict]
  rfl

theorem isJson_numberedSpec : IsJson numberedSpec := by
  simp [numberedSpec, driveSpec, driveArgs, isJson_dict_iff, DistinctKeys, Key.string?, IsJson.key]

/-- The machine that is saved starts with `1` instead of `GO`. -/
theorem not_always_saved_agrees : ¬ ∀ (double : ℚ → Option ℚ) (loads : String → Option Val)
    (reg : Registry Unit Unit) (node : Option Unit) (text : Val) (t : Obj Call),
    double 0 = some 0 → reg.TreatsAlike → IsJson text → isSpec text = true →
    buildFromSpec reg.recorded node text = .ok t →
    ∃ spec t', saved double loads text = some spec ∧
      buildFromSpec reg.recorded node spec = .ok t' ∧ Agrees t t' := by
  intro h
  obtain ⟨spec, t', hsaved, hbuild, hagrees⟩ := h some (fun _ => none) driveRegistry none
    numberedSpec numbered rfl driveRegistry_treatsAlike isJson_numberedSpec rfl build_numberedSpec
  rw [saved_eq isJson_numberedSpec rfl] at hsaved
  obtain rfl := Option.some.inj hsaved
  have hsteady : Steady some numberedSpec := (rebuilds_iff rfl driveRegistry_treatsAlike
    isJson_numberedSpec build_numberedSpec).mp ⟨t', hbuild, hagrees⟩
  obtain ⟨-, hord, -⟩ := (@steady_machine_iff some _ _ .behaviorSM rfl (Or.inr rfl) rfl).mp hsteady
  revert hord
  decide

end RobotTaskManager.WebGui
