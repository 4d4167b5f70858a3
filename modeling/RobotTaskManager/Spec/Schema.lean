import RobotTaskManager.Spec.Acceptance

set_option autoImplicit false

/-! # The loader as a schema check

`Valid` is the schema of the module docstring of `spec_loader.py`, together with what makes the
transition tables of a spec complete: the children of a machine are not empty, its initial
state is one of them, every target is a child or an outcome of the machine, and every outcome
that a child declares has a transition. The loader builds every valid spec (`Valid.built`), but
it checks less than that, and of what it does not accept it turns only a part into `HfsmError`.
-/

namespace RobotTaskManager.Spec

open PyValue

variable {ν L : Type}

/-! ## The schema -/

/-- `spec[k]`, unless it is missing or `null`. -/
def given (spec : Dict) (k : String) : Option Val :=
  match item spec (.str k) with
  | some v => if v.isNull then none else some v
  | none => none

/-- A key that may be left out, and what it stands for. -/
inductive OptionalField {α : Type} (spec : Dict) (k : String) (repr : α → Val) (default : α) :
    α → Prop
  | left_out : given spec k = none → OptionalField spec k repr default default
  | given {a : α} : given spec k = some (repr a) → OptionalField spec k repr default a

def strings (ss : List String) : Val := .list (ss.map Val.str)

def stringMap (m : List (String × String)) : Val := .dict (m.map fun e => (.str e.1, .str e.2))

/-- A transition table: child, outcome, target. -/
abbrev Table := List (String × List (String × String))

def Table.toVal (table : Table) : Val := .dict (table.map fun t => (.str t.1, stringMap t.2))

/-- The outcomes of a machine; an empty list counts as left out. -/
def DeclaredOutcomes (spec : Dict) (outcomes : List String) : Prop :=
  ∃ listed, OptionalField spec "outcomes" strings [] listed ∧
    outcomes = if listed = [] then ["done", "failed"] else listed

/-- The transition table of a machine is complete, where `declared` are the outcomes that its
children declare. -/
structure TableComplete (outcomes : List String) (table : Table) (children : Dict)
    (declared : Key × Val → List String) : Prop where
  targets : ∀ t ∈ table, ∀ e ∈ t.2, hasKey children (.str e.2) = true ∨ e.2 ∈ outcomes
  covered : ∀ c ∈ children, ∀ o ∈ declared c,
    ∃ t ∈ table, c.1 = .str t.1 ∧ ∃ e ∈ t.2, e.1 = o

/-- What the schema says of `StateMachine` and of `BehaviorSM`. -/
inductive MachineKey (spec : Dict) : Prop
  | stateMachine : item spec (.str "kind") = some (.str "StateMachine") → MachineKey spec
  | behaviorSM {parameters : List String} : item spec (.str "kind") = some (.str "BehaviorSM") →
      OptionalField spec "behavior_parameters" strings [] parameters → MachineKey spec

/-- The spec follows the schema, and the state it stands for declares these outcomes. -/
inductive Valid [LeafState L] (reg : Registry ν L) (node : Option ν) : Val → List String → Prop
  | state {spec kwargs : Dict} {ref : String} {klass : Klass ν L} {x : L} :
      item spec (.str "kind") = none ∨ item spec (.str "kind") = some (.str "State") →
      item spec (.str "ref") = some (.str ref) → ref ≠ "" → reg ref = some klass →
      klass.isState = true → OptionalField spec "args" Val.dict [] kwargs →
      klass.make node kwargs = .ok x → Valid reg node (.dict spec) (LeafState.outcomes x)
  | machine {spec children : Dict} {outcomes : List String} {table : Table}
      {declared : Key × Val → List String} :
      MachineKey spec → DeclaredOutcomes spec outcomes →
      item spec (.str "children") = some (.dict children) → children ≠ [] →
      (∀ v, given spec "initial_state" = some v →
        ∃ name, v = .str name ∧ hasKey children (.str name) = true) →
      OptionalField spec "transitions" Table.toVal [] table →
      TableComplete outcomes table children declared →
      (∀ c ∈ children, Valid reg node c.2 (declared c)) → Valid reg node (.dict spec) outcomes
  | parallel {spec regions : Dict} {fields : Key × Val → Dict} {state : Key × Val → Val}
      {mapping : Key × Val → List (String × String)} {declared : Key × Val → List String} :
      item spec (.str "kind") = some (.str "Parallel") →
      item spec (.str "policy") = none ∨ item spec (.str "policy") = some (.str "first_wins") →
      item spec (.str "regions") = some (.dict regions) → regions ≠ [] →
      (∀ r ∈ regions, r.2 = .dict (fields r) ∧
        item (fields r) (.str "state") = some (state r) ∧
        OptionalField (fields r) "outcomes" stringMap [] (mapping r)) →
      (∀ r ∈ regions, Valid reg node (state r) (declared r)) →
      Valid reg node (.dict spec) (regions.flatMap fun r => (mapping r).map Prod.snd)

/-! ## Valid specs are built -/

section Built

theorem given_eq_some {spec : Dict} {k : String} {v : Val} (h : given spec k = some v) :
    item spec (.str k) = some v ∧ v.isNull = false := by
  unfold given at h
  split at h
  · rename_i v' hv
    split at h
    · cases h
    · rename_i hnull
      obtain rfl := Option.some.inj h
      exact ⟨hv, Bool.not_eq_true _ ▸ hnull⟩
  · cases h

theorem orElse_of_given_none {spec : Dict} {k : String} (h : given spec k = none)
    (default : Val) : orElse (item spec (.str k)) default = default := by
  unfold given at h
  split at h
  · rename_i v hv
    split at h
    · rename_i hnull
      rw [hv, Val.eq_null hnull]
      rfl
    · cases h
  · rename_i hnone
    rw [hnone]
    rfl

/-- `spec.get(k) or {}` of a key that may be left out. -/
theorem OptionalField.orElse_dict {α : Type} {spec : Dict} {k : String} {repr : α → Val}
    {default a : α} {f : α → Dict} (hrepr : ∀ a, repr a = .dict (f a)) (hdef : f default = [])
    (h : OptionalField spec k repr default a) :
    orElse (item spec (.str k)) (.dict []) = .dict (f a) := by
  cases h with
  | left_out h => rw [orElse_of_given_none h, hdef]
  | given h => rw [(given_eq_some h).1, hrepr, PyValue.orElse_dict]

theorem OptionalField.orElse_strings {spec : Dict} {k : String} {ss : List String}
    (h : OptionalField spec k strings [] ss) (default : List String) :
    orElse (item spec (.str k)) (strings default) = strings (if ss = [] then default else ss) := by
  cases h with
  | left_out h => rw [orElse_of_given_none h, if_pos rfl]
  | given h =>
      rw [(given_eq_some h).1]
      cases ss with
      | nil => rfl
      | cons s rest => rfl

theorem DeclaredOutcomes.machineOutcomes {spec : Dict} {outcomes : List String}
    (h : DeclaredOutcomes spec outcomes) : machineOutcomes spec = .ok (outcomes.map Val.str) := by
  obtain ⟨listed, hfield, rfl⟩ := h
  have := hfield.orElse_strings ["done", "failed"]
  unfold Spec.machineOutcomes
  show (orElse (item spec (.str "outcomes")) (strings ["done", "failed"])).iter = _
  rw [this]
  rfl

/-- Every child has an entry in a transition table, if only the empty one. -/
theorem entryUsable_table (table : Table) (name : Key) : EntryUsable table.toVal name := by
  have hentry : ∃ d, (item (table.map fun t => (Key.str t.1, stringMap t.2)) name).getD (.dict [])
      = .dict d := by
    cases hi : item (table.map fun t => (Key.str t.1, stringMap t.2)) name with
    | none => exact ⟨[], rfl⟩
    | some v =>
        obtain ⟨k, -, hm⟩ := mem_of_item hi
        obtain ⟨t, -, ht⟩ := List.mem_map.mp hm
        exact ⟨_, (congrArg Prod.snd ht).symm⟩
  obtain ⟨d, hd⟩ := hentry
  refine ⟨d, ?_⟩
  show (orElse (some ((item (table.map fun t => (Key.str t.1, stringMap t.2)) name).getD
    (.dict []))) (.dict [])).toDict = _
  rw [hd, PyValue.orElse_dict]
  rfl

theorem machineHeader_fields {kind : SpecKind} {spec : Dict} {m : MachineInfo}
    (h : machineHeader kind spec = .ok m) :
    machineOutcomes spec = .ok m.outcomes ∧ m.transitions = [] := by
  have hsm : emptyStateMachine spec = .ok m →
      machineOutcomes spec = .ok m.outcomes ∧ m.transitions = [] := by
    intro h
    obtain ⟨outcomes, hout, h⟩ := bind_ok_iff.mp h
    obtain rfl := Except.ok.inj h
    exact ⟨hout, rfl⟩
  cases kind with
  | behaviorSM =>
      obtain ⟨outcomes, hout, h⟩ := bind_ok_iff.mp h
      obtain ⟨parameters, -, h⟩ := bind_ok_iff.mp h
      obtain rfl := Except.ok.inj h
      exact ⟨hout, rfl⟩
  | _ => exact hsm h

variable [LeafState L] {reg : Registry ν L} {node : Option ν}

theorem attachChildren_outcomes {spec : Dict} {m : MachineInfo} {t : Obj L}
    (hm : m.transitions = []) (h : attachChildren reg node m spec = .ok t) :
    t.outcomes = m.outcomes := by
  obtain ⟨items, m', states, -, hattach, rfl⟩ := attachChildren_ok h
  have hempty : Attached m ([] : List (Key × Obj L)) :=
    ⟨List.Pairwise.nil, by simp [hm], fun _ => nofun⟩
  obtain ⟨-, -, -, -, ho⟩ := attach_ok hempty hattach
  exact ho

theorem MachineKey.kind {spec : Dict} (h : MachineKey spec) : ∃ kind,
    specKind spec = .ok kind ∧ (kind = .stateMachine ∨ kind = .behaviorSM) ∧
      (kind = .behaviorSM → ∃ parameters, (orElse (item spec (.str "behavior_parameters"))
        (.list [])).iter (ε := Raised) = .ok parameters) := by
  cases h with
  | stateMachine hk => exact ⟨.stateMachine, by simp [specKind, hk, Val.isStr], Or.inl rfl, nofun⟩
  | @behaviorSM parameters hk hpar =>
      refine ⟨.behaviorSM, by simp [specKind, hk, Val.isStr], Or.inr rfl, fun _ => ?_⟩
      have := hpar.orElse_strings []
      change orElse (item spec (.str "behavior_parameters")) (.list []) = _ at this
      rw [this]
      exact ⟨_, rfl⟩

/-- **A valid spec is built**, to a state with the outcomes that the spec declares. -/
theorem Valid.built {s : Val} {outcomes : List String} (h : Valid reg node s outcomes)
    (hs : IsJson s) : ∃ t, buildFromSpec reg node s = .ok t ∧
      ∀ o, Val.str o ∈ t.outcomes ↔ o ∈ outcomes := by
  induction h with
  | @state spec kwargs ref klass x hkind href hne hreg hstate hargs hmake =>
      have hk : specKind spec = .ok .state := by
        rcases hkind with hkind | hkind <;> simp [specKind, hkind, Val.isStr]
      have hkwargs : (orElse (item spec (.str "args")) (.dict [])).toDict (ε := Raised)
          = .ok kwargs := by
        rw [hargs.orElse_dict (fun _ => rfl) rfl]
        rfl
      have hresolve : resolve reg (.str ref) = .ok klass := resolve_ok.mpr ⟨ref, rfl, hreg⟩
      have ht : (Val.str ref).truthy = true := by simpa [Val.truthy] using hne
      refine ⟨.leaf x, ?_, fun o => by simp [Obj.outcomes]⟩
      rw [buildFromSpec, hk, ok_bind]
      simp only [buildState_ref href ht, hresolve, ok_bind, hstate, hkwargs, hmake]
      rfl
  | @machine spec children outcomes table declared hkey hout hchildren hne hinit htable _ _ ih =>
      obtain ⟨kind, hk, hm, hpar⟩ := hkey.kind
      have hitems : orElse (item spec (.str "children")) (.dict []) = .dict children := by
        rw [hchildren, orElse_dict]
      have htransitions : orElse (item spec (.str "transitions")) (.dict []) = table.toVal :=
        htable.orElse_dict (fun _ => rfl) rfl
      -- of `TableComplete` and the initial state the loader uses nothing
      obtain ⟨m, hheader⟩ := (machineHeader_ok hm).mpr ⟨hm, ⟨_, hout.machineOutcomes⟩, hpar⟩
      obtain ⟨hmo, hts⟩ := machineHeader_fields hheader
      obtain ⟨t, hattach⟩ : ∃ t, attachChildren reg node m spec = .ok t := by
        refine (attachChildren_builds hs).mpr ⟨children, hitems, fun c hc => ⟨?_, ?_⟩⟩
        · obtain ⟨t, hbuild, -⟩ := ih c hc (child_smaller hs hitems hc).2
          exact ⟨t, hbuild⟩
        · rw [htransitions]
          exact entryUsable_table table c.1
      refine ⟨t, by rw [build_machine hk hm, hheader]; exact hattach, fun o => ?_⟩
      rw [hout.machineOutcomes] at hmo
      rw [attachChildren_outcomes hts hattach, ← Except.ok.inj hmo]
      simp
  | @parallel spec regions fields state mapping declared hkind hpolicy hregions hne hr _ ih =>
      have hk : specKind spec = .ok .parallel := by simp [specKind, hkind, Val.isStr]
      have hitems : orElse (item spec (.str "regions")) (.dict []) = .dict regions := by
        rw [hregions, orElse_dict]
      have hstate (r : Key × Val) (hmem : r ∈ regions) :
          regionState r.1 r.2 = .ok (state r) := by
        obtain ⟨hdict, hfield, -⟩ := hr r hmem
        have hkey : hasKey (fields r) (.str "state") = true := by
          rw [← item_isSome, hfield]
          rfl
        simp [regionState, hdict, Val.contains, hkey, Val.index, hfield]
      have hmapping (r : Key × Val) (hmem : r ∈ regions) : regionOutcomes r.2
          = .ok ((mapping r).map fun e => (.str e.1, .str e.2)) := by
        obtain ⟨hdict, -, hfield⟩ := hr r hmem
        rw [hdict]
        show (orElse (some ((item (fields r) (.str "outcomes")).getD .null))
          (.dict [])).toDict = _
        rw [orElse_getD_null, hfield.orElse_dict (fun _ => rfl) rfl]
        rfl
      have htargets : (regions.flatMap fun r => regionTargets r.2)
          = (regions.flatMap fun r => (mapping r).map Prod.snd).map Val.str := by
        rw [List.map_flatMap]
        refine List.flatMap_congr fun r hmem => ?_
        simp [regionTargets, hmapping r hmem]
      -- all targets are strings, so the set of them can be sorted
      obtain ⟨ks, hsorted, hks⟩ := sortedSet_strings (ε := Raised)
        (regions.flatMap fun r => (mapping r).map Prod.snd)
      -- the states are built by the induction hypothesis
      have hall : ∀ r ∈ regions, RegionBuilds reg node r := by
        intro r hmem
        obtain ⟨hlt, hj⟩ := child_smaller hs hitems hmem
        obtain ⟨t, hbuild, -⟩ := ih r hmem (isJson_regionState hj (hstate r hmem))
        exact ⟨⟨state r, hstate r hmem, t, hbuild⟩, _, hmapping r hmem⟩
      have hfirst : ((item spec (.str "policy")).getD (.str "first_wins")).isStr "first_wins"
          = true := by
        rcases hpolicy with hpolicy | hpolicy <;> simp [hpolicy, Val.isStr]
      have hd := (hitems ▸ hs.orElse (.str "regions")).distinct
      obtain ⟨rs, hrs⟩ : ∃ rs, buildRegions reg node [] regions = .ok rs :=
        buildRegions_builds.mpr hall
      obtain ⟨hne', hrst⟩ := regions_init hd hne hrs
      refine ⟨.parallel ((item spec (.str "policy")).getD (.str "first_wins")) ks rs, ?_,
        fun o => by simp [Obj.outcomes, hks]⟩
      rw [buildFromSpec, hk]
      show buildParallel reg node spec = _
      rw [buildParallel_dict hitems hne, hrs, ok_bind]
      simp only [parallelInit, hrst, htargets, hsorted, hfirst]
      simp [hne']

end Built

/-! ## The check -/

section Check

variable [LeafState L] (reg : Registry ν L) (node : Option ν)

/-- The loader builds the spec if it is valid, and raises `HfsmError` if it is not. -/
def Checked (s : Val) : Prop :=
  ((∃ outcomes, Valid reg node s outcomes) → Builds reg node s) ∧
    (¬ (∃ outcomes, Valid reg node s outcomes) → Refuses reg node s)

/-- **The loader checks the schema exactly of the specs that are valid or `Refused`.** -/
theorem schema_checked_iff (s : JsonValue) :
    Checked reg node s.val ↔
      (∃ outcomes, Valid reg node s.val outcomes) ∨ Refused reg node s.val := by
  obtain ⟨-, hrefuses⟩ : (Builds reg node s.val ↔ _) ∧ (Refuses reg node s.val ↔ _) :=
    builds_refuses_iff s.json
  constructor
  · rintro ⟨-, hinvalid⟩
    by_cases hvalid : ∃ outcomes, Valid reg node s.val outcomes
    · exact Or.inl hvalid
    · exact Or.inr (hrefuses.mp (hinvalid hvalid))
  · rintro (hvalid | href)
    · refine ⟨fun _ => ?_, fun h => absurd hvalid h⟩
      obtain ⟨outcomes, hvalid⟩ := hvalid
      obtain ⟨t, ht, -⟩ := hvalid.built s.json
      exact ⟨t, ht⟩
    · obtain ⟨e, he⟩ := hrefuses.mpr href
      refine ⟨?_, fun _ => ⟨e, he⟩⟩
      -- a refused spec is not valid, since it would be built
      rintro ⟨outcomes, hvalid⟩
      obtain ⟨t, ht, -⟩ := hvalid.built s.json
      rw [he] at ht
      cases ht

end Check

/-! ## Two specs that are not checked -/

/-- A machine whose children are a list, not a dict. -/
def listedChildren : JsonValue where
  val := .dict [(.str "kind", .str "StateMachine"), (.str "children", .list [.str "A"])]
  json := by
    refine .dict (by simp [DistinctKeys]) (by simp [Key.string?]) fun e he => ?_
    simp only [List.mem_cons, List.not_mem_nil, or_false] at he
    rcases he with rfl | rfl
    · exact .key _
    · refine .list fun x hx => ?_
      rw [List.mem_singleton.mp hx]
      exact .key _

/-- A machine without children. -/
def childless : JsonValue where
  val := .dict [(.str "kind", .str "StateMachine")]
  json := by
    refine .dict (by simp [DistinctKeys]) (by simp [Key.string?]) fun e he => ?_
    rw [List.mem_singleton.mp he]
    exact .key _

/-- A machine is valid only if its children are a dict. -/
theorem Valid.children [LeafState L] {reg : Registry ν L} {node : Option ν} {spec : Dict}
    {outcomes : List String} (h : Valid reg node (.dict spec) outcomes)
    (hk : item spec (.str "kind") = some (.str "StateMachine")) :
    ∃ children, item spec (.str "children") = some (.dict children) := by
  cases h with
  | state hkind => simp [hk] at hkind
  | machine _ _ hchildren => exact ⟨_, hchildren⟩
  | parallel hkind => simp [hk] at hkind

/-- The first raises `AttributeError`, and the second is built. -/
theorem not_always_checked : ¬ Checked tags none listedChildren.val ∧
    ¬ Checked tags none childless.val := by
  constructor
  · rintro ⟨-, h⟩
    obtain ⟨e, he⟩ := h (by
      rintro ⟨t, hvalid⟩
      obtain ⟨children, hc⟩ := hvalid.children rfl
      cases hc)
    have hbuild : buildFromSpec tags none listedChildren.val = .error .attributeError := by
      rw [listedChildren, buildFromSpec]
      show attachChildren tags none _ _ = _
      rw [attachChildren]
      show attachAll tags none _ _ (.list [.str "A"]) = _
      rw [attachAll]
      intro items h
      cases h
    rw [hbuild] at he
    cases he
  · rintro ⟨-, h⟩
    obtain ⟨e, he⟩ := h (by
      rintro ⟨t, hvalid⟩
      obtain ⟨children, hc⟩ := hvalid.children rfl
      cases hc)
    have hbuild : ∃ t, buildFromSpec tags none childless.val = .ok t := by
      rw [childless, buildFromSpec]
      show ∃ t, attachChildren tags none _ _ = .ok t
      rw [attachChildren]
      show ∃ t, attachAll tags none _ _ (.dict []) = .ok t
      rw [attachAll, attach_nil]
      exact ⟨_, rfl⟩
    obtain ⟨t, ht⟩ := hbuild
    rw [ht] at he
    cases he

end RobotTaskManager.Spec
