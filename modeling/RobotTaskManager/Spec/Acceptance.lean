import RobotTaskManager.Spec.RoundTrip

set_option autoImplicit false

/-! # What the loader accepts and refuses

`Accepted` and `Refused` say of which specs the loader makes a state and of which it raises
`HfsmError`, as relations on the specs: the loader goes through a spec depth first and stops at
the first thing that it cannot use, so a refused spec is an accepted part followed by something
that the loader tests itself. Every other spec ends in an exception of a built-in or of the
class of a leaf. `builds_refuses_iff` says that the loader does so, for every JSON value.
-/

namespace RobotTaskManager.Spec

open PyValue

variable {ν L : Type}

/-! ## The relations -/

/-- `dict(spec.get('args') or {})` -/
def Kwargs (spec kwargs : Dict) : Prop :=
  (orElse (item spec (.str "args")) (.dict [])).toDict (ε := Raised) = .ok kwargs

/-- `spec['ref']` is the id of this class. -/
def RefersTo (reg : Registry ν L) (spec : Dict) (klass : Klass ν L) : Prop :=
  ∃ id, item spec (.str "ref") = some (.str id) ∧ id ≠ "" ∧ reg id = some klass

/-- `outcomes`, and the `behavior_parameters` of a `BehaviorSM`, can be made lists. -/
structure HeaderUsable (kind : SpecKind) (spec : Dict) : Prop where
  isMachine : kind = .stateMachine ∨ kind = .behaviorSM
  outcomes : ∃ outcomes, machineOutcomes spec = .ok outcomes
  parameters : kind = .behaviorSM → ∃ parameters,
    (orElse (item spec (.str "behavior_parameters")) (.list [])).iter (ε := Raised)
      = .ok parameters

/-- The transitions of a child: `dict(transitions.get(name, {}) or {})`. -/
def childTransitions (transitions : Val) (name : Key) : Except PyExc Dict := do
  (orElse (some (← transitions.getD name (.dict []))) (.dict [])).toDict

/-- A child that the loop of `_attach_children` gets past. -/
def EntryUsable (transitions : Val) (name : Key) : Prop :=
  ∃ entry, childTransitions transitions name = .ok entry

/-- The targets of the mapping of a region. -/
def regionTargets (spec : Val) : List Val :=
  match regionOutcomes spec with
  | .ok outcomes => outcomes.map Prod.snd
  | .error _ => []

/-- The loader makes a state of the spec. -/
inductive Accepted (reg : Registry ν L) (node : Option ν) : Val → Prop
  | state {spec kwargs : Dict} {klass : Klass ν L} {x : L} : specKind spec = .ok .state →
      RefersTo reg spec klass → klass.isState = true → Kwargs spec kwargs →
      klass.make node kwargs = .ok x → Accepted reg node (.dict spec)
  | machine {spec children : Dict} {kind : SpecKind} : specKind spec = .ok kind →
      HeaderUsable kind spec → orElse (item spec (.str "children")) (.dict []) = .dict children →
      (∀ c ∈ children, Accepted reg node c.2) →
      (∀ c ∈ children, EntryUsable (orElse (item spec (.str "transitions")) (.dict [])) c.1) →
      Accepted reg node (.dict spec)
  | parallel {spec regions : Dict} : specKind spec = .ok .parallel →
      orElse (item spec (.str "regions")) (.dict []) = .dict regions → regions ≠ [] →
      (∀ r ∈ regions, ∃ state, regionState r.1 r.2 = .ok state) →
      (∀ r ∈ regions, ∀ state, regionState r.1 r.2 = .ok state → Accepted reg node state) →
      (∀ r ∈ regions, ∃ outcomes, regionOutcomes r.2 = .ok outcomes) →
      ((item spec (.str "policy")).getD (.str "first_wins")).isStr "first_wins" = true →
      (∃ outcomes, sortedSet (ε := Raised) (regions.flatMap fun r => regionTargets r.2)
        = .ok outcomes) →
      Accepted reg node (.dict spec)

/-- A region that the loop of `_build_parallel` gets past. -/
def RegionAccepted (reg : Registry ν L) (node : Option ν) (r : Key × Val) : Prop :=
  (∃ state, regionState r.1 r.2 = .ok state ∧ Accepted reg node state) ∧
    ∃ outcomes, regionOutcomes r.2 = .ok outcomes

/-- The loader raises `HfsmError`: everything before the place where it does so is accepted. -/
inductive Refused (reg : Registry ν L) (node : Option ν) : Val → Prop
  | notADict {s : Val} : (∀ spec, s ≠ .dict spec) → Refused reg node s
  | unknownKind {spec : Dict} {e : PyExc} : specKind spec = .error e →
      Refused reg node (.dict spec)
  | missingRef {spec : Dict} : specKind spec = .ok .state →
      ((item spec (.str "ref")).getD .null).truthy = false → Refused reg node (.dict spec)
  | notRegistered {spec : Dict} {k : Key} : specKind spec = .ok .state →
      item spec (.str "ref") = some (.key k) → (Val.key k).truthy = true →
      (∀ id, k = .str id → reg id = none) → Refused reg node (.dict spec)
  | notAState {spec : Dict} {klass : Klass ν L} : specKind spec = .ok .state →
      RefersTo reg spec klass → klass.isState = false → Refused reg node (.dict spec)
  | constructor {spec kwargs : Dict} {klass : Klass ν L} {e : HfsmError} :
      specKind spec = .ok .state → RefersTo reg spec klass → klass.isState = true →
      Kwargs spec kwargs → klass.make node kwargs = .error (.raised (.hfsm e)) →
      Refused reg node (.dict spec)
  | child {spec before after : Dict} {c : Key × Val} {kind : SpecKind} :
      specKind spec = .ok kind → HeaderUsable kind spec →
      orElse (item spec (.str "children")) (.dict []) = .dict (before ++ c :: after) →
      (∀ b ∈ before, Accepted reg node b.2) →
      (∀ b ∈ before, EntryUsable (orElse (item spec (.str "transitions")) (.dict [])) b.1) →
      Refused reg node c.2 → Refused reg node (.dict spec)
  | noRegions {spec : Dict} : specKind spec = .ok .parallel →
      (orElse (item spec (.str "regions")) (.dict [])).truthy = false →
      Refused reg node (.dict spec)
  | region {spec before after : Dict} {r : Key × Val} : specKind spec = .ok .parallel →
      orElse (item spec (.str "regions")) (.dict []) = .dict (before ++ r :: after) →
      (∀ b ∈ before, RegionAccepted reg node b) → r.2.contains (ε := Raised) "state" = .ok false →
      Refused reg node (.dict spec)
  | regionState {spec before after : Dict} {r : Key × Val} {state : Val} :
      specKind spec = .ok .parallel →
      orElse (item spec (.str "regions")) (.dict []) = .dict (before ++ r :: after) →
      (∀ b ∈ before, RegionAccepted reg node b) → regionState r.1 r.2 = .ok state →
      Refused reg node state → Refused reg node (.dict spec)
  | policy {spec regions : Dict} : specKind spec = .ok .parallel →
      orElse (item spec (.str "regions")) (.dict []) = .dict regions → regions ≠ [] →
      (∀ r ∈ regions, RegionAccepted reg node r) →
      ((item spec (.str "policy")).getD (.str "first_wins")).isStr "first_wins" = false →
      Refused reg node (.dict spec)

/-! ## The loops -/

section Loops

variable (reg : Registry ν L) (node : Option ν)

/-- The loader returns a state. -/
def Builds (s : Val) : Prop := ∃ t, buildFromSpec reg node s = .ok t

/-- The loader raises `HfsmError`. -/
def Refuses (s : Val) : Prop := ∃ e, buildFromSpec reg node s = .error (.raised (.hfsm e))

variable {reg node}

theorem childTransitions_builtin (transitions : Val) (name : Key) :
    Builtin (childTransitions transitions name) :=
  (Val.getD_builtin _ _ _).bind fun _ => Val.toDict_builtin _

theorem regionOutcomes_builtin (spec : Val) : Builtin (regionOutcomes spec) :=
  (Val.getD_builtin _ _ _).bind fun _ => Val.toDict_builtin _

/-- One step of the loop of `_attach_children`, for a name that is new. -/
theorem attach_cons_new {m : MachineInfo} {states : List (Key × Obj L)} {transitions : Val}
    {name : Key} {spec : Val} {rest : Dict} (hnew : hasKey states name = false) :
    attach reg node m states transitions ((name, spec) :: rest) = (do
      let child ← buildFromSpec reg node spec
      let entry ← childTransitions transitions name
      attach reg node { m with
          transitions := m.transitions ++ [(name, entry)]
          initialState := if m.initialState.isNull then .key name else m.initialState }
        (states ++ [(name, child)]) transitions rest) := by
  rw [attach_cons]
  cases buildFromSpec reg node spec with
  | error e => rfl
  | ok child =>
      simp only [ok_bind, childTransitions]
      cases transitions.getD (ε := Raised) name (.dict []) with
      | error e => rfl
      | ok given =>
          simp only [ok_bind, MachineInfo.add, hnew]
          cases (orElse (some given) (.dict [])).toDict (ε := Raised) with
          | error e => rfl
          | ok entry => rfl

theorem attach_builds {items : Dict} (hd : DistinctKeys items) {m : MachineInfo}
    {states : List (Key × Obj L)} {transitions : Val}
    (hnew : ∀ e ∈ items, hasKey states e.1 = false) :
    (∃ r, attach reg node m states transitions items = .ok r) ↔
      ∀ e ∈ items, Builds reg node e.2 ∧ EntryUsable transitions e.1 := by
  induction items generalizing m states with
  | nil => exact ⟨fun _ => nofun, fun _ => ⟨_, attach_nil ..⟩⟩
  | cons e rest ih =>
      obtain ⟨name, spec⟩ := e
      have hrest := (List.pairwise_cons.mp hd).2
      rw [attach_cons_new (hnew _ List.mem_cons_self), List.forall_mem_cons]
      constructor
      · rintro ⟨r, h⟩
        obtain ⟨child, hchild, h⟩ := bind_ok_iff.mp h
        obtain ⟨entry, hentry, h⟩ := bind_ok_iff.mp h
        exact ⟨⟨⟨child, hchild⟩, entry, hentry⟩,
          (ih hrest (hd.new_after hnew child)).mp ⟨r, h⟩⟩
      · rintro ⟨⟨⟨child, hchild⟩, entry, hentry⟩, h⟩
        rw [hchild, ok_bind, hentry]
        exact (ih hrest (hd.new_after hnew child)).mpr h

theorem attach_refuses {items : Dict} (hd : DistinctKeys items) {m : MachineInfo}
    {states : List (Key × Obj L)} {transitions : Val}
    (hnew : ∀ e ∈ items, hasKey states e.1 = false) :
    (∃ e, attach reg node m states transitions items = .error (.raised (.hfsm e))) ↔
      ∃ before c after, items = before ++ c :: after ∧
        (∀ b ∈ before, Builds reg node b.2 ∧ EntryUsable transitions b.1) ∧
        Refuses reg node c.2 := by
  induction items generalizing m states with
  | nil =>
      constructor
      · rintro ⟨e, h⟩
        rw [attach_nil] at h
        cases h
      · rintro ⟨before, c, after, h, -⟩
        simp at h
  | cons e rest ih =>
      obtain ⟨name, spec⟩ := e
      have hrest := (List.pairwise_cons.mp hd).2
      rw [attach_cons_new (hnew _ List.mem_cons_self)]
      constructor
      · rintro ⟨e, h⟩
        rcases bind_error_iff.mp h with h | ⟨child, hchild, h⟩
        · exact ⟨[], (name, spec), rest, rfl, nofun, e, h⟩
        -- the transitions of the child raise no `HfsmError`, so it comes from a later child
        · obtain ⟨entry, hentry, h⟩ := (childTransitions_builtin _ _).bind_raised_iff.mp h
          obtain ⟨before, c, after, rfl, hb, hc⟩ :=
            (ih hrest (hd.new_after hnew child)).mp ⟨e, h⟩
          refine ⟨(name, spec) :: before, c, after, rfl, ?_, hc⟩
          exact List.forall_mem_cons.mpr ⟨⟨⟨child, hchild⟩, entry, hentry⟩, hb⟩
      · rintro ⟨before, c, after, heq, hb, e, hc⟩
        cases before with
        | nil =>
            obtain ⟨rfl, rfl⟩ := List.cons.inj heq
            exact ⟨e, bind_error_iff.mpr (Or.inl hc)⟩
        | cons b before =>
            obtain ⟨rfl, rfl⟩ := List.cons.inj heq
            obtain ⟨⟨⟨child, hchild⟩, entry, hentry⟩, hb⟩ := List.forall_mem_cons.mp hb
            obtain ⟨e, he⟩ := (ih hrest (hd.new_after hnew child)).mpr
              ⟨before, c, after, rfl, hb, e, hc⟩
            refine ⟨e, ?_⟩
            rw [hchild, ok_bind, hentry]
            exact he

/-- A region whose state is built and whose mapping can be made a dict. -/
def RegionBuilds (reg : Registry ν L) (node : Option ν) (r : Key × Val) : Prop :=
  (∃ state, regionState r.1 r.2 = .ok state ∧ Builds reg node state) ∧
    ∃ outcomes, regionOutcomes r.2 = .ok outcomes

/-- A region for which the loader raises `HfsmError`. -/
def RegionRefuses (reg : Registry ν L) (node : Option ν) (r : Key × Val) : Prop :=
  r.2.contains (ε := Raised) "state" = .ok false ∨
    ∃ state, regionState r.1 r.2 = .ok state ∧ Refuses reg node state

theorem regionState_ok_iff {name : Key} {spec state : Val} : regionState name spec = .ok state ↔
    ∃ d, spec = .dict d ∧ item d (.str "state") = some state := by
  constructor
  · intro h
    obtain ⟨found, -, h⟩ := bind_ok_iff.mp h
    split at h
    · cases h
    · unfold Val.index at h
      split at h
      · split at h
        · rename_i hi
          obtain rfl := Except.ok.inj h
          exact ⟨_, rfl, hi⟩
        · cases h
      · cases h
  · rintro ⟨d, rfl, hi⟩
    have hkey : hasKey d (.str "state") = true := by rw [← item_isSome, hi]; rfl
    simp [regionState, Val.contains, hkey, Val.index, hi]

/-- `HfsmError` of the test for `'state'`. -/
theorem regionState_raised {name : Key} {spec : Val} {e : Raised} :
    regionState name spec = .error (.raised e) ↔
      spec.contains (ε := Raised) "state" = .ok false ∧
        e = .hfsm (.regionMissingState name spec) := by
  unfold regionState
  rw [(Val.contains_builtin _ _).bind_raised_iff]
  constructor
  · rintro ⟨found, hfound, h⟩
    cases found with
    | false =>
        cases h
        exact ⟨hfound, rfl⟩
    | true => exact absurd h (Val.index_builtin _ _ _)
  · rintro ⟨hfound, rfl⟩
    exact ⟨false, hfound, rfl⟩

theorem buildRegions_builds {items : Dict} {acc : List (Key × Region (Obj L))} :
    (∃ rs, buildRegions reg node acc items = .ok rs) ↔ ∀ r ∈ items, RegionBuilds reg node r := by
  induction items generalizing acc with
  | nil => exact ⟨fun _ => nofun, fun _ => ⟨_, buildRegions_nil ..⟩⟩
  | cons r rest ih =>
      obtain ⟨name, spec⟩ := r
      rw [buildRegions_cons, List.forall_mem_cons]
      constructor
      · rintro ⟨rs, h⟩
        obtain ⟨state, hstate, h⟩ := bind_ok_iff.mp h
        obtain ⟨inner, hinner, h⟩ := bind_ok_iff.mp h
        obtain ⟨outcomes, hout, h⟩ := bind_ok_iff.mp h
        exact ⟨⟨⟨state, hstate, inner, hinner⟩, outcomes, hout⟩, ih.mp ⟨rs, h⟩⟩
      · rintro ⟨⟨⟨state, hstate, inner, hinner⟩, outcomes, hout⟩, h⟩
        rw [hstate, ok_bind, hinner, ok_bind, hout]
        exact ih.mpr h

theorem buildRegions_refuses {items : Dict} {acc : List (Key × Region (Obj L))} :
    (∃ e, buildRegions reg node acc items = .error (.raised (.hfsm e))) ↔
      ∃ before r after, items = before ++ r :: after ∧
        (∀ b ∈ before, RegionBuilds reg node b) ∧ RegionRefuses reg node r := by
  induction items generalizing acc with
  | nil =>
      constructor
      · rintro ⟨e, h⟩
        rw [buildRegions_nil] at h
        cases h
      · rintro ⟨before, r, after, h, -⟩
        simp at h
  | cons r rest ih =>
      obtain ⟨name, spec⟩ := r
      rw [buildRegions_cons]
      constructor
      · rintro ⟨e, h⟩
        -- the test for `'state'`, the state, or a later region
        rcases bind_error_iff.mp h with h | ⟨state, hstate, h⟩
        · exact ⟨[], (name, spec), rest, rfl, nofun, Or.inl (regionState_raised.mp h).1⟩
        rcases bind_error_iff.mp h with h | ⟨inner, hinner, h⟩
        · exact ⟨[], (name, spec), rest, rfl, nofun, Or.inr ⟨state, hstate, e, h⟩⟩
        obtain ⟨outcomes, hout, h⟩ := (regionOutcomes_builtin _).bind_raised_iff.mp h
        obtain ⟨before, r, after, rfl, hb, hr⟩ := ih.mp ⟨e, h⟩
        refine ⟨(name, spec) :: before, r, after, rfl, ?_, hr⟩
        exact List.forall_mem_cons.mpr ⟨⟨⟨state, hstate, inner, hinner⟩, outcomes, hout⟩, hb⟩
      · rintro ⟨before, r, after, heq, hb, hr⟩
        cases before with
        | nil =>
            obtain ⟨rfl, rfl⟩ := List.cons.inj heq
            rcases hr with hr | ⟨state, hstate, e, he⟩
            · exact ⟨_, bind_error_iff.mpr (Or.inl (regionState_raised.mpr ⟨hr, rfl⟩))⟩
            · refine ⟨e, ?_⟩
              rw [hstate, ok_bind]
              exact bind_error_iff.mpr (Or.inl he)
        | cons b before =>
            obtain ⟨rfl, rfl⟩ := List.cons.inj heq
            obtain ⟨⟨⟨state, hstate, inner, hinner⟩, outcomes, hout⟩, hb⟩ :=
              List.forall_mem_cons.mp hb
            rw [hstate, ok_bind, hinner, ok_bind, hout]
            exact ih.mpr ⟨before, r, after, rfl, hb, hr⟩

/-- The regions that are built have the mappings of their specs. -/
theorem buildRegions_targets {items : Dict} (hd : DistinctKeys items)
    {acc rs : List (Key × Region (Obj L))} (hnew : ∀ e ∈ items, hasKey acc e.1 = false)
    (h : buildRegions reg node acc items = .ok rs) :
    rs.length = acc.length + items.length ∧
      (rs.flatMap fun r => r.2.outcomes.map Prod.snd)
        = (acc.flatMap fun r => r.2.outcomes.map Prod.snd)
          ++ items.flatMap fun e => regionTargets e.2 := by
  induction items generalizing acc with
  | nil =>
      rw [buildRegions_nil] at h
      obtain rfl := Except.ok.inj h
      simp
  | cons r rest ih =>
      obtain ⟨name, spec⟩ := r
      rw [buildRegions_cons] at h
      obtain ⟨state, hstate, h⟩ := bind_ok_iff.mp h
      obtain ⟨inner, hinner, h⟩ := bind_ok_iff.mp h
      obtain ⟨outcomes, hout, h⟩ := bind_ok_iff.mp h
      rw [setItem_of_not_hasKey (hnew _ List.mem_cons_self)] at h
      obtain ⟨hlen, htargets⟩ := ih (List.pairwise_cons.mp hd).2 (hd.new_after hnew _) h
      refine ⟨by simp [hlen]; omega, ?_⟩
      rw [htargets]
      simp [regionTargets, hout]

/-! ## The builders -/

theorem resolve_raised {ref : Val} {e : Raised} :
    resolve reg ref = .error (.raised e) ↔ ∃ k, ref = .key k ∧
      (∀ id, k = .str id → reg id = none) ∧ e = .hfsm (.notRegistered k) := by
  cases ref with
  | key k =>
      cases k with
      | str id =>
          cases hreg : reg id with
          | none => simp [resolve, Val.hash, hreg, hfsmError, eq_comm]
          | some klass' => simp [resolve, Val.hash, hreg]
      | _ => simp [resolve, Val.hash, hfsmError, eq_comm]
  | _ => simp [resolve, Val.hash]

/-- `spec.get('ref')` counts as false, or is there. -/
theorem ref_cases (spec : Dict) : ((item spec (.str "ref")).getD .null).truthy = false ∨
    ∃ ref, item spec (.str "ref") = some ref ∧ ref.truthy = true := by
  cases hi : item spec (.str "ref") with
  | none => exact Or.inl rfl
  | some ref =>
      cases ht : ref.truthy with
      | false => exact Or.inl ht
      | true => exact Or.inr ⟨ref, rfl, ht⟩

theorem RefersTo.item_ref {spec : Dict} {klass : Klass ν L} (h : RefersTo reg spec klass) :
    ∃ ref, item spec (.str "ref") = some ref ∧ ref.truthy = true ∧
      resolve reg ref = .ok klass := by
  obtain ⟨id, hi, hne, hreg⟩ := h
  exact ⟨.str id, hi, by simpa [Val.truthy] using hne, resolve_ok.mpr ⟨id, rfl, hreg⟩⟩

theorem refersTo_of_resolve {spec : Dict} {ref : Val} {klass : Klass ν L}
    (hi : item spec (.str "ref") = some ref) (ht : ref.truthy = true)
    (h : resolve reg ref = .ok klass) : RefersTo reg spec klass := by
  obtain ⟨id, rfl, hreg⟩ := resolve_ok.mp h
  exact ⟨id, hi, by simpa [Val.truthy] using ht, hreg⟩

theorem buildState_ok_iff {spec : Dict} {x : L} :
    buildState reg node spec = .ok x ↔ ∃ klass kwargs, RefersTo reg spec klass ∧
      klass.isState = true ∧ Kwargs spec kwargs ∧ klass.make node kwargs = .ok x := by
  constructor
  · intro h
    rcases ref_cases spec with hmiss | ⟨ref, hi, ht⟩
    · rw [buildState_missing hmiss] at h
      cases h
    · rw [buildState_ref hi ht] at h
      obtain ⟨klass, hklass, h⟩ := bind_ok_iff.mp h
      split at h
      · cases h
      · rename_i hstate
        obtain ⟨kwargs, hkwargs, h⟩ := bind_ok_iff.mp h
        have href := refersTo_of_resolve hi ht hklass
        exact ⟨klass, kwargs, href, by simpa using hstate, hkwargs, h⟩
  · rintro ⟨klass, kwargs, href, hstate, hkwargs, hmake⟩
    obtain ⟨ref, hi, ht, hresolve⟩ := href.item_ref
    rw [buildState_ref hi ht, hresolve, ok_bind, if_neg (by simp [hstate]), hkwargs]
    exact hmake

theorem buildState_builds {spec : Dict} :
    (∃ x, buildState reg node spec = .ok x) ↔ ∃ klass kwargs x, RefersTo reg spec klass ∧
      klass.isState = true ∧ Kwargs spec kwargs ∧ klass.make node kwargs = .ok x := by
  constructor
  · rintro ⟨x, h⟩
    obtain ⟨klass, kwargs, hklass⟩ := buildState_ok_iff.mp h
    exact ⟨klass, kwargs, x, hklass⟩
  · rintro ⟨klass, kwargs, x, hklass⟩
    exact ⟨x, buildState_ok_iff.mpr ⟨klass, kwargs, hklass⟩⟩

theorem buildState_refuses {spec : Dict} :
    (∃ e, buildState reg node spec = .error (.raised (.hfsm e))) ↔
      ((item spec (.str "ref")).getD .null).truthy = false ∨
      (∃ k, item spec (.str "ref") = some (.key k) ∧ (Val.key k).truthy = true ∧
        ∀ id, k = .str id → reg id = none) ∨
      (∃ klass, RefersTo reg spec klass ∧ klass.isState = false) ∨
      ∃ klass kwargs e, RefersTo reg spec klass ∧ klass.isState = true ∧ Kwargs spec kwargs ∧
        klass.make node kwargs = .error (.raised (.hfsm e)) := by
  constructor
  · rintro ⟨e, h⟩
    rcases ref_cases spec with hmiss | ⟨ref, hi, ht⟩
    · exact Or.inl hmiss
    · rw [buildState_ref hi ht] at h
      rcases bind_error_iff.mp h with h | ⟨klass, hklass, h⟩
      · obtain ⟨k, rfl, hnone, -⟩ := resolve_raised.mp h
        exact Or.inr (Or.inl ⟨k, hi, ht, hnone⟩)
      · have href := refersTo_of_resolve hi ht hklass
        split at h
        · rename_i hstate
          exact Or.inr (Or.inr (Or.inl ⟨klass, href, hstate⟩))
        · rename_i hstate
          obtain ⟨kwargs, hkwargs, h⟩ := (Val.toDict_builtin _).bind_raised_iff.mp h
          exact Or.inr (Or.inr (Or.inr ⟨klass, kwargs, e, href, by simpa using hstate, hkwargs, h⟩))
  · rintro (hmiss | ⟨k, hi, ht, hnone⟩ | ⟨klass, href, hstate⟩ |
      ⟨klass, kwargs, e, href, hstate, hkwargs, hmake⟩)
    · exact ⟨_, buildState_missing hmiss⟩
    · refine ⟨.notRegistered k, ?_⟩
      rw [buildState_ref hi ht, resolve_raised.mpr ⟨k, rfl, hnone, rfl⟩]
      rfl
    · obtain ⟨ref, hi, ht, hresolve⟩ := href.item_ref
      refine ⟨.notAState ref klass.name, ?_⟩
      rw [buildState_ref hi ht, hresolve, ok_bind, if_pos hstate]
      rfl
    · obtain ⟨ref, hi, ht, hresolve⟩ := href.item_ref
      refine ⟨e, ?_⟩
      rw [buildState_ref hi ht, hresolve, ok_bind, if_neg (by simp [hstate]), hkwargs]
      exact hmake

/-- `_build_state_machine` or `_build_behavior_sm`, before the children. -/
def machineHeader (kind : SpecKind) (spec : Dict) : Except PyExc MachineInfo :=
  match kind with
  | .behaviorSM => emptyBehaviorSM spec
  | _ => emptyStateMachine spec

theorem machineHeader_ok {kind : SpecKind} {spec : Dict}
    (hk : kind = .stateMachine ∨ kind = .behaviorSM) :
    (∃ m, machineHeader kind spec = .ok m) ↔ HeaderUsable kind spec := by
  constructor
  · rintro ⟨m, h⟩
    rcases hk with rfl | rfl
    · obtain ⟨outcomes, hout, -⟩ := bind_ok_iff.mp h
      exact ⟨Or.inl rfl, ⟨outcomes, hout⟩, nofun⟩
    · obtain ⟨outcomes, hout, h⟩ := bind_ok_iff.mp h
      obtain ⟨parameters, hpar, -⟩ := bind_ok_iff.mp h
      exact ⟨Or.inr rfl, ⟨outcomes, hout⟩, fun _ => ⟨parameters, hpar⟩⟩
  · rintro ⟨-, ⟨outcomes, hout⟩, hpar⟩
    rcases hk with rfl | rfl
    · exact ⟨_, bind_ok_iff.mpr ⟨outcomes, hout, rfl⟩⟩
    · obtain ⟨parameters, hpar⟩ := hpar rfl
      exact ⟨_, bind_ok_iff.mpr ⟨outcomes, hout, bind_ok_iff.mpr ⟨parameters, hpar, rfl⟩⟩⟩

theorem machineHeader_builtin (kind : SpecKind) (spec : Dict) :
    Builtin (machineHeader kind spec) := by
  have hsm : Builtin (emptyStateMachine spec) := (Val.iter_builtin _).bind fun _ => .ok _
  have hbsm : Builtin (emptyBehaviorSM spec) :=
    (Val.iter_builtin _).bind fun _ => (Val.iter_builtin _).bind fun _ => .ok _
  cases kind with
  | behaviorSM => exact hbsm
  | _ => exact hsm

theorem build_machine {kind : SpecKind} {spec : Dict} (hk : specKind spec = .ok kind)
    (hm : kind = .stateMachine ∨ kind = .behaviorSM) :
    buildFromSpec reg node (.dict spec)
      = (machineHeader kind spec >>= fun m => attachChildren reg node m spec) := by
  rw [buildFromSpec, hk]
  rcases hm with rfl | rfl
  · rfl
  · rfl

theorem attachChildren_builds {spec : Dict} (hs : IsJson (.dict spec)) {m : MachineInfo} :
    (∃ t, attachChildren reg node m spec = .ok t) ↔ ∃ children,
      orElse (item spec (.str "children")) (.dict []) = .dict children ∧
      ∀ c ∈ children, Builds reg node c.2 ∧
        EntryUsable (orElse (item spec (.str "transitions")) (.dict [])) c.1 := by
  constructor
  · rintro ⟨t, h⟩
    obtain ⟨children, m', states, hchildren, hattach, -⟩ := attachChildren_ok h
    have hd := (hchildren ▸ hs.orElse (.str "children")).distinct
    exact ⟨children, hchildren, (attach_builds hd fun _ _ => rfl).mp ⟨_, hattach⟩⟩
  · rintro ⟨children, hchildren, hall⟩
    have hd := (hchildren ▸ hs.orElse (.str "children")).distinct
    obtain ⟨⟨m', states⟩, hattach⟩ : ∃ r, attach reg node m []
        (orElse (item spec (.str "transitions")) (.dict [])) children = .ok r :=
      (attach_builds hd fun _ _ => rfl).mpr hall
    refine ⟨.machine m' states, ?_⟩
    rw [attachChildren, hchildren, attachAll, hattach]
    rfl

theorem attachChildren_refuses {spec : Dict} (hs : IsJson (.dict spec)) {m : MachineInfo} :
    (∃ e, attachChildren reg node m spec = .error (.raised (.hfsm e))) ↔ ∃ before c after,
      orElse (item spec (.str "children")) (.dict []) = .dict (before ++ c :: after) ∧
      (∀ b ∈ before, Builds reg node b.2 ∧
        EntryUsable (orElse (item spec (.str "transitions")) (.dict [])) b.1) ∧
      Refuses reg node c.2 := by
  constructor
  · rintro ⟨e, h⟩
    rw [attachChildren, attachAll.eq_def] at h
    split at h
    · rename_i children hchildren
      have hd := (hchildren ▸ hs.orElse (.str "children")).distinct
      rcases bind_error_iff.mp h with h | ⟨_, -, h⟩
      · obtain ⟨before, c, after, rfl, hb, hc⟩ := (attach_refuses hd fun _ _ => rfl).mp ⟨e, h⟩
        exact ⟨before, c, after, hchildren, hb, hc⟩
      · cases h
    · cases h
  · rintro ⟨before, c, after, hchildren, hb, hc⟩
    have hd := (hchildren ▸ hs.orElse (.str "children")).distinct
    obtain ⟨e, he⟩ : ∃ e, attach reg node m []
        (orElse (item spec (.str "transitions")) (.dict [])) (before ++ c :: after)
          = .error (.raised (.hfsm e)) :=
      (attach_refuses hd fun _ _ => rfl).mpr ⟨before, c, after, rfl, hb, hc⟩
    refine ⟨e, ?_⟩
    rw [attachChildren, hchildren, attachAll, he]
    rfl

/-- `Parallel.__init__` of the regions that have been built. -/
theorem parallelInit_builds {regions : List (Key × Region (Obj L))} {policy : Val} :
    (∃ t, parallelInit regions policy = .ok t) ↔ regions ≠ [] ∧
      policy.isStr "first_wins" = true ∧ ∃ outcomes, sortedSet (ε := Raised)
        (regions.flatMap fun r => r.2.outcomes.map Prod.snd) = .ok outcomes := by
  constructor
  · rintro ⟨t, h⟩
    obtain ⟨hne, hpolicy, outcomes, hsorted, -⟩ := parallelInit_ok_iff.mp h
    exact ⟨hne, hpolicy, outcomes, hsorted⟩
  · rintro ⟨hne, hpolicy, outcomes, hsorted⟩
    exact ⟨_, parallelInit_ok_iff.mpr ⟨hne, hpolicy, outcomes, hsorted, rfl⟩⟩

theorem parallelInit_refuses {regions : List (Key × Region (Obj L))} {policy : Val} :
    (∃ e, parallelInit regions policy = .error (.raised (.hfsm e))) ↔
      regions = [] ∨ policy.isStr "first_wins" = false := by
  unfold parallelInit
  constructor
  · rintro ⟨e, h⟩
    split at h
    · rename_i hne
      exact Or.inl (by simpa using hne)
    · split at h
      · rename_i hpolicy
        exact Or.inr (by simpa using hpolicy)
      -- sorting the outcomes may raise `TypeError`, but no `HfsmError`
      · exact absurd h (((sortedSet_builtin _).bind fun _ => .ok _) _)
  · intro h
    split
    · exact ⟨_, rfl⟩
    · rename_i hne
      have hpolicy := h.resolve_left fun h => hne (by simp [h])
      exact ⟨_, by rw [if_pos (by simp [hpolicy])]; rfl⟩

theorem buildParallel_noRegions {spec : Dict}
    (h : (orElse (item spec (.str "regions")) (.dict [])).truthy = false) :
    buildParallel reg node spec = hfsmError .noRegions := by
  rw [buildParallel]
  simp [h]

theorem buildParallel_dict {spec items : Dict}
    (h : orElse (item spec (.str "regions")) (.dict []) = .dict items) (hne : items ≠ []) :
    buildParallel reg node spec = (buildRegions reg node [] items >>= fun rs =>
      parallelInit rs ((item spec (.str "policy")).getD (.str "first_wins"))) := by
  have ht : (Val.dict items).truthy = true := by simpa [Val.truthy] using hne
  rw [buildParallel]
  simp [h, ht, buildRegionsOf]

theorem buildParallel_noItems {spec : Dict}
    (ht : (orElse (item spec (.str "regions")) (.dict [])).truthy = true)
    (h : ∀ items, orElse (item spec (.str "regions")) (.dict []) ≠ .dict items) :
    buildParallel reg node spec = .error .attributeError := by
  rw [buildParallel]
  cases hr : orElse (item spec (.str "regions")) (.dict []) with
  | dict items => exact absurd hr (h items)
  | key k =>
      rw [hr] at ht
      simp [ht, buildRegionsOf]
  | list xs =>
      rw [hr] at ht
      simp [ht, buildRegionsOf]

/-- `regions` counts as false, is a dict, or is nothing that has items. -/
theorem regions_cases (spec : Dict) :
    (orElse (item spec (.str "regions")) (.dict [])).truthy = false ∨
      (∃ items, orElse (item spec (.str "regions")) (.dict []) = .dict items ∧ items ≠ []) ∨
      ((orElse (item spec (.str "regions")) (.dict [])).truthy = true ∧
        ∀ items, orElse (item spec (.str "regions")) (.dict []) ≠ .dict items) := by
  cases ht : (orElse (item spec (.str "regions")) (.dict [])).truthy with
  | false => exact Or.inl rfl
  | true =>
      cases hr : orElse (item spec (.str "regions")) (.dict []) with
      | dict items =>
          rw [hr] at ht
          exact Or.inr (Or.inl ⟨items, rfl, by simpa [Val.truthy] using ht⟩)
      | key k => exact Or.inr (Or.inr ⟨rfl, by simp⟩)
      | list xs => exact Or.inr (Or.inr ⟨rfl, by simp⟩)

/-- The loop over the regions and `Parallel.__init__`. -/
theorem regions_init {items : Dict} (hd : DistinctKeys items) (hne : items ≠ [])
    {rs : List (Key × Region (Obj L))} (h : buildRegions reg node [] items = .ok rs) :
    rs ≠ [] ∧ (rs.flatMap fun r => r.2.outcomes.map Prod.snd)
      = items.flatMap fun e => regionTargets e.2 := by
  obtain ⟨hlen, htargets⟩ := buildRegions_targets hd (fun _ _ => rfl) h
  refine ⟨?_, by simpa using htargets⟩
  rintro rfl
  cases items with
  | nil => exact hne rfl
  | cons e rest => simp at hlen

theorem buildParallel_builds {spec : Dict} (hs : IsJson (.dict spec)) :
    (∃ t, buildParallel reg node spec = .ok t) ↔ ∃ regions,
      orElse (item spec (.str "regions")) (.dict []) = .dict regions ∧ regions ≠ [] ∧
      (∀ r ∈ regions, RegionBuilds reg node r) ∧
      ((item spec (.str "policy")).getD (.str "first_wins")).isStr "first_wins" = true ∧
      ∃ outcomes, sortedSet (ε := Raised) (regions.flatMap fun r => regionTargets r.2)
        = .ok outcomes := by
  constructor
  · rintro ⟨t, h⟩
    rcases regions_cases spec with hno | ⟨items, hitems, hne⟩ | ⟨ht, hno⟩
    · rw [buildParallel_noRegions hno] at h
      cases h
    · have hd := (hitems ▸ hs.orElse (.str "regions")).distinct
      rw [buildParallel_dict hitems hne] at h
      obtain ⟨rs, hrs, h⟩ := bind_ok_iff.mp h
      obtain ⟨-, hpolicy, hsorted⟩ := parallelInit_builds.mp ⟨t, h⟩
      rw [(regions_init hd hne hrs).2] at hsorted
      exact ⟨items, hitems, hne, buildRegions_builds.mp ⟨rs, hrs⟩, hpolicy, hsorted⟩
    · rw [buildParallel_noItems ht hno] at h
      cases h
  · rintro ⟨items, hitems, hne, hall, hpolicy, hsorted⟩
    have hd := (hitems ▸ hs.orElse (.str "regions")).distinct
    obtain ⟨rs, hrs⟩ : ∃ rs, buildRegions reg node [] items = .ok rs :=
      buildRegions_builds.mpr hall
    obtain ⟨hne', htargets⟩ := regions_init hd hne hrs
    rw [← htargets] at hsorted
    rw [buildParallel_dict hitems hne, hrs]
    exact parallelInit_builds.mpr ⟨hne', hpolicy, hsorted⟩

theorem buildParallel_refuses {spec : Dict} (hs : IsJson (.dict spec)) :
    (∃ e, buildParallel reg node spec = .error (.raised (.hfsm e))) ↔
      (orElse (item spec (.str "regions")) (.dict [])).truthy = false ∨
      (∃ before r after,
        orElse (item spec (.str "regions")) (.dict []) = .dict (before ++ r :: after) ∧
        (∀ b ∈ before, RegionBuilds reg node b) ∧ RegionRefuses reg node r) ∨
      ∃ regions, orElse (item spec (.str "regions")) (.dict []) = .dict regions ∧
        regions ≠ [] ∧ (∀ r ∈ regions, RegionBuilds reg node r) ∧
        ((item spec (.str "policy")).getD (.str "first_wins")).isStr "first_wins" = false := by
  constructor
  · rintro ⟨e, h⟩
    rcases regions_cases spec with hno | ⟨items, hitems, hne⟩ | ⟨ht, hno⟩
    · exact Or.inl hno
    · have hd := (hitems ▸ hs.orElse (.str "regions")).distinct
      rw [buildParallel_dict hitems hne] at h
      rcases bind_error_iff.mp h with h | ⟨rs, hrs, h⟩
      · obtain ⟨before, r, after, rfl, hb, hr⟩ := buildRegions_refuses.mp ⟨e, h⟩
        exact Or.inr (Or.inl ⟨before, r, after, hitems, hb, hr⟩)
      -- there are regions, so `Parallel.__init__` can only reject the policy
      · have hpolicy := (parallelInit_refuses.mp ⟨e, h⟩).resolve_left (regions_init hd hne hrs).1
        exact Or.inr (Or.inr ⟨items, hitems, hne, buildRegions_builds.mp ⟨rs, hrs⟩, hpolicy⟩)
    · rw [buildParallel_noItems ht hno] at h
      cases h
  · rintro (hno | ⟨before, r, after, hitems, hb, hr⟩ | ⟨items, hitems, hne, hall, hpolicy⟩)
    · exact ⟨.noRegions, buildParallel_noRegions hno⟩
    · obtain ⟨e, he⟩ : ∃ e, buildRegions reg node [] (before ++ r :: after)
          = .error (.raised (.hfsm e)) :=
        buildRegions_refuses.mpr ⟨before, r, after, rfl, hb, hr⟩
      refine ⟨e, ?_⟩
      rw [buildParallel_dict hitems (by simp), he]
      rfl
    · obtain ⟨rs, hrs⟩ : ∃ rs, buildRegions reg node [] items = .ok rs :=
        buildRegions_builds.mpr hall
      rw [buildParallel_dict hitems hne, hrs]
      exact parallelInit_refuses.mpr (Or.inr hpolicy)

end Loops

/-! ## Every spec -/

section Every

variable {reg : Registry ν L} {node : Option ν}

theorem specKind_error {spec : Dict} {e : PyExc} (h : specKind spec = .error e) :
    ∃ kind, e = .raised (.hfsm (.unknownKind kind)) := by
  simp only [specKind] at h
  split at h
  · cases h
  · split at h
    · cases h
    · split at h
      · cases h
      · split at h
        · cases h
        · exact ⟨_, (Except.error.inj h).symm⟩

section Inversion

variable {spec : Dict}

/-- The spec of a machine is none of a leaf or of a parallel. -/
theorem machineKind_ne {kind : SpecKind} (hk : specKind spec = .ok kind)
    (hm : kind = .stateMachine ∨ kind = .behaviorSM) :
    specKind spec ≠ .ok .state ∧ specKind spec ≠ .ok .parallel := by
  rw [hk]
  rcases hm with rfl | rfl
  · exact ⟨nofun, nofun⟩
  · exact ⟨nofun, nofun⟩

theorem accepted_state_iff (hk : specKind spec = .ok .state) :
    Accepted reg node (.dict spec) ↔ ∃ klass kwargs x, RefersTo reg spec klass ∧
      klass.isState = true ∧ Kwargs spec kwargs ∧ klass.make node kwargs = .ok x := by
  constructor
  · intro h
    cases h with
    | state _ href hstate hkwargs hmake => exact ⟨_, _, _, href, hstate, hkwargs, hmake⟩
    | machine hk' hheader => exact absurd hk (machineKind_ne hk' hheader.isMachine).1
    | parallel hk' => rw [hk] at hk'; cases hk'
  · rintro ⟨klass, kwargs, x, href, hstate, hkwargs, hmake⟩
    exact .state hk href hstate hkwargs hmake

theorem accepted_machine_iff {kind : SpecKind} (hk : specKind spec = .ok kind)
    (hm : kind = .stateMachine ∨ kind = .behaviorSM) :
    Accepted reg node (.dict spec) ↔ HeaderUsable kind spec ∧ ∃ children,
      orElse (item spec (.str "children")) (.dict []) = .dict children ∧
      ∀ c ∈ children, Accepted reg node c.2 ∧
        EntryUsable (orElse (item spec (.str "transitions")) (.dict [])) c.1 := by
  constructor
  · intro h
    cases h with
    | state hk' => exact absurd hk' (machineKind_ne hk hm).1
    | machine hk' hheader hchildren hall hentries =>
        obtain rfl := Except.ok.inj (hk.symm.trans hk')
        exact ⟨hheader, _, hchildren, fun c hc => ⟨hall c hc, hentries c hc⟩⟩
    | parallel hk' => exact absurd hk' (machineKind_ne hk hm).2
  · rintro ⟨hheader, children, hchildren, hall⟩
    exact .machine hk hheader hchildren (fun c hc => (hall c hc).1) fun c hc => (hall c hc).2

theorem accepted_parallel_iff (hk : specKind spec = .ok .parallel) :
    Accepted reg node (.dict spec) ↔ ∃ regions,
      orElse (item spec (.str "regions")) (.dict []) = .dict regions ∧ regions ≠ [] ∧
      (∀ r ∈ regions, RegionAccepted reg node r) ∧
      ((item spec (.str "policy")).getD (.str "first_wins")).isStr "first_wins" = true ∧
      ∃ outcomes, sortedSet (ε := Raised) (regions.flatMap fun r => regionTargets r.2)
        = .ok outcomes := by
  constructor
  · intro h
    cases h with
    | state hk' => rw [hk] at hk'; cases hk'
    | machine hk' hheader => exact absurd hk (machineKind_ne hk' hheader.isMachine).2
    | parallel _ hregions hne hstate hacc hout hpolicy hsorted =>
        refine ⟨_, hregions, hne, fun r hr => ⟨?_, hout r hr⟩, hpolicy, hsorted⟩
        obtain ⟨state, hs⟩ := hstate r hr
        exact ⟨state, hs, hacc r hr state hs⟩
  · rintro ⟨regions, hregions, hne, hall, hpolicy, hsorted⟩
    refine .parallel hk hregions hne (fun r hr => ?_) (fun r hr state hs => ?_)
      (fun r hr => (hall r hr).2) hpolicy hsorted
    · obtain ⟨⟨state, hs, -⟩, -⟩ := hall r hr
      exact ⟨state, hs⟩
    · obtain ⟨⟨state', hs', hacc⟩, -⟩ := hall r hr
      rw [hs] at hs'
      obtain rfl := Except.ok.inj hs'
      exact hacc

theorem refused_state_iff (hk : specKind spec = .ok .state) :
    Refused reg node (.dict spec) ↔ ((item spec (.str "ref")).getD .null).truthy = false ∨
      (∃ k, item spec (.str "ref") = some (.key k) ∧ (Val.key k).truthy = true ∧
        ∀ id, k = .str id → reg id = none) ∨
      (∃ klass, RefersTo reg spec klass ∧ klass.isState = false) ∨
      ∃ klass kwargs e, RefersTo reg spec klass ∧ klass.isState = true ∧ Kwargs spec kwargs ∧
        klass.make node kwargs = .error (.raised (.hfsm e)) := by
  constructor
  · intro h
    cases h with
    | notADict h => exact absurd rfl (h spec)
    | unknownKind hk' => rw [hk] at hk'; cases hk'
    | missingRef _ h => exact Or.inl h
    | notRegistered _ hi ht hnone => exact Or.inr (Or.inl ⟨_, hi, ht, hnone⟩)
    | notAState _ href hstate => exact Or.inr (Or.inr (Or.inl ⟨_, href, hstate⟩))
    | constructor _ href hstate hkwargs hmake =>
        exact Or.inr (Or.inr (Or.inr ⟨_, _, _, href, hstate, hkwargs, hmake⟩))
    | child hk' hheader => exact absurd hk (machineKind_ne hk' hheader.isMachine).1
    | noRegions hk' => rw [hk] at hk'; cases hk'
    | region hk' => rw [hk] at hk'; cases hk'
    | regionState hk' => rw [hk] at hk'; cases hk'
    | policy hk' => rw [hk] at hk'; cases hk'
  · rintro (h | ⟨k, hi, ht, hnone⟩ | ⟨klass, href, hstate⟩ |
      ⟨klass, kwargs, e, href, hstate, hkwargs, hmake⟩)
    · exact .missingRef hk h
    · exact .notRegistered hk hi ht hnone
    · exact .notAState hk href hstate
    · exact .constructor hk href hstate hkwargs hmake

theorem refused_machine_iff {kind : SpecKind} (hk : specKind spec = .ok kind)
    (hm : kind = .stateMachine ∨ kind = .behaviorSM) :
    Refused reg node (.dict spec) ↔ HeaderUsable kind spec ∧ ∃ before c after,
      orElse (item spec (.str "children")) (.dict []) = .dict (before ++ c :: after) ∧
      (∀ b ∈ before, Accepted reg node b.2 ∧
        EntryUsable (orElse (item spec (.str "transitions")) (.dict [])) b.1) ∧
      Refused reg node c.2 := by
  obtain ⟨hstate, hparallel⟩ := machineKind_ne hk hm
  constructor
  · intro h
    cases h with
    | notADict h => exact absurd rfl (h spec)
    | unknownKind hk' => rw [hk] at hk'; cases hk'
    | missingRef hk' => exact absurd hk' hstate
    | notRegistered hk' => exact absurd hk' hstate
    | notAState hk' => exact absurd hk' hstate
    | constructor hk' => exact absurd hk' hstate
    | child hk' hheader hchildren hacc hentries href =>
        obtain rfl := Except.ok.inj (hk.symm.trans hk')
        exact ⟨hheader, _, _, _, hchildren, fun b hb => ⟨hacc b hb, hentries b hb⟩, href⟩
    | noRegions hk' => exact absurd hk' hparallel
    | region hk' => exact absurd hk' hparallel
    | regionState hk' => exact absurd hk' hparallel
    | policy hk' => exact absurd hk' hparallel
  · rintro ⟨hheader, before, c, after, hchildren, hb, hc⟩
    exact .child hk hheader hchildren (fun b h => (hb b h).1) (fun b h => (hb b h).2) hc

/-- A region that is refused, in terms of `Refused`. -/
def RegionRefused (reg : Registry ν L) (node : Option ν) (r : Key × Val) : Prop :=
  r.2.contains (ε := Raised) "state" = .ok false ∨
    ∃ state, regionState r.1 r.2 = .ok state ∧ Refused reg node state

theorem refused_parallel_iff (hk : specKind spec = .ok .parallel) :
    Refused reg node (.dict spec) ↔
      (orElse (item spec (.str "regions")) (.dict [])).truthy = false ∨
      (∃ before r after,
        orElse (item spec (.str "regions")) (.dict []) = .dict (before ++ r :: after) ∧
        (∀ b ∈ before, RegionAccepted reg node b) ∧ RegionRefused reg node r) ∨
      ∃ regions, orElse (item spec (.str "regions")) (.dict []) = .dict regions ∧
        regions ≠ [] ∧ (∀ r ∈ regions, RegionAccepted reg node r) ∧
        ((item spec (.str "policy")).getD (.str "first_wins")).isStr "first_wins" = false := by
  have hstate : ¬ specKind spec = .ok .state := by rw [hk]; nofun
  constructor
  · intro h
    cases h with
    | notADict h => exact absurd rfl (h spec)
    | unknownKind hk' => rw [hk] at hk'; cases hk'
    | missingRef hk' => exact absurd hk' hstate
    | notRegistered hk' => exact absurd hk' hstate
    | notAState hk' => exact absurd hk' hstate
    | constructor hk' => exact absurd hk' hstate
    | child hk' hheader => exact absurd hk (machineKind_ne hk' hheader.isMachine).2
    | noRegions _ h => exact Or.inl h
    | region _ hregions hb hr => exact Or.inr (Or.inl ⟨_, _, _, hregions, hb, Or.inl hr⟩)
    | regionState _ hregions hb hs href =>
        exact Or.inr (Or.inl ⟨_, _, _, hregions, hb, Or.inr ⟨_, hs, href⟩⟩)
    | policy _ hregions hne hall hpolicy => exact Or.inr (Or.inr ⟨_, hregions, hne, hall, hpolicy⟩)
  · rintro (h | ⟨before, r, after, hregions, hb, hr | ⟨state, hs, href⟩⟩ |
      ⟨regions, hregions, hne, hall, hpolicy⟩)
    · exact .noRegions hk h
    · exact .region hk hregions hb hr
    · exact .regionState hk hregions hb hs href
    · exact .policy hk hregions hne hall hpolicy

end Inversion

section Step

variable {spec : Dict}

theorem state_iff (hk : specKind spec = .ok .state) :
    (Builds reg node (.dict spec) ↔ Accepted reg node (.dict spec)) ∧
      (Refuses reg node (.dict spec) ↔ Refused reg node (.dict spec)) := by
  have hbuild : buildFromSpec reg node (.dict spec)
      = (buildState reg node spec >>= fun x => .ok (.leaf x)) := by
    rw [buildFromSpec, hk]
    rfl
  rw [accepted_state_iff hk, refused_state_iff hk, ← buildState_builds, ← buildState_refuses,
    Builds, Refuses, hbuild]
  refine ⟨⟨?_, ?_⟩, ⟨?_, ?_⟩⟩
  · rintro ⟨t, h⟩
    obtain ⟨x, hx, -⟩ := bind_ok_iff.mp h
    exact ⟨x, hx⟩
  · rintro ⟨x, hx⟩
    exact ⟨.leaf x, bind_ok_iff.mpr ⟨x, hx, rfl⟩⟩
  · rintro ⟨e, h⟩
    rcases bind_error_iff.mp h with h | ⟨x, -, h⟩
    · exact ⟨e, h⟩
    · cases h
  · rintro ⟨e, h⟩
    exact ⟨e, bind_error_iff.mpr (Or.inl h)⟩

/-- The specs in a dict are smaller JSON values. -/
theorem child_smaller (hs : IsJson (.dict spec)) {k : Key} {items : Dict}
    (hitems : orElse (item spec k) (.dict []) = .dict items) {e : Key × Val} (he : e ∈ items) :
    sizeOf e.2 < sizeOf (Val.dict spec) ∧ IsJson e.2 :=
  ⟨sizeOf_child_lt hitems he, (hitems ▸ hs.orElse k).mem he⟩

theorem machine_iff {kind : SpecKind} (hk : specKind spec = .ok kind)
    (hm : kind = .stateMachine ∨ kind = .behaviorSM) (hs : IsJson (.dict spec))
    (ih : ∀ c, sizeOf c < sizeOf (Val.dict spec) → IsJson c →
      (Builds reg node c ↔ Accepted reg node c) ∧ (Refuses reg node c ↔ Refused reg node c)) :
    (Builds reg node (.dict spec) ↔ Accepted reg node (.dict spec)) ∧
      (Refuses reg node (.dict spec) ↔ Refused reg node (.dict spec)) := by
  have hbuild : buildFromSpec reg node (.dict spec)
      = (machineHeader kind spec >>= fun m => attachChildren reg node m spec) := build_machine hk hm
  have hsmall {children : Dict}
      (hchildren : orElse (item spec (.str "children")) (.dict []) = .dict children)
      (c : Key × Val) (hc : c ∈ children) :
      (Builds reg node c.2 ↔ Accepted reg node c.2) ∧
        (Refuses reg node c.2 ↔ Refused reg node c.2) :=
    ih c.2 (child_smaller hs hchildren hc).1 (child_smaller hs hchildren hc).2
  rw [accepted_machine_iff hk hm, refused_machine_iff hk hm, Builds, Refuses, hbuild]
  refine ⟨⟨?_, ?_⟩, ⟨?_, ?_⟩⟩
  · rintro ⟨t, h⟩
    obtain ⟨m, hheader, h⟩ := bind_ok_iff.mp h
    obtain ⟨children, hchildren, hall⟩ := (attachChildren_builds hs).mp ⟨t, h⟩
    have hinner := hsmall hchildren
    refine ⟨(machineHeader_ok hm).mp ⟨m, hheader⟩, children, hchildren, fun c hc => ?_⟩
    exact ⟨(hinner c hc).1.mp (hall c hc).1, (hall c hc).2⟩
  · rintro ⟨hheader, children, hchildren, hall⟩
    obtain ⟨m, hm'⟩ := (machineHeader_ok hm).mpr hheader
    rw [hm']
    have hinner := hsmall hchildren
    refine (attachChildren_builds hs).mpr ⟨children, hchildren, fun c hc => ?_⟩
    exact ⟨(hinner c hc).1.mpr (hall c hc).1, (hall c hc).2⟩
  -- the header raises no `HfsmError`, so a child does
  · rintro ⟨e, h⟩
    obtain ⟨m, hheader, h⟩ := (machineHeader_builtin kind spec).bind_raised_iff.mp h
    obtain ⟨before, c, after, hchildren, hb, hc⟩ := (attachChildren_refuses hs).mp ⟨e, h⟩
    have hinner := hsmall hchildren
    refine ⟨(machineHeader_ok hm).mp ⟨m, hheader⟩, before, c, after, hchildren, fun b hb' => ?_, ?_⟩
    · have hmem : b ∈ before ++ c :: after := List.mem_append_left _ hb'
      exact ⟨(hinner _ hmem).1.mp (hb b hb').1, (hb b hb').2⟩
    · have hmem : c ∈ before ++ c :: after := List.mem_append_right _ List.mem_cons_self
      exact (hinner _ hmem).2.mp hc
  · rintro ⟨hheader, before, c, after, hchildren, hb, hc⟩
    obtain ⟨m, hm'⟩ := (machineHeader_ok hm).mpr hheader
    rw [hm']
    have hinner := hsmall hchildren
    refine (attachChildren_refuses hs).mpr ⟨before, c, after, hchildren, fun b hb' => ?_, ?_⟩
    · have hmem : b ∈ before ++ c :: after := List.mem_append_left _ hb'
      exact ⟨(hinner _ hmem).1.mpr (hb b hb').1, (hb b hb').2⟩
    · have hmem : c ∈ before ++ c :: after := List.mem_append_right _ List.mem_cons_self
      exact (hinner _ hmem).2.mpr hc

theorem isJson_regionState {name : Key} {r state : Val} (hr : IsJson r)
    (h : regionState name r = .ok state) : IsJson state := by
  obtain ⟨d, rfl, hi⟩ := regionState_ok_iff.mp h
  exact hr.item hi

theorem parallel_iff (hk : specKind spec = .ok .parallel) (hs : IsJson (.dict spec))
    (ih : ∀ c, sizeOf c < sizeOf (Val.dict spec) → IsJson c →
      (Builds reg node c ↔ Accepted reg node c) ∧ (Refuses reg node c ↔ Refused reg node c)) :
    (Builds reg node (.dict spec) ↔ Accepted reg node (.dict spec)) ∧
      (Refuses reg node (.dict spec) ↔ Refused reg node (.dict spec)) := by
  have hbuild : buildFromSpec reg node (.dict spec) = buildParallel reg node spec := by
    rw [buildFromSpec, hk]
    rfl
  have hsmall {regions : Dict}
      (hregions : orElse (item spec (.str "regions")) (.dict []) = .dict regions)
      (r : Key × Val) (hr : r ∈ regions) (state : Val) (h : regionState r.1 r.2 = .ok state) :
      (Builds reg node state ↔ Accepted reg node state) ∧
        (Refuses reg node state ↔ Refused reg node state) := by
    obtain ⟨hlt, hj⟩ := child_smaller hs hregions hr
    exact ih state ((sizeOf_regionState h).trans hlt) (isJson_regionState hj h)
  have hregion {regions : Dict}
      (hregions : orElse (item spec (.str "regions")) (.dict []) = .dict regions)
      (r : Key × Val) (hr : r ∈ regions) : RegionBuilds reg node r ↔ RegionAccepted reg node r :=
    and_congr_left fun _ => exists_congr fun state => and_congr_right fun h =>
      (hsmall hregions r hr state h).1
  have hrefused {regions : Dict}
      (hregions : orElse (item spec (.str "regions")) (.dict []) = .dict regions)
      (r : Key × Val) (hr : r ∈ regions) : RegionRefuses reg node r ↔ RegionRefused reg node r :=
    or_congr_right (exists_congr fun state => and_congr_right fun h =>
      (hsmall hregions r hr state h).2)
  rw [accepted_parallel_iff hk, refused_parallel_iff hk, Builds, Refuses, hbuild,
    buildParallel_builds hs, buildParallel_refuses hs]
  constructor
  · refine exists_congr fun regions => and_congr_right fun hregions => and_congr_right fun _ =>
      and_congr_left fun _ => ?_
    exact forall₂_congr fun r hr => hregion hregions r hr
  · refine or_congr_right (or_congr ?_ ?_)
    · refine exists_congr fun before => exists_congr fun r => exists_congr fun after =>
        and_congr_right fun hregions => and_congr ?_ ?_
      · exact forall₂_congr fun b hb => hregion hregions b (List.mem_append_left _ hb)
      · exact hrefused hregions r (List.mem_append_right _ List.mem_cons_self)
    · refine exists_congr fun regions => and_congr_right fun hregions => and_congr_right fun _ =>
        and_congr_left fun _ => ?_
      exact forall₂_congr fun r hr => hregion hregions r hr

end Step

/-- What is no dict is refused. -/
theorem not_dict_iff {s : Val} (h : ∀ spec, s ≠ .dict spec) :
    (Builds reg node s ↔ Accepted reg node s) ∧ (Refuses reg node s ↔ Refused reg node s) := by
  have hbuild : buildFromSpec reg node s = hfsmError (.notADict s) := by
    cases s with
    | dict spec => exact absurd rfl (h spec)
    | _ =>
        rw [buildFromSpec]
        intro spec hspec
        cases hspec
  constructor
  · constructor
    · rintro ⟨t, ht⟩
      rw [hbuild] at ht
      cases ht
    · intro hacc
      cases hacc <;> exact absurd rfl (h _)
  · exact ⟨fun _ => .notADict h, fun _ => ⟨_, hbuild⟩⟩

/-- **What the loader builds and what it refuses**, of the JSON values. -/
theorem builds_refuses_iff {s : Val} (hs : IsJson s) :
    (Builds reg node s ↔ Accepted reg node s) ∧ (Refuses reg node s ↔ Refused reg node s) := by
  -- on the size of the spec, as the loader goes down
  induction hn : sizeOf s using Nat.strong_induction_on generalizing s with
  | _ n ih =>
      subst hn
      cases s with
      | key k => exact not_dict_iff nofun
      | list xs => exact not_dict_iff nofun
      | dict spec =>
          have ih' : ∀ c, sizeOf c < sizeOf (Val.dict spec) → IsJson c →
              (Builds reg node c ↔ Accepted reg node c) ∧
                (Refuses reg node c ↔ Refused reg node c) :=
            fun c hlt hc => ih _ hlt hc rfl
          cases hk : specKind spec with
          | error e =>
              obtain ⟨kind, rfl⟩ := specKind_error hk
              have hbuild : buildFromSpec reg node (.dict spec)
                  = hfsmError (.unknownKind kind) := by
                rw [buildFromSpec, hk]
                rfl
              constructor
              · constructor
                · rintro ⟨t, ht⟩
                  rw [hbuild] at ht
                  cases ht
                · intro hacc
                  cases hacc <;> simp_all
              · exact ⟨fun _ => .unknownKind hk, fun _ => ⟨_, hbuild⟩⟩
          | ok kind =>
              cases kind with
              | state => exact state_iff hk
              | stateMachine => exact machine_iff hk (Or.inl rfl) hs ih'
              | behaviorSM => exact machine_iff hk (Or.inr rfl) hs ih'
              | parallel => exact parallel_iff hk hs ih'

end Every

end RobotTaskManager.Spec
