import RobotTaskManager.Spec.Acceptance

set_option autoImplicit false

/-! # What the loader makes of a spec

`MadeOf` says what the loader reads of a dict and what it makes of it, without the loops, for a dict
that a JSON text gives: the loader succeeds with a state exactly if the state is made of the dict
(`build_ok_iff`).
-/

namespace RobotTaskManager.Spec

open PyValue

variable {ν L : Type}

/-! ## Parts of a spec -/

def specChildren (d : Dict) : Val := orElse (item d (.str "children")) (.dict [])

def specTransitions (d : Dict) : Val := orElse (item d (.str "transitions")) (.dict [])

def specRegions (d : Dict) : Val := orElse (item d (.str "regions")) (.dict [])

def specPolicy (d : Dict) : Val := (item d (.str "policy")).getD (.str "first_wins")

/-- The initial state after children with these names have been added. -/
def startName (initialState : Val) : List Key → Val
  | [] => initialState
  | name :: names => startName (if initialState.isNull then .key name else initialState) names

theorem startName_of_not_null {initialState : Val} (h : initialState.isNull = false)
    (names : List Key) : startName initialState names = initialState := by
  induction names with
  | nil => rfl
  | cons name names ih =>
      rw [startName, h]
      exact ih

/-- The first child is the initial state if none is given. -/
theorem startName_null {names : List Key} (h : ∀ n ∈ names, n.string?.isSome = true) :
    startName .null names = .key (names.headD .none) := by
  cases names with
  | nil => rfl
  | cons name names =>
      have hname : (Val.key name).isNull = false := by
        have := h name List.mem_cons_self
        cases name <;> simp_all [Key.string?, Val.isNull]
      exact startName_of_not_null hname names

/-- A child as it is added to a machine. -/
structure Row (L : Type) where
  name : Key
  state : Obj L
  transitions : Dict

/-- The machine after children have been added. -/
def MachineInfo.withRows (m : MachineInfo) (rows : List (Row L)) : MachineInfo :=
  { m with
    transitions := m.transitions ++ rows.map fun r => (r.name, r.transitions)
    initialState := startName m.initialState (rows.map Row.name) }

section Relation

variable (reg : Registry ν L) (node : Option ν)

/-- The child that is made of an item of `children`. -/
structure ChildMade (transitions : Val) (e : Key × Val) (r : Row L) : Prop where
  name : r.name = e.1
  state : buildFromSpec reg node e.2 = .ok r.state
  transitions : childTransitions transitions e.1 = .ok r.transitions

/-- The region that is made of an item of `regions`. -/
structure RegionMade (e : Key × Val) (r : Key × Region (Obj L)) : Prop where
  name : r.1 = e.1
  state : ∃ spec, regionState e.1 e.2 = .ok spec ∧ buildFromSpec reg node spec = .ok r.2.state
  outcomes : regionOutcomes e.2 = .ok r.2.outcomes

/-- What is made of a dict. -/
inductive MadeOf (d : Dict) : Obj L → Prop
  | leaf {x : L} : specKind d = .ok .state → buildState reg node d = .ok x → MadeOf d (.leaf x)
  | machine {kind : SpecKind} {m : MachineInfo} {items : Dict} {rows : List (Row L)} :
      specKind d = .ok kind → kind = .stateMachine ∨ kind = .behaviorSM →
      machineHeader kind d = .ok m → specChildren d = .dict items →
      List.Forall₂ (ChildMade reg node (specTransitions d)) items rows →
      MadeOf d (.machine (m.withRows rows) (rows.map fun r => (r.name, r.state)))
  | parallel {items : Dict} {outcomes : List Key} {regions : List (Key × Region (Obj L))} :
      specKind d = .ok .parallel → specRegions d = .dict items → items ≠ [] →
      List.Forall₂ (RegionMade reg node) items regions →
      (specPolicy d).isStr "first_wins" = true →
      sortedSet (ε := Raised) (regions.flatMap fun r => r.2.outcomes.map Prod.snd)
        = .ok outcomes →
      MadeOf d (.parallel (specPolicy d) outcomes regions)

end Relation

section Loader

variable {reg : Registry ν L} {node : Option ν} {d items : Dict}

/-! ## The loops -/

/-- The loop of `_attach_children`. -/
theorem attach_ok_iff {m m' : MachineInfo} {states states' : List (Key × Obj L)}
    {transitions : Val} (hd : DistinctKeys items) (hnew : ∀ e ∈ items, hasKey states e.1 = false) :
    attach reg node m states transitions items = .ok (m', states') ↔
      ∃ rows, List.Forall₂ (ChildMade reg node transitions) items rows ∧
        m' = m.withRows rows ∧ states' = states ++ rows.map fun r => (r.name, r.state) := by
  induction items generalizing m states with
  | nil =>
      rw [attach_nil]
      constructor
      · intro h
        obtain ⟨rfl, rfl⟩ := Prod.mk.inj (Except.ok.inj h)
        exact ⟨[], .nil, by simp [MachineInfo.withRows, startName], by simp⟩
      · rintro ⟨rows, hrows, rfl, rfl⟩
        cases hrows
        simp [MachineInfo.withRows, startName]
  | cons e rest ih =>
      obtain ⟨name, spec⟩ := e
      have hrest : DistinctKeys rest := (List.pairwise_cons.mp hd).2
      rw [attach_cons_new (hnew _ List.mem_cons_self)]
      constructor
      · intro h
        obtain ⟨child, hchild, h⟩ := bind_ok_iff.mp h
        obtain ⟨ts, hts, h⟩ := bind_ok_iff.mp h
        obtain ⟨rows, hrows, rfl, rfl⟩ := (ih hrest (hd.new_after hnew child)).mp h
        refine ⟨⟨name, child, ts⟩ :: rows, .cons ⟨rfl, hchild, hts⟩ hrows, ?_, by simp⟩
        simp [MachineInfo.withRows, startName]
      · rintro ⟨_, hall, rfl, rfl⟩
        obtain _ | ⟨hrow, hrows⟩ := hall
        rename_i row rows
        obtain ⟨rname, child, ts⟩ := row
        obtain ⟨rfl, hchild, hts⟩ := hrow
        refine bind_ok_iff.mpr ⟨child, hchild, bind_ok_iff.mpr ⟨ts, hts,
          (ih hrest (hd.new_after hnew child)).mpr ⟨rows, hrows, ?_, by simp⟩⟩⟩
        simp [MachineInfo.withRows, startName]

/-- The loop of `_build_parallel`. -/
theorem buildRegions_ok_iff {regions regions' : List (Key × Region (Obj L))}
    (hd : DistinctKeys items) (hnew : ∀ e ∈ items, hasKey regions e.1 = false) :
    buildRegions reg node regions items = .ok regions' ↔
      ∃ built, List.Forall₂ (RegionMade reg node) items built ∧ regions' = regions ++ built := by
  induction items generalizing regions with
  | nil =>
      rw [buildRegions_nil]
      constructor
      · intro h
        obtain rfl := Except.ok.inj h
        exact ⟨[], .nil, by simp⟩
      · rintro ⟨built, hbuilt, rfl⟩
        cases hbuilt
        simp
  | cons e rest ih =>
      obtain ⟨name, spec⟩ := e
      have hrest : DistinctKeys rest := (List.pairwise_cons.mp hd).2
      have hset : ∀ r : Region (Obj L), setItem regions name r = regions ++ [(name, r)] :=
        setItem_of_not_hasKey (hnew (name, spec) List.mem_cons_self)
      rw [buildRegions_cons]
      constructor
      · intro h
        obtain ⟨state, hstate, h⟩ := bind_ok_iff.mp h
        obtain ⟨inner, hinner, h⟩ := bind_ok_iff.mp h
        obtain ⟨outcomes, hout, h⟩ := bind_ok_iff.mp h
        rw [hset] at h
        obtain ⟨built, hbuilt, rfl⟩ := (ih hrest (hd.new_after hnew _)).mp h
        exact ⟨(name, ⟨inner, outcomes⟩) :: built,
          .cons ⟨rfl, ⟨state, hstate, hinner⟩, hout⟩ hbuilt, by simp⟩
      · rintro ⟨_, hall, rfl⟩
        obtain _ | ⟨hr, hbuilt⟩ := hall
        rename_i r built
        obtain ⟨rname, ⟨inner, outcomes⟩⟩ := r
        obtain ⟨rfl, ⟨state, hstate, hinner⟩, hout⟩ := hr
        refine bind_ok_iff.mpr ⟨state, hstate, bind_ok_iff.mpr ⟨inner, hinner,
          bind_ok_iff.mpr ⟨outcomes, hout, ?_⟩⟩⟩
        rw [hset]
        exact (ih hrest (hd.new_after hnew _)).mpr ⟨built, hbuilt, by simp⟩

/-! ## The builders -/

theorem attachChildren_ok_iff {m : MachineInfo} {t : Obj L} (hs : IsJson (.dict d)) :
    attachChildren reg node m d = .ok t ↔ ∃ items rows, specChildren d = .dict items ∧
      List.Forall₂ (ChildMade reg node (specTransitions d)) items rows ∧
      t = .machine (m.withRows rows) (rows.map fun r => (r.name, r.state)) := by
  constructor
  · intro h
    obtain ⟨items, m', states, hitems, hattach, rfl⟩ := attachChildren_ok h
    have hd := (hitems ▸ hs.orElse (.str "children")).distinct
    obtain ⟨rows, hrows, rfl, rfl⟩ := (attach_ok_iff hd fun _ _ => rfl).mp hattach
    exact ⟨items, rows, hitems, hrows, rfl⟩
  · rintro ⟨items, rows, hitems, hrows, rfl⟩
    have hjson : IsJson (specChildren d) := hs.orElse (.str "children")
    have hd := (hitems ▸ hjson).distinct
    have hattach : attach reg node m [] (specTransitions d) items = .ok _ :=
      (attach_ok_iff hd fun _ _ => rfl).mpr ⟨rows, hrows, rfl, rfl⟩
    rw [attachChildren, ← specChildren, hitems, attachAll, ← specTransitions, hattach]
    rfl

theorem buildParallel_ok_iff {t : Obj L} (hs : IsJson (.dict d)) :
    buildParallel reg node d = .ok t ↔ ∃ items regions outcomes,
      specRegions d = .dict items ∧ items ≠ [] ∧
      List.Forall₂ (RegionMade reg node) items regions ∧
      (specPolicy d).isStr "first_wins" = true ∧
      sortedSet (ε := Raised) (regions.flatMap fun r => r.2.outcomes.map Prod.snd)
        = .ok outcomes ∧ t = .parallel (specPolicy d) outcomes regions := by
  constructor
  · intro h
    rcases regions_cases d with hno | ⟨items, hitems, hne⟩ | ⟨ht, hno⟩
    · rw [buildParallel_noRegions hno] at h
      cases h
    · have hd := (hitems ▸ hs.orElse (.str "regions")).distinct
      rw [buildParallel_dict hitems hne] at h
      obtain ⟨regions, hregions, h⟩ := bind_ok_iff.mp h
      obtain ⟨_, hbuilt, rfl⟩ := (buildRegions_ok_iff hd fun _ _ => rfl).mp hregions
      obtain ⟨-, hpolicy, outcomes, hsorted, rfl⟩ := parallelInit_ok_iff.mp h
      exact ⟨items, regions, outcomes, hitems, hne, hbuilt, hpolicy, hsorted, rfl⟩
    · rw [buildParallel_noItems ht hno] at h
      cases h
  · rintro ⟨items, regions, outcomes, hitems, hne, hbuilt, hpolicy, hsorted, rfl⟩
    have hjson : IsJson (specRegions d) := hs.orElse (.str "regions")
    have hd := (hitems ▸ hjson).distinct
    have hregions : buildRegions reg node [] items = .ok regions :=
      (buildRegions_ok_iff hd fun _ _ => rfl).mpr ⟨regions, hbuilt, rfl⟩
    rw [buildParallel_dict hitems hne, hregions]
    refine parallelInit_ok_iff.mpr ⟨?_, hpolicy, outcomes, hsorted, rfl⟩
    rintro rfl
    cases hbuilt
    exact hne rfl

/-- **What the loader makes of a dict**, when it succeeds. -/
theorem build_ok_iff {t : Obj L} (hs : IsJson (.dict d)) :
    buildFromSpec reg node (.dict d) = .ok t ↔ MadeOf reg node d t := by
  constructor
  · intro h
    cases hk : specKind d with
    | error e =>
        rw [buildFromSpec, hk] at h
        cases h
    | ok kind =>
        have hmachine (hm : kind = .stateMachine ∨ kind = .behaviorSM) : MadeOf reg node d t := by
          rw [build_machine hk hm] at h
          obtain ⟨m, hheader, h⟩ := bind_ok_iff.mp h
          obtain ⟨items, rows, hitems, hrows, rfl⟩ := (attachChildren_ok_iff hs).mp h
          exact .machine hk hm hheader hitems hrows
        cases kind with
        | state =>
            rw [buildFromSpec, hk, ok_bind] at h
            obtain ⟨x, hx, h⟩ := bind_ok_iff.mp h
            obtain rfl := Except.ok.inj h
            exact .leaf hk hx
        | stateMachine => exact hmachine (Or.inl rfl)
        | behaviorSM => exact hmachine (Or.inr rfl)
        | parallel =>
            rw [buildFromSpec, hk] at h
            obtain ⟨items, regions, outcomes, hitems, hne, hbuilt, hpolicy, hsorted, rfl⟩ :=
              (buildParallel_ok_iff hs).mp h
            exact .parallel hk hitems hne hbuilt hpolicy hsorted
  · intro h
    cases h with
    | leaf hk hx =>
        rw [buildFromSpec, hk, ok_bind, hx]
        rfl
    | machine hk hm hheader hitems hrows =>
        rw [build_machine hk hm, hheader]
        exact (attachChildren_ok_iff hs).mpr ⟨_, _, hitems, hrows, rfl⟩
    | parallel hk hitems hne hbuilt hpolicy hsorted =>
        rw [buildFromSpec, hk]
        exact (buildParallel_ok_iff hs).mpr
          ⟨_, _, _, hitems, hne, hbuilt, hpolicy, hsorted, rfl⟩

/-! ## By the kind of the spec -/

section Inversion

variable {t : Obj L}

theorem madeOf_leaf_iff (hk : specKind d = .ok .state) : MadeOf reg node d t ↔ ∃ klass kwargs x,
    RefersTo reg d klass ∧ klass.isState = true ∧ Kwargs d kwargs ∧
      klass.make node kwargs = .ok x ∧ t = .leaf x := by
  constructor
  · intro h
    cases h with
    | leaf _ hx =>
        obtain ⟨klass, kwargs, href, hstate, hkwargs, hmake⟩ := buildState_ok_iff.mp hx
        exact ⟨klass, kwargs, _, href, hstate, hkwargs, hmake, rfl⟩
    | machine hk' hm => exact absurd hk (machineKind_ne hk' hm).1
    | parallel hk' => rw [hk] at hk'; cases hk'
  · rintro ⟨klass, kwargs, x, href, hstate, hkwargs, hmake, rfl⟩
    exact .leaf hk (buildState_ok_iff.mpr ⟨klass, kwargs, href, hstate, hkwargs, hmake⟩)

theorem MadeOf.machine_inv {kind : SpecKind} (hk : specKind d = .ok kind)
    (hm : kind = .stateMachine ∨ kind = .behaviorSM) (h : MadeOf reg node d t) :
    ∃ m items rows, machineHeader kind d = .ok m ∧ specChildren d = .dict items ∧
      List.Forall₂ (ChildMade reg node (specTransitions d)) items rows ∧
      t = .machine (m.withRows rows) (rows.map fun r => (r.name, r.state)) := by
  cases h with
  | leaf hk' => exact absurd hk' (machineKind_ne hk hm).1
  | machine hk' _ hheader hitems hrows =>
      obtain rfl := Except.ok.inj (hk.symm.trans hk')
      exact ⟨_, _, _, hheader, hitems, hrows, rfl⟩
  | parallel hk' => exact absurd hk' (machineKind_ne hk hm).2

theorem madeOf_machine_iff {kind : SpecKind} {m : MachineInfo} (hk : specKind d = .ok kind)
    (hm : kind = .stateMachine ∨ kind = .behaviorSM) (hheader : machineHeader kind d = .ok m)
    (hitems : specChildren d = .dict items) :
    MadeOf reg node d t ↔ ∃ rows,
      List.Forall₂ (ChildMade reg node (specTransitions d)) items rows ∧
      t = .machine (m.withRows rows) (rows.map fun r => (r.name, r.state)) := by
  constructor
  · intro h
    obtain ⟨m', items', rows, hheader', hitems', hrows, rfl⟩ := h.machine_inv hk hm
    obtain rfl := Except.ok.inj (hheader.symm.trans hheader')
    obtain rfl := Val.dict.inj (hitems.symm.trans hitems')
    exact ⟨rows, hrows, rfl⟩
  · rintro ⟨rows, hrows, rfl⟩
    exact .machine hk hm hheader hitems hrows

theorem MadeOf.parallel_inv (hk : specKind d = .ok .parallel) (h : MadeOf reg node d t) :
    ∃ items regions outcomes, specRegions d = .dict items ∧ items ≠ [] ∧
      List.Forall₂ (RegionMade reg node) items regions ∧
      (specPolicy d).isStr "first_wins" = true ∧
      sortedSet (ε := Raised) (regions.flatMap fun r => r.2.outcomes.map Prod.snd)
        = .ok outcomes ∧ t = .parallel (specPolicy d) outcomes regions := by
  cases h with
  | leaf hk' => rw [hk] at hk'; cases hk'
  | machine hk' hm => exact absurd hk (machineKind_ne hk' hm).2
  | parallel _ hitems hne hregions hpolicy hsorted =>
      exact ⟨_, _, _, hitems, hne, hregions, hpolicy, hsorted, rfl⟩

theorem madeOf_parallel_iff (hk : specKind d = .ok .parallel)
    (hitems : specRegions d = .dict items) (hne : items ≠ [])
    (hpolicy : (specPolicy d).isStr "first_wins" = true) :
    MadeOf reg node d t ↔ ∃ regions outcomes, List.Forall₂ (RegionMade reg node) items regions ∧
      sortedSet (ε := Raised) (regions.flatMap fun r => r.2.outcomes.map Prod.snd)
        = .ok outcomes ∧ t = .parallel (specPolicy d) outcomes regions := by
  constructor
  · intro h
    obtain ⟨items', regions, outcomes, hitems', -, hregions, -, hsorted, rfl⟩ := h.parallel_inv hk
    obtain rfl := Val.dict.inj (hitems.symm.trans hitems')
    exact ⟨regions, outcomes, hregions, hsorted, rfl⟩
  · rintro ⟨regions, outcomes, hregions, hsorted, rfl⟩
    exact .parallel hk hitems hne hregions hpolicy hsorted

end Inversion

end Loader

end RobotTaskManager.Spec
