import RobotTaskManager.Spec.Loader

set_option autoImplicit false

/-! # The loader and `to_spec`

A state that the loader has made is `Loaded`, whatever spec it was made from: what was left out
of the spec has been filled in, and what has been filled in is written out by `to_spec`. So the
spec of a `Loaded` state builds the same state again (`Same`), once that holds of the leaves that
occur in it (`KeepsContract`).
-/

namespace RobotTaskManager.Spec

open PyValue

variable {ν L : Type}

/-! ## Structurally equal states -/

/-- The same kind of machine with the same fields; the class name is not compared. -/
structure SameMachine (m m' : MachineInfo) : Prop where
  kind : m'.kind = m.kind
  outcomes : m'.outcomes = m.outcomes
  transitions : m'.transitions = m.transitions
  initialState : m'.initialState = m.initialState

mutual

/-- The same containers, with leaves that are related by `R` in the same places. -/
inductive Same (R : L → L → Prop) : Obj L → Obj L → Prop
  | leaf {x y : L} : R x y → Same R (.leaf x) (.leaf y)
  | machine {m m' : MachineInfo} {children children' : List (Key × Obj L)} :
      SameMachine m m' → SameChildren R children children' →
      Same R (.machine m children) (.machine m' children')
  | parallel {policy : Val} {outcomes : List Key} {regions regions' : List (Key × Region (Obj L))} :
      SameRegions R regions regions' →
      Same R (.parallel policy outcomes regions) (.parallel policy outcomes regions')
  | retry {maxRetries : Nat} {retryOutcome : String} {inner inner' : Obj L} :
      Same R inner inner' →
      Same R (.retry maxRetries retryOutcome inner) (.retry maxRetries retryOutcome inner')

inductive SameChildren (R : L → L → Prop) : List (Key × Obj L) → List (Key × Obj L) → Prop
  | nil : SameChildren R [] []
  | cons {name : Key} {child child' : Obj L} {rest rest' : List (Key × Obj L)} :
      Same R child child' → SameChildren R rest rest' →
      SameChildren R ((name, child) :: rest) ((name, child') :: rest')

inductive SameRegions (R : L → L → Prop) :
    List (Key × Region (Obj L)) → List (Key × Region (Obj L)) → Prop
  | nil : SameRegions R [] []
  | cons {name : Key} {state state' : Obj L} {outcomes : Dict}
      {rest rest' : List (Key × Region (Obj L))} :
      Same R state state' → SameRegions R rest rest' →
      SameRegions R ((name, ⟨state, outcomes⟩) :: rest) ((name, ⟨state', outcomes⟩) :: rest')

end

/-- Every leaf of the state meets `P`. -/
inductive AllLeaves (P : L → Prop) : Obj L → Prop
  | leaf {x : L} : P x → AllLeaves P (.leaf x)
  | machine {m : MachineInfo} {children : List (Key × Obj L)} :
      (∀ c ∈ children, AllLeaves P c.2) → AllLeaves P (.machine m children)
  | parallel {policy : Val} {outcomes : List Key} {regions : List (Key × Region (Obj L))} :
      (∀ r ∈ regions, AllLeaves P r.2.state) → AllLeaves P (.parallel policy outcomes regions)
  | retry {maxRetries : Nat} {retryOutcome : String} {inner : Obj L} :
      AllLeaves P inner → AllLeaves P (.retry maxRetries retryOutcome inner)

theorem AllLeaves.mono {P Q : L → Prop} {t : Obj L} (h : AllLeaves P t) (hPQ : ∀ x, P x → Q x) :
    AllLeaves Q t := by
  induction h with
  | leaf hx => exact .leaf (hPQ _ hx)
  | machine _ ih => exact .machine ih
  | parallel _ ih => exact .parallel ih
  | retry _ ih => exact .retry ih

/-! ## States that the loader makes -/

/-- The class that the loader uses for a kind of machine. -/
def MachineKind.className : MachineKind → String
  | .stateMachine => "StateMachine"
  | .behaviorSM _ => "BehaviorSM"

/-- What `add` keeps of a machine and its children. -/
structure Attached (m : MachineInfo) (children : List (Key × Obj L)) : Prop where
  distinct : DistinctKeys children
  aligned : m.transitions.map Prod.fst = children.map Prod.fst
  initial : m.initialState.isNull = true → ∀ c ∈ children, c.1 = Key.none

/-- A parallel that `Parallel.__init__` has made. -/
structure ParallelMade (policy : Val) (outcomes : List Key)
    (regions : List (Key × Region (Obj L))) : Prop where
  nonempty : regions ≠ []
  distinct : DistinctKeys regions
  policy : policy.isStr "first_wins" = true
  outcomes : sortedSet (ε := Raised) (regions.flatMap fun r => r.2.outcomes.map Prod.snd)
    = .ok outcomes

/-- What the loader makes: leaves of registered classes in containers that are complete. -/
inductive Loaded (reg : Registry ν L) (node : Option ν) : Obj L → Prop
  | leaf {ref : String} {klass : Klass ν L} {kwargs : Dict} {x : L} : reg ref = some klass →
      klass.make node kwargs = .ok x → Loaded reg node (.leaf x)
  | machine {m : MachineInfo} {children : List (Key × Obj L)} :
      m.className = m.kind.className → m.outcomes ≠ [] → Attached m children →
      (∀ c ∈ children, Loaded reg node c.2) → Loaded reg node (.machine m children)
  | parallel {policy : Val} {outcomes : List Key} {regions : List (Key × Region (Obj L))} :
      ParallelMade policy outcomes regions → (∀ r ∈ regions, Loaded reg node r.2.state) →
      Loaded reg node (.parallel policy outcomes regions)

section Add

variable {m m' : MachineInfo} {children children' : List (Key × Obj L)} {name : Key}
  {state : Obj L} {given : Val}

/-- What `StateMachine.add` does when it succeeds. -/
theorem add_ok (h : m.add children name state given = .ok (m', children')) :
    hasKey children name = false ∧ ∃ transitions,
      (orElse (some given) (.dict [])).toDict (ε := Raised) = .ok transitions ∧
      m' = { m with
        transitions := m.transitions ++ [(name, transitions)]
        initialState := if m.initialState.isNull then .key name else m.initialState } ∧
      children' = children ++ [(name, state)] := by
  unfold MachineInfo.add at h
  split at h
  · cases h
  · rename_i hname
    obtain ⟨transitions, ht, h⟩ := bind_ok_iff.mp h
    obtain ⟨rfl, rfl⟩ := h
    exact ⟨Bool.not_eq_true _ ▸ hname, transitions, ht, rfl, rfl⟩

theorem Attached.add (h : Attached m children)
    (hadd : m.add children name state given = .ok (m', children')) : Attached m' children' := by
  obtain ⟨hname, transitions, -, rfl, rfl⟩ := add_ok hadd
  refine ⟨h.distinct.append hname, by simp [h.aligned], ?_⟩
  intro hnull c hc
  -- an initial state that is still `None` after `add` was given the name `None`
  cases hi : m.initialState.isNull with
  | true =>
      have hnone : name = Key.none := by
        simp only [hi, if_true] at hnull
        cases name <;> simp [Val.isNull] at hnull ⊢
      rcases List.mem_append.mp hc with hc | hc
      · exact h.initial hi c hc
      · rw [List.mem_singleton.mp hc]
        exact hnone
  | false => simp [hi] at hnull

theorem add_dict (state : Obj L) (transitions : Dict) (h : hasKey children name = false) :
    m.add children name state (.dict transitions) = .ok ({ m with
      transitions := m.transitions ++ [(name, transitions)]
      initialState := if m.initialState.isNull then .key name else m.initialState },
      children ++ [(name, state)]) := by
  simp only [MachineInfo.add, h, orElse_dict, Val.toDict]
  rfl

end Add

/-! ## The loops -/

/-- The specs in a dict are smaller than the spec it is part of. -/
theorem sizeOf_child_lt {d items : Dict} {k : Key}
    (h : orElse (item d k) (.dict []) = .dict items) {e : Key × Val} (he : e ∈ items) :
    sizeOf e.2 < sizeOf (Val.dict d) := by
  have hle := sizeOf_orElse_le d k
  rw [h] at hle
  have hlt := List.sizeOf_lt_of_mem he
  simp only [Val.dict.sizeOf_spec] at hle ⊢
  have : sizeOf e.2 < sizeOf e := by
    obtain ⟨k', v⟩ := e
    simp only [Prod.mk.sizeOf_spec]
    omega
  omega

section Loops

variable {reg : Registry ν L} {node : Option ν} {P : Obj L → Prop}

/-- The states are those built from the specs of a dict, under the same names. -/
abbrev BuiltFrom (reg : Registry ν L) (node : Option ν) : Dict → List (Key × Obj L) → Prop :=
  List.Forall₂ fun e c => c.1 = e.1 ∧ buildFromSpec reg node e.2 = .ok c.2

/-- What the loop of `_attach_children` does when it succeeds. -/
theorem attach_ok {items : Dict} {m m' : MachineInfo} {states states' : List (Key × Obj L)}
    {transitions : Val} (hm : Attached m states)
    (h : attach reg node m states transitions items = .ok (m', states')) :
    Attached m' states' ∧ (∃ built, states' = states ++ built ∧ BuiltFrom reg node items built) ∧
      m'.className = m.className ∧ m'.kind = m.kind ∧ m'.outcomes = m.outcomes := by
  induction items generalizing m states with
  | nil =>
      rw [attach_nil] at h
      obtain ⟨rfl, rfl⟩ := h
      exact ⟨hm, ⟨[], by simp, .nil⟩, rfl, rfl, rfl⟩
  | cons e rest ih =>
      obtain ⟨name, spec⟩ := e
      rw [attach_cons] at h
      obtain ⟨child, hchild, h⟩ := bind_ok_iff.mp h
      obtain ⟨given, -, h⟩ := bind_ok_iff.mp h
      obtain ⟨⟨m₁, states₁⟩, hadd, h⟩ := bind_ok_iff.mp h
      obtain ⟨-, ts, -, hm₁, hs₁⟩ := add_ok hadd
      obtain ⟨hm', ⟨built, hs', hbuilt⟩, hfields⟩ := ih (hm.add hadd) h
      rw [hm₁] at hfields
      refine ⟨hm', ⟨(name, child) :: built, ?_, .cons ⟨rfl, hchild⟩ hbuilt⟩, hfields⟩
      rw [hs', hs₁, List.append_assoc]
      rfl

theorem BuiltFrom.forall {items : Dict} {built : List (Key × Obj L)}
    (h : BuiltFrom reg node items built)
    (hitems : ∀ e ∈ items, ∀ t, buildFromSpec reg node e.2 = .ok t → P t) :
    ∀ c ∈ built, P c.2 := by
  induction h with
  | nil => nofun
  | @cons e c items built hc _ ih =>
      intro c' hc'
      rcases List.mem_cons.mp hc' with rfl | hc'
      · exact hitems e List.mem_cons_self _ hc.2
      · exact ih (fun e he => hitems e (List.mem_cons_of_mem _ he)) c' hc'

/-- What the loop of `_build_parallel` keeps. -/
theorem buildRegions_inv {items : Dict}
    (hitems : ∀ e ∈ items, ∀ s t, sizeOf s < sizeOf e.2 → buildFromSpec reg node s = .ok t → P t)
    {regions regions' : List (Key × Region (Obj L))} (hd : DistinctKeys regions)
    (hP : ∀ r ∈ regions, P r.2.state)
    (h : buildRegions reg node regions items = .ok regions') :
    DistinctKeys regions' ∧ ∀ r ∈ regions', P r.2.state := by
  induction items generalizing regions with
  | nil =>
      rw [buildRegions_nil] at h
      obtain rfl := Except.ok.inj h
      exact ⟨hd, hP⟩
  | cons e rest ih =>
      obtain ⟨name, spec⟩ := e
      rw [buildRegions_cons] at h
      obtain ⟨state, hstate, h⟩ := bind_ok_iff.mp h
      obtain ⟨inner, hinner, h⟩ := bind_ok_iff.mp h
      obtain ⟨outcomes, -, h⟩ := bind_ok_iff.mp h
      refine ih (fun e he => hitems e (List.mem_cons_of_mem _ he)) (hd.setItem _ _) ?_ h
      intro r hr
      rcases mem_setItem hr with hr | ⟨hr, -⟩
      · exact hP r hr
      · rw [hr]
        exact hitems (name, spec) List.mem_cons_self state inner (sizeOf_regionState hstate) hinner

/-! ## The state that is built -/

theorem buildState_ok {d : Dict} {x : L} (h : buildState reg node d = .ok x) :
    ∃ ref klass kwargs, reg ref = some klass ∧ klass.make node kwargs = .ok x := by
  unfold buildState at h
  simp only at h
  split at h
  · cases h
  · obtain ⟨klass, hklass, h⟩ := bind_ok_iff.mp h
    split at h
    · cases h
    · obtain ⟨kwargs, -, h⟩ := bind_ok_iff.mp h
      obtain ⟨id, -, hid⟩ := bind_ok_iff.mp hklass
      split at hid
      · split at hid
        · rename_i s _ k hreg
          obtain rfl := Except.ok.inj hid
          exact ⟨s, k, kwargs, hreg, h⟩
        · cases hid
      · cases hid

theorem machineOutcomes_ne_nil {d : Dict} {outcomes : List Val}
    (h : machineOutcomes d = .ok outcomes) : outcomes ≠ [] :=
  Val.iter_ne_nil (orElse_truthy _ rfl) h

theorem attachChildren_ok {m : MachineInfo} {d : Dict} {t : Obj L}
    (h : attachChildren reg node m d = .ok t) : ∃ items m' states,
      orElse (item d (.str "children")) (.dict []) = .dict items ∧
      attach reg node m [] (orElse (item d (.str "transitions")) (.dict [])) items
        = .ok (m', states) ∧ t = .machine m' states := by
  rw [attachChildren, attachAll.eq_def] at h
  split at h
  · rename_i items hitems
    obtain ⟨⟨m', states⟩, hattach, h⟩ := bind_ok_iff.mp h
    obtain rfl := Except.ok.inj h
    exact ⟨items, m', states, hitems, hattach, rfl⟩
  · cases h

theorem parallelInit_ok_iff {regions : List (Key × Region (Obj L))} {policy : Val} {t : Obj L} :
    parallelInit regions policy = .ok t ↔ regions ≠ [] ∧ policy.isStr "first_wins" = true ∧
      ∃ outcomes, sortedSet (ε := Raised) (regions.flatMap fun r => r.2.outcomes.map Prod.snd)
        = .ok outcomes ∧ t = .parallel policy outcomes regions := by
  unfold parallelInit
  constructor
  · intro h
    split at h
    · cases h
    · rename_i hne
      split at h
      · cases h
      · rename_i hpolicy
        obtain ⟨outcomes, hsorted, h⟩ := bind_ok_iff.mp h
        exact ⟨by simpa using hne, by simpa using hpolicy, outcomes, hsorted,
          (Except.ok.inj h).symm⟩
  · rintro ⟨hne, hpolicy, outcomes, hsorted, rfl⟩
    rw [if_neg (by simpa using hne), if_neg (by simp [hpolicy]), hsorted]
    rfl

theorem parallelInit_ok {regions : List (Key × Region (Obj L))} {policy : Val} {t : Obj L}
    (hd : DistinctKeys regions) (h : parallelInit regions policy = .ok t) :
    ∃ outcomes, t = .parallel policy outcomes regions ∧
      ParallelMade policy outcomes regions := by
  obtain ⟨hne, hpolicy, outcomes, hsorted, rfl⟩ := parallelInit_ok_iff.mp h
  exact ⟨outcomes, rfl, hne, hd, hpolicy, hsorted⟩

theorem buildParallel_ok {d : Dict} {t : Obj L} (h : buildParallel reg node d = .ok t) :
    ∃ items regions policy, orElse (item d (.str "regions")) (.dict []) = .dict items ∧
      buildRegions reg node [] items = .ok regions ∧ parallelInit regions policy = .ok t := by
  rw [buildParallel] at h
  split at h
  · cases h
  · obtain ⟨regions, hregions, h⟩ := bind_ok_iff.mp h
    rw [buildRegionsOf.eq_def] at hregions
    split at hregions
    · rename_i items hitems
      exact ⟨items, regions, _, hitems, hregions, h⟩
    · cases hregions

/-- The children of a machine are loaded when those built from smaller specs are. -/
theorem loaded_attachChildren {d : Dict} {m : MachineInfo} {t : Obj L}
    (ih : ∀ s t, sizeOf s < sizeOf (Val.dict d) → buildFromSpec reg node s = .ok t →
      Loaded reg node t)
    (hclass : m.className = m.kind.className) (hout : m.outcomes ≠ [])
    (hts : m.transitions = []) (h : attachChildren reg node m d = .ok t) :
    Loaded reg node t := by
  obtain ⟨items, m', states, hitems, hattach, rfl⟩ := attachChildren_ok h
  have hempty : Attached m ([] : List (Key × Obj L)) :=
    ⟨List.Pairwise.nil, by simp [hts], fun _ => nofun⟩
  obtain ⟨hm', ⟨built, hstates, hbuilt⟩, hc, hk, ho⟩ := attach_ok hempty hattach
  rw [List.nil_append] at hstates
  subst hstates
  refine .machine ?_ (ho ▸ hout) hm' ?_
  · rw [hc, hk, hclass]
  · exact hbuilt.forall fun e he t ht => ih e.2 t (sizeOf_child_lt hitems he) ht

/-- **The loader makes `Loaded` states.** -/
theorem loaded_of_build {s : Val} {t : Obj L} (h : buildFromSpec reg node s = .ok t) :
    Loaded reg node t := by
  -- on the size of the spec: the loader goes into values of it, not into a structure of its own
  induction hn : sizeOf s using Nat.strong_induction_on generalizing s t with
  | _ n ih =>
      subst hn
      have ih' : ∀ s' t, sizeOf s' < sizeOf s → buildFromSpec reg node s' = .ok t →
          Loaded reg node t := fun s' t hlt ht => ih _ hlt ht rfl
      cases s with
      | key k => simp [buildFromSpec, hfsmError] at h
      | list xs => simp [buildFromSpec, hfsmError] at h
      | dict d =>
          rw [buildFromSpec] at h
          obtain ⟨kind, -, h⟩ := bind_ok_iff.mp h
          cases kind with
          | state =>
              obtain ⟨x, hx, h⟩ := bind_ok_iff.mp h
              obtain rfl := Except.ok.inj h
              obtain ⟨ref, klass, kwargs, hreg, hmake⟩ := buildState_ok hx
              exact .leaf hreg hmake
          | stateMachine =>
              obtain ⟨m, hm, h⟩ := bind_ok_iff.mp h
              obtain ⟨outcomes, hout, hm⟩ := bind_ok_iff.mp hm
              obtain rfl := Except.ok.inj hm
              exact loaded_attachChildren ih' rfl (machineOutcomes_ne_nil hout) rfl h
          | behaviorSM =>
              obtain ⟨m, hm, h⟩ := bind_ok_iff.mp h
              obtain ⟨outcomes, hout, hm⟩ := bind_ok_iff.mp hm
              obtain ⟨parameters, -, hm⟩ := bind_ok_iff.mp hm
              obtain rfl := Except.ok.inj hm
              exact loaded_attachChildren ih' rfl (machineOutcomes_ne_nil hout) rfl h
          | parallel =>
              obtain ⟨items, regions, policy, hitems, hregions, h⟩ := buildParallel_ok h
              obtain ⟨hd, hstates⟩ := buildRegions_inv
                (fun e he s t hlt ht => ih' s t (hlt.trans (sizeOf_child_lt hitems he)) ht)
                List.Pairwise.nil nofun hregions
              obtain ⟨outcomes, rfl, hmade⟩ := parallelInit_ok hd h
              exact .parallel hmade hstates

end Loops

/-! ## Building the spec of a state -/

section Rebuild

variable [LeafState L] {reg : Registry ν L} {node : Option ν}

/-- The loop of `_attach_children` over the children of a spec written by `to_spec`. -/
theorem attach_childrenSpec {children built : List (Key × Obj L)}
    (hbuilt : BuiltFrom reg node (childrenSpec children) built) {ts : List (Key × Dict)}
    (hts : ts.map Prod.fst = children.map Prod.fst) {transitions : Dict}
    (hitem : ∀ t ∈ ts, item transitions t.1 = some (.dict t.2)) {m : MachineInfo}
    {states : List (Key × Obj L)} (hd : DistinctKeys (states ++ built))
    (hinit : m.initialState.isNull = true → ∀ c ∈ children, c.1 = Key.none) :
    attach reg node m states (.dict transitions) (childrenSpec children)
      = .ok ({ m with transitions := m.transitions ++ ts }, states ++ built) := by
  induction children generalizing built ts m states with
  | nil =>
      cases hbuilt
      obtain rfl : ts = [] := by simpa using hts
      simp [childrenSpec, attach_nil]
  | cons c rest ih =>
      obtain ⟨name, child⟩ := c
      rw [childrenSpec] at hbuilt ⊢
      obtain _ | ⟨⟨hname, hchild⟩, hrest⟩ := hbuilt
      rename_i c' built
      obtain ⟨name', child'⟩ := c'
      obtain rfl : name' = name := hname
      cases ts with
      | nil => simp at hts
      -- the transitions are aligned with the children, so the first is that of `name`
      | cons t ts =>
          obtain ⟨tname, t⟩ := t
          simp only [List.map_cons, List.cons.injEq] at hts
          obtain ⟨rfl, hts⟩ := hts
          have hitem₀ : item transitions tname = some (.dict t) := hitem _ List.mem_cons_self
          have hinit₀ : (if m.initialState.isNull then .key tname else m.initialState)
              = m.initialState := by
            split
            · rename_i hnull
              -- then all children are named `None`, and `None` is what is stored
              have hnone : tname = Key.none := hinit hnull (tname, child) List.mem_cons_self
              rw [Val.eq_null hnull, hnone]
            · rfl
          have hd' : DistinctKeys ((states ++ [(tname, child')]) ++ built) := by
            simpa using hd
          have hrec := ih hrest hts (fun t ht => hitem t (List.mem_cons_of_mem _ ht))
            (m := { m with transitions := m.transitions ++ [(tname, t)] }) hd'
            fun hnull c hc => hinit hnull c (List.mem_cons_of_mem _ hc)
          rw [attach_cons, hchild]
          simp only [Val.getD, hitem₀, Option.getD_some]
          show (m.add states tname child' (.dict t) >>= _) = _
          rw [add_dict child' t hd.hasKey_eq_false, hinit₀]
          show attach reg node _ _ _ _ = _
          rw [hrec]
          simp

theorem regionState_toSpec (name : Key) (state : Val) (outcomes : Dict) :
    regionState name (.dict [(.str "state", state), (.str "outcomes", .dict outcomes)])
      = .ok state := rfl

theorem regionOutcomes_toSpec (state : Val) (outcomes : Dict) :
    regionOutcomes (.dict [(.str "state", state), (.str "outcomes", .dict outcomes)])
      = .ok outcomes := by
  show (orElse (some (.dict outcomes)) (.dict [])).toDict = _
  rw [orElse_dict]
  rfl

/-- The regions are those built from the specs of regions, with the same names and mappings. -/
abbrev RegionsBuilt (reg : Registry ν L) (node : Option ν) :
    List (Key × Region (Obj L)) → List (Key × Region (Obj L)) → Prop :=
  List.Forall₂ fun r r' => r'.1 = r.1 ∧ r'.2.outcomes = r.2.outcomes ∧
    buildFromSpec reg node r.2.state.toSpec = .ok r'.2.state

/-- The loop of `_build_parallel` over the regions of a spec written by `to_spec`. -/
theorem buildRegions_regionsSpec {regions acc regions' : List (Key × Region (Obj L))}
    (hd : DistinctKeys (acc ++ regions)) :
    buildRegions reg node acc (regionsSpec regions) = .ok regions' ↔
      ∃ built, regions' = acc ++ built ∧ RegionsBuilt reg node regions built := by
  induction regions generalizing acc with
  | nil =>
      rw [regionsSpec, buildRegions_nil]
      constructor
      · intro h
        obtain rfl := Except.ok.inj h
        exact ⟨[], by simp, .nil⟩
      · rintro ⟨built, rfl, hbuilt⟩
        cases hbuilt
        simp
  | cons r rest ih =>
      obtain ⟨name, ⟨state, outcomes⟩⟩ := r
      have hd' (state' : Obj L) :
          DistinctKeys ((acc ++ [(name, ⟨state', outcomes⟩)]) ++ rest) := by
        rw [distinctKeys_iff] at hd ⊢
        simpa using hd
      have hset (state' : Obj L) : setItem acc name ⟨state', outcomes⟩
          = acc ++ [(name, ⟨state', outcomes⟩)] :=
        setItem_of_not_hasKey hd.hasKey_eq_false _
      rw [regionsSpec, buildRegions_cons, regionState_toSpec, regionOutcomes_toSpec]
      constructor
      · intro h
        obtain ⟨_, hs, h⟩ := bind_ok_iff.mp h
        obtain rfl := Except.ok.inj hs
        obtain ⟨inner, hinner, h⟩ := bind_ok_iff.mp h
        have h' : buildRegions reg node (setItem acc name ⟨inner, outcomes⟩) (regionsSpec rest)
            = .ok regions' := h
        rw [hset] at h'
        obtain ⟨built, rfl, hbuilt⟩ := (ih (hd' inner)).mp h'
        exact ⟨(name, ⟨inner, outcomes⟩) :: built, by simp, .cons ⟨rfl, rfl, hinner⟩ hbuilt⟩
      · rintro ⟨built, rfl, _ | ⟨⟨hname, hout, hinner⟩, hbuilt⟩⟩
        rename_i r' built
        obtain ⟨name', ⟨inner, outcomes'⟩⟩ := r'
        obtain rfl : name' = name := hname
        obtain rfl : outcomes' = outcomes := hout
        show (buildFromSpec reg node state.toSpec >>= fun inner =>
          buildRegions reg node (setItem acc name' ⟨inner, outcomes'⟩) (regionsSpec rest)) = _
        rw [hinner]
        show buildRegions reg node (setItem acc name' ⟨inner, outcomes'⟩) (regionsSpec rest) = _
        rw [hset]
        exact (ih (hd' inner)).mpr ⟨built, by simp, hbuilt⟩

/-! ## States that survive -/

/-- The spec of the state builds the same state again. -/
def Survives (reg : Registry ν L) (node : Option ν) (R : L → L → Prop) (t : Obj L) : Prop :=
  ∃ t', buildFromSpec reg node t.toSpec = .ok t' ∧ Same R t t'

variable {R : L → L → Prop}

theorem children_survive {children : List (Key × Obj L)} :
    (∀ c ∈ children, Survives reg node R c.2) ↔ ∃ built,
      BuiltFrom reg node (childrenSpec children) built ∧ SameChildren R children built := by
  induction children with
  | nil => exact ⟨fun _ => ⟨[], .nil, .nil⟩, fun _ => nofun⟩
  | cons c rest ih =>
      obtain ⟨name, child⟩ := c
      rw [List.forall_mem_cons, ih]
      constructor
      · rintro ⟨⟨child', hchild, hsame⟩, built, hbuilt, hrest⟩
        exact ⟨(name, child') :: built, .cons ⟨rfl, hchild⟩ hbuilt, .cons hsame hrest⟩
      · rintro ⟨built, hbuilt, hsame⟩
        obtain _ | ⟨hchild, hrest⟩ := hsame
        obtain _ | ⟨⟨-, hb⟩, hbuilt⟩ := hbuilt
        exact ⟨⟨_, hb, hchild⟩, _, hbuilt, hrest⟩

theorem regions_survive {regions : List (Key × Region (Obj L))} :
    (∀ r ∈ regions, Survives reg node R r.2.state) ↔ ∃ built,
      RegionsBuilt reg node regions built ∧ SameRegions R regions built := by
  induction regions with
  | nil => exact ⟨fun _ => ⟨[], .nil, .nil⟩, fun _ => nofun⟩
  | cons r rest ih =>
      obtain ⟨name, ⟨state, outcomes⟩⟩ := r
      rw [List.forall_mem_cons, ih]
      constructor
      · rintro ⟨⟨state', hstate, hsame⟩, built, hbuilt, hrest⟩
        exact ⟨(name, ⟨state', outcomes⟩) :: built, .cons ⟨rfl, rfl, hstate⟩ hbuilt,
          .cons hsame hrest⟩
      · rintro ⟨built, hbuilt, hsame⟩
        obtain _ | ⟨hstate, hrest⟩ := hsame
        obtain _ | ⟨⟨-, -, hb⟩, hbuilt⟩ := hbuilt
        exact ⟨⟨_, hb, hstate⟩, _, hbuilt, hrest⟩

/-- The spec of a machine is built by the builder of its kind. -/
theorem build_machineSpec (m : MachineInfo) (children : List (Key × Obj L)) :
    buildFromSpec reg node (.dict (m.toSpec (childrenSpec children))) = (do
      let outcomes ← machineOutcomes (m.toSpec (childrenSpec children))
      attachChildren reg node ⟨m.kind.className, m.kind, outcomes, [], m.initialState⟩
        (m.toSpec (childrenSpec children))) := by
  rw [buildFromSpec]
  obtain ⟨className, kind, outcomes, transitions, initialState⟩ := m
  cases kind with
  | stateMachine =>
      show (emptyStateMachine _ >>= fun m => attachChildren reg node m _) = _
      unfold emptyStateMachine
      cases machineOutcomes (MachineInfo.toSpec
        ⟨className, .stateMachine, outcomes, transitions, initialState⟩
        (childrenSpec children)) with
      | error e => rfl
      | ok outcomes' => rfl
  | behaviorSM parameters =>
      show (emptyBehaviorSM _ >>= fun m => attachChildren reg node m _) = _
      unfold emptyBehaviorSM
      cases machineOutcomes (MachineInfo.toSpec
        ⟨className, .behaviorSM parameters, outcomes, transitions, initialState⟩
        (childrenSpec children)) with
      | error e => rfl
      | ok outcomes' =>
          show ((orElse (some (.list parameters)) (.list [])).iter >>= _) >>= _ = _
          rw [orElse_list]
          rfl

theorem machineOutcomes_toSpec {m : MachineInfo} {children : Dict} (h : m.outcomes ≠ []) :
    machineOutcomes (m.toSpec children) = .ok m.outcomes := by
  obtain ⟨className, kind, outcomes, transitions, initialState⟩ := m
  cases outcomes with
  | nil => exact absurd rfl h
  | cons o rest => cases kind <;> rfl

theorem item_children_toSpec (m : MachineInfo) (children : Dict) :
    item (m.toSpec children) (.str "children") = some (.dict children) := by
  obtain ⟨className, kind, outcomes, transitions, initialState⟩ := m
  cases kind <;> rfl

theorem item_transitions_toSpec (m : MachineInfo) (children : Dict) :
    item (m.toSpec children) (.str "transitions")
      = some (.dict (m.transitions.map fun t => (t.1, .dict t.2))) := by
  obtain ⟨className, kind, outcomes, transitions, initialState⟩ := m
  cases kind <;> rfl

theorem BuiltFrom.names {children built : List (Key × Obj L)}
    (h : BuiltFrom reg node (childrenSpec children) built) :
    built.map Prod.fst = children.map Prod.fst := by
  induction children generalizing built with
  | nil =>
      cases h
      rfl
  | cons c rest ih =>
      obtain ⟨name, child⟩ := c
      rw [childrenSpec] at h
      obtain _ | ⟨⟨hname, -⟩, hrest⟩ := h
      rw [List.map_cons, List.map_cons, ih hrest, hname]

/-- Building the spec of a machine whose children have been built. -/
theorem build_machine_toSpec {m : MachineInfo} {children built : List (Key × Obj L)}
    (hm : Attached m children) (hout : m.outcomes ≠ [])
    (hbuilt : BuiltFrom reg node (childrenSpec children) built) :
    buildFromSpec reg node (Obj.machine m children).toSpec
      = .ok (.machine { m with className := m.kind.className } built) := by
  have hnames := distinctKeys_iff.mp hm.distinct
  have hd : DistinctKeys ([] ++ built) := by
    rw [List.nil_append, distinctKeys_iff, hbuilt.names]
    exact hnames
  have hitem : ∀ t ∈ m.transitions,
      item (m.transitions.map fun t => (t.1, Val.dict t.2)) t.1 = some (.dict t.2) := by
    intro t ht
    refine item_of_mem ?_ (List.mem_map.mpr ⟨t, ht, rfl⟩)
    rw [distinctKeys_iff, List.map_map]
    rw [← hm.aligned] at hnames
    exact hnames
  have hattach : attach reg node ⟨m.kind.className, m.kind, m.outcomes, [], m.initialState⟩ []
      (.dict (m.transitions.map fun t => (t.1, .dict t.2))) (childrenSpec children)
      = .ok (⟨m.kind.className, m.kind, m.outcomes, m.transitions, m.initialState⟩, built) :=
    attach_childrenSpec hbuilt hm.aligned hitem hd hm.initial
  rw [Obj.toSpec, build_machineSpec, machineOutcomes_toSpec hout]
  show attachChildren reg node _ _ = _
  rw [attachChildren, item_children_toSpec, item_transitions_toSpec, orElse_dict, orElse_dict,
    attachAll, hattach]
  rfl

/-- **A machine survives** if its children do; without outcomes it would get the default
ones. -/
theorem machine_survives {m : MachineInfo} {children : List (Key × Obj L)}
    (hm : Attached m children) : Survives reg node R (.machine m children) ↔
      m.outcomes ≠ [] ∧ ∀ c ∈ children, Survives reg node R c.2 := by
  constructor
  · rintro ⟨t', hbuild, hsame⟩
    -- the outcomes of what is built are not empty, and they are those of `m`
    obtain _ | @⟨_, m', _, children', hfields, hchildren⟩ := hsame
    rw [Obj.toSpec, build_machineSpec] at hbuild
    obtain ⟨outcomes, hout, hbuild⟩ := bind_ok_iff.mp hbuild
    obtain ⟨items, m₁, states, hitems, hattach, hmade⟩ := attachChildren_ok hbuild
    obtain ⟨rfl, rfl⟩ := Obj.machine.inj hmade
    rw [item_children_toSpec, orElse_dict] at hitems
    obtain rfl := Val.dict.inj hitems
    obtain ⟨-, ⟨built, hstates, hbuilt⟩, -, -, ho⟩ :=
      attach_ok ⟨List.Pairwise.nil, rfl, fun _ => nofun⟩ hattach
    rw [List.nil_append] at hstates
    subst hstates
    refine ⟨?_, children_survive.mpr ⟨_, hbuilt, hchildren⟩⟩
    rw [← hfields.outcomes, ho]
    exact machineOutcomes_ne_nil hout
  · rintro ⟨hout, hchildren⟩
    obtain ⟨built, hbuilt, hsame⟩ := children_survive.mp hchildren
    exact ⟨_, build_machine_toSpec hm hout hbuilt, .machine ⟨rfl, rfl, rfl, rfl⟩ hsame⟩

/-- The mappings, and so the outcomes, of the regions stay the same. -/
theorem RegionsBuilt.targets {regions built : List (Key × Region (Obj L))}
    (h : RegionsBuilt reg node regions built) :
    (built.flatMap fun r => r.2.outcomes.map Prod.snd)
      = regions.flatMap fun r => r.2.outcomes.map Prod.snd := by
  induction h with
  | nil => rfl
  | @cons r r' regions built hr _ ih =>
      calc ((r' :: built).flatMap fun r => r.2.outcomes.map Prod.snd)
        _ = r'.2.outcomes.map Prod.snd ++ built.flatMap fun r => r.2.outcomes.map Prod.snd :=
            List.flatMap_cons
        _ = r.2.outcomes.map Prod.snd ++ regions.flatMap fun r => r.2.outcomes.map Prod.snd := by
            rw [ih, hr.2.1]
        _ = (r :: regions).flatMap fun r => r.2.outcomes.map Prod.snd := by
            rw [List.flatMap_cons]

theorem build_parallelSpec {policy : Val} {outcomes : List Key}
    {regions : List (Key × Region (Obj L))} (hne : regions ≠ []) :
    buildFromSpec reg node (Obj.parallel policy outcomes regions).toSpec
      = (buildRegions reg node [] (regionsSpec regions) >>= fun rs => parallelInit rs policy) := by
  cases regions with
  | nil => exact absurd rfl hne
  | cons r rest =>
      obtain ⟨name, ⟨state, out⟩⟩ := r
      rw [Obj.toSpec, buildFromSpec, regionsSpec]
      show buildParallel reg node _ = _
      rw [buildParallel]
      show (buildRegionsOf reg node (.dict _) >>= fun rs => parallelInit rs policy) = _
      rw [buildRegionsOf]

theorem parallelInit_eq {policy : Val} {outcomes : List Key}
    {regions built : List (Key × Region (Obj L))} (h : ParallelMade policy outcomes regions)
    (hbuilt : RegionsBuilt reg node regions built) :
    parallelInit built policy = .ok (.parallel policy outcomes built) := by
  -- the regions are as many as before, with the same mappings
  have hne : built ≠ [] := by
    rintro rfl
    cases hbuilt
    exact h.nonempty rfl
  exact parallelInit_ok_iff.mpr
    ⟨hne, h.policy, outcomes, hbuilt.targets ▸ h.outcomes, rfl⟩

/-- **A parallel survives** if the states of its regions do. -/
theorem parallel_survives {policy : Val} {outcomes : List Key}
    {regions : List (Key × Region (Obj L))} (h : ParallelMade policy outcomes regions) :
    Survives reg node R (.parallel policy outcomes regions) ↔
      ∀ r ∈ regions, Survives reg node R r.2.state := by
  have hloop (rs : List (Key × Region (Obj L))) :
      buildRegions reg node [] (regionsSpec regions) = .ok rs ↔
        ∃ built, rs = [] ++ built ∧ RegionsBuilt reg node regions built :=
    buildRegions_regionsSpec h.distinct
  rw [regions_survive]
  constructor
  · rintro ⟨t', ht', hsame⟩
    obtain _ | _ | @⟨_, _, _, regions', hregions⟩ := hsame
    rw [build_parallelSpec h.nonempty] at ht'
    obtain ⟨rs, hrs, hinit⟩ := bind_ok_iff.mp ht'
    obtain ⟨built, rfl, hbuilt⟩ := (hloop rs).mp hrs
    rw [parallelInit_eq h hbuilt] at hinit
    obtain ⟨-, -, rfl⟩ := Obj.parallel.inj (Except.ok.inj hinit)
    exact ⟨_, hbuilt, hregions⟩
  · rintro ⟨built, hbuilt, hsame⟩
    refine ⟨.parallel policy outcomes built, ?_, .parallel hsame⟩
    rw [build_parallelSpec h.nonempty, (hloop built).mpr ⟨built, rfl, hbuilt⟩]
    exact parallelInit_eq h hbuilt

end Rebuild

/-! ## The round trip -/

section RoundTrip

variable [LeafState L] {reg : Registry ν L} {node : Option ν} {R : L → L → Prop}

def SameSpec (x y : L) : Prop := LeafState.toSpec y = LeafState.toSpec x

/-- The contract of `State.to_spec` for a leaf: building its own spec gives an equivalent leaf, with
the same spec. -/
def KeepsContract (reg : Registry ν L) (node : Option ν) (R : L → L → Prop) (x : L) : Prop :=
  ∃ y, buildFromSpec reg node (LeafState.toSpec x) = .ok (.leaf y) ∧ R x y ∧ SameSpec x y

/-- **A loaded state survives** if its leaves do. -/
theorem Loaded.survives {t : Obj L} (h : Loaded reg node t)
    (hleaves : AllLeaves (fun x => Survives reg node R (.leaf x)) t) : Survives reg node R t := by
  induction h with
  | leaf _ _ =>
      cases hleaves with
      | leaf hx => exact hx
  | machine _ hout hm _ ih =>
      cases hleaves with
      | machine hc => exact (machine_survives hm).mpr ⟨hout, fun c hmem => ih c hmem (hc c hmem)⟩
  | parallel hmade _ ih =>
      cases hleaves with
      | parallel hr => exact (parallel_survives hmade).mpr fun r hmem => ih r hmem (hr r hmem)

mutual

/-- Structurally equal loaded states have the same spec. -/
theorem Same.toSpec_eq {t t' : Obj L} (h : Same SameSpec t t') (ht : Loaded reg node t)
    (ht' : Loaded reg node t') : t'.toSpec = t.toSpec := by
  cases h with
  | leaf hxy => exact hxy
  | @machine m m' children children' hm hchildren =>
      obtain _ | ⟨hclass, -, -, hc⟩ := ht
      obtain _ | ⟨hclass', -, -, hc'⟩ := ht'
      have heq : m' = m := by
        obtain ⟨cls, kind, outcomes, transitions, initialState⟩ := m
        obtain ⟨cls', kind', outcomes', transitions', initialState'⟩ := m'
        obtain ⟨rfl, rfl, rfl, rfl⟩ := hm
        obtain rfl : cls = kind'.className := hclass
        obtain rfl : cls' = kind'.className := hclass'
        rfl
      rw [Obj.toSpec, Obj.toSpec, heq, hchildren.childrenSpec_eq hc hc']
  | parallel hregions =>
      obtain _ | _ | ⟨-, hr⟩ := ht
      obtain _ | _ | ⟨-, hr'⟩ := ht'
      rw [Obj.toSpec, Obj.toSpec, hregions.regionsSpec_eq hr hr']
  | retry _ => cases ht

theorem SameChildren.childrenSpec_eq {children children' : List (Key × Obj L)}
    (h : SameChildren SameSpec children children')
    (hc : ∀ c ∈ children, Loaded reg node c.2) (hc' : ∀ c ∈ children', Loaded reg node c.2) :
    childrenSpec children' = childrenSpec children := by
  cases h with
  | nil => rfl
  | cons hchild hrest =>
      obtain ⟨hc, hcs⟩ := List.forall_mem_cons.mp hc
      obtain ⟨hc', hcs'⟩ := List.forall_mem_cons.mp hc'
      rw [childrenSpec, childrenSpec, hchild.toSpec_eq hc hc',
        hrest.childrenSpec_eq hcs hcs']

theorem SameRegions.regionsSpec_eq {regions regions' : List (Key × Region (Obj L))}
    (h : SameRegions SameSpec regions regions')
    (hr : ∀ r ∈ regions, Loaded reg node r.2.state)
    (hr' : ∀ r ∈ regions', Loaded reg node r.2.state) :
    regionsSpec regions' = regionsSpec regions := by
  cases h with
  | nil => rfl
  | cons hstate hrest =>
      obtain ⟨hr, hrs⟩ := List.forall_mem_cons.mp hr
      obtain ⟨hr', hrs'⟩ := List.forall_mem_cons.mp hr'
      rw [regionsSpec, regionsSpec, hstate.toSpec_eq hr hr',
        hrest.regionsSpec_eq hrs hrs']

end

/-- **Loader and serializer agree on what the loader makes**: if the leaves of a state that was
built from a spec keep the contract of `State.to_spec`, its spec builds, to a structurally equal
state with the same spec. What else is registered, and with which arguments, does not matter. -/
theorem build_toSpec_roundtrip {s : Val} {t : Obj L} (h : buildFromSpec reg node s = .ok t)
    (hc : AllLeaves (KeepsContract reg node R) t) :
    ∃ t', buildFromSpec reg node t.toSpec = .ok t' ∧ Same R t t' ∧ t'.toSpec = t.toSpec := by
  have ht := loaded_of_build h
  have hequiv : AllLeaves (fun x => Survives reg node R (.leaf x)) t := by
    refine hc.mono fun x hx => ?_
    obtain ⟨y, hy, hR, -⟩ := hx
    exact ⟨.leaf y, hy, .leaf hR⟩
  have hspecs : AllLeaves (fun x => Survives reg node SameSpec (.leaf x)) t := by
    refine hc.mono fun x hx => ?_
    obtain ⟨y, hy, -, hspec⟩ := hx
    exact ⟨.leaf y, hy, .leaf hspec⟩
  -- the spec is built once, to a state that is equal in both respects
  obtain ⟨t', ht', hsame⟩ := ht.survives hequiv
  obtain ⟨t'', ht'', hspec⟩ := ht.survives hspecs
  obtain rfl : t' = t'' := Except.ok.inj (ht'.symm.trans ht'')
  exact ⟨t', ht', hsame, hspec.toSpec_eq ht (loaded_of_build ht')⟩

end RoundTrip

/-! ## A leaf class with an argument -/

/-- A state that is known by its `tag`, which its `to_spec` writes into `args`. -/
structure Tag where
  tag : Val

instance : LeafState Tag where
  outcomes _ := ["done"]
  toSpec x := .dict (stateSpec "Tag" [.str "done"] ++ [(.str "args", .dict [(.str "tag", x.tag)])])

def tagClass : Klass Unit Tag where
  name := "Tag"
  isState := true
  init node kwargs :=
    match node, kwargs with
    | none, [] => .ok ⟨.str "X"⟩
    | none, [("tag", tag)] => .ok ⟨tag⟩
    | _, _ => .error .typeError

def tags : Registry Unit Tag := fun id => if id = "Tag" then some tagClass else none

theorem tags_keepsContract (node : Option Unit) (x : Tag) :
    KeepsContract tags node (· = ·) x := by
  refine ⟨x, ?_, rfl, rfl⟩
  show buildFromSpec tags node (.dict _) = _
  rw [buildFromSpec]
  cases node with
  | none => rfl
  | some n => rfl

def tagSpec (tag : String) : Val := .dict [
  (.str "kind", .str "State"),
  (.str "ref", .str "Tag"),
  (.str "args", .dict [(.str "tag", .str tag)])]

/-- A `BehaviorSM` over a leaf and a `Parallel`, with its outcomes, its initial state and its
policy left out. -/
def patrolSpec : Val := .dict [
  (.str "kind", .str "BehaviorSM"),
  (.str "behavior_parameters", .list [.str "mode"]),
  (.str "children", .dict [
    (.str "Go", tagSpec "Go"),
    (.str "Look", .dict [
      (.str "kind", .str "Parallel"),
      (.str "regions", .dict [
        (.str "Left", .dict [
          (.str "state", tagSpec "Left"),
          (.str "outcomes", .dict [(.str "done", .str "seen")])])])])]),
  (.str "transitions", .dict [
    (.str "Go", .dict [(.str "done", .str "Look")]),
    (.str "Look", .dict [(.str "seen", .str "done")])])]

def patrol : Obj Tag :=
  .machine ⟨"BehaviorSM", .behaviorSM [.str "mode"], [.str "done", .str "failed"],
      [(.str "Go", [(.str "done", .str "Look")]), (.str "Look", [(.str "seen", .str "done")])],
      .str "Go"⟩
    [(.str "Go", .leaf ⟨.str "Go"⟩),
      (.str "Look", .parallel (.str "first_wins") [.str "seen"]
        [(.str "Left", ⟨.leaf ⟨.str "Left"⟩, [(.str "done", .str "seen")]⟩)])]

theorem build_tagSpec (tag : String) :
    buildFromSpec tags none (tagSpec tag) = .ok (.leaf ⟨.str tag⟩) := by
  rw [tagSpec, buildFromSpec]
  rfl

theorem build_patrolSpec : buildFromSpec tags none patrolSpec = .ok patrol := by
  simp [patrolSpec, buildFromSpec, specKind, item, Val.isStr, emptyBehaviorSM, machineOutcomes,
    orElse, Val.truthy, Val.iter, attachChildren, attachAll, attach_cons, attach_nil,
    build_tagSpec, MachineInfo.add, Val.getD, hasKey, Val.toDict, buildParallel, buildRegionsOf,
    buildRegions_cons, buildRegions_nil, regionState, Val.contains, Val.index, regionOutcomes]
  rfl

theorem allLeaves_patrol : AllLeaves (KeepsContract tags none (· = ·)) patrol := by
  have hleaf (x : Tag) : AllLeaves (KeepsContract tags none (· = ·)) (.leaf x) :=
    .leaf (tags_keepsContract none x)
  refine .machine ?_
  simp only [List.forall_mem_cons]
  refine ⟨hleaf _, .parallel ?_, by simp⟩
  simp only [List.forall_mem_cons]
  exact ⟨hleaf _, by simp⟩

theorem build_toSpec_roundtrip_patrol : ∃ t', buildFromSpec tags none patrol.toSpec = .ok t' ∧
    Same (· = ·) patrol t' ∧ t'.toSpec = patrol.toSpec :=
  build_toSpec_roundtrip build_patrolSpec allLeaves_patrol

end RobotTaskManager.Spec
