import RobotTaskManager.Lib.PyEq
import RobotTaskManager.Spec.Made

set_option autoImplicit false

/-! # States that are equal

The state of a leaf is private to its class, so two leaves are compared by the calls that made
them: the loader is run with classes that record how they are called (`Registry.recorded`). Two
states agree (`Agrees`) if they are equal in the order of their children, their initial states,
transitions, outcomes and parameters at every level.
-/

namespace RobotTaskManager.Spec

open PyValue

variable {ν L : Type}

/-! ## The calls of the constructors -/

/-- The call of a class that made a leaf. -/
structure Call where
  className : String
  kwargs : Dict

/-- Keyword arguments, as a dict. -/
def asDict (kws : List (String × Val)) : Dict := kws.map fun e => (.str e.1, e.2)

/-- The class, with a constructor that also remembers how it was called. -/
def Klass.recorded (klass : Klass ν L) : Klass ν Call where
  name := klass.name
  isState := klass.isState
  init node kws := (klass.init node kws).map fun _ => ⟨klass.name, asDict kws⟩

def Registry.recorded (reg : Registry ν L) : Registry ν Call :=
  fun id => (reg id).map Klass.recorded

/-- A constructor does the same with equal arguments: it returns, or raises the same exception. -/
def Klass.TreatsAlike (klass : Klass ν L) : Prop :=
  ∀ node kws kws', PyEq (.dict (asDict kws)) (.dict (asDict kws')) →
    (klass.init node kws').map (fun _ => ()) = (klass.init node kws).map fun _ => ()

def Registry.TreatsAlike (reg : Registry ν L) : Prop :=
  ∀ id klass, reg id = some klass → klass.TreatsAlike

section Keywords

variable {kwargs kwargs' : Dict} {kws : List (String × Val)}

theorem keywords_ok_iff : keywords kwargs = .ok kws ↔ kwargs = asDict kws := by
  induction kwargs generalizing kws with
  | nil =>
      rw [keywords, List.mapM_nil]
      constructor
      · intro h
        obtain rfl := Except.ok.inj h
        rfl
      · intro h
        rw [List.map_eq_nil_iff.mp h.symm]
        rfl
  | cons e rest ih =>
      obtain ⟨k, v⟩ := e
      rw [keywords, List.mapM_cons, bind_ok_iff]
      constructor
      · rintro ⟨e, he, h⟩
        obtain ⟨kws', hkws', h⟩ := bind_ok_iff.mp h
        obtain rfl := Except.ok.inj h
        rw [ih.mp hkws']
        cases k with
        | str s =>
            obtain rfl := Except.ok.inj he
            rfl
        | _ => cases he
      · intro h
        cases kws with
        | nil => cases h
        | cons e kws =>
            obtain ⟨he, hrest⟩ := List.cons.inj h
            obtain ⟨rfl, rfl⟩ := Prod.mk.inj he
            exact ⟨e, rfl, bind_ok_iff.mpr ⟨kws, ih.mpr hrest, rfl⟩⟩

/-- The keys are strings, or there is a `TypeError`. -/
theorem keywords_cases (kwargs : Dict) : (∃ kws, keywords kwargs = .ok kws) ∨
    keywords kwargs = .error .typeError ∧ ∃ e ∈ kwargs, e.1.string? = none := by
  induction kwargs with
  | nil => exact Or.inl ⟨[], rfl⟩
  | cons e rest ih =>
      obtain ⟨k, v⟩ := e
      cases k with
      | str s =>
          rcases ih with ⟨kws, hkws⟩ | ⟨herr, e, he, hnone⟩
          · refine Or.inl ⟨(s, v) :: kws, ?_⟩
            rw [keywords_ok_iff] at hkws ⊢
            rw [hkws]
            rfl
          · refine Or.inr ⟨?_, e, List.mem_cons_of_mem _ he, hnone⟩
            rw [keywords] at herr ⊢
            rw [List.mapM_cons, ok_bind, herr]
            rfl
      | _ => exact Or.inr ⟨rfl, _, List.mem_cons_self, rfl⟩

theorem keywords_error (h : ∃ e ∈ kwargs, e.1.string? = none) :
    keywords kwargs = .error .typeError := by
  rcases keywords_cases kwargs with ⟨kws, hkws⟩ | ⟨herr, -⟩
  · obtain ⟨e, he, hnone⟩ := h
    rw [keywords_ok_iff.mp hkws] at he
    obtain ⟨e₀, -, rfl⟩ := List.mem_map.mp he
    cases hnone
  · exact herr

/-- `'node' in kwargs` -/
theorem any_node (kws : List (String × Val)) :
    kws.any (·.1 = "node") = true ↔ ∃ e ∈ asDict kws, e.1 = .str "node" := by
  simp [asDict]

end Keywords

section Classes

variable {klass : Klass ν L} {node : Option ν} {kwargs kwargs' : Dict}

theorem recorded_call : klass.recorded.call node kwargs
    = (klass.call node kwargs).map fun _ => ⟨klass.name, kwargs⟩ := by
  rw [Klass.call, Klass.call]
  rcases keywords_cases kwargs with ⟨kws, hkws⟩ | ⟨herr, -⟩
  · obtain rfl := keywords_ok_iff.mp hkws
    rw [hkws, ok_bind, ok_bind]
    split <;> rfl
  · rw [herr]
    rfl

/-- A recording class makes a leaf exactly if the class does. -/
theorem recorded_make : klass.recorded.make node kwargs
    = (klass.make node kwargs).map fun _ => ⟨klass.name, kwargs⟩ := by
  rw [Klass.make, Klass.make, recorded_call, recorded_call]
  cases klass.call node kwargs with
  | ok x => rfl
  | error e => cases e <;> rfl

theorem call_alike (hk : klass.TreatsAlike) (h : PyEq (.dict kwargs) (.dict kwargs')) :
    (klass.call node kwargs').map (fun _ => ()) = (klass.call node kwargs).map fun _ => () := by
  have hnone : (∃ e ∈ kwargs, e.1.string? = none) ↔ ∃ e ∈ kwargs', e.1.string? = none := by
    refine exists_key_iff (p := fun k => k.string? = none) (fun a b hab => ?_) h
    rw [← a.string?_norm, ← b.string?_norm, Key.same_iff.mp hab]
  have hnode : (∃ e ∈ kwargs, e.1 = .str "node") ↔ ∃ e ∈ kwargs', e.1 = .str "node" := by
    refine exists_key_iff (p := fun k => k = .str "node") (fun a b hab => ?_) h
    have hnorm : ∀ k : Key, k = .str "node" ↔ k.norm = .str "node" := fun k => by
      cases k <;> simp [Key.norm]
    rw [hnorm a, hnorm b, Key.same_iff.mp hab]
  rw [Klass.call, Klass.call]
  rcases keywords_cases kwargs' with ⟨kws', hkws'⟩ | ⟨herr', hbad⟩
  · rcases keywords_cases kwargs with ⟨kws, hkws⟩ | ⟨-, hbad⟩
    · obtain rfl := keywords_ok_iff.mp hkws
      obtain rfl := keywords_ok_iff.mp hkws'
      rw [← any_node, ← any_node] at hnode
      rw [hkws, hkws', ok_bind, ok_bind, Bool.eq_iff_iff.mpr hnode]
      split
      · rfl
      · exact hk node kws kws' h
    · rw [keywords_error (hnone.mp hbad)] at hkws'
      cases hkws'
  · rw [herr', keywords_error (hnone.mpr hbad)]

/-- **Equal arguments make a leaf alike**, with a node or without one. -/
theorem make_alike (hk : klass.TreatsAlike) (h : PyEq (.dict kwargs) (.dict kwargs')) :
    (klass.make node kwargs').map (fun _ => ()) = (klass.make node kwargs).map fun _ => () := by
  have hcall : ∀ n : Option ν, (klass.call n kwargs').map (fun _ => ())
      = (klass.call n kwargs).map fun _ => () := fun n => call_alike hk h
  have hwith := hcall node
  have hwithout := hcall none
  rw [Klass.make, Klass.make]
  cases hc : klass.call node kwargs with
  | ok x =>
      rw [hc] at hwith
      cases hc' : klass.call node kwargs' with
      | ok x' => rfl
      | error e =>
          rw [hc'] at hwith
          cases hwith
  | error e =>
      rw [hc] at hwith
      cases hc' : klass.call node kwargs' with
      | ok x' =>
          rw [hc'] at hwith
          cases hwith
      | error e' =>
          rw [hc'] at hwith
          obtain rfl : e' = e := Except.error.inj hwith
          cases e' with
          | typeError => exact hwithout
          | _ => rfl

end Classes

section Recorded

variable {reg : Registry ν L} {node : Option ν} {d : Dict} {v : Val}

theorem recorded_refersTo_iff {klass : Klass ν Call} : RefersTo reg.recorded d klass ↔
    ∃ klass₀, klass = klass₀.recorded ∧ RefersTo reg d klass₀ := by
  constructor
  · rintro ⟨id, hi, hne, hreg⟩
    obtain ⟨klass₀, hreg₀, rfl⟩ := Option.map_eq_some_iff.mp hreg
    exact ⟨klass₀, rfl, id, hi, hne, hreg₀⟩
  · rintro ⟨klass₀, rfl, id, hi, hne, hreg⟩
    exact ⟨id, hi, hne, Option.map_eq_some_iff.mpr ⟨klass₀, hreg, rfl⟩⟩

/-- A leaf that a recording class has made is the call that made it. -/
theorem recorded_make_ok_iff {klass : Klass ν L} {kwargs : Dict} {c : Call} :
    klass.recorded.make node kwargs = .ok c ↔
      c = ⟨klass.name, kwargs⟩ ∧ ∃ x, klass.make node kwargs = .ok x := by
  rw [recorded_make]
  cases klass.make node kwargs with
  | ok x => simp [Except.map, eq_comm]
  | error e => simp [Except.map]

/-- Recording classes accept what the classes accept. -/
theorem accepted_recorded_iff : Accepted reg.recorded node v ↔ Accepted reg node v := by
  constructor
  · intro h
    induction h with
    | state hk href hstate hkwargs hmake =>
        obtain ⟨klass₀, rfl, href₀⟩ := recorded_refersTo_iff.mp href
        obtain ⟨-, x, hx⟩ := recorded_make_ok_iff.mp hmake
        exact .state hk href₀ hstate hkwargs hx
    | machine hk hheader hchildren _ hentries ih => exact .machine hk hheader hchildren ih hentries
    | parallel hk hregions hne hstate _ hout hpolicy hsorted ih =>
        exact .parallel hk hregions hne hstate ih hout hpolicy hsorted
  · intro h
    induction h with
    | @state d kwargs klass x hk href hstate hkwargs hmake =>
        exact .state hk (recorded_refersTo_iff.mpr ⟨klass, rfl, href⟩) hstate hkwargs
          (recorded_make_ok_iff.mpr ⟨rfl, x, hmake⟩)
    | machine hk hheader hchildren _ hentries ih => exact .machine hk hheader hchildren ih hentries
    | parallel hk hregions hne hstate _ hout hpolicy hsorted ih =>
        exact .parallel hk hregions hne hstate ih hout hpolicy hsorted

/-- With recording classes the loader makes a state of a spec exactly if it does with the
classes. -/
theorem builds_recorded_iff (hv : IsJson v) : Builds reg.recorded node v ↔ Builds reg node v := by
  rw [(builds_refuses_iff hv).1, (builds_refuses_iff hv).1, accepted_recorded_iff]

end Recorded

/-! ## Agreement -/

/-- Equal kinds of machines, with equal parameters. -/
inductive AgreeKind : MachineKind → MachineKind → Prop
  | stateMachine : AgreeKind .stateMachine .stateMachine
  | behaviorSM {ps ps' : List Val} : List.Forall₂ PyEq ps ps' →
      AgreeKind (.behaviorSM ps) (.behaviorSM ps')

/-- Machines that are equal without their children. -/
structure AgreeMachine (m m' : MachineInfo) : Prop where
  className : m'.className = m.className
  kind : AgreeKind m.kind m'.kind
  outcomes : List.Forall₂ PyEq m.outcomes m'.outcomes
  transitions : List.Forall₂ (fun t t' => t'.1 = t.1 ∧ PyEq (.dict t.2) (.dict t'.2))
    m.transitions m'.transitions
  initialState : PyEq m.initialState m'.initialState

/-- Calls of one class with equal arguments. -/
structure AgreeCall (c c' : Call) : Prop where
  className : c'.className = c.className
  kwargs : PyEq (.dict c.kwargs) (.dict c'.kwargs)

mutual

/-- Equal states. -/
inductive Agrees : Obj Call → Obj Call → Prop
  | leaf {c c' : Call} : AgreeCall c c' → Agrees (.leaf c) (.leaf c')
  | machine {m m' : MachineInfo} {children children' : List (Key × Obj Call)} :
      AgreeMachine m m' → AgreeChildren children children' →
      Agrees (.machine m children) (.machine m' children')
  | parallel {policy policy' : Val} {outcomes outcomes' : List Key}
      {regions regions' : List (Key × Region (Obj Call))} : PyEq policy policy' →
      List.Forall₂ (fun a b => a.same b = true) outcomes outcomes' →
      AgreeRegions regions regions' →
      Agrees (.parallel policy outcomes regions) (.parallel policy' outcomes' regions')

/-- Equal states in the same order under the same names. -/
inductive AgreeChildren : List (Key × Obj Call) → List (Key × Obj Call) → Prop
  | nil : AgreeChildren [] []
  | cons {name : Key} {child child' : Obj Call} {rest rest' : List (Key × Obj Call)} :
      Agrees child child' → AgreeChildren rest rest' →
      AgreeChildren ((name, child) :: rest) ((name, child') :: rest')

inductive AgreeRegions : List (Key × Region (Obj Call)) → List (Key × Region (Obj Call)) → Prop
  | nil : AgreeRegions [] []
  | cons {name : Key} {region region' : Region (Obj Call)}
      {rest rest' : List (Key × Region (Obj Call))} : Agrees region.state region'.state →
      PyEq (.dict region.outcomes) (.dict region'.outcomes) → AgreeRegions rest rest' →
      AgreeRegions ((name, region) :: rest) ((name, region') :: rest')

end

theorem agreeChildren_iff {children children' : List (Key × Obj Call)} :
    AgreeChildren children children' ↔
      List.Forall₂ (fun c c' => c'.1 = c.1 ∧ Agrees c.2 c'.2) children children' := by
  constructor
  · intro h
    induction children generalizing children' with
    | nil =>
        cases h
        exact .nil
    | cons c rest ih =>
        obtain _ | ⟨hc, hrest⟩ := h
        exact .cons ⟨rfl, hc⟩ (ih hrest)
  · intro h
    induction h with
    | nil => exact .nil
    | @cons c c' _ _ hc _ ih =>
        obtain ⟨name, child⟩ := c
        obtain ⟨name', child'⟩ := c'
        obtain ⟨rfl, hc⟩ := hc
        exact .cons hc ih

theorem agreeRegions_iff {regions regions' : List (Key × Region (Obj Call))} :
    AgreeRegions regions regions' ↔
      List.Forall₂ (fun r r' => r'.1 = r.1 ∧ Agrees r.2.state r'.2.state ∧
        PyEq (.dict r.2.outcomes) (.dict r'.2.outcomes)) regions regions' := by
  constructor
  · intro h
    induction regions generalizing regions' with
    | nil =>
        cases h
        exact .nil
    | cons r rest ih =>
        obtain _ | ⟨hr, hout, hrest⟩ := h
        exact .cons ⟨rfl, hr, hout⟩ (ih hrest)
  · intro h
    induction h with
    | nil => exact .nil
    | @cons r r' _ _ hr _ ih =>
        obtain ⟨name, region⟩ := r
        obtain ⟨name', region'⟩ := r'
        obtain ⟨rfl, hr, hout⟩ := hr
        exact .cons hr hout ih

/-- Regions that are equal but for the outcomes of the parallel have those too. -/
theorem AgreeRegions.outcomes {ε : Type} {regions regions' : List (Key × Region (Obj Call))}
    {outcomes : List Key} (h : AgreeRegions regions regions')
    (hsorted : sortedSet (ε := ε) (regions.flatMap fun r => r.2.outcomes.map Prod.snd)
      = .ok outcomes) :
    ∃ outcomes', sortedSet (ε := ε) (regions'.flatMap fun r => r.2.outcomes.map Prod.snd)
        = .ok outcomes' ∧ List.Forall₂ (fun a b => a.same b = true) outcomes outcomes' := by
  obtain ⟨vs, hperm, hvs⟩ : ∃ vs,
      (regions.flatMap fun r => r.2.outcomes.map Prod.snd).Perm vs ∧
      List.Forall₂ PyEq vs (regions'.flatMap fun r => r.2.outcomes.map Prod.snd) := by
    clear hsorted
    rw [agreeRegions_iff] at h
    induction h with
    | nil => exact ⟨[], .nil, .nil⟩
    | @cons r r' _ _ hr _ ih =>
        obtain ⟨vs, hperm, hvs⟩ := ih
        obtain ⟨d₁, hperm₁, hitems⟩ := pyEq_dict_iff.mp hr.2.2
        have hvalues : List.Forall₂ PyEq (d₁.map Prod.snd) (r'.2.outcomes.map Prod.snd) := by
          rw [List.forall₂_map_left_iff, List.forall₂_map_right_iff]
          exact hitems.imp fun _ _ he => he.2
        exact ⟨d₁.map Prod.snd ++ vs, (hperm₁.map Prod.snd).append hperm,
          List.rel_append hvalues hvs⟩
  exact sortedSet_eq hsorted hperm hvs

end RobotTaskManager.Spec
