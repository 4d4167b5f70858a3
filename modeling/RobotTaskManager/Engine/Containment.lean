import RobotTaskManager.Engine.Tree
import RobotTaskManager.Lib.Acyclic
import RobotTaskManager.Lib.Run

set_option autoImplicit false

/-! # Which objects contain which

The engine's states are Python objects that refer to each other: a machine to its children, a
`Parallel` to the states of its regions, a `RetryDecorator` to its inner state. Here they are a
list of objects that refer to each other by their numbers; it grows by constructions and is
changed by `StateMachine.add` only. Where no object contains itself it unfolds to trees
(`unfold`), which is what the recursions of `to_spec` and `execute` need.

`add` rejects the machine itself and nothing else, so a machine can be added to one of its own
descendants.
-/

namespace RobotTaskManager.Engine

open Interleaving Acyclicity Relation

/-! ## Objects -/

/-- An object; the states it contains are given by their numbers. The lists of outcomes are those
that `__init__` has computed. -/
inductive StateObject
  | leaf (l : Leaf)
  | machine (m : MachineInfo) (children : List (Child Nat))
  | parallel (first : Region Nat) (rest : List (Region Nat)) (outcomes : List String)
  | retry (r : RetryInfo) (inner : Nat) (outcomes : List String)

/-- The states that an object contains directly. -/
def StateObject.parts : StateObject → List Nat
  | .leaf _ => []
  | .machine _ children => children.map Child.state
  | .parallel first rest _ => (first :: rest).map Region.state
  | .retry _ inner _ => [inner]

def StateObject.outcomes : StateObject → List String
  | .leaf l => l.outcomes
  | .machine m _ => m.outcomes
  | .parallel _ _ outcomes => outcomes
  | .retry _ _ outcomes => outcomes

abbrev Heap := List StateObject

/-- The object `a` contains `b` directly. -/
def Contains (h : Heap) (a b : Nat) : Prop := ∃ obj, h[a]? = some obj ∧ b ∈ obj.parts

/-! ## Constructions and `add` -/

/-- A class that `add` can be given in place of a state. A class whose `__init__` adds children is
here the construction, the calls of `add`, and the object. -/
inductive StateClass
  | leaf (className : String) (outcomes : List String)
  | machine (kind : MachineKind) (className : String) (outcomes : List String)
  | parallel
  | retryDecorator

inductive StateRef
  | object (o : Nat)
  | cls (c : StateClass)
  /-- A class that is no subclass of `State`. -/
  | otherClass
  | id (s : String)
  /-- Neither a state nor a class nor a string. -/
  | other

/-- A call of a constructor. -/
inductive Construction
  | leaf (className : String) (outcomes : List String)
  | machine (kind : MachineKind) (className : String) (classOutcomes : List String)
      (outcomes : Option (List String)) (initialState : Option String)
  | parallel (regions : List (Region Nat)) (policy : String)
  | retryDecorator (inner : Nat) (maxRetries : Int) (retryOutcome : String)

inductive BuildError
  | hfsmError
  | registryError
  | selfIterationError
  | typeError
  | valueError
  deriving DecidableEq

inductive HeapEvent
  | created (o : Nat)
  | added (m o : Nat)
  | raised (e : BuildError)

inductive HeapAct
  | construct (c : Construction)
  | add (m : Nat) (name : String) (ref : StateRef) (transitions : OutcomeMap)

/-- `sorted({target for region in regions for target in region.outcomes.values()})` -/
def mappedOutcomes (regions : List (Region Nat)) : List String :=
  ((regions.flatMap fun r => r.outcomes.map Prod.snd).dedup).insertionSort (· ≤ ·)

/-- `StateMachine.__init__` -/
def newMachine (h : Heap) (kind : MachineKind) (className : String) (classOutcomes : List String)
    (outcomes : Option (List String)) (initialState : Option String) : StateObject :=
  .machine ⟨h.length, className, kind, outcomes.getD classOutcomes, initialState⟩ []

/-- `__init__` of the class. -/
def construct (h : Heap) : Construction → Except BuildError StateObject
  | .leaf className outcomes => .ok (.leaf ⟨h.length, className, outcomes⟩)
  | .machine kind className classOutcomes outcomes initialState =>
      .ok (newMachine h kind className classOutcomes outcomes initialState)
  | .parallel regions policy =>
      match regions with
      | [] => .error .hfsmError
      | first :: rest =>
          if policy = "first_wins" then
            .ok (.parallel first rest (mappedOutcomes (first :: rest)))
          else .error .hfsmError
  | .retryDecorator inner maxRetries retryOutcome =>
      match h[inner]? with
      | none => .error .typeError
      | some obj =>
          if maxRetries < 0 then .error .valueError
          else if retryOutcome ∈ obj.outcomes then
            .ok (.retry ⟨h.length, maxRetries.toNat, retryOutcome⟩ inner obj.outcomes)
          else .error .valueError

/-- `ref()` -/
def instantiate (h : Heap) : StateClass → Except BuildError StateObject
  | .leaf className outcomes => .ok (.leaf ⟨h.length, className, outcomes⟩)
  | .machine kind className outcomes => .ok (newMachine h kind className outcomes none none)
  | .parallel => .error .typeError
  | .retryDecorator => .error .typeError

/-- `_materialize`: the objects afterwards, and which one the state is. -/
def materialize (registry : String → Option StateClass) (h : Heap) :
    StateRef → Except BuildError (Heap × Nat)
  | .object o => .ok (h, o)
  | .cls c => (instantiate h c).map fun obj => (h ++ [obj], h.length)
  | .otherClass => .error .hfsmError
  | .id s =>
      match registry s with
      | none => .error .registryError
      | some c => (instantiate h c).map fun obj => (h ++ [obj], h.length)
  | .other => .error .hfsmError

/-- `self._children[name] = state` with its transitions; the first child is the initial state. -/
def addChild (h : Heap) (m : Nat) (info : MachineInfo) (children : List (Child Nat))
    (name : String) (o : Nat) (transitions : OutcomeMap) : Heap :=
  h.set m (.machine { info with initialState := info.initialState.or (some name) }
    (children ++ [⟨name, o, transitions⟩]))

/-- The states that a call is given. -/
def HeapAct.uses : HeapAct → List Nat
  | .construct (.parallel regions _) => regions.map Region.state
  | .construct (.retryDecorator inner _ _) => [inner]
  | .add _ _ (.object o) _ => [o]
  | _ => []

/-- A constructor is called, or `add` of a machine, with states that there are. -/
def heapStep (registry : String → Option StateClass) (h : Heap) (a : HeapAct) :
    Option (Heap × List HeapEvent) :=
  if ∀ o ∈ a.uses, o < h.length then
    match a with
    | .construct c =>
        match construct h c with
        | .ok obj => some (h ++ [obj], [.created h.length])
        | .error e => some (h, [.raised e])
    | .add m name ref transitions =>
        match h[m]? with
        | some (.machine info children) =>
            if name ∈ children.map Child.name then some (h, [.raised .hfsmError])
            else
              match materialize registry h ref with
              | .error e => some (h, [.raised e])
              | .ok (h', o) =>
                  if o = m then some (h', [.raised .selfIterationError])
                  else some (addChild h' m info children name o transitions, [.added m o])
        | _ => none
  else none

/-! ## The property and its condition -/

/-- No object is a direct or indirect part of itself, and every descent through the parts comes to
an end. -/
def Acyclically (h : Heap) : Prop :=
  Acyclic (Contains h) ∧ WellFounded fun b a => Contains h a b

/-- A state that `add` puts below a machine does not contain the machine. -/
def KeepsBelow (h : Heap) (a : HeapAct) : Prop :=
  ∀ m name o transitions info children, a = .add m name (.object o) transitions →
    h[m]? = some (.machine info children) → name ∉ children.map Child.name → o ≠ m →
      ¬ ReflTransGen (Contains h) o m

/-! ## What the calls do to the containment -/

section Steps

variable {registry : String → Option StateClass} {h h' : Heap} {a : HeapAct} {es : List HeapEvent}

/-- Every part is an object. -/
def InRange (h : Heap) : Prop := ∀ a b, Contains h a b → b < h.length

theorem contains_lt {a b : Nat} (hab : Contains h a b) : a < h.length := by
  obtain ⟨obj, hobj, -⟩ := hab
  exact (List.getElem?_eq_some_iff.mp hobj).1

/-- What a new object contains. -/
theorem contains_push {obj : StateObject} {a b : Nat} :
    Contains (h ++ [obj]) a b ↔ Contains h a b ∨ (a = h.length ∧ b ∈ obj.parts) := by
  constructor
  · rintro ⟨obj', hobj', hb⟩
    rw [List.getElem?_append] at hobj'
    split at hobj'
    · exact Or.inl ⟨obj', hobj', hb⟩
    · rename_i hle
      obtain ⟨hlt, heq⟩ := List.getElem?_eq_some_iff.mp hobj'
      rw [List.length_singleton] at hlt
      obtain rfl : obj = obj' := by simpa using heq
      exact Or.inr ⟨by omega, hb⟩
  · rintro (⟨obj', hobj', hb⟩ | ⟨rfl, hb⟩)
    · refine ⟨obj', ?_, hb⟩
      rw [List.getElem?_append_left (List.getElem?_eq_some_iff.mp hobj').1]
      exact hobj'
    · exact ⟨obj, List.getElem?_concat_length .., hb⟩

/-- `add` gives the machine one more part. -/
theorem contains_addChild {m o : Nat} {info : MachineInfo} {children : List (Child Nat)}
    {name : String} {transitions : OutcomeMap} (hm : h[m]? = some (.machine info children)) :
    Contains (addChild h m info children name o transitions) = addEdge (Contains h) m o := by
  funext a b
  have hlt : m < h.length := (List.getElem?_eq_some_iff.mp hm).1
  unfold Contains addChild
  by_cases heq : a = m
  · subst heq
    rw [List.getElem?_set_self hlt]
    simp [StateObject.parts, addEdge, hm]
  · rw [List.getElem?_set_ne (Ne.symm heq)]
    simp [addEdge, heq]

theorem length_addChild {m o : Nat} {info : MachineInfo} {children : List (Child Nat)}
    {name : String} {transitions : OutcomeMap} :
    (addChild h m info children name o transitions).length = h.length := List.length_set

theorem InRange.push {obj : StateObject} (hr : InRange h) (hparts : ∀ b ∈ obj.parts, b < h.length) :
    InRange (h ++ [obj]) := by
  intro a b hab
  rw [List.length_append, List.length_singleton]
  rcases contains_push.mp hab with hab | ⟨-, hb⟩
  · exact Nat.lt_succ_of_lt (hr a b hab)
  · exact Nat.lt_succ_of_lt (hparts b hb)

theorem InRange.addChild {m o : Nat} {info : MachineInfo} {children : List (Child Nat)}
    {name : String} {transitions : OutcomeMap} (hr : InRange h)
    (hm : h[m]? = some (.machine info children)) (ho : o < h.length) :
    InRange (addChild h m info children name o transitions) := by
  intro a b hab
  rw [length_addChild]
  rw [contains_addChild hm] at hab
  rcases hab with hab | ⟨-, rfl⟩
  · exact hr a b hab
  · exact ho

/-- A new object is in no cycle: nothing contains it yet. -/
theorem acyclic_push {obj : StateObject} (hr : InRange h) (hacyc : Acyclic (Contains h))
    (hparts : ∀ b ∈ obj.parts, b < h.length) : Acyclic (Contains (h ++ [obj])) := by
  refine hacyc.of_source (x := h.length) ?_ ?_
  · intro a b hab hne
    rcases contains_push.mp hab with hab | ⟨heq, -⟩
    · exact hab
    · exact absurd heq hne
  · intro a hab
    rcases contains_push.mp hab with hab | ⟨-, hb⟩
    · exact absurd (hr _ _ hab) (lt_irrefl _)
    · exact absurd (hparts _ hb) (lt_irrefl _)

/-- What a constructor has been given is what the object contains. -/
theorem construct_parts {c : Construction} {obj : StateObject} (hc : construct h c = .ok obj) :
    ∀ b ∈ obj.parts, b ∈ (HeapAct.construct c).uses := by
  cases c with
  | leaf className outcomes =>
      cases hc
      nofun
  | machine kind className classOutcomes outcomes initialState =>
      cases hc
      nofun
  | parallel regions policy =>
      cases regions with
      | nil => cases hc
      | cons first rest =>
          simp only [construct] at hc
          split at hc
          · cases hc
            exact fun b hb => hb
          · cases hc
  | retryDecorator inner maxRetries retryOutcome =>
      simp only [construct] at hc
      split at hc
      · cases hc
      · split at hc
        · cases hc
        · split at hc
          · cases hc
            exact fun b hb => hb
          · cases hc

theorem instantiate_parts {c : StateClass} {obj : StateObject} (hc : instantiate h c = .ok obj) :
    obj.parts = [] := by
  cases c <;> cases hc <;> rfl

/-- The state that `add` is to put below the machine is the object it is given, or a new one. -/
theorem materialize_cases {ref : StateRef} {o : Nat}
    (hm : materialize registry h ref = .ok (h', o)) :
    (ref = .object o ∧ h' = h) ∨
      (∃ obj, obj.parts = [] ∧ h' = h ++ [obj] ∧ o = h.length ∧ ∀ o', ref ≠ .object o') := by
  have hnew (c : StateClass) (hok : (instantiate h c).map (fun obj => (h ++ [obj], h.length)) =
      .ok (h', o)) : ∃ obj, obj.parts = [] ∧ h' = h ++ [obj] ∧ o = h.length := by
    cases hi : instantiate h c with
    | error e =>
        rw [hi] at hok
        cases hok
    | ok obj =>
        rw [hi] at hok
        cases hok
        exact ⟨obj, instantiate_parts hi, rfl, rfl⟩
  cases ref with
  | object o' =>
      cases hm
      exact Or.inl ⟨rfl, rfl⟩
  | cls c =>
      obtain ⟨obj, hparts, hh, ho⟩ := hnew c hm
      exact Or.inr ⟨obj, hparts, hh, ho, nofun⟩
  | otherClass => cases hm
  | id s =>
      simp only [materialize] at hm
      split at hm
      · cases hm
      · obtain ⟨obj, hparts, hh, ho⟩ := hnew _ hm
        exact Or.inr ⟨obj, hparts, hh, ho, nofun⟩
  | other => cases hm

/-- **What a call does**: it changes nothing, makes a new object from states that there are, or
adds a state to a machine: an object, or one it makes of a class. -/
theorem heapStep_cases (hst : heapStep registry h a = some (h', es)) :
    (h' = h ∧ ∀ m name o transitions info children, a = .add m name (.object o) transitions →
      h[m]? = some (.machine info children) → name ∉ children.map Child.name → o = m) ∨
    (∃ obj, h' = h ++ [obj] ∧ (∀ b ∈ obj.parts, b < h.length) ∧
      ∀ m name o transitions, a ≠ .add m name (.object o) transitions) ∨
    (∃ m info children name o transitions, a = .add m name (.object o) transitions ∧
      h[m]? = some (.machine info children) ∧ name ∉ children.map Child.name ∧ o ≠ m ∧
      o < h.length ∧ h' = addChild h m info children name o transitions) ∨
    (∃ obj m info children name transitions, obj.parts = [] ∧
      (∀ m name o transitions, a ≠ .add m name (.object o) transitions) ∧
      h[m]? = some (.machine info children) ∧
      h' = addChild (h ++ [obj]) m info children name h.length transitions) := by
  unfold heapStep at hst
  split at hst
  · rename_i huses
    cases a with
    | construct c =>
        simp only at hst
        split at hst
        · rename_i obj hc
          cases hst
          exact Or.inr (Or.inl ⟨obj, rfl, fun b hb => huses b (construct_parts hc b hb), nofun⟩)
        · cases hst
          exact Or.inl ⟨rfl, nofun⟩
    | add m name ref transitions =>
        simp only at hst
        split at hst
        · rename_i info children hm
          split at hst
          · rename_i hname
            cases hst
            refine Or.inl ⟨rfl, fun m' name' o tr info' children' ha hm' hname' => ?_⟩
            cases ha
            cases hm.symm.trans hm'
            exact absurd hname hname'
          · rename_i hname
            split at hst
            · rename_i e hmat
              cases hst
              refine Or.inl ⟨rfl, fun m' name' o tr info' children' ha _ _ => ?_⟩
              cases ha
              cases hmat
            · rename_i h₁ o hmat
              rcases materialize_cases hmat with ⟨rfl, rfl⟩ | ⟨obj, hparts, rfl, rfl, href⟩
              · split at hst
                · rename_i heq
                  cases hst
                  refine Or.inl ⟨rfl, fun m' name' o' tr info' children' ha _ _ => ?_⟩
                  cases ha
                  exact heq
                · rename_i hne
                  cases hst
                  exact Or.inr (Or.inr (Or.inl ⟨m, info, children, name, o, transitions, rfl, hm,
                    hname, hne, huses o List.mem_cons_self, rfl⟩))
              · have hlt : m < h.length := (List.getElem?_eq_some_iff.mp hm).1
                rw [if_neg (by omega)] at hst
                cases hst
                refine Or.inr (Or.inr (Or.inr
                  ⟨obj, m, info, children, name, transitions, hparts, ?_, hm, rfl⟩))
                intro m' name' o' tr ha
                cases ha
                exact href o' rfl
        · cases hst
  · cases hst

theorem InRange.step (hr : InRange h) (hst : heapStep registry h a = some (h', es)) :
    InRange h' := by
  rcases heapStep_cases hst with ⟨rfl, -⟩ | ⟨obj, rfl, hparts, -⟩ |
    ⟨m, info, children, name, o, transitions, -, hm, -, -, ho, rfl⟩ |
    ⟨obj, m, info, children, name, transitions, hparts, -, hm, rfl⟩
  · exact hr
  · exact hr.push hparts
  · exact hr.addChild hm ho
  · have hlt : m < h.length := (List.getElem?_eq_some_iff.mp hm).1
    have hm' : (h ++ [obj])[m]? = some (.machine info children) := by
      rw [List.getElem?_append_left hlt]
      exact hm
    exact (hr.push (by rw [hparts]; nofun)).addChild hm' (by simp)

/-- **A call keeps the containment acyclic** exactly if it puts no machine below itself. -/
theorem acyclic_step_iff (hr : InRange h) (hacyc : Acyclic (Contains h))
    (hst : heapStep registry h a = some (h', es)) :
    Acyclic (Contains h') ↔ KeepsBelow h a := by
  rcases heapStep_cases hst with ⟨rfl, hself⟩ | ⟨obj, rfl, hparts, hno⟩ |
    ⟨m, info, children, name, o, transitions, rfl, hm, hname, hne, -, rfl⟩ |
    ⟨obj, m, info, children, name, transitions, hparts, hno, hm, rfl⟩
  · refine iff_of_true hacyc fun m name o transitions info children ha hm hname hne => ?_
    exact absurd (hself m name o transitions info children ha hm hname) hne
  · refine iff_of_true (acyclic_push hr hacyc hparts) fun m name o transitions _ _ ha => ?_
    exact absurd ha (hno m name o transitions)
  · rw [contains_addChild hm, acyclic_addEdge_iff, and_iff_right hacyc]
    constructor
    · intro hreach m' name' o' tr info' children' ha _ _ _
      cases ha
      exact hreach
    · exact fun hkeeps => hkeeps m name o transitions info children rfl hm hname hne
  · refine iff_of_true ?_ fun m name o transitions _ _ ha => absurd ha (hno m name o transitions)
    have hlt : m < h.length := (List.getElem?_eq_some_iff.mp hm).1
    have hm' : (h ++ [obj])[m]? = some (.machine info children) := by
      rw [List.getElem?_append_left hlt]
      exact hm
    rw [contains_addChild hm', acyclic_addEdge_iff]
    refine ⟨acyclic_push hr hacyc (by rw [hparts]; nofun), fun hreach => ?_⟩
    -- the new object contains nothing, so it is not the machine
    rcases hreach.cases_head with heq | ⟨b, hb, -⟩
    · omega
    · rcases contains_push.mp hb with hb | ⟨-, hb⟩
      · exact absurd (contains_lt hb) (lt_irrefl _)
      · rw [hparts] at hb
        cases hb

theorem acyclically_iff : Acyclically h ↔ Acyclic (Contains h) := by
  refine ⟨And.left, fun hacyc => ⟨hacyc, ?_⟩⟩
  refine (acyclic_iff_wellFounded (Set.finite_Iio h.length) ?_).mp hacyc
  exact fun a b hab => contains_lt hab

end Steps

/-! ## Unfolding objects to trees -/

/-- The tree below an object, as far as `fuel` levels suffice. -/
def unfold (h : Heap) : Nat → Nat → Option Tree
  | 0, _ => none
  | fuel + 1, o =>
      match h[o]? with
      | none => none
      | some (.leaf l) => some (.leaf l)
      | some (.machine m children) =>
          (children.mapM fun ch =>
            (unfold h fuel ch.state).map fun t => (⟨ch.name, t, ch.transitions⟩ : Child Tree)).map
              (.machine m)
      | some (.parallel first rest _) =>
          match unfold h fuel first.state, rest.mapM fun r =>
            (unfold h fuel r.state).map fun t => (⟨r.name, t, r.outcomes⟩ : Region Tree) with
          | some t, some rest => some (.parallel o ⟨first.name, t, first.outcomes⟩ rest)
          | _, _ => none
      | some (.retry r inner _) => (unfold h fuel inner).map (.retry r)

theorem mapM_isSome_iff {α β : Type} {f : α → Option β} {l : List α} :
    (l.mapM f).isSome ↔ ∀ x ∈ l, (f x).isSome := by
  induction l with
  | nil => simp
  | cons x rest ih =>
      rw [List.mapM_cons, List.forall_mem_cons, ← ih]
      cases f x with
      | none => simp
      | some y => cases rest.mapM f <;> simp

/-- An object unfolds with one level more than its parts. -/
theorem unfold_isSome_iff {h : Heap} {fuel o : Nat} {obj : StateObject} (hobj : h[o]? = some obj) :
    (unfold h (fuel + 1) o).isSome ↔ ∀ b ∈ obj.parts, (unfold h fuel b).isSome := by
  rw [unfold, hobj]
  cases obj with
  | leaf l => simp [StateObject.parts]
  | machine m children =>
      show (Option.map _ (List.mapM _ children)).isSome ↔ _
      rw [Option.isSome_map, mapM_isSome_iff]
      simp [StateObject.parts]
  | parallel first rest outcomes =>
      have hrest : (rest.mapM fun r => (unfold h fuel r.state).map fun t =>
          (⟨r.name, t, r.outcomes⟩ : Region Tree)).isSome ↔
            ∀ r ∈ rest, (unfold h fuel r.state).isSome := by
        rw [mapM_isSome_iff]
        simp
      simp only [StateObject.parts, List.map_cons, List.forall_mem_cons, List.forall_mem_map]
      rw [← hrest]
      generalize (rest.mapM fun r => (unfold h fuel r.state).map fun t =>
        (⟨r.name, t, r.outcomes⟩ : Region Tree)) = regions
      cases unfold h fuel first.state with
      | none => simp
      | some t => cases regions <;> simp
  | retry r inner outcomes =>
      show ((unfold h fuel inner).map _).isSome ↔ _
      rw [Option.isSome_map]
      simp [StateObject.parts]

/-- With more levels an object still unfolds. -/
theorem unfold_isSome_succ {h : Heap} {fuel o : Nat} (hsome : (unfold h fuel o).isSome) :
    (unfold h (fuel + 1) o).isSome := by
  induction fuel generalizing o with
  | zero => cases hsome
  | succ fuel ih =>
      cases hobj : h[o]? with
      | none => simp [unfold, hobj] at hsome
      | some obj =>
          rw [unfold_isSome_iff hobj] at hsome ⊢
          exact fun b hb => ih (hsome b hb)

theorem unfold_isSome_of_le {h : Heap} {fuel fuel' o : Nat} (hle : fuel ≤ fuel')
    (hsome : (unfold h fuel o).isSome) : (unfold h fuel' o).isSome := by
  induction hle with
  | refl => exact hsome
  | step _ ih => exact unfold_isSome_succ ih

/-- Along the containment the levels that are needed decrease. -/
theorem unfold_descend {h : Heap} {a b : Nat} (hab : TransGen (Contains h) a b) {fuel : Nat}
    (hsome : (unfold h fuel a).isSome) : ∃ fuel' < fuel, (unfold h fuel' b).isSome := by
  have hone : ∀ {a b fuel : Nat}, Contains h a b → (unfold h fuel a).isSome →
      ∃ fuel' < fuel, (unfold h fuel' b).isSome := by
    rintro a b fuel ⟨obj, hobj, hb⟩ hsome
    cases fuel with
    | zero => cases hsome
    | succ fuel => exact ⟨fuel, Nat.lt_succ_self _, (unfold_isSome_iff hobj).mp hsome b hb⟩
  induction hab with
  | single hab => exact hone hab hsome
  | tail _ hbc ih =>
      obtain ⟨fuel', hlt, hb⟩ := ih
      obtain ⟨fuel'', hlt', hc⟩ := hone hbc hb
      exact ⟨fuel'', hlt'.trans hlt, hc⟩

/-- **Objects unfold to trees** exactly if none of them contains itself. -/
theorem unfolds_iff {h : Heap} (hr : InRange h) :
    Acyclic (Contains h) ↔ ∀ o < h.length, ∃ fuel, (unfold h fuel o).isSome := by
  constructor
  · intro hacyc o
    have hwf := (acyclically_iff.mpr hacyc).2
    -- the parts first
    induction o using hwf.induction with
    | _ o ih =>
        intro ho
        have hobj : h[o]? = some h[o] := List.getElem?_eq_getElem ho
        have hparts : ∀ b ∈ h[o].parts, ∃ fuel, (unfold h fuel b).isSome := fun b hb =>
          ih b ⟨_, hobj, hb⟩ (hr o b ⟨_, hobj, hb⟩)
        choose! fuel hfuel using hparts
        obtain ⟨top, htop⟩ := (h[o].parts.map fuel).toFinset.bddAbove
        refine ⟨top + 1, (unfold_isSome_iff hobj).mpr fun b hb => ?_⟩
        have hle : fuel b ≤ top := htop (by simpa using ⟨b, hb, rfl⟩)
        exact unfold_isSome_of_le hle (hfuel b hb)
  · intro hunfold a hcycle
    have hlt : a < h.length := by
      cases hcycle with
      | single haa => exact contains_lt haa
      | tail _ hba => exact hr _ _ hba
    obtain ⟨fuel, hsome⟩ := hunfold a hlt
    induction fuel using Nat.strong_induction_on with
    | _ fuel ih =>
        obtain ⟨fuel', hless, hsome'⟩ := unfold_descend hcycle hsome
        exact ih fuel' hless hsome'

/-- **Containment stays acyclic** in the course of a schedule of constructions and additions,
exactly if no state that is added contains the machine that it is added to. -/
theorem containment_acyclic_iff (registry : String → Option StateClass) (as : List HeapAct) :
    Throughout (heapStep registry) Acyclically [] as ↔
      Obeys (heapStep registry) KeepsBelow [] as := by
  have hnil : ∀ a b, ¬ Contains [] a b := by
    rintro a b ⟨obj, hobj, -⟩
    cases hobj
  have hacyc : Acyclically [] := by
    refine acyclically_iff.mpr fun a hcycle => ?_
    cases hcycle with
    | single hab => exact hnil _ _ hab
    | tail _ hab => exact hnil _ _ hab
  refine throughout_iff_obeys (J := InRange) (fun _ _ _ _ hr _ hst => hr.step hst) ?_
    (fun a b hab => absurd hab (hnil a b)) hacyc
  intro h a h' es hr hG hst
  rw [acyclically_iff]
  exact acyclic_step_iff hr hG.1 hst

/-- A machine, a retry of it, and the retry as a child of the machine. -/
def retriedByItself : List HeapAct :=
  [.construct (.machine .stateMachine "StateMachine" ["done", "failed"] none none),
    .construct (.retryDecorator 0 3 "failed"),
    .add 0 "again" (.object 1) [("done", "done"), ("failed", "failed")]]

/-- The `add` that closes the cycle succeeds. -/
theorem not_always_acyclic :
    ¬ ∀ as : List HeapAct, Throughout (heapStep fun _ => none) Acyclically [] as := by
  intro h
  obtain ⟨h₁, h₂, h₃, hcyclic⟩ := h retriedByItself
  -- down to the retry and back to the machine
  refine hcyclic.1 0 (TransGen.tail (b := 1) (TransGen.single ⟨_, rfl, ?_⟩) ⟨_, rfl, ?_⟩)
  · exact List.mem_cons_self
  · exact List.mem_cons_self

end RobotTaskManager.Engine
