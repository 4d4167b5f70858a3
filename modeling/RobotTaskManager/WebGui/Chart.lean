import RobotTaskManager.Engine.Config
import RobotTaskManager.Lib.JsJson
import RobotTaskManager.Spec.Loader

set_option autoImplicit false

/-! # The state chart

The executor publishes `json.dumps(sm.to_spec())`, and `parseHfsmSpec` of `HfsmStateView.vue` makes
a chart of it, whose nodes carry dotted paths. The nodes of the chart of a tree are the states that
are reached from the root through the children of machines (`depicts_walk`): `to_spec` of a
`Parallel` has `regions` in the place of `children`, and a `RetryDecorator` has the `to_spec` of a
plain `State`.
-/

namespace RobotTaskManager.WebGui

open PyValue Engine

/-! ## The spec of a tree -/

instance : Spec.LeafState Leaf where
  outcomes l := l.outcomes
  toSpec l := .dict (Spec.stateSpec l.className (l.outcomes.map Val.str))

def kindOf : MachineKind → Spec.MachineKind
  | .stateMachine => .stateMachine
  | .behaviorSM behaviorParameters => .behaviorSM (behaviorParameters.map Val.str)

def mappingOf (m : OutcomeMap) : Dict := m.map fun e => (.str e.1, .str e.2)

def machineOf (m : MachineInfo) (children : List (Child Tree)) : Spec.MachineInfo where
  className := m.className
  kind := kindOf m.kind
  outcomes := m.outcomes.map Val.str
  transitions := children.map fun ch => (.str ch.name, mappingOf ch.transitions)
  initialState := match m.initialState with
    | some s => .str s
    | none => .null

mutual

/-- The tree as the object that `to_spec` is called on. -/
def objOf : Tree → Spec.Obj Leaf
  | .leaf l => .leaf l
  | .machine m children => .machine (machineOf m children) (childObjs children)
  | .parallel _ ⟨name, state, outcomes⟩ rest =>
      .parallel (.str "first_wins")
        ((parallelOutcomes (⟨name, state, outcomes⟩ :: rest)).map Key.str)
        ((.str name, ⟨objOf state, mappingOf outcomes⟩) :: regionObjs rest)
  | .retry r inner => .retry r.maxRetries r.retryOutcome (objOf inner)

def childObjs : List (Child Tree) → List (Key × Spec.Obj Leaf)
  | [] => []
  | ⟨name, state, _⟩ :: rest => (.str name, objOf state) :: childObjs rest

def regionObjs : List (Region Tree) → List (Key × Spec.Region (Spec.Obj Leaf))
  | [] => []
  | ⟨name, state, outcomes⟩ :: rest =>
      (.str name, ⟨objOf state, mappingOf outcomes⟩) :: regionObjs rest

end

/-! ## `parseHfsmSpec` -/

structure ParsedNode where
  id : String
  label : String
  children : List ParsedNode
  depth : Nat
  isLeaf : Bool
  /-- The dot-joined names of the ancestors. -/
  path : String

/-- The field `id`, `kind` or `ref` of a `SpecNode`: a text, or absent. A spec with another value
there is no `SpecNode`; JavaScript would make a text of it. -/
def textField (node : Val) (name : String) : String :=
  match node with
  | .dict d =>
      match item d (.str name) with
      | some (.key (.str s)) => s
      | _ => ""
  | _ => ""

/-- `node.children` -/
def childrenField : Val → Val
  | .dict d => (item d (.str "children")).getD .null
  | _ => .null

/-- `kind: name` for containers, `name` and `ref` for leaves. -/
def labelOf (node : Val) (segment : String) : String :=
  let kind := textField node "kind"
  let ref := textField node "ref"
  if kind = "State" ∧ ref ≠ "" then segment ++ "\n↳ " ++ ref
  else if kind ≠ "" then kind ++ ": " ++ segment
  else segment

theorem sizeOf_childrenField_le (node : Val) : sizeOf (childrenField node) ≤ sizeOf node := by
  cases node with
  | key k => cases k <;> simp [childrenField] <;> omega
  | list xs =>
      cases xs <;> simp [childrenField]
      omega
  | dict d =>
      rw [childrenField]
      cases hi : item d (.str "children") with
      | none =>
          cases d <;> simp
          omega
      | some v => exact (sizeOf_item_lt hi).le

mutual

/-- `walk`, with the `counter` before and after it. -/
def walk (counter : Nat) (node : Val) (depth : Nat) (parentPath assignedName : String) :
    Nat × ParsedNode :=
  let path := if parentPath = "" then assignedName else parentPath ++ "." ++ assignedName
  let r := walkChildren (counter + 1) (childrenField node) (depth + 1) path
  (r.1, {
    id := "n" ++ toString (counter + 1)
    label := labelOf node assignedName
    children := r.2
    depth
    isLeaf := r.2.isEmpty
    path })
termination_by (sizeOf node, 1)
decreasing_by exact Prod.Lex.right' _ (sizeOf_childrenField_le node) Nat.zero_lt_one

/-- The `children` of a `SpecNode`: a dict of names and specs, an array of specs, or none. A spec
with a text there is no `SpecNode`; JavaScript would take its characters. -/
def walkChildren (counter : Nat) (raw : Val) (depth : Nat) (path : String) :
    Nat × List ParsedNode :=
  match raw with
  | .dict items => walkItems counter items depth path
  | .list xs => walkArray counter 0 xs depth path
  | .key _ => (counter, [])
termination_by (sizeOf raw, 0)

def walkItems (counter : Nat) (items : Dict) (depth : Nat) (path : String) :
    Nat × List ParsedNode :=
  match items with
  | [] => (counter, [])
  | (name, child) :: rest =>
      let r := walk counter child depth path (name.string?.getD "")
      let rs := walkItems r.1 rest depth path
      (rs.1, r.2 :: rs.2)
termination_by (sizeOf items, 0)

/-- `raw.map((c, i) => [c.id || String(i), c])` -/
def walkArray (counter i : Nat) (xs : List Val) (depth : Nat) (path : String) :
    Nat × List ParsedNode :=
  match xs with
  | [] => (counter, [])
  | child :: rest =>
      let id := textField child "id"
      let r := walk counter child depth path (if id = "" then toString i else id)
      let rs := walkArray r.1 (i + 1) rest depth path
      (rs.1, r.2 :: rs.2)
termination_by (sizeOf xs, 0)

end

/-- `parseHfsmSpec`, for a text that `JSON.parse` reads as `spec`. -/
def parseHfsmSpec (spec : Val) (rootName : String) : ParsedNode := (walk 0 spec 0 "" rootName).2

mutual

/-- The node and all below it, as `layout` emits them. -/
def ParsedNode.nodes : ParsedNode → List ParsedNode
  | ⟨id, label, children, depth, isLeaf, path⟩ =>
      ⟨id, label, children, depth, isLeaf, path⟩ :: nodesOf children

def nodesOf : List ParsedNode → List ParsedNode
  | [] => []
  | n :: ns => n.nodes ++ nodesOf ns

end

/-! ## Positions -/

/-- The state that a path of child names leads to. -/
def stateAt : Tree → List String → Option Tree
  | t, [] => some t
  | .machine _ children, name :: names =>
      match findChild children name with
      | none => none
      | some ch => stateAt ch.state names
  | _, _ :: _ => none

/-- The node that `walk` has made for a child, next to the child's spec. -/
def childNode (name : String) : Dict → List ParsedNode → Option (Val × ParsedNode)
  | (k, v) :: items, n :: ns => if k = .str name then some (v, n) else childNode name items ns
  | _, _ => none

/-- The node that `walk` has made for the state that a path of child names leads to. -/
def nodeAt (spec : Val) (n : ParsedNode) : List String → Option ParsedNode
  | [] => some n
  | name :: names =>
      match childrenField spec with
      | .dict items =>
          match childNode name items n.children with
          | none => none
          | some (v, m) => nodeAt v m names
      | _ => none

/-- The dotted path of the state that child names lead to, below a path. -/
def joinPath (path : String) (names : List String) : String := names.foldl enterPath path

/-- The names in every dict are distinct. -/
inductive DistinctNames : Tree → Prop
  | leaf (l : Leaf) : DistinctNames (.leaf l)
  | machine {m : MachineInfo} {children : List (Child Tree)} : (childNames children).Nodup →
      (∀ ch ∈ children, DistinctNames ch.state) → DistinctNames (.machine m children)
  | parallel {oid : Nat} {first : Region Tree} {rest : List (Region Tree)} :
      ((first :: rest).map Region.name).Nodup →
      (∀ r ∈ first :: rest, DistinctNames r.state) → DistinctNames (.parallel oid first rest)
  | retry {r : RetryInfo} {inner : Tree} : DistinctNames inner → DistinctNames (.retry r inner)

/-- The chart below `n` shows the states of `t`, each once, with their dotted paths. -/
def Depicts (t : Tree) (spec : Val) (n : ParsedNode) : Prop :=
  ∃ positions : List (List String), positions.Nodup ∧
    (∀ names, names ∈ positions ↔ (stateAt t names).isSome = true) ∧
    List.Forall₂ (fun names m => nodeAt spec n names = some m ∧ m.path = joinPath n.path names)
      positions n.nodes

section Walk

variable {double : ℚ → Option ℚ} {t : Tree} {children : List (Child Tree)}

theorem findChild_eq_some_iff (h : (childNames children).Nodup) {name : String}
    {ch : Child Tree} : findChild children name = some ch ↔ ch ∈ children ∧ ch.name = name := by
  constructor
  · intro hf
    exact ⟨findChild_mem hf, by simpa [findChild] using List.find?_some hf⟩
  · rintro ⟨hmem, rfl⟩
    obtain ⟨ch', hf⟩ := Option.isSome_iff_exists.mp
      (findChild_isSome.mpr (List.mem_map_of_mem (f := Child.name) hmem))
    have hname : ch'.name = ch.name := by simpa [findChild] using List.find?_some hf
    rw [hf, List.inj_on_of_nodup_map h (findChild_mem hf) hmem hname]

theorem walk_path (counter depth : Nat) (spec : Val) (parentPath name : String) :
    (walk counter spec depth parentPath name).2.path = enterPath parentPath name := by
  rw [walk]
  rfl

theorem walk_children (counter depth : Nat) (spec : Val) (parentPath name : String) :
    (walk counter spec depth parentPath name).2.children =
      (walkChildren (counter + 1) (childrenField spec) (depth + 1)
        (enterPath parentPath name)).2 := by
  rw [walk]
  rfl

theorem nodes_walk (counter depth : Nat) (spec : Val) (parentPath name : String) :
    (walk counter spec depth parentPath name).2.nodes =
      (walk counter spec depth parentPath name).2 ::
        nodesOf (walkChildren (counter + 1) (childrenField spec) (depth + 1)
          (enterPath parentPath name)).2 := by
  rw [walk, ParsedNode.nodes]
  rfl

/-! ### The children in a spec -/

theorem childrenField_js {d : Dict} (hd : DistinctKeys d) :
    childrenField ((Val.dict d).js double) =
      ((item d (.str "children")).map (Val.js double)).getD .null := by
  rw [Val.js_dict, childrenField, item_jsDict hd]

/-- A child, as `to_spec` writes it and `JSON.parse` reads it. -/
def childItem (double : ℚ → Option ℚ) (ch : Child Tree) : Key × Val :=
  (.str ch.name, (objOf ch.state).toSpec.js double)

/-- The children, in the order in which JavaScript lists them. -/
def jsChildren (children : List (Child Tree)) : List (Child Tree) :=
  children.insertionSort fun a b => (Key.str a.name).jsLe (.str b.name)

theorem childrenSpec_eq (children : List (Child Tree)) :
    Spec.childrenSpec (childObjs children) =
      children.map fun ch => (.str ch.name, (objOf ch.state).toSpec) := by
  induction children with
  | nil => rfl
  | cons ch rest ih =>
      rw [childObjs, Spec.childrenSpec, ih]
      rfl

theorem childrenField_machine (m : MachineInfo) (children : List (Child Tree)) :
    childrenField ((objOf (.machine m children)).toSpec.js double) =
      .dict ((jsChildren children).map (childItem double)) := by
  rw [objOf, Spec.Obj.toSpec, childrenSpec_eq]
  generalize hc : (children.map fun ch => (Key.str ch.name, (objOf ch.state).toSpec)) = items
  have hd : DistinctKeys ((machineOf m children).toSpec items) ∧
      item ((machineOf m children).toSpec items) (.str "children") = some (.dict items) := by
    unfold Spec.MachineInfo.toSpec
    split <;> simp [DistinctKeys, setItem, item]
  rw [childrenField_js hd.1, hd.2]
  show (Val.dict items).js double = _
  have hmap : (items.map fun e => (e.1, e.2.js double)) = children.map (childItem double) := by
    rw [← hc, List.map_map]
    rfl
  have hsort : (jsChildren children).map (childItem double)
      = jsOrder (children.map (childItem double)) :=
    List.map_insertionSort _ _ (childItem double) children fun _ _ _ _ => Iff.rfl
  rw [Val.js_dict, jsDict, hmap, hsort]

/-- The other states have no `children`. -/
theorem childrenField_other (h : ∀ m children, t ≠ .machine m children) :
    childrenField ((objOf t).toSpec.js double) = .null := by
  cases t with
  | leaf l => exact childrenField_js (by simp [DistinctKeys, Spec.stateSpec])
  | machine m children => exact absurd rfl (h m children)
  | parallel oid first rest =>
      rw [objOf, Spec.Obj.toSpec]
      exact childrenField_js (by simp [DistinctKeys, Spec.parallelSpec])
  | retry r inner =>
      rw [objOf, Spec.Obj.toSpec]
      exact childrenField_js (by simp [DistinctKeys, Spec.stateSpec])

/-! ### The nodes of the chart -/

theorem depicts_childless (h : ∀ m children, t ≠ .machine m children) (counter depth : Nat)
    (parentPath name : String) : Depicts t ((objOf t).toSpec.js double)
      (walk counter ((objOf t).toSpec.js double) depth parentPath name).2 := by
  refine ⟨[[]], List.nodup_singleton _, fun names => ?_, ?_⟩
  · cases names with
    | nil => simp [stateAt]
    | cons name names =>
        cases t with
        | machine m children => exact absurd rfl (h m children)
        | _ => simp [stateAt]
  · rw [nodes_walk, childrenField_other h, walkChildren]
    exact .cons ⟨rfl, rfl⟩ .nil

/-- `childNode` finds names of the items only. -/
theorem mem_of_childNode {name : String} {items : Dict} {ns : List ParsedNode}
    {e : Val × ParsedNode} (h : childNode name items ns = some e) :
    Key.str name ∈ items.map Prod.fst := by
  induction items generalizing ns with
  | nil => cases ns <;> cases h
  | cons item items ih =>
      obtain ⟨k, v⟩ := item
      cases ns with
      | nil => cases h
      | cons n ns =>
          rw [childNode] at h
          split at h
          · rename_i hk
            rw [hk]
            exact List.mem_cons_self
          · exact List.mem_cons_of_mem _ (ih h)

/-- The nodes made for some children depict them, in their order. -/
theorem depicts_items (hnames : (childNames children).Nodup)
    (ih : ∀ ch ∈ children, ∀ (counter depth : Nat) (parentPath name : String),
      Depicts ch.state ((objOf ch.state).toSpec.js double)
        (walk counter ((objOf ch.state).toSpec.js double) depth parentPath name).2)
    (counter depth : Nat) (path : String) :
    ∃ positions : List (List String), positions.Nodup ∧
      (∀ names, names ∈ positions ↔ ∃ ch ∈ children, ∃ below, names = ch.name :: below ∧
        (stateAt ch.state below).isSome = true) ∧
      List.Forall₂ (fun names m => ∃ name below v n, names = name :: below ∧
          childNode name (children.map (childItem double))
            (walkItems counter (children.map (childItem double)) depth path).2 = some (v, n) ∧
          nodeAt v n below = some m ∧ m.path = joinPath path names) positions
        (nodesOf (walkItems counter (children.map (childItem double)) depth path).2) := by
  induction children generalizing counter with
  | nil =>
      refine ⟨[], List.nodup_nil, by simp, ?_⟩
      rw [List.map_nil, walkItems]
      exact .nil
  | cons ch rest ihrest =>
      obtain ⟨hnew, hrest⟩ := List.nodup_cons.mp hnames
      rw [List.map_cons, childItem, walkItems]
      -- the node of the first child, and those of the others
      obtain ⟨ps₁, hps₁, hmem₁, hnodes₁⟩ := ih ch List.mem_cons_self counter depth path ch.name
      obtain ⟨ps₂, hps₂, hmem₂, hnodes₂⟩ := ihrest hrest
        (fun ch' hch' => ih ch' (List.mem_cons_of_mem _ hch'))
        (walk counter ((objOf ch.state).toSpec.js double) depth path ch.name).1
      refine ⟨ps₁.map (ch.name :: ·) ++ ps₂, ?_, fun names => ?_, ?_⟩
      · refine List.nodup_append.mpr ⟨hps₁.map (List.cons_injective), hps₂, ?_⟩
        intro names h₁ names' h₂ heq
        obtain ⟨below, -, rfl⟩ := List.mem_map.mp h₁
        obtain ⟨ch', hch', below', hbelow, -⟩ := (hmem₂ names').mp h₂
        rw [← heq, List.cons.injEq] at hbelow
        exact hnew (hbelow.1 ▸ List.mem_map_of_mem hch')
      · rw [List.mem_append, List.mem_map, hmem₂]
        constructor
        · rintro (⟨below, hb, rfl⟩ | ⟨ch', hch', h⟩)
          · exact ⟨ch, List.mem_cons_self, below, rfl, (hmem₁ below).mp hb⟩
          · exact ⟨ch', List.mem_cons_of_mem _ hch', h⟩
        · rintro ⟨ch', hch', below, rfl, hb⟩
          rcases List.mem_cons.mp hch' with rfl | hch'
          · exact Or.inl ⟨below, (hmem₁ below).mpr hb, rfl⟩
          · exact Or.inr ⟨ch', hch', below, rfl, hb⟩
      · refine List.rel_append (List.forall₂_map_left_iff.mpr (hnodes₁.imp ?_)) (hnodes₂.imp ?_)
        · rintro below m ⟨hm, hpath⟩
          refine ⟨ch.name, below, _, _, rfl, if_pos rfl, hm, ?_⟩
          rw [hpath, walk_path]
          rfl
        · rintro names m ⟨name, below, v, n, rfl, hn, hm, hpath⟩
          refine ⟨name, below, v, n, rfl, ?_, hm, hpath⟩
          -- the name is that of a later child
          have hmem := mem_of_childNode hn
          have hne : name ≠ ch.name := by
            rintro rfl
            rw [List.map_map] at hmem
            obtain ⟨ch', hch', heq⟩ := List.mem_map.mp hmem
            exact hnew (Key.str.inj heq ▸ List.mem_map_of_mem hch')
          rw [childNode, if_neg (fun h => hne (Key.str.inj h).symm)]
          exact hn

/-- **The nodes of the chart** are the states that are reached through children of machines. -/
theorem depicts_walk (h : DistinctNames t) (counter depth : Nat) (parentPath name : String) :
    Depicts t ((objOf t).toSpec.js double)
      (walk counter ((objOf t).toSpec.js double) depth parentPath name).2 := by
  induction h generalizing counter depth parentPath name with
  | leaf l => exact depicts_childless (by simp) counter depth parentPath name
  | parallel _ _ _ => exact depicts_childless (by simp) counter depth parentPath name
  | retry _ _ => exact depicts_childless (by simp) counter depth parentPath name
  | @machine m children hnames _ ih =>
      have hperm : (jsChildren children).Perm children := List.perm_insertionSort _ children
      have hdepicts : ∀ ch ∈ jsChildren children,
          ∀ (counter depth : Nat) (parentPath name : String),
            Depicts ch.state ((objOf ch.state).toSpec.js double)
            (walk counter ((objOf ch.state).toSpec.js double) depth parentPath name).2 :=
        fun ch hch => ih ch (hperm.mem_iff.mp hch)
      obtain ⟨ps, hps, hmem, hnodes⟩ := depicts_items ((hperm.map Child.name).nodup_iff.mpr hnames)
        hdepicts (counter + 1) (depth + 1) (enterPath parentPath name)
      refine ⟨[] :: ps, ?_, fun names => ?_, ?_⟩
      · refine List.nodup_cons.mpr ⟨fun h => ?_, hps⟩
        obtain ⟨ch, -, below, hnil, -⟩ := (hmem []).mp h
        cases hnil
      · cases names with
        | nil => simp [stateAt]
        | cons name names =>
            rw [List.mem_cons, or_iff_right nofun, hmem, stateAt]
            constructor
            · rintro ⟨ch, hch, below, heq, hb⟩
              obtain ⟨rfl, rfl⟩ := List.cons.inj heq
              rw [(findChild_eq_some_iff hnames).mpr ⟨hperm.mem_iff.mp hch, rfl⟩]
              exact hb
            · intro hsome
              cases hf : findChild children name with
              | none => simp [hf] at hsome
              | some ch =>
                  rw [hf] at hsome
                  obtain ⟨hch, rfl⟩ := (findChild_eq_some_iff hnames).mp hf
                  exact ⟨ch, hperm.mem_iff.mpr hch, names, rfl, hsome⟩
      · rw [nodes_walk, childrenField_machine, walkChildren]
        refine .cons ⟨rfl, rfl⟩ (hnodes.imp ?_)
        rintro names m ⟨name', below, v, n, rfl, hn, hm, hpath⟩
        refine ⟨?_, by rw [hpath, walk_path]⟩
        simp only [nodeAt, walk_children, childrenField_machine, walkChildren, hn]
        exact hm

end Walk

end RobotTaskManager.WebGui
