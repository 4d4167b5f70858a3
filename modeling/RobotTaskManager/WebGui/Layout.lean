import RobotTaskManager.WebGui.Chart

set_option autoImplicit false

/-! # The layout of the chart

`layout` of `HfsmStateView.vue` places the nodes that `parseHfsmSpec` has made of a spec: the leaves
in columns from left to right, every other node in the middle between its first and its last child,
and all nodes in the row of their depth. The nodes of the spec are given by their addresses, lists
of child indices from the root. At the same addresses are the nodes that `walk` makes of them
(`WalkedFrom.descend`), in the order of their ids (`walk_counted`).
-/

namespace RobotTaskManager.WebGui

open PyValue

/-! ## `layout` -/

def xStep : ℕ := 240

def yStep : ℕ := 110

section Code

variable {N : Type} [Add N] [Mul N] [Div N] [NatCast N]

structure Position (N : Type) where
  x : N
  y : N

/-- The variables of `layout` that `visit` changes. -/
structure VisitState (N : Type) where
  cursor : ℕ
  positions : String → Option (Position N)

/-- `cursor * xStep` -/
def column (N : Type) [Mul N] [NatCast N] (cursor : ℕ) : N := (cursor : N) * (xStep : N)

/-- `n.depth * yStep` -/
def row (N : Type) [Mul N] [NatCast N] (depth : ℕ) : N := (depth : N) * (yStep : N)

/-- `(firstPos.x + lastPos.x) / 2` -/
def middle (a b : N) : N := (a + b) / ((2 : ℕ) : N)

/-- `positions.set` -/
def VisitState.set (s : VisitState N) (id : String) (p : Position N) : VisitState N :=
  { s with positions := Function.update s.positions id (some p) }

mutual

/-- `visit`, `none` where it throws a `TypeError`. -/
def visit : ParsedNode → VisitState N → Option (VisitState N)
  | ⟨id, _, children, depth, isLeaf, _⟩, s =>
      if isLeaf then
        let s := s.set id ⟨column N s.cursor, row N depth⟩
        some { s with cursor := s.cursor + 1 }
      else do
        let s ← visitAll children s
        let first ← children.head?
        let firstPos ← s.positions first.id
        let last ← children.getLast?
        let lastPos ← s.positions last.id
        some (s.set id ⟨middle firstPos.x lastPos.x, row N depth⟩)

/-- `n.children.forEach(visit)` -/
def visitAll : List ParsedNode → VisitState N → Option (VisitState N)
  | [], s => some s
  | n :: ns, s => do
      let s ← visit n s
      visitAll ns s

end

/-- A node for the chart component; `position` is `undefined` if none has been set. -/
structure ChartNode (N : Type) where
  id : String
  position : Option (Position N)
  label : String
  path : String
  isLeaf : Bool
  type : String
  cssClass : String

structure ChartEdge where
  id : String
  source : String
  target : String
  type : String

def chartNode (positions : String → Option (Position N)) (n : ParsedNode) : ChartNode N where
  id := n.id
  position := positions n.id
  label := n.label
  path := n.path
  isLeaf := n.isLeaf
  type := "default"
  cssClass := if n.isLeaf then "hfsm-leaf" else "hfsm-composite"

def chartEdge (source target : String) : ChartEdge where
  id := source ++ "->" ++ target
  source := source
  target := target
  type := "smoothstep"

/-- What `layout` returns. -/
structure Chart (N : Type) where
  nodes : List (ChartNode N)
  edges : List ChartEdge

mutual

/-- What `emit` adds to the nodes and the edges. -/
def emit (positions : String → Option (Position N)) (parent : Option String) :
    ParsedNode → Chart N
  | ⟨id, label, children, depth, isLeaf, path⟩ =>
      let below := emitAll positions id children
      ⟨chartNode positions ⟨id, label, children, depth, isLeaf, path⟩ :: below.nodes,
        (parent.map (chartEdge · id)).toList ++ below.edges⟩

/-- `n.children.forEach((c) => emit(c, n))` -/
def emitAll (positions : String → Option (Position N)) (parent : String) :
    List ParsedNode → Chart N
  | [] => ⟨[], []⟩
  | n :: ns =>
      let first := emit positions (some parent) n
      let rest := emitAll positions parent ns
      ⟨first.nodes ++ rest.nodes, first.edges ++ rest.edges⟩

end

/-- `layout` -/
def layout (root : ParsedNode) : Option (Chart N) := do
  let s ← visit root ⟨0, fun _ => none⟩
  return emit s.positions none root

end Code

/-! ## Addresses -/

theorem ParsedNode.induction {P : ParsedNode → Prop}
    (h : ∀ n : ParsedNode, (∀ c ∈ n.children, P c) → P n) (n : ParsedNode) : P n :=
  @ParsedNode.rec P (fun ns => ∀ c ∈ ns, P c)
    (fun _ _ _ _ _ _ hchildren => h _ hchildren) (fun _ hc => absurd hc List.not_mem_nil)
    (fun _ _ hn hns => List.forall_mem_cons.mpr ⟨hn, hns⟩) n

/-- The node at an address below a node. -/
def ParsedNode.descend (n : ParsedNode) : List ℕ → Option ParsedNode
  | [] => some n
  | i :: address => n.children[i]?.bind fun c => c.descend address

mutual

/-- The addresses of the nodes, in the order of `nodes`. -/
def ParsedNode.addresses : ParsedNode → List (List ℕ)
  | ⟨_, _, children, _, _, _⟩ => [] :: addressesFrom 0 children

def addressesFrom : ℕ → List ParsedNode → List (List ℕ)
  | _, [] => []
  | i, n :: ns => n.addresses.map (i :: ·) ++ addressesFrom (i + 1) ns

end

theorem ParsedNode.addresses_eq (n : ParsedNode) :
    n.addresses = [] :: addressesFrom 0 n.children := by
  cases n
  rfl

theorem ParsedNode.nodes_eq (n : ParsedNode) : n.nodes = n :: nodesOf n.children := by
  cases n
  rfl

theorem mem_nodesOf {ns : List ParsedNode} {m : ParsedNode} :
    m ∈ nodesOf ns ↔ ∃ n ∈ ns, m ∈ n.nodes := by
  induction ns with
  | nil => simp [nodesOf]
  | cons n ns ih => rw [nodesOf, List.mem_append, ih, List.exists_mem_cons_iff]

theorem ParsedNode.mem_nodes_self (n : ParsedNode) : n ∈ n.nodes := by
  rw [n.nodes_eq]
  exact List.mem_cons_self

theorem mem_nodesOf_child {ns : List ParsedNode} {c : ParsedNode} (h : c ∈ ns) : c ∈ nodesOf ns :=
  mem_nodesOf.mpr ⟨c, h, c.mem_nodes_self⟩

theorem mem_addressesFrom {i : ℕ} {ns : List ParsedNode} {address : List ℕ} :
    address ∈ addressesFrom i ns ↔
      ∃ j n below, ns[j]? = some n ∧ below ∈ n.addresses ∧ address = (i + j) :: below := by
  induction ns generalizing i with
  | nil => simp [addressesFrom]
  | cons n ns ih =>
      rw [addressesFrom, List.mem_append, List.mem_map, ih]
      constructor
      · rintro (⟨below, hbelow, rfl⟩ | ⟨j, m, below, hm, hbelow, rfl⟩)
        · exact ⟨0, n, below, rfl, hbelow, rfl⟩
        · exact ⟨j + 1, m, below, hm, hbelow, by rw [Nat.add_right_comm, Nat.add_assoc]⟩
      · rintro ⟨j, m, below, hm, hbelow, rfl⟩
        cases j with
        | zero => exact Or.inl ⟨below, Option.some.inj hm ▸ hbelow, rfl⟩
        | succ j =>
            refine Or.inr ⟨j, m, below, hm, hbelow, ?_⟩
            rw [Nat.add_right_comm, Nat.add_assoc]

theorem addresses_nodup (n : ParsedNode) : n.addresses.Nodup := by
  induction n using ParsedNode.induction with
  | h n ih =>
      have hfrom : ∀ (ns : List ParsedNode) (i : ℕ), (∀ c ∈ ns, c.addresses.Nodup) →
          (addressesFrom i ns).Nodup := by
        intro ns
        induction ns with
        | nil => exact fun _ _ => List.nodup_nil
        | cons c cs ihcs =>
            intro i hcs
            obtain ⟨hc, hrest⟩ := List.forall_mem_cons.mp hcs
            rw [addressesFrom]
            refine List.nodup_append.mpr ⟨hc.map (List.cons_injective), ihcs (i + 1) hrest,
              fun address h₁ address' h₂ heq => ?_⟩
            -- the addresses of later children begin with greater indices
            obtain ⟨below, -, rfl⟩ := List.mem_map.mp h₁
            obtain ⟨j, m, below', -, -, rfl⟩ := mem_addressesFrom.mp h₂
            have := (List.cons.inj heq).1
            omega
      rw [n.addresses_eq]
      refine List.nodup_cons.mpr ⟨fun h => ?_, hfrom n.children 0 ih⟩
      obtain ⟨j, m, below, -, -, hnil⟩ := mem_addressesFrom.mp h
      cases hnil

/-- The nodes are those at the addresses, in their order. -/
theorem map_descend_addresses (n : ParsedNode) :
    n.addresses.map n.descend = n.nodes.map some := by
  induction n using ParsedNode.induction with
  | h n ih =>
      have hfrom : ∀ (ns before : List ParsedNode), n.children = before ++ ns →
          (addressesFrom before.length ns).map n.descend = (nodesOf ns).map some := by
        intro ns
        induction ns with
        | nil => exact fun _ _ => rfl
        | cons c cs ihcs =>
            intro before hsplit
            have hc : n.children[before.length]? = some c := by rw [hsplit]; simp
            have hrest := ihcs (before ++ [c]) (by rw [hsplit]; simp)
            rw [List.length_append, List.length_singleton] at hrest
            rw [addressesFrom, nodesOf, List.map_append, List.map_append, hrest, List.map_map,
              ← ih c (by rw [hsplit]; simp)]
            congr 1
            refine List.map_congr_left fun below _ => ?_
            rw [Function.comp_apply, ParsedNode.descend, hc, Option.bind_some]
      rw [n.addresses_eq, n.nodes_eq, List.map_cons, List.map_cons]
      exact congrArg _ (hfrom n.children [] rfl)

theorem mem_addresses {n : ParsedNode} {address : List ℕ} :
    address ∈ n.addresses ↔ (n.descend address).isSome = true := by
  induction address generalizing n with
  | nil => simp [n.addresses_eq, ParsedNode.descend]
  | cons i address ih =>
      rw [n.addresses_eq, List.mem_cons, or_iff_right (List.cons_ne_nil _ _), mem_addressesFrom,
        ParsedNode.descend]
      constructor
      · rintro ⟨j, m, below, hm, hbelow, heq⟩
        obtain ⟨rfl, rfl⟩ := List.cons.inj heq
        rw [Nat.zero_add, hm, Option.bind_some]
        exact ih.mp hbelow
      · intro h
        cases hm : n.children[i]? with
        | none =>
            rw [hm] at h
            cases h
        | some m =>
            rw [hm, Option.bind_some] at h
            exact ⟨i, m, address, hm, ih.mpr h, by rw [Nat.zero_add]⟩

/-- A node at an address, and its child at an address that is longer by one. -/
theorem descend_concat (n : ParsedNode) (address : List ℕ) (i : ℕ) :
    n.descend (address ++ [i]) = (n.descend address).bind fun m => m.children[i]? := by
  induction address generalizing n with
  | nil =>
      show (n.children[i]?.bind fun c => some c) = n.children[i]?
      cases n.children[i]? <;> rfl
  | cons j address ih =>
      rw [List.cons_append, ParsedNode.descend, ParsedNode.descend]
      cases n.children[j]? with
      | none => rfl
      | some c => exact ih c

theorem mem_nodes_iff {n m : ParsedNode} : m ∈ n.nodes ↔ ∃ address, n.descend address = some m := by
  have hmem : some m ∈ n.nodes.map some ↔ m ∈ n.nodes :=
    List.mem_map_of_injective (Option.some_injective _)
  rw [← hmem, ← map_descend_addresses, List.mem_map]
  constructor
  · rintro ⟨address, -, h⟩
    exact ⟨address, h⟩
  · rintro ⟨address, h⟩
    exact ⟨address, mem_addresses.mpr (by rw [h]; rfl), h⟩

/-! ## The nodes of a spec and those that `walk` makes -/

/-- The specs in a dict or an array of children. -/
def childValues : Val → List Val
  | .dict items => items.map Prod.snd
  | .list xs => xs
  | .key _ => []

/-- The spec at an address below a spec. -/
def specAt (spec : Val) : List ℕ → Option Val
  | [] => some spec
  | i :: address => (childValues (childrenField spec))[i]?.bind fun child => specAt child address

/-- `walk` has made the node of the spec, for the depth. -/
def WalkedFrom (depth : ℕ) (spec : Val) (n : ParsedNode) : Prop :=
  ∃ counter parentPath name, n = (walk counter spec depth parentPath name).2

theorem walkArray_made (counter i depth : ℕ) (xs : List Val) (path : String) :
    List.Forall₂ (WalkedFrom depth) xs (walkArray counter i xs depth path).2 := by
  induction xs generalizing counter i with
  | nil => rw [walkArray]; exact .nil
  | cons x xs ih => rw [walkArray]; exact .cons ⟨_, _, _, rfl⟩ (ih _ _)

theorem walkItems_made (counter depth : ℕ) (items : Dict) (path : String) :
    List.Forall₂ (WalkedFrom depth) (items.map Prod.snd)
      (walkItems counter items depth path).2 := by
  induction items generalizing counter with
  | nil => rw [walkItems]; exact .nil
  | cons item items ih =>
      obtain ⟨name, child⟩ := item
      rw [walkItems]
      exact .cons ⟨_, _, _, rfl⟩ (ih _)

theorem WalkedFrom.children {depth : ℕ} {spec : Val} {n : ParsedNode}
    (h : WalkedFrom depth spec n) :
    List.Forall₂ (WalkedFrom (depth + 1)) (childValues (childrenField spec)) n.children := by
  obtain ⟨counter, parentPath, name, rfl⟩ := h
  rw [walk_children]
  cases childrenField spec with
  | key k => rw [walkChildren]; exact .nil
  | list xs => rw [walkChildren]; exact walkArray_made _ _ _ _ _
  | dict items => rw [walkChildren]; exact walkItems_made _ _ _ _

theorem rel_getElem? {α β : Type*} {R : α → β → Prop} {xs : List α} {ys : List β}
    (h : List.Forall₂ R xs ys) (i : ℕ) : Option.Rel R xs[i]? ys[i]? := by
  induction h generalizing i with
  | nil => exact .none
  | cons hxy _ ih =>
      cases i with
      | zero => exact .some hxy
      | succ i => exact ih i

/-- Below a node the specs and the nodes at an address correspond. -/
theorem WalkedFrom.descend {depth : ℕ} {spec : Val} {n : ParsedNode} (h : WalkedFrom depth spec n)
    (address : List ℕ) :
    Option.Rel (WalkedFrom (depth + address.length)) (specAt spec address) (n.descend address) := by
  induction address generalizing depth spec n with
  | nil => exact .some h
  | cons i address ih =>
      have hchild := rel_getElem? h.children i
      have hdepth : depth + (i :: address).length = depth + 1 + address.length := by
        rw [List.length_cons]
        omega
      rw [specAt, ParsedNode.descend, hdepth]
      generalize (childValues (childrenField spec))[i]? = v at hchild ⊢
      generalize n.children[i]? = c at hchild ⊢
      cases hchild with
      | none => exact .none
      | some hmade => exact ih hmade

theorem WalkedFrom.node {depth : ℕ} {spec v : Val} {n : ParsedNode} (h : WalkedFrom depth spec n)
    {address : List ℕ} (hv : specAt spec address = some v) :
    ∃ m, n.descend address = some m ∧ WalkedFrom (depth + address.length) v m := by
  have hrel := h.descend address
  rw [hv] at hrel
  generalize n.descend address = m at hrel
  cases hrel with
  | some hmade => exact ⟨_, rfl, hmade⟩

theorem WalkedFrom.spec {depth : ℕ} {spec : Val} {n m : ParsedNode} (h : WalkedFrom depth spec n)
    {address : List ℕ} (hm : n.descend address = some m) :
    ∃ v, specAt spec address = some v ∧ WalkedFrom (depth + address.length) v m := by
  have hrel := h.descend address
  rw [hm] at hrel
  generalize specAt spec address = v at hrel
  cases hrel with
  | some hmade => exact ⟨_, rfl, hmade⟩

theorem WalkedFrom.fields {depth : ℕ} {spec : Val} {n : ParsedNode} (h : WalkedFrom depth spec n) :
    n.depth = depth ∧ n.isLeaf = n.children.isEmpty ∧ ∃ name, n.label = labelOf spec name := by
  obtain ⟨counter, parentPath, name, rfl⟩ := h
  rw [walk]
  exact ⟨rfl, rfl, name, rfl⟩

/-- The id of the node that `walk` makes when the counter has come to a number. -/
def nodeId (counter : ℕ) : String := "n" ++ toString counter

/-- The nodes have the ids from one count to another, in their order. -/
def CountedFrom (counter : ℕ) (r : ℕ × List ParsedNode) : Prop :=
  r.1 = counter + (nodesOf r.2).length ∧
    (nodesOf r.2).map ParsedNode.id = (List.range' (counter + 1) (nodesOf r.2).length).map nodeId

theorem CountedFrom.nil (counter : ℕ) : CountedFrom counter (counter, []) := ⟨rfl, rfl⟩

theorem CountedFrom.cons {counter : ℕ} {r : ℕ × ParsedNode} {rs : ℕ × List ParsedNode}
    (h : CountedFrom counter (r.1, [r.2])) (hs : CountedFrom r.1 rs) :
    CountedFrom counter (rs.1, r.2 :: rs.2) := by
  obtain ⟨hend, hids⟩ := h
  obtain ⟨hends, hidss⟩ := hs
  rw [nodesOf, nodesOf, List.append_nil] at hend hids
  rw [CountedFrom, nodesOf, List.length_append]
  refine ⟨by rw [hends, hend, Nat.add_assoc], ?_⟩
  rw [List.map_append, hids, hidss, ← List.range'_append_1, List.map_append, hend]
  congr 3
  omega

theorem CountedFrom.node {counter : ℕ} {r : ℕ × List ParsedNode} {n : ParsedNode}
    (h : CountedFrom (counter + 1) r) (hid : n.id = nodeId (counter + 1))
    (hchildren : n.children = r.2) : CountedFrom counter (r.1, [n]) := by
  obtain ⟨hend, hids⟩ := h
  rw [CountedFrom, nodesOf, nodesOf, List.append_nil, n.nodes_eq, hchildren, List.length_cons]
  refine ⟨by rw [hend]; omega, ?_⟩
  rw [List.map_cons, hid, hids, List.range'_succ, List.map_cons]

/-- **`walk` numbers the nodes** in the order in which they are emitted. -/
theorem walk_counted (counter : ℕ) (spec : Val) (depth : ℕ) (parentPath name : String) :
    CountedFrom counter ((walk counter spec depth parentPath name).1,
      [(walk counter spec depth parentPath name).2]) := by
  refine (walk.mutual_induct
    (fun counter spec depth parentPath name =>
      CountedFrom counter ((walk counter spec depth parentPath name).1,
        [(walk counter spec depth parentPath name).2]))
    (fun counter raw depth path => CountedFrom counter (walkChildren counter raw depth path))
    (fun counter i xs depth path => CountedFrom counter (walkArray counter i xs depth path))
    (fun counter items depth path => CountedFrom counter (walkItems counter items depth path))
    ?_ ?_ ?_ ?_ ?_ ?_ ?_ ?_).1 counter spec depth parentPath name
  · intro counter node depth parentPath assignedName path ih
    rw [walk]
    exact ih.node rfl rfl
  · intro counter depth path items ih
    rwa [walkChildren]
  · intro counter depth path xs ih
    rwa [walkChildren]
  · intro counter depth path k
    rw [walkChildren]
    exact .nil counter
  · intro counter i depth path
    rw [walkArray]
    exact .nil counter
  · intro counter i depth path child rest id r _ ih ihrest
    rw [walkArray]
    exact ih.cons ihrest
  · intro counter depth path
    rw [walkItems]
    exact .nil counter
  · intro counter depth path name child rest r ih ihrest
    rw [walkItems]
    exact ih.cons ihrest

theorem toDigits_injective : Function.Injective (Nat.toDigits 10) := by
  have hdigit : ∀ i, i < 10 → ∀ j, j < 10 → Nat.digitChar i = Nat.digitChar j → i = j := by decide
  intro a
  induction a using Nat.strongRecOn with
  | ind a ih =>
      intro b h
      rw [Nat.toDigits_eq_if (by omega), Nat.toDigits_eq_if (n := b) (by omega)] at h
      by_cases ha : a < 10
      · by_cases hb : b < 10
        · rw [if_pos ha, if_pos hb, List.singleton_inj] at h
          exact hdigit a ha b hb h
        · rw [if_pos ha, if_neg hb] at h
          rw [← List.nil_append [_]] at h
          exact absurd (List.append_inj' h rfl).1.symm Nat.toDigits_ne_nil
      · by_cases hb : b < 10
        · rw [if_neg ha, if_pos hb] at h
          rw [← List.nil_append [b.digitChar]] at h
          exact absurd (List.append_inj' h rfl).1 Nat.toDigits_ne_nil
        · rw [if_neg ha, if_neg hb] at h
          obtain ⟨hdiv, hmod⟩ := List.append_inj' h rfl
          have hdiv := ih (a / 10) (by omega) hdiv
          have hmod := hdigit _ (by omega) _ (by omega) (List.singleton_inj.mp hmod)
          omega

theorem nodeId_injective : Function.Injective nodeId := by
  intro a b h
  have hdigits : (toString a).toList = (toString b).toList := by
    have hlist := congrArg String.toList h
    simp only [nodeId, String.toList_append] at hlist
    exact List.append_cancel_left hlist
  exact toDigits_injective (by simpa [Nat.toString_eq_repr] using hdigits)

/-- No two nodes have the same id. -/
theorem walk_ids_nodup (counter : ℕ) (spec : Val) (depth : ℕ) (parentPath name : String) :
    ((walk counter spec depth parentPath name).2.nodes.map ParsedNode.id).Nodup := by
  obtain ⟨-, hids⟩ := walk_counted counter spec depth parentPath name
  rw [nodesOf, nodesOf, List.append_nil] at hids
  rw [hids]
  exact (List.nodup_range' ..).map nodeId_injective

end RobotTaskManager.WebGui
