import Mathlib.Algebra.Field.Rat
import Mathlib.Algebra.Order.Field.Basic
import Mathlib.Algebra.Order.Ring.Rat
import RobotTaskManager.WebGui.Layout

set_option autoImplicit false

/-! # What the chart draws

`layout_draws` says what is drawn for a spec. That no two nodes meet rests on `Placed`: the leaves
of a node occupy an interval of columns, those of its children follow each other in it, and the
node stays inside. For the coordinates nothing is used but what `ChartNumber` says, which holds of
exact numbers, and of JavaScript's as far as they count exactly.
-/

namespace RobotTaskManager.WebGui

open PyValue

/-! ## Placed nodes -/

section Placement

variable {N : Type} [Add N] [Mul N] [Div N] [NatCast N] {positions : String → Option (Position N)}

mutual

/-- The leaves of a node are placed in the columns from `lo` to `hi`, without `hi`, the nodes above
them in the middle of their children, and all in the rows of their depths. -/
def Placed (positions : String → Option (Position N)) : ParsedNode → ℕ → ℕ → Prop
  | ⟨id, _, [], depth, _, _⟩, lo, hi =>
      positions id = some ⟨column N lo, row N depth⟩ ∧ hi = lo + 1
  | ⟨id, _, first :: rest, depth, _, _⟩, lo, hi =>
      PlacedAll positions (first :: rest) lo hi ∧
        ∃ p q, positions first.id = some p ∧
          positions ((first :: rest).getLast (List.cons_ne_nil _ _)).id = some q ∧
          positions id = some ⟨middle p.x q.x, row N depth⟩

/-- The children of a node, one after the other. -/
def PlacedAll (positions : String → Option (Position N)) : List ParsedNode → ℕ → ℕ → Prop
  | [], lo, hi => lo = hi
  | n :: ns, lo, hi => ∃ mid, Placed positions n lo mid ∧ PlacedAll positions ns mid hi

end

/-- The flag of a leaf is right in the nodes. -/
def Flagged (n : ParsedNode) : Prop := ∀ m ∈ n.nodes, m.isLeaf = m.children.isEmpty

theorem Flagged.child {n c : ParsedNode} (h : Flagged n) (hc : c ∈ n.children) : Flagged c := by
  intro m hm
  refine h m ?_
  rw [n.nodes_eq]
  exact List.mem_cons_of_mem n (mem_nodesOf.mpr ⟨c, hc, hm⟩)

variable {n : ParsedNode} {ns : List ParsedNode} {lo hi : ℕ}

theorem placed_leaf (h : n.children = []) : Placed positions n lo hi ↔
    positions n.id = some ⟨column N lo, row N n.depth⟩ ∧ hi = lo + 1 := by
  obtain ⟨id, label, children, depth, isLeaf, path⟩ := n
  obtain rfl : children = [] := h
  exact Iff.rfl

theorem placed_composite {first : ParsedNode} {rest : List ParsedNode}
    (h : n.children = first :: rest) : Placed positions n lo hi ↔
      PlacedAll positions (first :: rest) lo hi ∧
        ∃ p q, positions first.id = some p ∧
          positions ((first :: rest).getLast (List.cons_ne_nil _ _)).id = some q ∧
          positions n.id = some ⟨middle p.x q.x, row N n.depth⟩ := by
  obtain ⟨id, label, children, depth, isLeaf, path⟩ := n
  obtain rfl : children = first :: rest := h
  exact Iff.rfl

theorem Placed.position (h : Placed positions n lo hi) : ∃ p, positions n.id = some p := by
  cases hch : n.children with
  | nil => exact ⟨_, ((placed_leaf hch).mp h).1⟩
  | cons first rest =>
      obtain ⟨-, p, q, -, -, hpos⟩ := (placed_composite hch).mp h
      exact ⟨_, hpos⟩

theorem PlacedAll.mem (h : PlacedAll positions ns lo hi) {c : ParsedNode} (hc : c ∈ ns) :
    ∃ l r, Placed positions c l r := by
  induction ns generalizing lo with
  | nil => cases hc
  | cons n ns ih =>
      obtain ⟨mid, hn, hns⟩ := h
      cases List.mem_cons.mp hc with
      | inl heq => exact ⟨lo, mid, heq ▸ hn⟩
      | inr hmem => exact ih hns hmem

theorem PlacedAll.congr {positions' : String → Option (Position N)}
    (ih : ∀ c ∈ ns, ∀ l r, Placed positions c l r →
      (∀ m ∈ c.nodes, positions' m.id = positions m.id) → Placed positions' c l r)
    (h : PlacedAll positions ns lo hi)
    (hsame : ∀ m ∈ nodesOf ns, positions' m.id = positions m.id) :
    PlacedAll positions' ns lo hi := by
  induction ns generalizing lo with
  | nil => exact h
  | cons n ns ihns =>
      obtain ⟨mid, hn, hns⟩ := h
      obtain ⟨ihn, ihrest⟩ := List.forall_mem_cons.mp ih
      rw [nodesOf] at hsame
      exact ⟨mid, ihn lo mid hn fun m hm => hsame m (List.mem_append_left _ hm),
        ihns ihrest hns fun m hm => hsame m (List.mem_append_right _ hm)⟩

/-- Only the positions of the nodes themselves matter. -/
theorem Placed.congr {positions' : String → Option (Position N)}
    (h : Placed positions n lo hi) (hsame : ∀ m ∈ n.nodes, positions' m.id = positions m.id) :
    Placed positions' n lo hi := by
  induction n using ParsedNode.induction generalizing lo hi with
  | h n ih =>
      rw [n.nodes_eq] at hsame
      obtain ⟨hself, hbelow⟩ := List.forall_mem_cons.mp hsame
      cases hch : n.children with
      | nil =>
          rw [placed_leaf hch] at h ⊢
          rwa [hself]
      | cons first rest =>
          rw [hch] at hbelow ih
          obtain ⟨hall, p, q, hp, hq, hpos⟩ := (placed_composite hch).mp h
          have hchild : ∀ c ∈ first :: rest, positions' c.id = positions c.id := fun c hc =>
            hbelow c (mem_nodesOf_child hc)
          have hall' := hall.congr (fun c hc l r => ih c hc) hbelow
          refine (placed_composite hch).mpr ⟨hall', p, q, ?_, ?_, ?_⟩
          · rw [hchild first List.mem_cons_self, hp]
          · rw [hchild _ (List.getLast_mem _), hq]
          · rw [hself, hpos]

theorem visit_leaf (h : n.isLeaf = true) (s : VisitState N) : visit n s =
    some { s.set n.id ⟨column N s.cursor, row N n.depth⟩ with cursor := s.cursor + 1 } := by
  obtain ⟨id, label, children, depth, isLeaf, path⟩ := n
  obtain rfl : isLeaf = true := h
  rw [visit]
  rfl

theorem visit_composite (h : n.isLeaf = false) {s s' : VisitState N}
    (hs : visitAll n.children s = some s') {first last : ParsedNode}
    (hfirst : n.children.head? = some first) (hlast : n.children.getLast? = some last)
    {p q : Position N} (hp : s'.positions first.id = some p) (hq : s'.positions last.id = some q) :
    visit n s = some (s'.set n.id ⟨middle p.x q.x, row N n.depth⟩) := by
  obtain ⟨id, label, children, depth, isLeaf, path⟩ := n
  obtain rfl : isLeaf = false := h
  simp only at hs hfirst hlast
  rw [visit]
  simp [hs, hfirst, hlast, hp, hq]

theorem visitAll_placed
    (ih : ∀ c ∈ ns, (c.nodes.map ParsedNode.id).Nodup → ∀ s : VisitState N, ∃ s',
      visit c s = some s' ∧
      (∀ id, id ∉ c.nodes.map ParsedNode.id → s'.positions id = s.positions id) ∧
      Placed s'.positions c s.cursor s'.cursor)
    (hids : ((nodesOf ns).map ParsedNode.id).Nodup) (s : VisitState N) :
    ∃ s', visitAll ns s = some s' ∧
      (∀ id, id ∉ (nodesOf ns).map ParsedNode.id → s'.positions id = s.positions id) ∧
      PlacedAll s'.positions ns s.cursor s'.cursor := by
  induction ns generalizing s with
  | nil => exact ⟨s, rfl, fun _ _ => rfl, rfl⟩
  | cons n ns ihns =>
      rw [nodesOf, List.map_append] at hids ⊢
      obtain ⟨hn, hns, hdisjoint⟩ := List.nodup_append.mp hids
      obtain ⟨ihn, ihrest⟩ := List.forall_mem_cons.mp ih
      obtain ⟨s₁, hvisit, hframe, hplaced⟩ := ihn hn s
      obtain ⟨s₂, hvisits, hframes, hplaceds⟩ := ihns ihrest hns s₁
      have hall : visitAll (n :: ns) s = some s₂ := by
        rw [visitAll, hvisit]
        exact hvisits
      refine ⟨s₂, hall, fun id hid => ?_, s₁.cursor, ?_, hplaceds⟩
      · rw [List.mem_append, not_or] at hid
        rw [hframes id hid.2, hframe id hid.1]
      -- the later children do not move the first one
      · refine hplaced.congr fun m hm => hframes m.id fun hmem => ?_
        exact hdisjoint m.id (List.mem_map_of_mem hm) m.id hmem rfl

/-- **`visit` places the node** at the cursor, and leaves the positions of other nodes alone. -/
theorem visit_placed (hflag : Flagged n) (hids : (n.nodes.map ParsedNode.id).Nodup)
    (s : VisitState N) : ∃ s', visit n s = some s' ∧
      (∀ id, id ∉ n.nodes.map ParsedNode.id → s'.positions id = s.positions id) ∧
      Placed s'.positions n s.cursor s'.cursor := by
  induction n using ParsedNode.induction generalizing s with
  | h n ih =>
      have hleaf := hflag n n.mem_nodes_self
      rw [n.nodes_eq, List.map_cons, List.nodup_cons] at hids
      obtain ⟨hself, hbelow⟩ := hids
      simp only [n.nodes_eq, List.map_cons, List.mem_cons, not_or]
      cases hch : n.children with
      | nil =>
          refine ⟨_, visit_leaf (by rw [hleaf, hch]; rfl) s, fun id hid => ?_, ?_⟩
          · exact Function.update_of_ne hid.1 _ _
          · exact (placed_leaf hch).mpr ⟨Function.update_self _ _ _, rfl⟩
      | cons first rest =>
          obtain ⟨s₁, hvisit, hframe, hplaced⟩ :=
            visitAll_placed (fun c hc => ih c hc (hflag.child hc)) hbelow s
          rw [hch] at hplaced hself hbelow hframe
          obtain ⟨l, r, hfirst⟩ := hplaced.mem List.mem_cons_self
          obtain ⟨l', r', hlast⟩ := hplaced.mem (List.getLast_mem (List.cons_ne_nil first rest))
          obtain ⟨p, hp⟩ := hfirst.position
          obtain ⟨q, hq⟩ := hlast.position
          have hend : n.children.getLast? =
              some ((first :: rest).getLast (List.cons_ne_nil _ _)) := by
            rw [hch, List.getLast?_eq_some_getLast]
          refine ⟨_, visit_composite (by rw [hleaf, hch]; rfl) hvisit (by rw [hch]; rfl) hend hp
            hq, fun id hid => ?_, ?_⟩
          · exact (Function.update_of_ne hid.1 _ _).trans (hframe id hid.2)
          -- the position of the node is not that of a node below
          · have hkeep : ∀ m ∈ nodesOf (first :: rest), (s₁.set n.id
                ⟨middle p.x q.x, row N n.depth⟩).positions m.id = s₁.positions m.id := fun m hm =>
              Function.update_of_ne (fun h : m.id = n.id => hself (h ▸ List.mem_map_of_mem hm)) _ _
            have hplaced' := hplaced.congr (fun c _ l r => Placed.congr) hkeep
            refine (placed_composite hch).mpr
              ⟨hplaced', p, q, ?_, ?_, Function.update_self _ _ _⟩
            · rw [hkeep first (mem_nodesOf_child List.mem_cons_self), hp]
            · rw [hkeep _ (mem_nodesOf_child (List.getLast_mem _)), hq]

/-- A node with children is in the middle between the first and the last of them. -/
theorem Placed.in_middle (h : Placed positions n lo hi) {m first last : ParsedNode}
    (hm : m ∈ n.nodes) (hfirst : m.children.head? = some first)
    (hlast : m.children.getLast? = some last) : ∃ p q r, positions first.id = some p ∧
      positions last.id = some q ∧ positions m.id = some r ∧ r.x = middle p.x q.x := by
  induction n using ParsedNode.induction generalizing lo hi with
  | h n ih =>
      rw [n.nodes_eq] at hm
      cases List.mem_cons.mp hm with
      | inl heq =>
          subst heq
          cases hch : m.children with
          | nil =>
              rw [hch] at hfirst
              cases hfirst
          | cons c cs =>
              obtain ⟨-, p, q, hp, hq, hpos⟩ := (placed_composite hch).mp h
              rw [hch] at hfirst hlast
              rw [List.getLast?_eq_some_getLast (List.cons_ne_nil c cs)] at hlast
              cases hfirst
              cases hlast
              exact ⟨p, q, _, hp, hq, hpos, rfl⟩
      | inr hbelow =>
          obtain ⟨c, hc, hmc⟩ := mem_nodesOf.mp hbelow
          cases hch : n.children with
          | nil =>
              rw [hch] at hc
              cases hc
          | cons first rest =>
              obtain ⟨l, r, hplaced⟩ := ((placed_composite hch).mp h).1.mem (hch ▸ hc)
              exact ih c hc hplaced hmc

/-! ## No two nodes meet -/

/-- What the layout relies on in its numbers: columns and rows grow, and the middle is between. -/
class ChartNumber (N : Type) [Preorder N] [Add N] [Mul N] [Div N] [NatCast N] : Prop where
  column_strictMono : StrictMono (column N)
  row_strictMono : StrictMono (row N)
  le_middle {a b : N} : a ≤ b → a ≤ middle a b
  middle_le {a b : N} : a ≤ b → middle a b ≤ b

/-- Exact numbers. -/
instance {N : Type} [Field N] [LinearOrder N] [IsStrictOrderedRing N] : ChartNumber N where
  column_strictMono i j h :=
    mul_lt_mul_of_pos_right (Nat.cast_lt.mpr h) (Nat.cast_pos.mpr (by decide))
  row_strictMono i j h :=
    mul_lt_mul_of_pos_right (Nat.cast_lt.mpr h) (Nat.cast_pos.mpr (by decide))
  le_middle {a b} h := by
    rw [middle, Nat.cast_ofNat, le_div_iff₀ zero_lt_two, mul_two]
    exact add_le_add_right h a
  middle_le {a b} h := by
    rw [middle, Nat.cast_ofNat, div_le_iff₀ zero_lt_two, mul_two]
    exact add_le_add_left h b

variable [Preorder N] [ChartNumber N]

/-- The node is drawn in the columns from `lo` to `hi`, without `hi`, and in the row of its
depth. -/
def Within (positions : String → Option (Position N)) (lo hi : ℕ) (m : ParsedNode) : Prop :=
  ∃ p, positions m.id = some p ∧ column N lo ≤ p.x ∧ p.x < column N hi ∧ p.y = row N m.depth

theorem Within.mono {m : ParsedNode} {lo' hi' : ℕ} (h : Within positions lo hi m) (hlo : lo' ≤ lo)
    (hhi : hi ≤ hi') : Within positions lo' hi' m := by
  obtain ⟨p, hp, hleft, hright, hy⟩ := h
  have hmono := (ChartNumber.column_strictMono (N := N)).monotone
  exact ⟨p, hp, (hmono hlo).trans hleft, hright.trans_le (hmono hhi), hy⟩

theorem PlacedAll.within
    (ih : ∀ c ∈ ns, ∀ l r, Placed positions c l r →
      l < r ∧ ∀ m ∈ c.nodes, Within positions l r m)
    (h : PlacedAll positions ns lo hi) : lo ≤ hi ∧ ∀ m ∈ nodesOf ns, Within positions lo hi m := by
  induction ns generalizing lo with
  | nil => exact ⟨le_of_eq h, fun m hm => absurd hm List.not_mem_nil⟩
  | cons n ns ihns =>
      obtain ⟨mid, hn, hns⟩ := h
      obtain ⟨ihn, ihrest⟩ := List.forall_mem_cons.mp ih
      obtain ⟨hlt, hnode⟩ := ihn lo mid hn
      obtain ⟨hle, hnodes⟩ := ihns ihrest hns
      refine ⟨hlt.le.trans hle, fun m hm => ?_⟩
      cases List.mem_append.mp hm with
      | inl hm => exact (hnode m hm).mono le_rfl hle
      | inr hm => exact (hnodes m hm).mono hlt.le le_rfl

/-- The first child is not to the right of the last one. -/
theorem PlacedAll.first_le_last {first : ParsedNode} {rest : List ParsedNode}
    (ih : ∀ c ∈ first :: rest, ∀ l r, Placed positions c l r →
      l < r ∧ ∀ m ∈ c.nodes, Within positions l r m)
    (h : PlacedAll positions (first :: rest) lo hi) {p q : Position N}
    (hp : positions first.id = some p)
    (hq : positions ((first :: rest).getLast (List.cons_ne_nil _ _)).id = some q) : p.x ≤ q.x := by
  obtain ⟨ihfirst, ihrest⟩ := List.forall_mem_cons.mp ih
  obtain ⟨mid, hfirst, hrest⟩ := h
  cases rest with
  | nil =>
      obtain rfl : p = q := Option.some.inj (hp.symm.trans hq)
      exact le_rfl
  | cons second rest =>
      rw [List.getLast_cons (List.cons_ne_nil second rest)] at hq
      obtain ⟨p', hp', -, hright, -⟩ := (ihfirst lo mid hfirst).2 first first.mem_nodes_self
      have hlast := List.getLast_mem (List.cons_ne_nil second rest)
      obtain ⟨q', hq', hleft, -, -⟩ := (hrest.within ihrest).2 _ (mem_nodesOf_child hlast)
      obtain rfl : p = p' := Option.some.inj (hp.symm.trans hp')
      obtain rfl : q = q' := Option.some.inj (hq.symm.trans hq')
      exact hright.le.trans hleft

/-- **A placed node stays inside its columns**, and so do all nodes below it. -/
theorem Placed.within (h : Placed positions n lo hi) :
    lo < hi ∧ ∀ m ∈ n.nodes, Within positions lo hi m := by
  induction n using ParsedNode.induction generalizing lo hi with
  | h n ih =>
      rw [n.nodes_eq]
      cases hch : n.children with
      | nil =>
          obtain ⟨hpos, rfl⟩ := (placed_leaf hch).mp h
          have hlt : lo < lo + 1 := Nat.lt_succ_self lo
          refine ⟨hlt, List.forall_mem_cons.mpr ⟨?_, fun m hm => absurd hm List.not_mem_nil⟩⟩
          exact ⟨_, hpos, le_rfl, ChartNumber.column_strictMono hlt, rfl⟩
      | cons first rest =>
          rw [hch] at ih
          obtain ⟨hall, p, q, hp, hq, hpos⟩ := (placed_composite hch).mp h
          have hpq := hall.first_le_last (fun c hc l r => ih c hc) hp hq
          obtain ⟨-, hbelow⟩ := hall.within fun c hc l r => ih c hc
          obtain ⟨p', hp', hleft, -, -⟩ := hbelow first (mem_nodesOf_child List.mem_cons_self)
          obtain ⟨q', hq', -, hright, -⟩ := hbelow _ (mem_nodesOf_child (List.getLast_mem _))
          obtain rfl : p = p' := Option.some.inj (hp.symm.trans hp')
          obtain rfl : q = q' := Option.some.inj (hq.symm.trans hq')
          have hcolumns : column N lo < column N hi := (hleft.trans hpq).trans_lt hright
          refine ⟨ChartNumber.column_strictMono.lt_iff_lt.mp hcolumns,
            List.forall_mem_cons.mpr ⟨⟨_, hpos, ?_, ?_, rfl⟩, hbelow⟩⟩
          · exact hleft.trans (ChartNumber.le_middle hpq)
          · exact (ChartNumber.middle_le hpq).trans_lt hright

/-- The depth grows by one from a node to its children. -/
def Deepens (n : ParsedNode) : Prop := ∀ m ∈ n.nodes, ∀ c ∈ m.children, c.depth = m.depth + 1

theorem Deepens.child {c : ParsedNode} (h : Deepens n) (hc : c ∈ n.children) : Deepens c := by
  intro m hm
  refine h m ?_
  rw [n.nodes_eq]
  exact List.mem_cons_of_mem n (mem_nodesOf.mpr ⟨c, hc, hm⟩)

theorem Deepens.depth_lt (h : Deepens n) : ∀ m ∈ nodesOf n.children, n.depth < m.depth := by
  induction n using ParsedNode.induction with
  | h n ih =>
      intro m hm
      obtain ⟨c, hc, hmc⟩ := mem_nodesOf.mp hm
      have hdepth := h n n.mem_nodes_self c hc
      rw [c.nodes_eq] at hmc
      cases List.mem_cons.mp hmc with
      | inl heq => rw [heq]; omega
      | inr hbelow => have := ih c hc (h.child hc) m hbelow; omega

theorem PlacedAll.apart
    (ih : ∀ c ∈ ns, ∀ l r, Placed positions c l r → (c.nodes.map fun m => positions m.id).Nodup)
    (h : PlacedAll positions ns lo hi) : ((nodesOf ns).map fun m => positions m.id).Nodup := by
  induction ns generalizing lo with
  | nil => exact List.nodup_nil
  | cons n ns ihns =>
      obtain ⟨mid, hn, hns⟩ := h
      obtain ⟨ihn, ihrest⟩ := List.forall_mem_cons.mp ih
      rw [nodesOf, List.map_append]
      refine List.nodup_append.mpr ⟨ihn lo mid hn, ihns ihrest hns, fun a ha b hb hab => ?_⟩
      -- the first child is to the left of `mid`, the others are to the right
      obtain ⟨m, hm, rfl⟩ := List.mem_map.mp ha
      obtain ⟨m', hm', rfl⟩ := List.mem_map.mp hb
      obtain ⟨p, hp, -, hright, -⟩ := hn.within.2 m hm
      obtain ⟨q, hq, hleft, -, -⟩ := (hns.within fun c _ l r => Placed.within).2 m' hm'
      obtain rfl : p = q := Option.some.inj (hp.symm.trans (hab.trans hq))
      exact lt_irrefl _ (hright.trans_le hleft)

/-- **Placed nodes have different positions.** -/
theorem Placed.apart (h : Placed positions n lo hi) (hdeep : Deepens n) :
    (n.nodes.map fun m => positions m.id).Nodup := by
  induction n using ParsedNode.induction generalizing lo hi with
  | h n ih =>
      have hself := h.within.2 n n.mem_nodes_self
      have hbelow := fun m (hm : m ∈ nodesOf n.children) =>
        h.within.2 m (by rw [n.nodes_eq]; exact List.mem_cons_of_mem n hm)
      rw [n.nodes_eq, List.map_cons, List.nodup_cons]
      refine ⟨fun hmem => ?_, ?_⟩
      -- all nodes below are in lower rows
      · obtain ⟨m, hm, heq⟩ := List.mem_map.mp hmem
        obtain ⟨p, hp, -, -, hy⟩ := hself
        obtain ⟨q, hq, -, -, hy'⟩ := hbelow m hm
        obtain rfl : q = p := Option.some.inj (hq.symm.trans (heq.trans hp))
        have hrow := ChartNumber.row_strictMono (N := N) (hdeep.depth_lt m hm)
        rw [← hy, ← hy'] at hrow
        exact lt_irrefl _ hrow
      · cases hch : n.children with
        | nil => exact List.nodup_nil
        | cons first rest =>
            rw [hch] at ih
            have hdeep' : ∀ c ∈ first :: rest, Deepens c := fun c hc => hdeep.child (hch ▸ hc)
            exact ((placed_composite hch).mp h).1.apart fun c hc l r hplaced =>
              ih c hc hplaced (hdeep' c hc)

end Placement

/-! ## The nodes and edges of the chart -/

section Emission

variable {N : Type}

mutual

/-- The pairs of a node and its child, in the order in which their edges are emitted. -/
def links : ParsedNode → List (ParsedNode × ParsedNode)
  | ⟨id, label, children, depth, isLeaf, path⟩ =>
      linksOf ⟨id, label, children, depth, isLeaf, path⟩ children

def linksOf (parent : ParsedNode) : List ParsedNode → List (ParsedNode × ParsedNode)
  | [] => []
  | n :: ns => (parent, n) :: links n ++ linksOf parent ns

end

theorem links_eq (n : ParsedNode) : links n = linksOf n n.children := by
  cases n
  rfl

theorem emit_eq (positions : String → Option (Position N)) (parent : Option String)
    (n : ParsedNode) : emit positions parent n =
      ⟨n.nodes.map (chartNode positions), (parent.map (chartEdge · n.id)).toList ++
        (links n).map fun e => chartEdge e.1.id e.2.id⟩ := by
  induction n using ParsedNode.induction generalizing parent with
  | h n ih =>
      have hall : ∀ ns, (∀ c ∈ ns, c ∈ n.children) → emitAll positions n.id ns =
          ⟨(nodesOf ns).map (chartNode positions),
            (linksOf n ns).map fun e => chartEdge e.1.id e.2.id⟩ := by
        intro ns
        induction ns with
        | nil => exact fun _ => rfl
        | cons c cs ihcs =>
            intro hmem
            obtain ⟨hc, hcs⟩ := List.forall_mem_cons.mp hmem
            rw [emitAll, ih c hc, ihcs hcs, nodesOf, linksOf]
            simp
      rw [n.nodes_eq, links_eq]
      obtain ⟨id, label, children, depth, isLeaf, path⟩ := n
      rw [emit, hall children fun _ h => h]
      rfl

theorem mem_linksOf {parent p c : ParsedNode} {ns : List ParsedNode} :
    (p, c) ∈ linksOf parent ns ↔ p = parent ∧ c ∈ ns ∨ ∃ n ∈ ns, (p, c) ∈ links n := by
  induction ns with
  | nil => simp [linksOf]
  | cons n ns ih =>
      rw [linksOf, List.cons_append, List.mem_cons, List.mem_append, ih, List.exists_mem_cons_iff,
        List.mem_cons, Prod.mk.injEq]
      tauto

/-- The links are the pairs of a node and one of its children. -/
theorem mem_links {n p c : ParsedNode} : (p, c) ∈ links n ↔ p ∈ n.nodes ∧ c ∈ p.children := by
  induction n using ParsedNode.induction with
  | h n ih =>
      rw [links_eq, mem_linksOf, n.nodes_eq, List.mem_cons, mem_nodesOf, or_and_right]
      refine or_congr ⟨?_, ?_⟩ ⟨?_, ?_⟩
      · rintro ⟨rfl, hc⟩
        exact ⟨rfl, hc⟩
      · rintro ⟨rfl, hc⟩
        exact ⟨rfl, hc⟩
      · rintro ⟨k, hk, hlink⟩
        obtain ⟨hp, hc⟩ := (ih k hk).mp hlink
        exact ⟨⟨k, hk, hp⟩, hc⟩
      · rintro ⟨⟨k, hk, hp⟩, hc⟩
        exact ⟨k, hk, (ih k hk).mpr ⟨hp, hc⟩⟩

/-- Every node but the first is at the end of one link. -/
theorem nodes_eq_links (n : ParsedNode) : n.nodes = n :: (links n).map Prod.snd := by
  induction n using ParsedNode.induction with
  | h n ih =>
      have hall : ∀ ns, (∀ c ∈ ns, c ∈ n.children) → (linksOf n ns).map Prod.snd = nodesOf ns := by
        intro ns
        induction ns with
        | nil => exact fun _ => rfl
        | cons c cs ihcs =>
            intro hmem
            obtain ⟨hc, hcs⟩ := List.forall_mem_cons.mp hmem
            rw [linksOf, nodesOf, ih c hc, List.map_append, ihcs hcs, List.map_cons]
      rw [n.nodes_eq, links_eq, hall n.children fun _ h => h]

/-- The node of the chart at an address, the root standing in where there is none. -/
def nodeOf (positions : String → Option (Position N)) (n : ParsedNode) (address : List ℕ) :
    ChartNode N :=
  chartNode positions ((n.descend address).getD n)

variable {positions : String → Option (Position N)} {n : ParsedNode}

theorem nodeOf_eq {address : List ℕ} {m : ParsedNode} (hm : n.descend address = some m) :
    nodeOf positions n address = chartNode positions m := by
  rw [nodeOf, hm, Option.getD_some]

theorem map_nodeOf_addresses (n : ParsedNode) :
    n.addresses.map (nodeOf positions n) = n.nodes.map (chartNode positions) := by
  have hmap := congrArg (List.map fun m? => chartNode positions (m?.getD n))
    (map_descend_addresses n)
  rwa [List.map_map, List.map_map] at hmap

/-- An edge leads from the node at an address to the one at an address that is longer by one. -/
theorem mem_edges {e : ChartEdge} :
    (e ∈ (links n).map fun e => chartEdge e.1.id e.2.id) ↔
      ∃ address i, (n.descend (address ++ [i])).isSome = true ∧
        e = chartEdge (nodeOf positions n address).id (nodeOf positions n (address ++ [i])).id := by
  rw [List.mem_map]
  constructor
  · rintro ⟨⟨m, c⟩, hlink, rfl⟩
    obtain ⟨hm, hc⟩ := mem_links.mp hlink
    obtain ⟨address, hm⟩ := mem_nodes_iff.mp hm
    obtain ⟨i, hi⟩ := List.mem_iff_getElem?.mp hc
    have hchild : n.descend (address ++ [i]) = some c := by
      rw [descend_concat, hm, Option.bind_some, hi]
    exact ⟨address, i, by rw [hchild]; rfl, by rw [nodeOf_eq hm, nodeOf_eq hchild]; rfl⟩
  · rintro ⟨address, i, hsome, rfl⟩
    obtain ⟨c, hchild⟩ := Option.isSome_iff_exists.mp hsome
    have hbind := hchild
    rw [descend_concat, Option.bind_eq_some_iff] at hbind
    obtain ⟨m, hm, hc⟩ := hbind
    refine ⟨(m, c), mem_links.mpr ⟨mem_nodes_iff.mpr ⟨address, hm⟩, List.mem_of_getElem? hc⟩, ?_⟩
    rw [nodeOf_eq hm, nodeOf_eq hchild]
    rfl

theorem edges_nodup (hids : (n.nodes.map ParsedNode.id).Nodup) :
    ((links n).map fun e => chartEdge e.1.id e.2.id).Nodup := by
  refine List.Nodup.of_map ChartEdge.target ?_
  rw [nodes_eq_links, List.map_cons, List.map_map, List.nodup_cons] at hids
  rw [List.map_map]
  exact hids.2

end Emission

/-! ## What is drawn -/

/-- The chart draws the spec: `node` gives the node of the chart for every address of the spec, and
`place` its position. -/
structure Draws {N : Type} [Add N] [Mul N] [Div N] [NatCast N] (spec : Val) (chart : Chart N)
    (node : List ℕ → ChartNode N) (place : List ℕ → Position N) : Prop where
  nodes : ∃ addresses : List (List ℕ), addresses.Nodup ∧
    (∀ address, address ∈ addresses ↔ (specAt spec address).isSome = true) ∧
    chart.nodes = addresses.map node
  ids : (chart.nodes.map ChartNode.id).Nodup
  labels : ∀ address v, specAt spec address = some v → ∃ name, (node address).label = labelOf v name
  edges : ∀ e, e ∈ chart.edges ↔ ∃ address i, (specAt spec (address ++ [i])).isSome = true ∧
    e = chartEdge (node address).id (node (address ++ [i])).id
  edges_nodup : chart.edges.Nodup
  placed : ∀ address, (specAt spec address).isSome = true →
    (node address).position = some (place address)
  middle : ∀ address v, specAt spec address = some v →
    ∀ k, (childValues (childrenField v)).length = k + 1 →
      (place address).x = middle (place (address ++ [0])).x (place (address ++ [k])).x
  rows : ∀ address, (specAt spec address).isSome = true → (place address).y = row N address.length
  apart : ∀ address address', (specAt spec address).isSome = true →
    (specAt spec address').isSome = true → place address = place address' → address = address'

section Drawing

variable {N : Type} [Preorder N] [Add N] [Mul N] [Div N] [NatCast N] [ChartNumber N]
  {n : ParsedNode}

theorem WalkedFrom.flagged {depth : ℕ} {spec : Val} (h : WalkedFrom depth spec n) : Flagged n := by
  intro m hm
  obtain ⟨address, hm⟩ := mem_nodes_iff.mp hm
  obtain ⟨v, -, hmade⟩ := h.spec hm
  exact hmade.fields.2.1

theorem WalkedFrom.deepens {depth : ℕ} {spec : Val} (h : WalkedFrom depth spec n) : Deepens n := by
  intro m hm c hc
  obtain ⟨address, hm⟩ := mem_nodes_iff.mp hm
  obtain ⟨v, -, hmade⟩ := h.spec hm
  obtain ⟨i, hi⟩ := List.mem_iff_getElem?.mp hc
  have hdown : m.descend [i] = some c := by
    rw [ParsedNode.descend, hi]
    rfl
  obtain ⟨w, -, hchild⟩ := hmade.spec hdown
  rw [hchild.fields.1, hmade.fields.1, List.length_singleton]

theorem WalkedFrom.isSome_iff {depth : ℕ} {spec : Val} (h : WalkedFrom depth spec n)
    (address : List ℕ) :
    (specAt spec address).isSome = true ↔ (n.descend address).isSome = true := by
  constructor
  · intro hv
    obtain ⟨v, hv⟩ := Option.isSome_iff_exists.mp hv
    obtain ⟨m, hm, -⟩ := h.node hv
    rw [hm]
    rfl
  · intro hm
    obtain ⟨m, hm⟩ := Option.isSome_iff_exists.mp hm
    obtain ⟨v, hv, -⟩ := h.spec hm
    rw [hv]
    rfl

/-- The position of the node of the chart at an address. -/
def placeOf (positions : String → Option (Position N)) (n : ParsedNode) (address : List ℕ) :
    Position N :=
  ((nodeOf positions n address).position).getD ⟨column N 0, row N 0⟩

section Placed

variable {spec : Val} {positions : String → Option (Position N)} {lo hi : ℕ}

theorem placeOf_eq (hplaced : Placed positions n lo hi) {address : List ℕ} {m : ParsedNode}
    (hm : n.descend address = some m) : positions m.id = some (placeOf positions n address) := by
  obtain ⟨p, hp, -⟩ := hplaced.within.2 m (mem_nodes_iff.mpr ⟨address, hm⟩)
  rw [placeOf, nodeOf_eq hm, chartNode, hp, Option.getD_some]

theorem placeOf_middle (hmade : WalkedFrom 0 spec n) (hplaced : Placed positions n lo hi)
    {address : List ℕ} {v : Val} (hv : specAt spec address = some v) {k : ℕ}
    (hk : (childValues (childrenField v)).length = k + 1) :
    (placeOf positions n address).x =
      middle (placeOf positions n (address ++ [0])).x (placeOf positions n (address ++ [k])).x := by
  obtain ⟨m, hm, hmadem⟩ := hmade.node hv
  have hlen : m.children.length = k + 1 := hmadem.children.length_eq.symm.trans hk
  have hfirst : m.children.head? = some m.children[0] := by rw [List.head?_eq_getElem?]; simp
  have hlast : m.children.getLast? = some m.children[k] := by
    have hsub : m.children.length - 1 = k := by omega
    rw [List.getLast?_eq_getElem?, hsub, List.getElem?_eq_getElem]
  have hchild : ∀ i (hi : i < m.children.length), n.descend (address ++ [i]) = some m.children[i] :=
    fun i hi => by rw [descend_concat, hm, Option.bind_some, List.getElem?_eq_getElem hi]
  obtain ⟨p, q, r, hp, hq, hr, hmiddle⟩ :=
    hplaced.in_middle (mem_nodes_iff.mpr ⟨address, hm⟩) hfirst hlast
  rw [placeOf_eq hplaced (hchild 0 (by omega))] at hp
  rw [placeOf_eq hplaced (hchild k (by omega))] at hq
  rw [placeOf_eq hplaced hm] at hr
  rw [Option.some.inj hp, Option.some.inj hq, Option.some.inj hr]
  exact hmiddle

theorem placeOf_injective (hplaced : Placed positions n lo hi) (hdeep : Deepens n)
    {address address' : List ℕ} (h : (n.descend address).isSome = true)
    (h' : (n.descend address').isSome = true)
    (heq : placeOf positions n address = placeOf positions n address') : address = address' := by
  obtain ⟨m, hm⟩ := Option.isSome_iff_exists.mp h
  obtain ⟨m', hm'⟩ := Option.isSome_iff_exists.mp h'
  have hmap := congrArg (List.map (Option.map fun m => positions m.id)) (map_descend_addresses n)
  rw [List.map_map, List.map_map] at hmap
  have hnodup := (hplaced.apart hdeep).map (Option.some_injective _)
  rw [List.map_map] at hnodup
  refine List.inj_on_of_nodup_map (hmap ▸ hnodup) (mem_addresses.mpr h) (mem_addresses.mpr h') ?_
  rw [Function.comp_apply, Function.comp_apply, hm, hm', Option.map_some, Option.map_some,
    placeOf_eq hplaced hm, placeOf_eq hplaced hm', heq]

/-- A placed parse of a spec draws it. -/
theorem draws_of_placed (hmade : WalkedFrom 0 spec n) (hids : (n.nodes.map ParsedNode.id).Nodup)
    (hplaced : Placed positions n lo hi) :
    Draws spec (emit positions none n) (nodeOf positions n) (placeOf positions n) := by
  rw [emit_eq]
  constructor
  · exact ⟨n.addresses, addresses_nodup n, fun address => by rw [mem_addresses, hmade.isSome_iff],
      (map_nodeOf_addresses n).symm⟩
  · rw [List.map_map]
    exact hids
  · intro address v hv
    obtain ⟨m, hm, hmadem⟩ := hmade.node hv
    rw [nodeOf_eq hm]
    exact hmadem.fields.2.2
  · intro e
    simp only [hmade.isSome_iff]
    exact mem_edges
  · exact edges_nodup hids
  · intro address hsome
    obtain ⟨m, hm⟩ := Option.isSome_iff_exists.mp ((hmade.isSome_iff address).mp hsome)
    rw [nodeOf_eq hm]
    exact placeOf_eq hplaced hm
  · exact fun address v hv k hk => placeOf_middle hmade hplaced hv hk
  · intro address hsome
    obtain ⟨v, hv⟩ := Option.isSome_iff_exists.mp hsome
    obtain ⟨m, hm, hmadem⟩ := hmade.node hv
    obtain ⟨p, hp, -, -, hy⟩ := hplaced.within.2 m (mem_nodes_iff.mpr ⟨address, hm⟩)
    rw [placeOf_eq hplaced hm] at hp
    rw [Option.some.inj hp, hy, hmadem.fields.1, Nat.zero_add]
  · intro address address' h h'
    exact placeOf_injective hplaced hmade.deepens ((hmade.isSome_iff _).mp h)
      ((hmade.isSome_iff _).mp h')

end Placed

/-- **The chart layout is faithful and overlap-free.** -/
theorem layout_draws (spec : Val) (rootName : String) :
    ∃ (chart : Chart N) (node : List ℕ → ChartNode N) (place : List ℕ → Position N),
      layout (parseHfsmSpec spec rootName) = some chart ∧ Draws spec chart node place := by
  have hmade : WalkedFrom 0 spec (parseHfsmSpec spec rootName) := ⟨0, "", rootName, rfl⟩
  have hids := walk_ids_nodup 0 spec 0 "" rootName
  obtain ⟨s, hvisit, -, hplaced⟩ := visit_placed (N := N) hmade.flagged hids ⟨0, fun _ => none⟩
  refine ⟨_, _, _, ?_, draws_of_placed hmade hids hplaced⟩
  rw [layout, hvisit]
  rfl

end Drawing

/-- A machine with two states. -/
theorem layout_draws_machine : ∃ (chart : Chart ℚ) (node : List ℕ → ChartNode ℚ)
    (place : List ℕ → Position ℚ),
    layout (parseHfsmSpec (.dict [(.str "children", .list [.dict [], .dict []])]) "SubJob") =
        some chart ∧
      Draws (.dict [(.str "children", .list [.dict [], .dict []])]) chart node place :=
  layout_draws _ _

end RobotTaskManager.WebGui
