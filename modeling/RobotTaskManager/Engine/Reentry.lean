import RobotTaskManager.Engine.Placement

set_option autoImplicit false

/-! # One invocation at a time

The states of a tree are objects: `execute` of one of them is not meant to be entered while an
earlier invocation of it is in progress. Within a thread this cannot happen, and neither between
threads that have begun with different regions. What can happen is that a `Parallel` is executed
again while a thread of its last execution is still in the state of a region, and the new thread of
that region enters the state as well. The condition `RegionFresh` excludes just that.
-/

namespace RobotTaskManager.Engine

open Interleaving

/-! ## The objects of a tree -/

def Tree.oid : Tree → Nat
  | .leaf l => l.oid
  | .machine m _ => m.oid
  | .parallel oid _ _ => oid
  | .retry r _ => r.oid

/-- The states that are placed directly in a state. -/
def Tree.kids : Tree → List Tree
  | .leaf _ => []
  | .machine _ children => children.map Child.state
  | .parallel _ first rest => (first :: rest).map Region.state
  | .retry _ inner => [inner]

mutual

/-- The objects of the tree, with their multiplicities. -/
def Tree.oids : Tree → List Nat
  | .leaf l => [l.oid]
  | .machine m children => m.oid :: childrenOids children
  | .parallel oid ⟨_, s, _⟩ rest => oid :: (s.oids ++ regionsOids rest)
  | .retry r inner => r.oid :: inner.oids

def childrenOids : List (Child Tree) → List Nat
  | [] => []
  | ⟨_, s, _⟩ :: rest => s.oids ++ childrenOids rest

def regionsOids : List (Region Tree) → List Nat
  | [] => []
  | ⟨_, s, _⟩ :: rest => s.oids ++ regionsOids rest

end

section Objects

variable {root q q' s s' k k' : Tree}

theorem childrenOids_eq (children : List (Child Tree)) :
    childrenOids children = (children.map Child.state).flatMap Tree.oids := by
  induction children with
  | nil => rfl
  | cons ch rest ih =>
      obtain ⟨n, s, m⟩ := ch
      rw [childrenOids, ih]
      rfl

theorem regionsOids_eq (regions : List (Region Tree)) :
    regionsOids regions = (regions.map Region.state).flatMap Tree.oids := by
  induction regions with
  | nil => rfl
  | cons r rest ih =>
      obtain ⟨n, s, m⟩ := r
      rw [regionsOids, ih]
      rfl

theorem oids_eq (t : Tree) : t.oids = t.oid :: t.kids.flatMap Tree.oids := by
  cases t with
  | leaf l => rfl
  | machine m children => rw [Tree.oids, childrenOids_eq]; rfl
  | parallel oid first rest =>
      obtain ⟨n, s, m⟩ := first
      rw [Tree.oids, regionsOids_eq]
      rfl
  | retry r inner => simp [Tree.oids, Tree.kids, Tree.oid]

theorem sizeOf_kid (h : k ∈ s.kids) : sizeOf k < sizeOf s := by
  cases s with
  | leaf l => cases h
  | machine m children =>
      obtain ⟨ch, hch, rfl⟩ := List.mem_map.mp h
      have hlt := List.sizeOf_lt_of_mem hch
      obtain ⟨n, s, tr⟩ := ch
      simp at hlt ⊢
      omega
  | parallel oid first rest =>
      obtain ⟨r, hr, rfl⟩ := List.mem_map.mp h
      have hlt := List.sizeOf_lt_of_mem hr
      obtain ⟨n, s, tr⟩ := r
      simp at hlt ⊢
      omega
  | retry r inner =>
      obtain rfl := List.mem_singleton.mp h
      simp

/-- Induction over a tree, through the states that are placed in a state. -/
theorem Tree.induction_on_kids {P : Tree → Prop} (h : ∀ t : Tree, (∀ k ∈ t.kids, P k) → P t)
    (t : Tree) : P t :=
  h t fun k _ => induction_on_kids h k
termination_by sizeOf t
decreasing_by exact sizeOf_kid (by assumption)

theorem Subtree.kid (h : Subtree root s) (hk : k ∈ s.kids) : Subtree root k := by
  cases s with
  | leaf l => cases hk
  | machine m children =>
      obtain ⟨ch, hch, rfl⟩ := List.mem_map.mp hk
      exact h.child hch
  | parallel oid first rest =>
      obtain ⟨r, hr, rfl⟩ := List.mem_map.mp hk
      exact h.region hr
  | retry r inner =>
      obtain rfl := List.mem_singleton.mp hk
      exact h.inner

theorem Subtree.parent (h : Subtree root s) : s = root ∨ ∃ q, Subtree root q ∧ s ∈ q.kids := by
  cases h with
  | self => exact Or.inl rfl
  | child hq hch => exact Or.inr ⟨_, hq, List.mem_map_of_mem hch⟩
  | region hq hr => exact Or.inr ⟨_, hq, List.mem_map_of_mem hr⟩
  | inner hq => exact Or.inr ⟨_, hq, List.mem_singleton_self _⟩

/-- A state of a tree is the root or a state of one of those placed in it. -/
theorem Subtree.descend (h : Subtree root s) : s = root ∨ ∃ k ∈ root.kids, Subtree k s := by
  have hstep : ∀ {q k : Tree}, (q = root ∨ ∃ k ∈ root.kids, Subtree k q) → k ∈ q.kids →
      k = root ∨ ∃ k' ∈ root.kids, Subtree k' k := by
    rintro q k (rfl | ⟨k', hk', hq⟩) hk
    · exact Or.inr ⟨k, hk, .self⟩
    · exact Or.inr ⟨k', hk', hq.kid hk⟩
  induction h with
  | self => exact Or.inl rfl
  | child _ hch ih => exact hstep ih (List.mem_map_of_mem hch)
  | region _ hr ih => exact hstep ih (List.mem_map_of_mem hr)
  | inner _ ih => exact hstep ih (List.mem_singleton_self _)

theorem Subtree.oid_mem (h : Subtree root s) : s.oid ∈ root.oids := by
  induction root using Tree.induction_on_kids with
  | h root ih =>
      rw [oids_eq]
      rcases h.descend with rfl | ⟨k, hk, hs⟩
      · exact List.mem_cons_self
      · exact List.mem_cons_of_mem _ (List.mem_flatMap.mpr ⟨k, hk, ih k hk hs⟩)

theorem Subtree.sizeOf_le (h : Subtree root s) : sizeOf s ≤ sizeOf root := by
  have hstep {q k : Tree} (hq : sizeOf q ≤ sizeOf root) (hk : k ∈ q.kids) :
      sizeOf k ≤ sizeOf root := by
    have := sizeOf_kid hk
    omega
  induction h with
  | self => exact le_rfl
  | child _ hch ih => exact hstep ih (List.mem_map_of_mem hch)
  | region _ hr ih => exact hstep ih (List.mem_map_of_mem hr)
  | inner _ ih => exact hstep ih (List.mem_singleton_self _)

/-- What is placed in a state is not the root. -/
theorem kid_ne_root (h : Subtree root q) (hk : k ∈ q.kids) : k ≠ root := by
  rintro rfl
  have := h.sizeOf_le
  have := sizeOf_kid hk
  omega

/-- Each object is placed once: the root is in none of the states placed in it, and two of these
have no object in common. -/
theorem nodup_kids (h : root.oids.Nodup) :
    (∀ k ∈ root.kids, root.oid ∉ k.oids) ∧ (∀ k ∈ root.kids, k.oids.Nodup) ∧
      ∀ k ∈ root.kids, ∀ k' ∈ root.kids, ∀ o ∈ k.oids, o ∈ k'.oids → k = k' := by
  rw [oids_eq, List.nodup_cons, List.nodup_flatMap] at h
  obtain ⟨hroot, hkids, hdisj⟩ := h
  refine ⟨fun k hk ho => hroot (List.mem_flatMap.mpr ⟨k, hk, ho⟩), hkids, ?_⟩
  intro k hk k' hk' o ho ho'
  by_contra hne
  have hsymm : Std.Symm (Function.onFun List.Disjoint Tree.oids) :=
    ⟨fun _ _ hd => List.Disjoint.symm hd⟩
  exact hdisj.forall hk hk' hne ho ho'

/-- The object determines the state. -/
theorem Subtree.unique (h : root.oids.Nodup) (hs : Subtree root s) (hs' : Subtree root s')
    (heq : s.oid = s'.oid) : s = s' := by
  induction root using Tree.induction_on_kids with
  | h root ih =>
      obtain ⟨hroot, hnodup, hdisj⟩ := nodup_kids h
      rcases hs.descend with rfl | ⟨k, hk, hsk⟩
      · rcases hs'.descend with rfl | ⟨k', hk', hsk'⟩
        · rfl
        · exact absurd (heq ▸ hsk'.oid_mem) (hroot k' hk')
      · rcases hs'.descend with rfl | ⟨k', hk', hsk'⟩
        · exact absurd (heq ▸ hsk.oid_mem) (hroot k hk)
        · obtain rfl := hdisj k hk k' hk' _ hsk.oid_mem (heq ▸ hsk'.oid_mem)
          exact ih k hk (hnodup k hk) hsk hsk'

/-- A state is placed in one state. -/
theorem parent_unique (h : root.oids.Nodup) (hq : Subtree root q) (hq' : Subtree root q')
    (hs : s ∈ q.kids) (hs' : s ∈ q'.kids) : q = q' := by
  induction root using Tree.induction_on_kids with
  | h root ih =>
      obtain ⟨-, hnodup, hdisj⟩ := nodup_kids h
      -- a state that is placed in the root is not placed further down as well
      have hdown : ∀ {k q : Tree}, k ∈ root.kids → Subtree k q → s ∈ q.kids → s ∉ root.kids := by
        intro k q hk hkq hsq hsroot
        obtain rfl := hdisj s hsroot k hk _ Subtree.self.oid_mem (hkq.kid hsq).oid_mem
        exact kid_ne_root hkq hsq rfl
      rcases hq.descend with rfl | ⟨k, hk, hkq⟩
      · rcases hq'.descend with rfl | ⟨k', hk', hkq'⟩
        · rfl
        · exact absurd hs (hdown hk' hkq' hs')
      · rcases hq'.descend with rfl | ⟨k', hk', hkq'⟩
        · exact absurd hs' (hdown hk hkq hs)
        · obtain rfl := hdisj k hk k' hk' _ (hkq.kid hs).oid_mem (hkq'.kid hs').oid_mem
          exact ih k hk (hnodup k hk) hkq hkq'

end Objects

/-! ## Invocations in progress -/

/-- The state whose `execute` a frame belongs to. -/
def Frame.state : Frame → Tree
  | .machine f _ _ => .machine f.info f.children
  | .retry f => .retry f.info f.inner

/-- The innermost `execute` of a thread with this control is that of `s`, and has been entered. -/
def Entered (root : Tree) (c : Config) (s : Tree) : Control → Prop
  | .leaf l => s = .leaf l
  | .loop f => s = .machine f.info f.children
  | .checked f => s = .machine f.info f.children
  | .par p _ => ∃ oid inst, c.pars[p]? = some inst ∧ s = .parallel oid inst.first inst.rest ∧
      Subtree root s
  | _ => False

/-- Thread `t` has entered `execute` of `s` and is still inside. -/
def InProgress (root : Tree) (c : Config) (t : Thread) (s : Tree) : Prop :=
  (∃ f ∈ t.stack, f.state = s) ∨ Entered root c s t.control

/-- No thread is inside `execute` of the object `oid`. -/
def Unentered (root : Tree) (c : Config) (oid : Nat) : Prop :=
  ∀ (j : Nat) (u : Thread) (s : Tree), c.threads[j]? = some u → InProgress root c u s →
    s.oid ≠ oid

/-- When `execute` of a state is entered, no earlier invocation of it is in progress. -/
def Fresh (root : Tree) (c : Config) : Act → Prop
  | .thread i => ∀ (t : Thread) (s : Tree), c.threads[i]? = some t → t.control = .exec s →
      Unentered root c s.oid
  | _ => True

/-- When the thread of a region begins with the region's state, no other thread is inside it. -/
def RegionFresh (root : Tree) (c : Config) : Act → Prop
  | .thread i => ∀ (t : Thread) (p : Nat) (r : Region Tree), c.threads[i]? = some t →
      t.base = .runner p r → t.stack = [] → t.control = .exec r.state →
      Unentered root c r.state.oid
  | _ => True

/-- What holds as long as every entry is fresh: an invocation in progress is that of one thread,
and thread 0 is the only one that was not started by a `Parallel`. -/
structure Single (root : Tree) (c : Config) : Prop where
  placed : Placed root c
  owner : ∀ (i j : Nat) (t u : Thread) (s : Tree), c.threads[i]? = some t →
    c.threads[j]? = some u → InProgress root c t s → InProgress root c u s → i = j
  caller : ∀ (i : Nat) (t : Thread) (k : Caller), c.threads[i]? = some t → t.base = .caller k →
    i = 0

section Progress

variable {root s : Tree} {c c' : Config} {i j : Nat} {t t' u : Thread} {a : Act} {eff : Effect}
  {es : List Event} {b : Base} {stack : List Frame}

/-- The state a thread is in is the one it has begun with, or is placed in that of its innermost
frame, which is no `Parallel`. -/
theorem Awaits.bottom_or_frame (h : Awaits root b stack s) :
    stack = [] ∨ ∃ f below, stack = f :: below ∧ s ∈ f.state.kids ∧
      Awaits root b below f.state := by
  cases h with
  | caller k => exact Or.inl rfl
  | runner hr => exact Or.inl rfl
  | machine hb hch => exact Or.inr ⟨_, _, rfl, List.mem_map_of_mem hch, hb⟩
  | retry hb => exact Or.inr ⟨_, _, rfl, List.mem_singleton_self _, hb⟩

/-- The frames below a frame lead up from its state, which is larger than the state that the
thread is in. -/
theorem Awaits.of_mem {f : Frame} (h : Awaits root b stack s) (hf : f ∈ stack) :
    (∃ below, below ⊆ stack ∧ Awaits root b below f.state) ∧ sizeOf s < sizeOf f.state := by
  induction stack generalizing s with
  | nil => cases hf
  | cons g below ih =>
      obtain ⟨g', below', heq, hkid, hb⟩ := h.bottom_or_frame.resolve_left (by simp)
      obtain ⟨rfl, rfl⟩ := List.cons.inj heq
      have hlt := sizeOf_kid hkid
      rcases List.mem_cons.mp hf with rfl | hf
      · exact ⟨⟨below, List.subset_cons_self _ _, hb⟩, hlt⟩
      · obtain ⟨⟨below', hsub, hb'⟩, hlt'⟩ := ih hb hf
        exact ⟨⟨below', fun x hx => List.mem_cons_of_mem _ (hsub hx), hb'⟩, by omega⟩

/-- Two `Parallel`s of the tree with the same regions are the same. -/
theorem parallel_unique (hroot : root.oids.Nodup) {oid oid' : Nat} {first : Region Tree}
    {rest : List (Region Tree)} (h : Subtree root (.parallel oid first rest))
    (h' : Subtree root (.parallel oid' first rest)) : oid = oid' := by
  have hfirst (n : Nat) : first.state ∈ (Tree.parallel n first rest).kids :=
    List.mem_map_of_mem List.mem_cons_self
  cases parent_unique hroot h h' (hfirst oid) (hfirst oid')
  rfl

theorem StaysIn.eq_of_entered (hroot : root.oids.Nodup) {s₀ : Tree} {k : Control}
    (h : StaysIn c s₀ k) (hs₀ : Subtree root s₀) (he : Entered root c s k) : s₀ = s := by
  cases k with
  | leaf l => exact h.trans he.symm
  | loop f => exact h.trans he.symm
  | checked f => exact h.trans he.symm
  | par p phase =>
      obtain ⟨oid, inst, hp, rfl, -⟩ := h
      obtain ⟨oid', inst', hp', rfl, hsub⟩ := he
      obtain rfl := Option.some.inj (hp.symm.trans hp')
      rw [parallel_unique hroot hs₀ hsub]
  | _ => exact he.elim

/-- From an invocation in progress, frames of the thread lead up to where it has begun. -/
theorem InProgress.awaits (hroot : root.oids.Nodup) (hplaced : Placed root c)
    (hj : c.threads[j]? = some u) (h : InProgress root c u s) :
    ∃ below, below ⊆ u.stack ∧ Awaits root u.base below s := by
  obtain ⟨s₀, haw, hctl⟩ := hplaced.thread j u hj
  rcases h with ⟨f, hf, rfl⟩ | h
  · exact (haw.of_mem hf).1
  · have heq : s₀ = s := hctl.eq_of_entered hroot haw.subtree h
    exact ⟨u.stack, List.Subset.refl _, heq ▸ haw⟩

theorem InProgress.subtree (hroot : root.oids.Nodup) (hplaced : Placed root c)
    (hj : c.threads[j]? = some u) (h : InProgress root c u s) : Subtree root s := by
  obtain ⟨below, -, haw⟩ := h.awaits hroot hplaced hj
  exact haw.subtree

/-- A thread that is about to enter a state is not inside it. -/
theorem not_inProgress_of_exec (hplaced : Placed root c) (hi : c.threads[i]? = some t)
    (hc : t.control = .exec s) : ¬ InProgress root c t s := by
  obtain ⟨s₀, haw, hctl⟩ := hplaced.thread i t hi
  rw [hc] at hctl
  obtain rfl := hctl
  rintro (⟨f, hf, rfl⟩ | h)
  · have := (haw.of_mem hf).2
    omega
  · rw [hc] at h
    exact h

/-! ## The condition is exact -/

/-- Where an invocation in progress comes from: its thread has begun with the state, or the state
is placed in that of a frame of the thread. -/
theorem InProgress.cases_bottom (hroot : root.oids.Nodup) (hplaced : Placed root c)
    (hj : c.threads[j]? = some u) (h : InProgress root c u s) :
    ((∃ k, u.base = .caller k) ∧ s = root) ∨
    (∃ oid first rest, Subtree root (.parallel oid first rest) ∧
      s ∈ (Tree.parallel oid first rest).kids) ∨
    ∃ f ∈ u.stack, s ∈ f.state.kids := by
  obtain ⟨below, hbelow, haw⟩ := h.awaits hroot hplaced hj
  rcases haw.bottom_or_frame with rfl | ⟨f, rest, rfl, hkid, -⟩
  · cases hb : u.base with
    | caller k =>
        rw [hb] at haw
        exact Or.inl ⟨⟨k, rfl⟩, haw.of_caller⟩
    | runner p r =>
        rw [hb] at haw
        obtain rfl := haw.of_runner
        obtain ⟨inst, hp, hr⟩ := hplaced.runner j u p r hj hb
        obtain ⟨oid, hsub⟩ := hplaced.par p inst hp
        exact Or.inr (Or.inl ⟨oid, inst.first, inst.rest, hsub, List.mem_map_of_mem hr⟩)
  · exact Or.inr (Or.inr ⟨f, hbelow List.mem_cons_self, hkid⟩)

/-- A state that is called from within a thread is entered by no other. -/
theorem Single.unentered_of_frame (hroot : root.oids.Nodup) (h : Single root c)
    (hi : c.threads[i]? = some t) (hc : t.control = .exec s) (hst : t.stack ≠ []) :
    Unentered root c s.oid := by
  intro j u s' hj hprog heq
  obtain ⟨s₀, haw, hctl⟩ := h.placed.thread i t hi
  rw [hc] at hctl
  obtain rfl := hctl
  obtain rfl := (hprog.subtree hroot h.placed hj).unique hroot haw.subtree heq
  obtain ⟨f, below, hstack, hkid, hbelow⟩ := haw.bottom_or_frame.resolve_left hst
  have hf : f ∈ t.stack := hstack ▸ List.mem_cons_self
  rcases hprog.cases_bottom hroot h.placed hj with
    ⟨-, rfl⟩ | ⟨oid, first, rest, hsub, hkid'⟩ | ⟨g, hg, hkid'⟩
  · exact kid_ne_root hbelow.subtree hkid rfl
  -- a state of a region is not placed in a frame's state as well
  · have hpar := parent_unique hroot hbelow.subtree hsub hkid hkid'
    cases f <;> cases hpar
  · obtain ⟨⟨_, -, hg'⟩, -⟩ := (h.placed.thread j u hj).choose_spec.1.of_mem hg
    have hfg : f.state = g.state :=
      parent_unique hroot hbelow.subtree hg'.subtree hkid hkid'
    have hij : i = j :=
      h.owner i j t u f.state hi hj (Or.inl ⟨f, hf, rfl⟩) (Or.inl ⟨g, hg, hfg.symm⟩)
    subst hij
    obtain rfl := Option.some.inj (hi.symm.trans hj)
    exact not_inProgress_of_exec h.placed hi hc hprog

/-- The root is entered once. -/
theorem Single.unentered_of_caller (hroot : root.oids.Nodup) (h : Single root c) {k : Caller}
    (hi : c.threads[i]? = some t) (hc : t.control = .exec s) (hst : t.stack = [])
    (hb : t.base = .caller k) : Unentered root c s.oid := by
  intro j u s' hj hprog heq
  obtain ⟨s₀, haw, hctl⟩ := h.placed.thread i t hi
  rw [hc] at hctl
  obtain rfl := hctl
  obtain rfl := (hprog.subtree hroot h.placed hj).unique hroot haw.subtree heq
  rw [hst, hb] at haw
  obtain rfl := haw.of_caller
  rcases hprog.cases_bottom hroot h.placed hj with
    ⟨⟨k', hb'⟩, -⟩ | ⟨oid, first, rest, hsub, hkid⟩ | ⟨g, hg, hkid⟩
  · obtain rfl := h.caller i t k hi hb
    obtain rfl := h.caller j u k' hj hb'
    obtain rfl := Option.some.inj (hi.symm.trans hj)
    exact not_inProgress_of_exec h.placed hi hc hprog
  · exact kid_ne_root hsub hkid rfl
  · obtain ⟨⟨_, -, hg'⟩, -⟩ := (h.placed.thread j u hj).choose_spec.1.of_mem hg
    exact kid_ne_root hg'.subtree hkid rfl

theorem Single.fresh_iff (hroot : root.oids.Nodup) (h : Single root c) (a : Act) :
    Fresh root c a ↔ RegionFresh root c a := by
  cases a with
  | leaf i b => exact Iff.rfl
  | request tok => exact Iff.rfl
  | thread i =>
      constructor
      · intro hfresh t p r hi _ _ hc
        exact hfresh t r.state hi hc
      · intro hfresh t s hi hc
        by_cases hst : t.stack = []
        · cases hb : t.base with
          | caller k => exact h.unentered_of_caller hroot hi hc hst hb
          | runner p r =>
              obtain ⟨s₀, haw, hctl⟩ := h.placed.thread i t hi
              rw [hc] at hctl
              obtain rfl := hctl
              rw [hst, hb] at haw
              obtain rfl := haw.of_runner
              exact hfresh t p r hi hb hst hc
        · exact h.unentered_of_frame hroot hi hc hst

/-! ## Fresh entries keep invocations apart -/

/-- The executions of `Parallel` that a thread is inside were there before the step. -/
theorem Entered.before {s₀ : Tree} {k : Control} (hctl : StaysIn c s₀ k)
    (h : Entered root (c.commit i t' eff) s k) : Entered root c s k := by
  cases k with
  | par p phase =>
      obtain ⟨-, inst₀, hp₀, -, -⟩ := hctl
      obtain ⟨oid, inst, hp, rfl, hsub⟩ := h
      obtain ⟨inst', hp', hfirst, hrest⟩ := (Later.commit c i t' eff).pars p inst₀ hp₀
      obtain rfl := Option.some.inj (hp.symm.trans hp')
      rw [hfirst, hrest] at hsub ⊢
      exact ⟨oid, inst₀, hp₀, rfl, hsub⟩
  | _ => exact h

theorem InProgress.before (hplaced : Placed root c) (hj : c.threads[j]? = some u)
    (h : InProgress root (c.commit i t' eff) u s) : InProgress root c u s := by
  obtain ⟨s₀, -, hctl⟩ := hplaced.thread j u hj
  exact h.imp_right (Entered.before hctl)

theorem ThreadStep.frames (hs : ThreadStep c i t a t' eff es) {f : Frame} (hf : f ∈ t'.stack) :
    InProgress root c t f.state ∨ (a = .thread i ∧ t.control = .exec f.state) := by
  have hkeep {rest : List Frame} {g : Frame} (hst : t.stack = g :: rest) (hf : f ∈ rest) :
      InProgress root c t f.state :=
    Or.inl ⟨f, hst ▸ List.mem_cons_of_mem g hf, rfl⟩
  cases hs with
  | execRetry hc =>
      rcases List.mem_cons.mp hf with rfl | hf
      · exact Or.inr ⟨rfl, hc⟩
      · exact Or.inl (Or.inl ⟨f, hf, rfl⟩)
  | startChild hc hch =>
      rcases List.mem_cons.mp hf with rfl | hf
      · refine Or.inl (Or.inr ?_)
        rw [hc]
        rfl
      · exact Or.inl (Or.inl ⟨f, hf, rfl⟩)
  | childReturned hc hst => exact Or.inl (hkeep hst hf)
  | childRaised hc hst => exact Or.inl (hkeep hst hf)
  -- the frame of the decorator has counted its attempt
  | @retryAgain g rest hc hst ha =>
      rcases List.mem_cons.mp hf with rfl | hf
      · exact Or.inl (Or.inl ⟨.retry g, hst ▸ List.mem_cons_self, rfl⟩)
      · exact Or.inl (hkeep hst hf)
  | retryOver hc hst hn => exact Or.inl (hkeep hst hf)
  | _ => exact Or.inl (Or.inl ⟨f, hf, rfl⟩)

/-- A step of a thread brings no invocation into progress but the one it enters. -/
theorem ThreadStep.inProgress (hroot : root.oids.Nodup) (hplaced : Placed root c)
    (hi : c.threads[i]? = some t) (hs : ThreadStep c i t a t' eff es)
    (h : InProgress root (c.commit i t' eff) t' s) :
    InProgress root c t s ∨ (a = .thread i ∧ t.control = .exec s) := by
  obtain ⟨s₀, haw, hctl⟩ := hplaced.thread i t hi
  rcases h with ⟨f, hf, rfl⟩ | h
  · exact hs.frames hf
  have hcur {k : Control} (hc : t.control = k) : StaysIn c s₀ k := hc ▸ hctl
  have hstay {k : Control} (hc : t.control = k) (he : Entered root c s k) :
      InProgress root c t s := Or.inr (hc ▸ he)
  -- within an execution of a `Parallel`
  have hpar {p : Nat} {phase phase' : ParPhase} (hc : t.control = .par p phase)
      (he : Entered root (c.commit i t' eff) s (.par p phase')) : InProgress root c t s :=
    hstay hc (Entered.before (k := .par p phase) (hcur hc) he)
  cases hs with
  | execLeaf hc => exact Or.inr ⟨rfl, by rw [hc, h]⟩
  | execMachine hc hm => exact Or.inr ⟨rfl, by rw [hc, h]⟩
  | @execParallel oid first rest hc =>
      obtain rfl := hcur hc
      obtain ⟨oid', inst, hp, rfl, hsub⟩ := h
      have hinst : inst = ⟨first, rest, [], none, []⟩ := by
        simpa [Config.commit] using hp.symm
      subst hinst
      rw [parallel_unique hroot hsub haw.subtree]
      exact Or.inr ⟨rfl, hc⟩
  | leafPoll hc => exact Or.inl (Or.inr h)
  | checkPassed hc hv hq => exact Or.inl (hstay hc h)
  | @childReturned f ch parentPath o rest hc hst =>
      rw [hst] at haw
      have heq := (afterChild_staysIn f ch o).eq_of_entered hroot haw.of_machine.1.subtree h
      exact Or.inl (Or.inl ⟨.machine f ch parentPath, hst ▸ List.mem_cons_self, heq⟩)
  | retryOver hc hst hn =>
      rw [show _ = Control.done _ from hc] at h
      exact h.elim
  | startRegion hc hp => exact Or.inl (hpar hc h)
  | allStarted hc hp => exact Or.inl (hpar hc h)
  | pollNone hc hp hw => exact Or.inl (hpar hc h)
  | allDead hc hp hd => exact Or.inl (hpar hc h)
  | someAlive hc hp hd => exact Or.inl (hpar hc h)
  | pollAgain hc hp hq => exact Or.inl (hpar hc h)
  | _ => exact h.elim

/-- The thread of a region has not entered anything when it is started. -/
theorem not_inProgress_regionThread {p : Nat} {r : Region Tree} :
    ¬ InProgress root c (regionThread p r) s := by
  rintro (⟨f, hf, -⟩ | h)
  · cases hf
  · exact h

theorem Single.step (hroot : root.oids.Nodup) (h : Single root c) (hP : Fresh root c a)
    (hst : Engine.step c a = some (c', es)) : Single root c' := by
  have hplaced := h.placed.step hst
  rcases step_cases hst with ⟨tok, rfl, rfl, rfl⟩ | ⟨i, t, t', eff, hi, hs, rfl⟩
  · exact ⟨hplaced, h.owner, h.caller⟩
  -- an invocation of thread `i` was in progress before, or is of an object that no other is in
  have hother {j : Nat} {u : Thread} {s : Tree} (hj : c.threads[j]? = some u)
      (ht : InProgress root (c.commit i t' eff) t' s)
      (hu : InProgress root (c.commit i t' eff) u s) : i = j := by
    have hu' : InProgress root c u s := hu.before h.placed hj
    rcases hs.inProgress hroot h.placed hi ht with ht | ⟨rfl, hc⟩
    · exact h.owner i j t u s hi hj ht hu'
    · exact absurd rfl (hP t s hi hc j u s hj hu')
  refine ⟨hplaced, fun j l u v s hj hl hu hv => ?_, fun j u k hj hb => ?_⟩
  · rcases commit_threads_cases hi hj with ⟨rfl, rfl⟩ | ⟨-, hj'⟩ | ⟨p, r, rfl, -, rfl⟩
    · rcases commit_threads_cases hi hl with ⟨rfl, rfl⟩ | ⟨-, hl'⟩ | ⟨p, r, rfl, -, rfl⟩
      · rfl
      · exact hother hl' hu hv
      · exact absurd hv not_inProgress_regionThread
    · rcases commit_threads_cases hi hl with ⟨rfl, rfl⟩ | ⟨-, hl'⟩ | ⟨p, r, rfl, -, rfl⟩
      · exact (hother hj' hv hu).symm
      · exact h.owner j l u v s hj' hl' (hu.before h.placed hj') (hv.before h.placed hl')
      · exact absurd hv not_inProgress_regionThread
    · exact absurd hu not_inProgress_regionThread
  · rcases commit_threads_cases hi hj with ⟨rfl, rfl⟩ | ⟨-, hj'⟩ | ⟨p, r, rfl, -, rfl⟩
    · exact h.caller j t k hi (hs.base_eq.symm.trans hb)
    · exact h.caller j u k hj' hb
    · cases hb

theorem Single.start (root : Tree) (k : Caller) (ctx : Ctx) :
    Single root (.start root k ctx) := by
  have hzero {i : Nat} {t : Thread} (hi : (Config.start root k ctx).threads[i]? = some t) :
      i = 0 := by
    have hlt : i < 1 := (List.getElem?_eq_some_iff.mp hi).choose
    omega
  exact ⟨Placed.start root k ctx, fun i j t u s hi hj _ _ => (hzero hi).trans (hzero hj).symm,
    fun i t _ hi _ => hzero hi⟩

end Progress

/-- **One invocation at a time.** In a tree in which every object is placed once, each `execute`
that a schedule enters has no earlier invocation of the same object in progress exactly when the
threads of the regions begin fresh. -/
theorem one_invocation_iff {root : Tree} (hroot : root.oids.Nodup) (k : Caller) (ctx : Ctx)
    (as : List Act) : Obeys step (Fresh root) (.start root k ctx) as ↔
      Obeys step (RegionFresh root) (.start root k ctx) as := by
  apply obeys_congr (J := Single root)
  · intro c a c' es hinv hP hst
    exact hinv.step hroot ((hinv.fresh_iff hroot a).mpr hP) hst
  · intro c a c' es hinv _
    exact hinv.fresh_iff hroot a
  · exact Single.start root k ctx

/-! ## A `Parallel` that is tried again -/

/-- A `Parallel` with a fast and a slow region, tried again on the outcome of the fast one. -/
def retriedParallel : Tree :=
  .retry ⟨0, 3, "again"⟩ (.parallel 1 ⟨"fast", .leaf ⟨2, "Fast", ["done"]⟩, [("done", "again")]⟩
    [⟨"slow", .leaf ⟨3, "Slow", ["done"]⟩, [("done", "over")]⟩])

/-- The fast region wins while the slow one executes. The `Parallel` is executed again, and starts
a second thread for the slow region. -/
def slowLoser : List Act :=
  [.thread 0, .thread 0, .thread 0, .thread 0, .thread 0, .thread 2, .thread 1,
    .leaf 1 (.finish (.ok "done")), .thread 1, .thread 0, .thread 0, .thread 0, .thread 0, .thread 0]

theorem one_invocation_iff_retriedParallel :
    Obeys step (Fresh retriedParallel) (.start retriedParallel .execute Ctx.empty) slowLoser ↔
      Obeys step (RegionFresh retriedParallel) (.start retriedParallel .execute Ctx.empty)
        slowLoser :=
  one_invocation_iff (by decide) .execute Ctx.empty slowLoser

/-- The second thread of the slow region enters its state while the first is in it. -/
theorem not_always_one_invocation : ¬ ∀ (root : Tree) (k : Caller) (ctx : Ctx) (as : List Act),
    root.oids.Nodup → Obeys step (Fresh root) (.start root k ctx) as := by
  intro h
  have hobeys := h retriedParallel .execute Ctx.empty (slowLoser ++ [.thread 4]) (by decide)
  have hrun : (runActs step anyStep (.start retriedParallel .execute Ctx.empty)
      slowLoser).isSome := by decide
  have hfresh := hobeys.last (Option.some_get hrun).symm rfl
  exact hfresh _ (.leaf ⟨3, "Slow", ["done"]⟩) rfl rfl 2 _ (.leaf ⟨3, "Slow", ["done"]⟩) rfl
    (Or.inr rfl) rfl

end RobotTaskManager.Engine
